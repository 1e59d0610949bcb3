import Kmi.Timer.Insert

/-! The timer tree over whole runs. -/

namespace Kmi.Timer

open BinaryTree Kmi.Library.PointerTree Kmi.SpTree Kmi.Mem Kmi.Regions

variable {w fuel : ℕ} {oneShot : Bool} {s s' : Timers}

section Fuel

variable {fuel' : ℕ}

lemma place_mono {cids : ℕ → ℤ} {m : Links ℕ} {ti : ℕ} {n p : Option ℕ} {cid : ℤ} {d : SpDir}
    {r : Option ℕ × SpDir × ℤ} (hf : fuel ≤ fuel') (hr : place w cids m ti fuel n cid p d = some r) :
    place w cids m ti fuel' n cid p d = some r := by
  induction fuel generalizing fuel' n cid p d with
  | zero =>
    cases n with
    | none => cases fuel' <;> exact hr
    | some n => simp [place] at hr
  | succ fuel ih =>
    cases n with
    | none => cases fuel' <;> exact hr
    | some n =>
      obtain ⟨fuel', rfl⟩ : ∃ k, fuel' = k + 1 := ⟨fuel' - 1, by omega⟩
      have hgo : ∀ o : Option ℤ, (o.bind fun cid =>
          if cid < (if n = ti then cid else cids n) then
            place w cids m ti fuel (m.left n) cid (some n) .left
          else place w cids m ti fuel (m.right n) cid (some n) .right) = some r →
          (o.bind fun cid =>
          if cid < (if n = ti then cid else cids n) then
            place w cids m ti fuel' (m.left n) cid (some n) .left
          else place w cids m ti fuel' (m.right n) cid (some n) .right) = some r := by
        intro o ho
        obtain ⟨cid', hcid, ho⟩ := Option.bind_eq_some_iff.mp ho
        refine Option.bind_eq_some_iff.mpr ⟨cid', hcid, ?_⟩
        split_ifs at ho ⊢
        all_goals exact ih (by omega) ho
      rw [place] at hr ⊢
      by_cases he : cid = if n = ti then cid else cids n
      · rw [if_pos he] at hr ⊢
        exact hgo _ hr
      · rw [if_neg he] at hr ⊢
        exact hgo _ hr

lemma newAbsTimer_mono {ti tid : ℕ} {fresh : Bool} {ticks : Ticks} {r : Timers × ℤ}
    (hf : fuel ≤ fuel') (hr : newAbsTimer w fuel s ti fresh tid ticks = some r) :
    newAbsTimer w fuel' s ti fresh tid ticks = some r := by
  simp only [newAbsTimer, newTimer, insertTimer, Option.bind_eq_bind, Option.bind_eq_some_iff]
    at hr ⊢
  obtain ⟨x, ⟨s₁, hs₁, y, hy, z, hz, hx⟩, hr⟩ := hr
  exact ⟨x, ⟨s₁, hs₁, y, place_mono hf hy, z, spInsert_mono hf hz, hx⟩, hr⟩

lemma findTimer_mono {cid : ℤ} {n : Option ℕ} {r : Option ℕ} (hf : fuel ≤ fuel')
    (hr : findTimer s cid fuel n = some r) : findTimer s cid fuel' n = some r := by
  induction fuel generalizing fuel' n with
  | zero =>
    cases n with
    | none => cases fuel' <;> exact hr
    | some n => simp [findTimer] at hr
  | succ fuel ih =>
    cases n with
    | none => cases fuel' <;> exact hr
    | some n =>
      obtain ⟨fuel', rfl⟩ : ∃ k, fuel' = k + 1 := ⟨fuel' - 1, by omega⟩
      rw [findTimer] at hr ⊢
      split_ifs at hr ⊢
      · exact hr
      all_goals exact ih (by omega) hr

lemma newestTimer_mono {n : ℕ} (hf : fuel ≤ fuel') (hr : newestTimer fuel s = some n) :
    newestTimer fuel' s = some n := by
  simp only [newestTimer, Option.bind_eq_bind, Option.bind_eq_some_iff] at hr ⊢
  obtain ⟨root, hroot, hr⟩ := hr
  exact ⟨root, hroot, spFirst_mono hf hr⟩

lemma removeTimer_mono {n : ℕ} (hf : fuel ≤ fuel') (hr : removeTimer fuel s n = some s') :
    removeTimer fuel' s n = some s' := by
  simp only [removeTimer, Option.bind_eq_bind, Option.bind_eq_some_iff] at hr ⊢
  obtain ⟨x, hx, hr⟩ := hr
  exact ⟨x, spRemove_mono hf hx, hr⟩

lemma step_mono {e : Event} (hf : fuel ≤ fuel') (hs : step w oneShot fuel s e = some s') :
    step w oneShot fuel' s e = some s' := by
  cases e with
  | newAbs ti fresh tid ticks =>
    simp only [step, Option.map_eq_some_iff] at hs ⊢
    obtain ⟨r, hr, he⟩ := hs
    exact ⟨r, newAbsTimer_mono hf hr, he⟩
  | newRel ti fresh tid ticks now =>
    simp only [step, Option.map_eq_some_iff] at hs ⊢
    obtain ⟨r, hr, he⟩ := hs
    exact ⟨r, newAbsTimer_mono hf hr, he⟩
  | free cid =>
    simp only [step, sysFreeTimer, Option.bind_eq_bind, Option.map_eq_some_iff,
      Option.bind_eq_some_iff] at hs ⊢
    obtain ⟨r, ⟨found, hfound, hr⟩, he⟩ := hs
    refine ⟨r, ⟨found, findTimer_mono hf hfound, ?_⟩, he⟩
    cases found with
    | none => exact hr
    | some n =>
      simp only [Option.bind_eq_some_iff] at hr ⊢
      obtain ⟨s₁, hs₁, hr⟩ := hr
      exact ⟨s₁, removeTimer_mono hf hs₁, hr⟩
  | handle =>
    simp only [step, handleTimer, Option.bind_eq_bind, Option.bind_eq_some_iff] at hs ⊢
    obtain ⟨r, ⟨n, hn, s₁, hs₁, hr⟩, he⟩ := hs
    exact ⟨r, ⟨n, newestTimer_mono hf hn, s₁, removeTimer_mono hf hs₁, hr⟩, he⟩

end Fuel

def Hinted (s : Timers) : Prop := ∀ x, 0 ≤ s.heap.hint x

lemma newAbsTimer_hinted {ti tid : ℕ} {fresh : Bool} {ticks : Ticks} {r : Timers × ℤ}
    (hh : Hinted s) (hr : newAbsTimer w fuel s ti fresh tid ticks = some r) : Hinted r.1 := by
  simp only [newAbsTimer, newTimer, insertTimer, getNode, Option.bind_eq_bind,
    Option.bind_eq_some_iff] at hr
  obtain ⟨x, ⟨s₁, hs₁, y, -, z, hz, hx⟩, hr⟩ := hr
  cases hr
  cases hx
  refine @spInsert_hints _ _ _ _ _ _ _ ?_ hz
  split at hs₁
  · cases hs₁
  cases hs₁
  intro v
  cases fresh with
  | false => exact hh v
  | true =>
    by_cases hv : v = ti
    · simp [clearNode, hv]
    · simpa [clearNode, hv] using hh v

lemma removeTimer_hinted {n : ℕ} (hh : Hinted s) (hr : removeTimer fuel s n = some s') :
    Hinted s' := by
  simp only [removeTimer, Option.bind_eq_bind, Option.bind_eq_some_iff] at hr
  obtain ⟨x, hx, hr⟩ := hr
  cases hr
  exact spRemove_hints hh hx

lemma removeTimer_frame {n : ℕ} (h : removeTimer fuel s n = some s') :
    s'.pending = s.pending.erase n ∧ s'.timer = s.timer ∧ s'.armed = s.armed := by
  simp only [removeTimer, Option.bind_eq_bind, Option.bind_eq_some_iff] at h
  obtain ⟨x, -, h⟩ := h
  cases h
  exact ⟨rfl, rfl, rfl⟩

lemma removeTimer_exact {n : ℕ} (hx : Exact s) (hn : n ∈ s.pending)
    (hf : s.pending.length < fuel) : ∃ s', removeTimer fuel s n = some s' ∧ Exact s' := by
  obtain ⟨t, hw, hperm, hsort⟩ := hx
  obtain ⟨root', h', t', hr, hw', ⟨ys, zs, h₁, h₂⟩, -⟩ := spRemove_spec hw (hperm.mem_iff.mpr hn)
    (by rw [hperm.length_eq]; exact hf)
  refine ⟨{ s with root := root', heap := h', pending := s.pending.erase n }, ?_, t', hw', ?_, ?_⟩
  · simp only [removeTimer, hr, Option.bind_eq_bind, Option.bind_some]
  · rw [h₁] at hperm
    have := (List.perm_middle.symm.trans hperm).erase n
    rwa [List.erase_cons_head, ← h₂] at this
  · rw [h₁] at hsort
    rw [h₂]
    exact List.Pairwise.sublist (by simp) hsort

def Apt (w : ℕ) (s : Timers) : Event → Prop
  | .newAbs ti fresh _ ticks => Fit w s ti fresh (idOf w ticks)
  | .newRel ti fresh _ ticks currentTicks => Fit w s ti fresh (idOf w (ticks + currentTicks))
  | _ => True

def Possible (s : Timers) : Event → Prop
  | .newAbs ti _ _ _ => ti ∉ s.pending
  | .newRel ti _ _ _ _ => ti ∉ s.pending
  | .free _ => True
  | .handle => s.pending ≠ []

lemma getNode_frame {s₀ : Timers} {ti : ℕ} {fresh : Bool} (h : getNode s ti fresh = some s₀) :
    ti ∉ s.pending ∧ s₀.pending = ti :: s.pending ∧ s₀.root = s.root ∧ s₀.timer = s.timer ∧
      ∀ x ≠ ti, SameAt s.heap.links s₀.heap.links x ∧ s₀.heap.hint x = s.heap.hint x := by
  rw [getNode] at h
  split_ifs at h with hti hfresh
  · cases h
    refine ⟨hti, rfl, rfl, rfl, fun x hx => ?_⟩
    simp [SameAt, clearNode, hx]
  · cases h
    exact ⟨hti, rfl, rfl, rfl, fun x _ => ⟨⟨rfl, rfl, rfl⟩, rfl⟩⟩

lemma getNode_wellFormed {s₀ : Timers} {ti : ℕ} {fresh : Bool} {t : BinaryTree ℕ}
    (h : getNode s ti fresh = some s₀) (hw : WellFormed s.root s.heap t)
    (hperm : (inorder t).Perm s.pending) : WellFormed s₀.root s₀.heap t := by
  obtain ⟨hti, -, hroot, -, hsame⟩ := getNode_frame h
  have hne : ∀ x ∈ inorder t, x ≠ ti := fun x hx he => hti (hperm.mem_iff.mp (he ▸ hx))
  rw [hroot]
  refine ⟨hw.rep.congr fun x hx => (hsame x (hne x hx)).1, hw.nodup, fun x hx => ?_⟩
  rw [(hsame x (hne x hx)).2]
  exact hw.hints x hx

lemma newAbsTimer_exact {ti tid : ℕ} {fresh : Bool} {ticks : Ticks} (hx : Exact s)
    (hh : Hinted s) (hti : ti ∉ s.pending) (hfit : Fit w s ti fresh (idOf w ticks))
    (hf : s.pending.length < fuel) :
    ∃ r, newAbsTimer w fuel s ti fresh tid ticks = some r ∧ Exact r.1 := by
  obtain ⟨t, hw, hperm, hsort⟩ := hx
  obtain ⟨s₁, hs₁⟩ : ∃ s₁, getNode s ti fresh = some s₁ := by
    rw [getNode, if_neg hti]
    exact ⟨_, rfl⟩
  obtain ⟨-, hpend, hroot, htimer, hsame⟩ := getNode_frame hs₁
  have hw₁ := getNode_wellFormed hs₁ hw hperm
  have hslot : s₁.heap.links.left ti = none ∧ s₁.heap.links.right ti = none ∧
      (s₁.root = none → s₁.heap.links.parent ti = none) ∧ 0 ≤ s₁.heap.hint ti := by
    rw [getNode, if_neg hti] at hs₁
    cases fresh with
    | false =>
      obtain ⟨hl, hr, hp⟩ := hfit.vacant rfl
      cases hs₁
      exact ⟨hl, hr, hp, hh ti⟩
    | true =>
      cases hs₁
      simp [clearNode]
  obtain ⟨s₀, hs₀⟩ : ∃ s₀ : Timers, s₀ = { s₁ with
    timer := Function.update s₁.timer ti ⟨tid, idOf w ticks, ticks⟩ } := ⟨_, rfl⟩
  have hne : ∀ x ∈ s.pending, x ≠ ti := fun x hx he => hti (he ▸ hx)
  have hcids : ∀ x ∈ s.pending, s₀.cids x = s.cids x := by
    intro x hx
    simp [hs₀, Timers.cids, hne x hx, htimer]
  have hsort₀ : Sorted s₀.cids (inorder t) := by
    refine List.Pairwise.imp_of_mem ?_ hsort
    intro a b ha hb hab
    rwa [hcids a (hperm.mem_iff.mp ha), hcids b (hperm.mem_iff.mp hb)]
  have hid : s₀.cids ti = idOf w ticks := by simp [hs₀, Timers.cids]
  have hsp : Spaced w s₀.cids s₀.heap.links s.pending (s₀.cids ti) := by
    rw [hid, hs₀]
    rw [hs₀] at hcids
    exact hfit.spaced.congr hcids fun x hx => (hsame x (hne x hx)).1.2.1
  obtain ⟨hl, hr, hp, hhint⟩ := hslot
  obtain ⟨r, hr, hx'⟩ := insertTimer_spec (by rw [hs₀]; exact hw₁) hperm hsort₀
    (by rw [hs₀]; exact hpend) hti (by rw [hs₀]; exact hl) (by rw [hs₀]; exact hr)
    (by rw [hs₀]; exact hp) (by rw [hs₀]; exact hhint) hsp hf
  refine ⟨({ r.1 with armed := some ticks }, r.2), ?_, hx'⟩
  simp only [newAbsTimer, newTimer, hs₁, Option.bind_eq_bind, Option.bind_some, ← hs₀, hr]

lemma findTimer_rep {cid : ℤ} {t : BinaryTree ℕ} {up n : Option ℕ}
    (ht : Rep s.heap.links up n t) (hf : (inorder t).length ≤ fuel) :
    ∃ r, findTimer s cid fuel n = some r ∧ ∀ y, r = some y → y ∈ inorder t := by
  induction t generalizing fuel up n with
  | nil =>
    obtain rfl : n = none := ht
    exact ⟨none, by rw [findTimer], by simp⟩
  | node a l r ihl ihr =>
    obtain ⟨rfl, -, hl, hr⟩ := ht
    simp only [inorder_node, List.length_append, List.length_cons] at hf
    cases fuel with
    | zero => omega
    | succ fuel =>
      rw [findTimer]
      split_ifs
      · exact ⟨some a, rfl, by simp⟩
      · obtain ⟨res, hres, hmem⟩ := ihl hl (by omega : (inorder l).length ≤ fuel)
        refine ⟨res, hres, fun y hy => ?_⟩
        simp [hmem y hy]
      · obtain ⟨res, hres, hmem⟩ := ihr hr (by omega : (inorder r).length ≤ fuel)
        refine ⟨res, hres, fun y hy => ?_⟩
        simp [hmem y hy]

lemma newestTimer_mem (hx : Exact s) (hne : s.pending ≠ []) (hf : s.pending.length ≤ fuel) :
    ∃ n, newestTimer fuel s = some n ∧ n ∈ s.pending := by
  obtain ⟨t, hw, hperm, -⟩ := hx
  cases t with
  | nil => exact absurd hperm.symm.eq_nil hne
  | node a l r =>
    obtain ⟨c, k, kr, he, hfirst⟩ := spFirst_spec a l r
    have hk : k ∈ inorder (node a l r) := by simp [he, inorder_plug]
    have hlen : c.length < fuel := by
      have := length_le_plug (leftSpine c) (node k nil kr)
      rw [← he, hperm.length_eq] at this
      simp only [leftSpine, List.length_map, inorder_node, List.length_append,
        List.length_cons] at this
      omega
    have hrep := hw.rep
    rw [hw.rep.1] at hrep
    refine ⟨k, ?_, hperm.mem_iff.mp hk⟩
    simp only [newestTimer, hw.rep.1, Option.bind_eq_bind, Option.bind_some]
    exact hfirst _ _ _ hrep hlen

lemma step_exact {e : Event} (hx : Exact s) (hh : Hinted s) (ha : Apt w s e) (hp : Possible s e)
    (hf : s.pending.length < fuel) :
    ∃ s', step w oneShot fuel s e = some s' ∧ Exact s' ∧ Hinted s' := by
  cases e with
  | newAbs ti fresh tid ticks =>
    obtain ⟨r, hr, hx'⟩ := @newAbsTimer_exact w fuel s ti tid fresh ticks hx hh hp ha hf
    exact ⟨r.1, by simp [step, hr], hx', newAbsTimer_hinted hh hr⟩
  | newRel ti fresh tid ticks now =>
    obtain ⟨r, hr, hx'⟩ := @newAbsTimer_exact w fuel s ti tid fresh (ticks + now) hx hh hp ha hf
    exact ⟨r.1, by simp [step, newRelTimer, hr], hx', newAbsTimer_hinted hh hr⟩
  | free cid =>
    have hx₀ := hx
    obtain ⟨t, hw, hperm, -⟩ := hx
    obtain ⟨found, hfound, hmem⟩ := @findTimer_rep fuel s cid t none s.root hw.rep
      (by rw [hperm.length_eq]; omega)
    cases found with
    | none => exact ⟨s, by simp [step, sysFreeTimer, hfound], hx₀, hh⟩
    | some n =>
      obtain ⟨s', hs', hx'⟩ := removeTimer_exact hx₀ (hperm.mem_iff.mp (hmem n rfl)) hf
      exact ⟨s', by simp [step, sysFreeTimer, hfound, hs'], hx', removeTimer_hinted hh hs'⟩
  | handle =>
    obtain ⟨n, hn, hmem⟩ := newestTimer_mem hx hp hf.le
    obtain ⟨s', hs', hx'⟩ := removeTimer_exact hx hmem hf
    have hh' := removeTimer_hinted hh hs'
    refine ⟨if oneShot then { s' with armed := none } else s', ?_, ?_, ?_⟩
    · simp [step, handleTimer, hn, hs']
    · cases oneShot <;> exact hx'
    · cases oneShot <;> exact hh'

lemma Possible.of_step {e : Event} (h : step w oneShot fuel s e = some s') (hx : Exact s) :
    Possible s e := by
  cases e with
  | newAbs ti fresh tid ticks =>
    intro hti
    simp [step, newAbsTimer, newTimer, getNode, hti] at h
  | newRel ti fresh tid ticks now =>
    intro hti
    simp [step, newRelTimer, newAbsTimer, newTimer, getNode, hti] at h
  | free cid => trivial
  | handle =>
    intro hnil
    obtain ⟨t, hw, hperm, -⟩ := hx
    rw [hnil] at hperm
    cases t with
    | nil =>
      have hroot : s.root = none := hw.rep
      simp [step, handleTimer, newestTimer, hroot] at h
    | node a l r => simpa using hperm.length_eq

lemma Reached.exact (h : Reached w oneShot (Apt w) s) : Exact s ∧ Hinted s := by
  induction h with
  | initial timer =>
    exact ⟨⟨nil, ⟨rfl, by simp, by simp⟩, List.Perm.refl [], List.Pairwise.nil⟩, fun _ => le_rfl⟩
  | @step s s' e fuel _ ha hs ih =>
    obtain ⟨hx, hh⟩ := ih
    obtain ⟨s₁, hs₁, hx₁, hh₁⟩ := @step_exact w _ oneShot s e hx hh ha (.of_step hs hx)
      (lt_max_of_lt_right (Nat.lt_succ_self _) : s.pending.length < max fuel (s.pending.length + 1))
    rw [step_mono (le_max_left _ _) hs] at hs₁
    cases hs₁
    exact ⟨hx₁, hh₁⟩

/-- The timer tree is exact where every new slot is free of links and no id is taken above
the walk; then no step gets stuck either. -/
theorem timer_tree_exact (h : Reached w oneShot (Apt w) s) :
    Exact s ∧ ∀ e, Apt w s e → Possible s e →
      ∃ fuel s', step w oneShot fuel s e = some s' ∧ Exact s' := by
  obtain ⟨hx, hh⟩ := h.exact
  refine ⟨hx, fun e ha hp => ?_⟩
  obtain ⟨s', hs', hx', -⟩ := @step_exact w _ oneShot s e hx hh ha hp (Nat.lt_succ_self _)
  exact ⟨_, s', hs', hx'⟩

lemma apt_initial {timer : ℕ → TimerData} {ti tid : ℕ} {ticks : Ticks} :
    Apt w (initial timer) (.newAbs ti true tid ticks) := by
  refine ⟨by simp, ⟨?_, ?_⟩⟩ <;> simp [initial]

theorem timer_tree_exact_one_pending :
    ∃ s, Reached 64 false (Apt 64) s ∧ s.pending = [1] ∧ Exact s ∧ ∀ e, Apt 64 s e →
      Possible s e → ∃ fuel s', step 64 false fuel s e = some s' ∧ Exact s' := by
  obtain ⟨s, hs⟩ := Option.isSome_iff_exists.mp
    (by rfl : (step 64 false 1 (initial fun _ => ⟨0, 0, 0⟩) (.newAbs 1 true 5 10)).isSome)
  have hr : Reached 64 false (Apt 64) s := (Reached.initial _).step 1 apt_initial hs
  refine ⟨s, hr, ?_, timer_tree_exact hr⟩
  have hp : (step 64 false 1 (initial fun _ => ⟨0, 0, 0⟩) (.newAbs 1 true 5 10)).map
      Timers.pending = some [1] := rfl
  rw [hs] at hp
  exact Option.some.inj hp

lemma Reached.play {es : List Event} (h : Reached w oneShot (fun _ _ => True) s)
    (hp : es.foldlM (Timer.step w oneShot fuel) s = some s') :
    Reached w oneShot (fun _ _ => True) s' := by
  induction es generalizing s with
  | nil =>
    cases hp
    exact h
  | cons e es ih =>
    simp only [List.foldlM_cons, Option.bind_eq_bind, Option.bind_eq_some_iff] at hp
    obtain ⟨s₁, hs₁, hp⟩ := hp
    exact ih (h.step fuel trivial hs₁) hp

theorem timer_tree_cycle :
    ∃ s, Reached 64 false (fun _ _ => True) s ∧ s.pending = [1, 2] ∧ ¬ Exact s := by
  obtain ⟨es, hes⟩ : ∃ es : List Event,
      es = [.newAbs 1 true 5 10, .newAbs 2 true 6 20, .handle, .newAbs 1 false 7 30] := ⟨_, rfl⟩
  have hrun : (es.foldlM (step 64 false 4) (initial fun _ => ⟨0, 0, 0⟩)).map
      (fun s => (s.pending, s.root, s.heap.links.right 2, s.heap.links.right 1)) =
      some ([1, 2], some 2, some 1, some 2) := by
    rw [hes]
    decide +kernel
  obtain ⟨s, hs, he⟩ := Option.map_eq_some_iff.mp hrun
  simp only [Prod.mk.injEq] at he
  obtain ⟨hpend, hroot, h₂, h₁⟩ := he
  refine ⟨s, (Reached.initial _).play hs, hpend, ?_⟩
  rintro ⟨t, hw, -, -⟩
  have hrep := hw.rep
  have hnd := hw.nodup
  cases t with
  | nil => simp [hroot, Library.PointerTree.Rep] at hrep
  | node a l r =>
    obtain ⟨ha, -, -, hr⟩ := hrep
    obtain rfl : 2 = a := Option.some.inj (hroot.symm.trans ha)
    rw [h₂] at hr
    cases r with
    | nil => simp [Library.PointerTree.Rep] at hr
    | node b rl rr =>
      obtain ⟨hb, -, -, hrr⟩ := hr
      obtain rfl : 1 = b := Option.some.inj hb
      rw [h₁] at hrr
      have hmem := hrr.mem_of_ptr
      simp only [inorder_node, List.nodup_append, List.nodup_cons, List.mem_append,
        List.mem_cons] at hnd
      exact hnd.2.1.1 (Or.inr (Or.inr hmem))

end Kmi.Timer
