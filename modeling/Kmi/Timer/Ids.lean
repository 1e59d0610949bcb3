import Kmi.Timer.Runs

/-! The id a new timer gets, and the search for a timer by its id. -/

namespace Kmi.Timer

open BinaryTree Kmi.Library.PointerTree Kmi.SpTree Kmi.Mem Kmi.Regions

variable {w fuel : ℕ} {s : Timers} {ti : ℕ}

section Walk

variable {cids : ℕ → ℤ} {m : Links ℕ}

lemma place_passes {cid cid' : ℤ} {t : BinaryTree ℕ} {up n p p' : Option ℕ} {d d' : SpDir}
    (ht : Rep m up n t) (hti : ti ∉ inorder t)
    (h : place w cids m ti fuel n cid p d = some (p', d', cid')) :
    cid ≤ cid' ∧ (cid' = cid ∨ cid' < 2 ^ (w - 1)) ∧ ∀ x, cid ≤ x → x < cid' →
      ∃ a ∈ inorder t, cids a = x ∧ (x + 1 < cid' → m.right a ≠ none) := by
  induction t generalizing fuel cid up n p d with
  | nil =>
    obtain rfl : n = none := ht
    simp only [place, Option.some.injEq, Prod.mk.injEq] at h
    obtain ⟨-, -, rfl⟩ := h
    refine ⟨le_rfl, Or.inl rfl, fun x hx hx' => ?_⟩
    omega
  | node a l r ihl ihr =>
    obtain ⟨rfl, -, hl, hr⟩ := ht
    simp only [inorder_node, List.mem_append, List.mem_cons, not_or] at hti
    obtain ⟨htl, hta, htr⟩ := hti
    have hat : a ≠ ti := fun he => hta he.symm
    cases fuel with
    | zero => simp [place] at h
    | succ fuel =>
      rw [place, if_neg hat] at h
      by_cases heq : cid = cids a
      · rw [if_pos heq, next] at h
        split_ifs at h with hlt
        · simp only [Option.bind_eq_bind, Option.bind_some] at h
          rw [if_neg (by omega)] at h
          obtain ⟨hle, hb, hpass⟩ := ihr hr htr h
          refine ⟨by omega, Or.inr (by omega), fun x hx hx' => ?_⟩
          obtain rfl | hx := hx.eq_or_lt
          · refine ⟨a, by simp, heq.symm, fun hmore hnone => ?_⟩
            -- without a right child the walk ends here, one above the id of the node
            rw [hnone] at h
            simp only [place, Option.some.injEq, Prod.mk.injEq] at h
            omega
          · obtain ⟨b, hb, he⟩ := hpass x (by omega) hx'
            exact ⟨b, by simp [hb], he⟩
        · cases h
      · rw [if_neg heq] at h
        simp only [Option.bind_eq_bind, Option.bind_some, if_neg hat] at h
        split_ifs at h with hlt
        · obtain ⟨hle, hb, hpass⟩ := ihl hl htl h
          refine ⟨hle, hb, fun x hx hx' => ?_⟩
          obtain ⟨b, hb, he⟩ := hpass x hx hx'
          exact ⟨b, by simp [hb], he⟩
        · obtain ⟨hle, hb, hpass⟩ := ihr hr htr h
          refine ⟨hle, hb, fun x hx hx' => ?_⟩
          obtain ⟨b, hb, he⟩ := hpass x hx hx'
          exact ⟨b, by simp [hb], he⟩

end Walk

lemma Sorted.inj {cids : ℕ → ℤ} {xs : List ℕ} {n m : ℕ} (h : Sorted cids xs) (hn : n ∈ xs)
    (hm : m ∈ xs) (he : cids n = cids m) : n = m := by
  have hnd : (xs.map cids).Nodup := List.pairwise_map.mpr (h.imp fun h => h.ne)
  exact List.inj_on_of_nodup_map hnd hn hm he

lemma Exact.cids_inj {n m : ℕ} (hx : Exact s) (hn : n ∈ s.pending) (hm : m ∈ s.pending)
    (he : s.cids n = s.cids m) : n = m := by
  obtain ⟨t, -, hperm, hsort⟩ := hx
  exact hsort.inj (hperm.mem_iff.mpr hn) (hperm.mem_iff.mpr hm) he

lemma insertTimer_frame {r : Timers × ℤ} (h : insertTimer w fuel s ti = some r) :
    (∃ p d, place w s.cids s.heap.links ti fuel s.root (s.cids ti) none .left = some (p, d, r.2)) ∧
      r.1.pending = s.pending ∧ r.1.armed = s.armed ∧
      r.1.timer = Function.update s.timer ti { s.timer ti with cid := r.2 } := by
  simp only [insertTimer, Option.bind_eq_bind, Option.bind_eq_some_iff] at h
  obtain ⟨⟨p, d, cid⟩, hplace, z, -, hr⟩ := h
  cases hr
  exact ⟨⟨p, d, hplace⟩, rfl, rfl, rfl⟩

lemma insertTimer_mono {fuel' : ℕ} {r : Timers × ℤ} (hf : fuel ≤ fuel')
    (h : insertTimer w fuel s ti = some r) : insertTimer w fuel' s ti = some r := by
  simp only [insertTimer, Option.bind_eq_bind, Option.bind_eq_some_iff] at h ⊢
  obtain ⟨y, hy, z, hz, hr⟩ := h
  exact ⟨y, place_mono hf hy, z, spInsert_mono hf hz, hr⟩

lemma idOf_eq {ticks : Ticks} (h : ticks.toNat < 2 ^ (w - 1)) : idOf w ticks = ticks.toNat := by
  cases w with
  | zero =>
    have : ticks = 0 := by
      apply BitVec.eq_of_toNat_eq
      simpa using h
    simp [this, idOf]
  | succ w =>
    have hpow : 2 ^ (w + 1) = 2 * 2 ^ w := by ring
    have hmod : (ticks.setWidth (w + 1)).toNat = ticks.toNat := by
      rw [BitVec.toNat_setWidth, Nat.mod_eq_of_lt]
      rw [Nat.add_sub_cancel] at h
      omega
    rw [idOf, BitVec.toInt_eq_toNat_of_lt, hmod]
    rw [Nat.add_sub_cancel] at h
    omega

def KeepsIds (w : ℕ) (s : Timers) (ti : ℕ) (rest : List ℕ) : Prop :=
  ∃ fuel r, insertTimer w fuel s ti = some r ∧ Exact r.1 ∧ ((s.timer ti).ticks.toNat : ℤ) ≤ r.2 ∧
    ∀ n ∈ rest, s.cids n ≠ r.2

section Request

variable {t : BinaryTree ℕ} {rest : List ℕ} {r : Timers × ℤ}

lemma insertTimer_passes (hw : WellFormed s.root s.heap t) (hperm : (inorder t).Perm rest)
    (hti : ti ∉ rest) (h : insertTimer w fuel s ti = some r) :
    s.cids ti ≤ r.2 ∧ (r.2 = s.cids ti ∨ r.2 < 2 ^ (w - 1)) ∧ ∀ x, s.cids ti ≤ x → x < r.2 →
      ∃ a ∈ rest, s.cids a = x ∧ (x + 1 < r.2 → s.heap.links.right a ≠ none) := by
  obtain ⟨⟨p, d, hplace⟩, -⟩ := insertTimer_frame h
  obtain ⟨hle, hb, hpass⟩ := place_passes hw.rep (fun hm => hti (hperm.mem_iff.mp hm)) hplace
  refine ⟨hle, hb, fun x hx hx' => ?_⟩
  obtain ⟨a, ha, he⟩ := hpass x hx hx'
  exact ⟨a, hperm.mem_iff.mp ha, he⟩

lemma insertTimer_spaced (hw : WellFormed s.root s.heap t) (hperm : (inorder t).Perm rest)
    (hsort : Sorted s.cids (inorder t)) (hti : ti ∉ rest) (h : insertTimer w fuel s ti = some r)
    (hfree : ∀ n ∈ rest, s.cids n ≠ r.2) :
    Spaced w s.cids s.heap.links rest (s.cids ti) := by
  obtain ⟨hle, hb, hpass⟩ := insertTimer_passes hw hperm hti h
  have hbelow : ∀ hi, Crowded s.cids rest (s.cids ti) hi → hi < r.2 := by
    intro hi hcr
    by_contra hge
    obtain ⟨n, hn, he⟩ := hcr r.2 hle (by omega)
    exact hfree n hn he
  refine ⟨?_, ?_⟩
  · intro n hn hlo hcr
    have hlt := hbelow _ hcr
    obtain ⟨a, ha, he, hright⟩ := hpass (s.cids n) hlo (by omega)
    have hsame : a = n := hsort.inj (hperm.mem_iff.mpr ha) (hperm.mem_iff.mpr hn) he
    exact hsame ▸ hright hlt
  · intro n hn hlo hcr
    have hlt := hbelow _ hcr
    omega

/-- The ids stay unique where the request fits into an id and, in the run of taken ids that
it hits, the walk can step right from each timer to the next. -/
theorem ids_unique_iff {tid : ℕ} {ticks : Ticks} (hw : WellFormed s.root s.heap t)
    (hperm : (inorder t).Perm rest) (hsort : Sorted s.cids (inorder t))
    (hpend : s.pending = ti :: rest) (hti : ti ∉ rest) (hclean : Zeroed s.heap ti)
    (htimer : s.timer ti = ⟨tid, idOf w ticks, ticks⟩) :
    KeepsIds w s ti rest ↔
      ticks.toNat < 2 ^ (w - 1) ∧ Spaced w s.cids s.heap.links rest (s.cids ti) := by
  have hid : s.cids ti = idOf w ticks := by rw [Timers.cids, htimer]
  have hticks : (s.timer ti).ticks = ticks := by rw [htimer]
  constructor
  · rintro ⟨fuel, r, hr, -, hge, hfree⟩
    obtain ⟨-, hb, -⟩ := insertTimer_passes hw hperm hti hr
    refine ⟨?_, insertTimer_spaced hw hperm hsort hti hr hfree⟩
    have hlt : r.2 < 2 ^ (w - 1) := by
      obtain he | hlt := hb
      · rw [he, hid]
        exact BitVec.toInt_lt
      · exact hlt
    rw [hticks] at hge
    exact_mod_cast hge.trans_lt hlt
  · rintro ⟨hfit, hs⟩
    obtain ⟨r, hr, hx⟩ := insertTimer_spec hw hperm hsort hpend hti hclean.left hclean.right
      (fun _ => hclean.parent) hclean.hint.ge hs (Nat.lt_succ_self _)
    obtain ⟨hle, -, -⟩ := insertTimer_passes hw hperm hti hr
    obtain ⟨-, hpend', -, htimer'⟩ := insertTimer_frame hr
    refine ⟨_, r, hr, hx, ?_, fun n hn he => ?_⟩
    · rwa [hticks, ← idOf_eq hfit, ← hid]
    · have hne : n ≠ ti := fun h => hti (h ▸ hn)
      apply hne
      apply hx.cids_inj
      · rw [hpend', hpend]
        exact List.mem_cons_of_mem _ hn
      · rw [hpend', hpend]
        exact List.mem_cons_self
      · simp only [Timers.cids, htimer', Function.update_self, Function.update_of_ne hne]
        exact he

end Request

theorem ids_unique_iff_next :
    ∃ s : Timers, s.pending = [2, 1] ∧ s.cids 1 = 10 ∧ s.cids 2 = 10 ∧ KeepsIds 64 s 2 [1] := by
  obtain ⟨s, hs⟩ : ∃ s : Timers, s = ⟨⟨⟨fun _ => none, fun _ => none, fun _ => none⟩, fun _ => 0⟩,
    some 1, fun n => if n = 1 then ⟨5, 10, 10⟩ else ⟨6, 10, 10⟩, [2, 1], none⟩ := ⟨_, rfl⟩
  have hw : WellFormed s.root s.heap (node 1 nil nil) := by
    rw [hs]
    exact ⟨⟨rfl, rfl, rfl, rfl⟩, by simp, fun x _ => le_rfl⟩
  have h₁ : s.cids 1 = 10 := by rw [hs]; rfl
  have h₂ : s.cids 2 = 10 := by rw [hs]; rfl
  have hspaced : Spaced 64 s.cids s.heap.links [1] (s.cids 2) := by
    refine ⟨fun n hn _ hcr => ?_, fun n hn _ _ => ?_⟩
    · obtain rfl := List.mem_singleton.mp hn
      obtain ⟨a, ha, he⟩ := hcr 11 (by omega) (by omega)
      obtain rfl := List.mem_singleton.mp ha
      omega
    · obtain rfl := List.mem_singleton.mp hn
      omega
  have hclean : Zeroed s.heap 2 := by
    rw [hs]
    exact ⟨rfl, rfl, rfl, rfl⟩
  have htimer : s.timer 2 = ⟨6, idOf 64 10, 10⟩ := by
    rw [hs]
    rfl
  refine ⟨s, by rw [hs], h₁, h₂, ?_⟩
  apply (ids_unique_iff hw (List.Perm.refl [1]) (by simp [Sorted]) (by rw [hs]) (by decide) hclean
    htimer).mpr
  exact ⟨by decide, hspaced⟩

/-- With 11 above 10 in the tree a second request for 10 walks to the right of 10 and gets
the id 11, which it has only compared with 10. -/
theorem second_eleven :
    ∃ (s : Timers) (t : BinaryTree ℕ), WellFormed s.root s.heap t ∧ (inorder t).Perm [2, 1] ∧
      Sorted s.cids (inorder t) ∧ s.pending = [3, 2, 1] ∧ Zeroed s.heap 3 ∧
      s.timer 3 = ⟨7, idOf 64 10, 10⟩ ∧ s.cids 1 = 11 ∧
      (∃ fuel r, insertTimer 64 fuel s 3 = some r ∧ r.2 = 11) ∧ ¬ KeepsIds 64 s 3 [2, 1] := by
  obtain ⟨s, hs⟩ : ∃ s : Timers, s = ⟨⟨⟨fun n => if n = 1 then some 2 else none, fun _ => none,
    fun n => if n = 2 then some 1 else none⟩, fun n => if n = 1 then 1 else 0⟩,
    some 1, fun n => if n = 1 then ⟨5, 11, 11⟩ else if n = 2 then ⟨6, 10, 10⟩ else ⟨7, 10, 10⟩,
    [3, 2, 1], none⟩ := ⟨_, rfl⟩
  have h₁ : s.cids 1 = 11 := by rw [hs]; rfl
  have hrun : (insertTimer 64 4 s 3).map Prod.snd = some 11 := by
    rw [hs]
    decide +kernel
  obtain ⟨r, hr, he⟩ := Option.map_eq_some_iff.mp hrun
  refine ⟨s, node 1 (node 2 nil nil) nil, ⟨?_, by simp, ?_⟩, List.Perm.refl _, ?_, by rw [hs], ?_,
    by rw [hs]; rfl, h₁, ⟨4, r, hr, he⟩, ?_⟩
  · rw [hs]
    exact ⟨rfl, rfl, ⟨rfl, rfl, rfl, rfl⟩, rfl⟩
  · intro x _
    rw [hs]
    change (0 : ℤ) ≤ if x = 1 then 1 else 0
    split_ifs <;> decide
  · rw [hs]
    simp [Sorted, Timers.cids]
  · rw [hs]
    exact ⟨rfl, rfl, rfl, rfl⟩
  · rintro ⟨fuel, r', hr', -, -, hfree⟩
    have hmax := insertTimer_mono (le_max_left fuel 4) hr'
    rw [insertTimer_mono (le_max_right fuel 4) hr] at hmax
    cases hmax
    exact hfree 1 (by simp) (h₁.trans he.symm)

section Search

variable {cid : ℤ}

lemma findTimer_cid {n : Option ℕ} {y : ℕ} (h : findTimer s cid fuel n = some (some y)) :
    s.cids y = cid := by
  induction fuel generalizing n with
  | zero => cases n <;> simp [findTimer] at h
  | succ fuel ih =>
    cases n with
    | none => simp [findTimer] at h
    | some n =>
      rw [findTimer] at h
      split_ifs at h with he
      · cases h
        exact he
      · exact ih h
      · exact ih h

lemma findTimer_node (n : ℕ) : findTimer s cid (fuel + 1) (some n) =
    if s.cids n = cid then some (some n)
    else if s.cids n < cid then findTimer s cid fuel (s.heap.links.left n)
    else findTimer s cid fuel (s.heap.links.right n) := rfl

lemma findTimer_root {a : ℕ} (hr : s.root = some a) (hc : s.cids a = cid) :
    findTimer s cid (fuel + 1) s.root = some (some a) := by
  rw [hr, findTimer_node, if_pos hc]

lemma findTimer_misses (hx : Exact s) (hroot : ∀ a, s.root = some a → s.cids a ≠ cid)
    (hf : s.pending.length ≤ fuel) : findTimer s cid fuel s.root = some none := by
  obtain ⟨t, hw, hperm, hsort⟩ := hx
  rw [← hperm.length_eq] at hf
  cases t with
  | nil =>
    have hnil : s.root = none := hw.rep
    rw [hnil, findTimer]
  | node a l r =>
    obtain ⟨ha, -, hl, hr⟩ := hw.rep
    obtain ⟨hleft, hright, -⟩ := @Sorted.around s.cids [] a l r hsort
    simp only [inorder_node, List.length_append, List.length_cons] at hf
    cases fuel with
    | zero => omega
    | succ fuel =>
      rw [ha, findTimer_node, if_neg (hroot a ha)]
      split_ifs with hlt
      · obtain ⟨res, hres, hmem⟩ := findTimer_rep hl (by omega : (inorder l).length ≤ fuel)
        rw [hres]
        cases res with
        | none => rfl
        | some y =>
          have hy := hleft y (hmem y rfl)
          rw [findTimer_cid hres] at hy
          exact absurd hy (not_lt.mpr (le_of_lt hlt))
      · obtain ⟨res, hres, hmem⟩ := findTimer_rep hr (by omega : (inorder r).length ≤ fuel)
        rw [hres]
        cases res with
        | none => rfl
        | some y =>
          have hy := hright y (hmem y rfl)
          rw [findTimer_cid hres] at hy
          exact absurd hy hlt

def Finds (s : Timers) (cid : ℤ) : Prop :=
  ∃ fuel found, findTimer s cid fuel s.root = some found ∧
    ∀ n, found = some n ↔ n ∈ s.pending ∧ s.cids n = cid

def Frees (s : Timers) (n : ℕ) : Prop :=
  ∃ fuel s', sysFreeTimer fuel s (s.cids n) = some (s', OK) ∧ Exact s' ∧
    s'.pending = s.pending.erase n

lemma Exact.root_mem {a : ℕ} (hx : Exact s) (hr : s.root = some a) : a ∈ s.pending := by
  obtain ⟨t, hw, hperm, -⟩ := hx
  exact hperm.mem_iff.mp (hr ▸ hw.rep).mem_of_ptr

lemma Exact.finds_iff (hx : Exact s) :
    Finds s cid ↔ ∀ n ∈ s.pending, s.cids n = cid → s.root = some n := by
  constructor
  · rintro ⟨fuel, found, hfound, hiff⟩ n hn hc
    obtain rfl := (hiff n).mpr ⟨hn, hc⟩
    by_contra hroot
    have hne : ∀ a, s.root = some a → s.cids a ≠ cid := by
      intro a ha he
      apply hroot
      rw [ha, hx.cids_inj (hx.root_mem ha) hn (he.trans hc.symm)]
    have hmiss := findTimer_misses hx hne (le_max_right fuel s.pending.length)
    rw [findTimer_mono (le_max_left _ _) hfound] at hmiss
    cases hmiss
  · intro h
    by_cases hroot : ∃ a, s.root = some a ∧ s.cids a = cid
    · obtain ⟨a, ha, hc⟩ := hroot
      refine ⟨1, some a, findTimer_root ha hc, fun n => ⟨?_, ?_⟩⟩
      · rintro ⟨⟩
        exact ⟨hx.root_mem ha, hc⟩
      · rintro ⟨hn, he⟩
        exact ha.symm.trans (h n hn he)
    · have hne : ∀ a, s.root = some a → s.cids a ≠ cid := fun a ha he => hroot ⟨a, ha, he⟩
      refine ⟨_, none, findTimer_misses hx hne le_rfl, fun n => ⟨?_, ?_⟩⟩
      · rintro ⟨⟩
      · rintro ⟨hn, he⟩
        exact absurd he (hne n (h n hn he))

lemma Exact.frees_iff {n : ℕ} (hx : Exact s) (hn : n ∈ s.pending) :
    Frees s n ↔ s.root = some n := by
  constructor
  · rintro ⟨fuel, s', hs', -, -⟩
    by_contra hroot
    have hne : ∀ a, s.root = some a → s.cids a ≠ s.cids n := by
      intro a ha he
      apply hroot
      rw [ha, hx.cids_inj (hx.root_mem ha) hn he]
    simp only [sysFreeTimer, Option.bind_eq_bind, Option.bind_eq_some_iff] at hs'
    obtain ⟨found, hfound, hs'⟩ := hs'
    have hmiss := findTimer_misses hx hne (le_max_right fuel s.pending.length)
    rw [findTimer_mono (le_max_left _ _) hfound] at hmiss
    cases hmiss
    simp [OK, ERR_NF] at hs'
  · intro hroot
    obtain ⟨s', hs', hx'⟩ := removeTimer_exact hx hn (Nat.lt_succ_self _)
    refine ⟨s.pending.length + 1, s', ?_, hx', (removeTimer_frame hs').1⟩
    simp only [sysFreeTimer, findTimer_root hroot rfl, hs', Option.bind_eq_bind, Option.bind_some]

theorem find_timer_iff (hx : Exact s) :
    (∀ cid, Finds s cid ↔ ∀ n ∈ s.pending, s.cids n = cid → s.root = some n) ∧
      ∀ n ∈ s.pending, Frees s n ↔ s.root = some n :=
  ⟨fun _ => hx.finds_iff, fun _ hn => hx.frees_iff hn⟩

lemma two_requests : ∃ s, Reached 64 false (fun _ _ => True) s ∧ Exact s ∧ s.pending = [2, 1] ∧
    s.root = some 1 ∧ s.cids 1 = 10 ∧ s.cids 2 = 20 := by
  have hrun : ([Event.newAbs 1 true 5 10, .newAbs 2 true 6 20].foldlM (step 64 false 4)
      (initial fun _ => ⟨0, 0, 0⟩)).map (fun s => (s.pending, [s.root, s.heap.links.left 1, s.heap.links.left 2,
        s.heap.links.right 1, s.heap.links.right 2, s.heap.links.parent 1, s.heap.links.parent 2],
        [s.cids 1, s.cids 2, s.heap.hint 1, s.heap.hint 2])) =
      some ([2, 1], [some 1, none, none, some 2, none, none, some 1], [10, 20, 1, 0]) := by
    decide +kernel
  obtain ⟨s, hs, he⟩ := Option.map_eq_some_iff.mp hrun
  simp only [Prod.mk.injEq, List.cons.injEq, and_true] at he
  obtain ⟨hpend, ⟨hroot, hl₁, hl₂, hr₁, hr₂, hp₁, hp₂⟩, h₁, h₂, hh₁, hh₂⟩ := he
  refine ⟨s, (Reached.initial _).play hs, ?_, hpend, hroot, h₁, h₂⟩
  refine ⟨node 1 nil (node 2 nil nil), ⟨⟨hroot, hp₁, hl₁, hr₁, hp₂, hl₂, hr₂⟩, by simp, ?_⟩, ?_, ?_⟩
  · intro x hx
    simp only [inorder_node, inorder_nil, List.nil_append, List.mem_cons, List.not_mem_nil,
      or_false] at hx
    rcases hx with rfl | rfl <;> omega
  · rw [hpend]
    exact List.Perm.swap 2 1 []
  · simp [Sorted, h₁, h₂]

theorem find_timer_iff_root : ∃ s, s.pending = [2, 1] ∧ Finds s 15 ∧ Frees s 1 := by
  obtain ⟨s, -, hx, hpend, hroot, h₁, h₂⟩ := two_requests
  obtain ⟨hfinds, hfrees⟩ := find_timer_iff hx
  refine ⟨s, hpend, (hfinds 15).mpr fun n hn hc => ?_, (hfrees 1 (by simp [hpend])).mpr hroot⟩
  rw [hpend] at hn
  simp only [List.mem_cons, List.not_mem_nil, or_false] at hn
  rcases hn with rfl | rfl <;> omega

theorem twenty_not_found : ∃ s, Reached 64 false (fun _ _ => True) s ∧ Exact s ∧ 2 ∈ s.pending ∧
    s.cids 2 = 20 ∧ ¬ Finds s 20 ∧ ¬ Frees s 2 := by
  obtain ⟨s, hr, hx, hpend, hroot, -, h₂⟩ := two_requests
  have hmem : 2 ∈ s.pending := by simp [hpend]
  refine ⟨s, hr, hx, hmem, h₂, fun hf => ?_, fun hf => ?_⟩
  · have := hx.finds_iff.mp hf 2 hmem h₂
    simp [hroot] at this
  · have := (hx.frees_iff hmem).mp hf
    simp [hroot] at this

end Search

end Kmi.Timer
