import Kmi.SpTree.Insert
import Kmi.SpTree.Replace

/-! Removal deletes exactly the removed node from the order, so a tree that is
only inserted into and removed from stays well formed. -/

namespace Kmi.SpTree

open BinaryTree Kmi.Library.PointerTree

variable {root : Option ℕ} {h : SpHeap} {c : List (Frame ℕ)} {n : ℕ} {t : BinaryTree ℕ}

lemma update_subtree (fuel : ℕ) {p up : Option ℕ} (hw : WellFormed root h (plug c t))
    (hp : Hole h.links none root c up p) (ht : Rep h.links up p t)
    (hf : (inorder (plug c t)).length < fuel) :
    ∃ root' h' t', update fuel root h p = some (root', h') ∧ WellFormed root' h' t' ∧
      inorder t' = inorder (plug c t) ∧ SameOutside (inorder (plug c t)) h h' := by
  cases t with
  | nil =>
    obtain rfl : p = none := ht
    refine ⟨root, h, _, ?_, hw, rfl, fun x _ => ⟨⟨rfl, rfl, rfl⟩, rfl⟩⟩
    cases fuel <;> rfl
  | node a l r =>
    obtain ⟨rfl, -⟩ := ht
    have hlen := length_le_plug c (node a l r)
    exact update_spec fuel hw (by omega)

lemma SameOutside.of_sameAt {s s' : List ℕ} {m' : Links ℕ} {h' : SpHeap}
    (hm : ∀ x ∉ s, SameAt h.links m' x) (hs : ∀ x, x ∉ s → x ∉ s')
    (h₂ : SameOutside s' ⟨m', h.hint⟩ h') : SameOutside s h h' := by
  intro x hx
  obtain ⟨ha, hb, hc⟩ := hm x hx
  obtain ⟨⟨ha', hb', hc'⟩, hh⟩ := h₂ x (hs x hx)
  exact ⟨⟨ha'.trans ha, hb'.trans hb, hc'.trans hc⟩, hh⟩

lemma wellFormed_erase {t' : BinaryTree ℕ} {xs ys : List ℕ} {m' : Links ℕ} {root' : Option ℕ}
    (hw : WellFormed root h t) (ht : inorder t = xs ++ n :: ys) (ht' : inorder t' = xs ++ ys)
    (hr : Rep m' none root' t') : WellFormed root' ⟨m', h.hint⟩ t' := by
  have hd := hw.nodup
  rw [ht, List.nodup_middle, List.nodup_cons] at hd
  refine ⟨hr, ht' ▸ hd.2, fun x hx => hw.hints x ?_⟩
  rw [ht'] at hx
  rw [ht]
  simp only [List.mem_append, List.mem_cons] at hx ⊢
  tauto

lemma spRemove_right {fuel : ℕ} {l r : BinaryTree ℕ} {a : ℕ}
    (hw : WellFormed root h (plug c (node n l r))) (hr : h.links.right n = some a)
    (hf : (inorder (plug c (node n l r))).length < fuel) :
    ∃ root' h' t', spRemove fuel root h n = some (root', h') ∧ WellFormed root' h' t' ∧
      inorder t' = before c ++ (inorder l ++ inorder r) ++ after c ∧
      SameOutside (inorder (plug c (node n l r))) h h' := by
  obtain ⟨up, p, hc, rfl, hpn, hl, hrr⟩ := rep_plug.mp hw.rep
  cases r with
  | nil =>
    rw [hr] at hrr
    cases hrr
  | node b bl br =>
    rw [hr] at hrr
    obtain rfl : a = b := Option.some.inj hrr.1
    obtain ⟨s, k, kr, he, hfirst⟩ := spFirst_spec a bl br
    have hlen := length_le_plug (leftSpine s) (node k nil kr)
    have hlen' := length_le_plug c (node n l (node a bl br))
    have hs : (leftSpine s).length = s.length := by simp [leftSpine]
    have hk : spFirst fuel h.links a = some k := by
      refine hfirst _ _ fuel hrr ?_
      rw [← he] at hlen
      simp only [inorder_node, List.length_append, List.length_cons] at hlen hlen'
      omega
    obtain ⟨m', hm', hrep, hsame⟩ := replaceRight_rep (he ▸ hw.rep) (he ▸ hw.nodup)
    have hin : inorder (plug c (node n l (node a bl br))) =
        (before c ++ inorder l) ++ n :: (k :: inorder kr ++ after (leftSpine s) ++ after c) := by
      rw [he]
      simp [inorder_plug]
    have hin' : inorder (plug c (node k l (plug (leftSpine s) kr))) =
        (before c ++ inorder l) ++ (k :: inorder kr ++ after (leftSpine s) ++ after c) := by
      simp [inorder_plug]
    have hw' := wellFormed_erase hw hin hin' hrep
    obtain ⟨up', p', hc', rfl, hpk', hl', hr'⟩ := rep_plug.mp hrep
    obtain ⟨root', h', t', hu, hw'', hin'', hsame'⟩ :=
      update_subtree fuel (c := .right k l :: c) hw' ⟨rfl, rfl, hl', hpk' ▸ hc'⟩ hr' (by
        rw [plug, hin']
        rw [hin] at hf
        simp only [List.length_append, List.length_cons] at hf ⊢
        omega)
    refine ⟨root', h', t', ?_, hw'', ?_, ?_⟩
    · simp only [spRemove, hr, hk, hm', Option.bind_eq_bind, Option.bind_some]
      exact hu
    · rw [hin'', plug, hin', he]
      simp [inorder_plug]
    · refine SameOutside.of_sameAt (he ▸ hsame) (fun x hx => ?_) hsame'
      rw [plug, hin']
      rw [hin] at hx
      simp only [List.mem_append, List.mem_cons] at hx ⊢
      tauto

lemma spRemove_left {fuel : ℕ} {l : BinaryTree ℕ} {a : ℕ}
    (hw : WellFormed root h (plug c (node n l nil))) (hl : h.links.left n = some a)
    (hf : (inorder (plug c (node n l nil))).length < fuel) :
    ∃ root' h' t', spRemove fuel root h n = some (root', h') ∧ WellFormed root' h' t' ∧
      inorder t' = before c ++ inorder l ++ after c ∧
      SameOutside (inorder (plug c (node n l nil))) h h' := by
  obtain ⟨up, p, hc, rfl, hpn, hll, hr⟩ := rep_plug.mp hw.rep
  have hr : h.links.right n = none := hr
  cases l with
  | nil =>
    rw [hl] at hll
    cases hll
  | node b bl br =>
    rw [hl] at hll
    obtain rfl : a = b := Option.some.inj hll.1
    obtain ⟨s, k, kl, he, hlast⟩ := spLast_spec a bl br
    have hlen := length_le_plug ((leftSpine s).map Frame.mirror) (node k kl nil)
    have hlen' := length_le_plug c (node n (node a bl br) nil)
    have hs : ((leftSpine s).map Frame.mirror).length = s.length := by simp [leftSpine]
    have hk : spLast fuel h.links a = some k := by
      refine hlast _ _ fuel hll ?_
      rw [← he] at hlen
      simp only [inorder_node, List.length_append, List.length_cons] at hlen hlen'
      omega
    obtain ⟨m', hm', hrep, hsame⟩ := replaceLeft_rep (he ▸ hw.rep) (he ▸ hw.nodup)
    have haft : after ((leftSpine s).map Frame.mirror) = [] := by
      clear he hlast hlen hs hm' hrep hsame
      induction s with
      | nil => rfl
      | cons x s ih => simpa [leftSpine, Frame.mirror, after] using ih
    have hin : inorder (plug c (node n (node a bl br) nil)) =
        (before c ++ before ((leftSpine s).map Frame.mirror) ++ inorder kl ++ [k]) ++
          n :: after c := by
      rw [he]
      simp [inorder_plug, haft]
    have hin' : inorder (plug c (node k (plug ((leftSpine s).map Frame.mirror) kl) nil)) =
        (before c ++ before ((leftSpine s).map Frame.mirror) ++ inorder kl ++ [k]) ++ after c := by
      simp [inorder_plug, haft]
    have hw' := wellFormed_erase hw hin hin' hrep
    obtain ⟨up', p', hc', rfl, hpk', hl', hr'⟩ := rep_plug.mp hrep
    obtain ⟨root', h', t', hu, hw'', hin'', hsame'⟩ :=
      update_subtree fuel (c := .left k nil :: c) hw' ⟨rfl, rfl, hr', hpk' ▸ hc'⟩ hl' (by
        rw [plug, hin']
        rw [hin] at hf
        simp only [List.length_append, List.length_cons] at hf ⊢
        omega)
    refine ⟨root', h', t', ?_, hw'', ?_, ?_⟩
    · simp only [spRemove, hr, hl, hk, hm', Option.bind_eq_bind, Option.bind_some]
      exact hu
    · rw [hin'', plug, hin', he]
      simp [inorder_plug, haft]
    · refine SameOutside.of_sameAt (he ▸ hsame) (fun x hx => ?_) hsame'
      rw [plug, hin']
      rw [hin] at hx
      simp only [List.mem_append, List.mem_cons] at hx ⊢
      tauto

lemma spRemove_leaf {fuel : ℕ} (hw : WellFormed root h (plug c (node n nil nil)))
    (hf : (inorder (plug c (node n nil nil))).length < fuel) :
    ∃ root' h' t', spRemove fuel root h n = some (root', h') ∧ WellFormed root' h' t' ∧
      inorder t' = before c ++ after c ∧
      SameOutside (inorder (plug c (node n nil nil))) h h' := by
  obtain ⟨up, p, hc, rfl, hpn, hl, hr⟩ := rep_plug.mp hw.rep
  have hl : h.links.left n = none := hl
  have hr : h.links.right n = none := hr
  have hd := hw.nodup
  have hin : inorder (plug c (node n nil nil)) = before c ++ n :: after c := by
    simp [inorder_plug]
  have hin' : inorder (plug c (nil : BinaryTree ℕ)) = before c ++ after c := by
    simp [inorder_plug]
  rw [hin, List.nodup_middle, List.nodup_cons] at hd
  have hrel := hc.relink hd.2 hd.1 none
  have hw' := wellFormed_erase hw hin hin' (rep_plug.mpr ⟨up, none, hrel, rfl⟩)
  cases c with
  | nil =>
    obtain ⟨rfl, rfl⟩ := hc
    refine ⟨none, h, nil, by simp [spRemove, hl, hr], ⟨rfl, by simp, by simp⟩, rfl,
      fun x _ => ⟨⟨rfl, rfl, rfl⟩, rfl⟩⟩
  | cons f c =>
    obtain ⟨b, hb, hroot⟩ := hc.root_mem (by simp)
    have hne : root ≠ some n := by
      rintro rfl
      exact hd.1 (Option.some.inj hroot ▸ hb)
    rw [if_neg hne] at hw' hrel
    obtain ⟨a, ha, rfl⟩ := hc.up_mem (by simp)
    have hplug : ∃ la ra, plug (f :: c) (nil : BinaryTree ℕ) = plug c (node a la ra) := by
      cases f with
      | left b s => exact ⟨nil, s, by rw [plug, Option.some.inj hc.1]⟩
      | right b s => exact ⟨s, nil, by rw [plug, Option.some.inj hc.1]⟩
    obtain ⟨la, ra, hplug⟩ := hplug
    have hlen := length_le_plug c (node a la ra)
    rw [hplug] at hw' hin'
    obtain ⟨root', h', t', hu, hw'', hin'', hsame⟩ := update_spec fuel hw' (by
      rw [hin'] at hlen
      rw [hin] at hf
      simp only [List.length_append, List.length_cons] at hlen hf
      omega)
    rw [hin'] at hin'' hsame
    refine ⟨root', h', t', ?_, hw'', hin'', ?_⟩
    · simp only [spRemove, hl, hr, hne, if_false, hpn, Option.bind_eq_bind, Option.bind_some]
      exact hu
    · refine SameOutside.of_sameAt (fun x hx => ?_) (fun x hx => ?_) hsame
      · refine relink_sameAt _ _ _ ?_
        rintro ⟨⟩
        exact hx (by rw [hin]; simp only [List.mem_append, List.mem_cons] at ha ⊢; tauto)
      · rw [hin] at hx
        simp only [List.mem_append, List.mem_cons] at hx ⊢
        tauto

lemma spRemove_spec {fuel : ℕ} (hw : WellFormed root h t) (hn : n ∈ inorder t)
    (hf : (inorder t).length < fuel) :
    ∃ root' h' t', spRemove fuel root h n = some (root', h') ∧ WellFormed root' h' t' ∧
      (∃ xs ys, inorder t = xs ++ n :: ys ∧ inorder t' = xs ++ ys) ∧
      SameOutside (inorder t) h h' := by
  obtain ⟨c, l, r, rfl⟩ := exists_plug hn
  obtain ⟨up, p, hc, rfl, hpn, hl, hr⟩ := rep_plug.mp hw.rep
  have hin : inorder (plug c (node n l r)) = (before c ++ inorder l) ++ n :: (inorder r ++ after c) := by
    simp [inorder_plug]
  cases r with
  | node a bl br =>
    obtain ⟨root', h', t', hu, hw', hin', hs⟩ := spRemove_right hw hr.1 hf
    exact ⟨root', h', t', hu, hw', ⟨_, _, hin, by simp [hin']⟩, hs⟩
  | nil =>
    cases l with
    | node a bl br =>
      obtain ⟨root', h', t', hu, hw', hin', hs⟩ := spRemove_left hw hl.1 hf
      exact ⟨root', h', t', hu, hw', ⟨_, _, hin, by simp [hin']⟩, hs⟩
    | nil =>
      obtain ⟨root', h', t', hu, hw', hin', hs⟩ := spRemove_leaf hw hf
      exact ⟨root', h', t', hu, hw', ⟨_, _, hin, by simp [hin']⟩, hs⟩

theorem insert_remove_inorder (hw : WellFormed root h t) (fuel : ℕ)
    (hf : (inorder t).length < fuel) :
    (∀ n, Zeroed h n → n ∉ inorder t →
      (root = none → ∀ q d, ∃ root' h' t', spInsert fuel root h q n d = some (root', h') ∧
        WellFormed root' h' t' ∧ inorder t' = [n]) ∧
      ∀ p d, p ∈ inorder t → side h p d = none →
        ∃ root' h' t', spInsert fuel root h (some p) n d = some (root', h') ∧
          WellFormed root' h' t' ∧
          ∃ xs ys, inorder t = xs ++ p :: ys ∧ inorder t' = xs ++ beside p n d ++ ys) ∧
    ∀ n ∈ inorder t, ∃ root' h' t', spRemove fuel root h n = some (root', h') ∧
      WellFormed root' h' t' ∧ ∃ xs ys, inorder t = xs ++ n :: ys ∧ inorder t' = xs ++ ys := by
  refine ⟨fun n hz hn => ⟨?_, ?_⟩, ?_⟩
  · rintro rfl q d
    obtain ⟨hi, hw'⟩ := spInsert_empty fuel (d := d) q hz
    exact ⟨_, _, _, hi, hw', rfl⟩
  · intro p d hp hv
    obtain ⟨root', h', t', hi, hw', ho, -⟩ := spInsert_nonempty hw hp hv hn hz hf
    exact ⟨root', h', t', hi, hw', ho⟩
  · intro n hn
    obtain ⟨root', h', t', hr, hw', ho, -⟩ := spRemove_spec hw hn hf
    exact ⟨root', h', t', hr, hw', ho⟩

def sevenTree : BinaryTree ℕ :=
  node 4 (node 2 (node 1 nil nil) nil) (node 6 (node 5 nil nil) (node 8 nil (node 9 nil nil)))

def sevenNodes : SpHeap where
  links :=
    { left := fun n => if n = 4 then some 2 else if n = 2 then some 1 else if n = 6 then some 5 else none
      right := fun n => if n = 4 then some 6 else if n = 6 then some 8 else if n = 8 then some 9 else none
      parent := fun n =>
        if n = 1 then some 2 else if n = 2 ∨ n = 6 then some 4 else if n = 5 ∨ n = 8 then some 6
        else if n = 9 then some 8 else none }
  hint := fun n => if n = 4 then 3 else if n = 6 then 2 else if n = 2 ∨ n = 8 then 1 else 0

lemma sevenNodes_wellFormed : WellFormed (some 4) sevenNodes sevenTree := by
  refine ⟨?_, by decide, by decide⟩
  simp [sevenTree, Library.PointerTree.Rep, sevenNodes]

theorem insert_remove_inorder_seven :
    (∃ root' h' t', spInsert 8 (some 4) sevenNodes (some 9) 10 .right = some (root', h') ∧ WellFormed root' h' t' ∧
      (∃ xs ys, [1, 2, 4, 5, 6, 8, 9] = xs ++ 9 :: ys ∧ inorder t' = xs ++ [9, 10] ++ ys) ∧
      h'.links.right 6 = some 9 ∧ h'.links.left 9 = some 8) ∧
    ∃ root' h' t', spRemove 8 (some 4) sevenNodes 4 = some (root', h') ∧ WellFormed root' h' t' ∧
      (∃ xs ys, [1, 2, 4, 5, 6, 8, 9] = xs ++ 4 :: ys ∧ inorder t' = xs ++ ys) ∧
      root' = some 5 ∧ h'.links.left 6 = none := by
  obtain ⟨hi, hr⟩ := insert_remove_inorder sevenNodes_wellFormed 8 (by decide)
  obtain ⟨root₁, h₁, t₁, hrun₁, hw₁, hin₁⟩ := (hi 10 ⟨rfl, rfl, rfl, rfl⟩ (by decide)).2 9 .right (by decide) rfl
  obtain ⟨root₂, h₂, t₂, hrun₂, hw₂, hin₂⟩ := hr 4 (by decide)
  have hturned : (spInsert 8 (some 4) sevenNodes (some 9) 10 .right).map
      (fun x => (x.2.links.right 6, x.2.links.left 9)) = some (some 9, some 8) := by decide
  have hspliced : (spRemove 8 (some 4) sevenNodes 4).map (fun x => (x.1, x.2.links.left 6)) = some (some 5, none) := by
    decide
  rw [hrun₁, Option.map_some, Option.some.injEq, Prod.mk.injEq] at hturned
  rw [hrun₂, Option.map_some, Option.some.injEq, Prod.mk.injEq] at hspliced
  exact ⟨⟨root₁, h₁, t₁, hrun₁, hw₁, hin₁, hturned⟩, root₂, h₂, t₂, hrun₂, hw₂, hin₂, hspliced⟩

end Kmi.SpTree
