import Kmi.SpTree.Insert

/-! What holds of the tree operations on any heap: more fuel changes no result, hints
stay non-negative, and a new leaf's old parent and hint are overwritten. -/

namespace Kmi.SpTree

open Kmi.Library.PointerTree

variable {root : Option ℕ} {h : SpHeap} {n : ℕ}

lemma update_mono {fuel fuel' : ℕ} {p : Option ℕ} {r : Option ℕ × SpHeap} (hf : fuel ≤ fuel')
    (hu : update fuel root h p = some r) : update fuel' root h p = some r := by
  induction fuel generalizing fuel' root h p with
  | zero =>
    cases p with
    | none => cases fuel' <;> exact hu
    | some n => simp [update] at hu
  | succ fuel ih =>
    cases p with
    | none => cases fuel' <;> exact hu
    | some n =>
      obtain ⟨fuel', rfl⟩ : ∃ k, fuel' = k + 1 := ⟨fuel' - 1, by omega⟩
      simp only [update, Option.bind_eq_bind, Option.bind_eq_some_iff] at hu ⊢
      obtain ⟨a, ha, hu⟩ := hu
      refine ⟨a, ha, ?_⟩
      split_ifs at hu ⊢
      · exact ih (by omega) hu
      · exact hu

lemma spFirst_mono {fuel fuel' : ℕ} {m : Links ℕ} {r : ℕ} (hf : fuel ≤ fuel')
    (hs : spFirst fuel m n = some r) : spFirst fuel' m n = some r := by
  induction fuel generalizing fuel' n with
  | zero => simp [spFirst] at hs
  | succ fuel ih =>
    obtain ⟨fuel', rfl⟩ : ∃ k, fuel' = k + 1 := ⟨fuel' - 1, by omega⟩
    rw [spFirst] at hs ⊢
    cases hl : m.left n with
    | none => rwa [hl] at hs
    | some l =>
      rw [hl] at hs
      exact ih (by omega) hs

lemma spLast_mono {fuel fuel' : ℕ} {m : Links ℕ} {r : ℕ} (hf : fuel ≤ fuel')
    (hs : spLast fuel m n = some r) : spLast fuel' m n = some r := by
  induction fuel generalizing fuel' n with
  | zero => simp [spLast] at hs
  | succ fuel ih =>
    obtain ⟨fuel', rfl⟩ : ∃ k, fuel' = k + 1 := ⟨fuel' - 1, by omega⟩
    rw [spLast] at hs ⊢
    cases hr : m.right n with
    | none => rwa [hr] at hs
    | some r =>
      rw [hr] at hs
      exact ih (by omega) hs

lemma spInsert_mono {fuel fuel' : ℕ} {p : Option ℕ} {d : SpDir} {r : Option ℕ × SpHeap}
    (hf : fuel ≤ fuel') (hi : spInsert fuel root h p n d = some r) :
    spInsert fuel' root h p n d = some r := by
  cases root with
  | none => exact hi
  | some a =>
    cases p with
    | none => exact hi
    | some p => exact update_mono hf hi

lemma spRemove_mono {fuel fuel' : ℕ} {r : Option ℕ × SpHeap} (hf : fuel ≤ fuel')
    (hr : spRemove fuel root h n = some r) : spRemove fuel' root h n = some r := by
  unfold spRemove at hr ⊢
  split at hr
  · simp only [Option.bind_eq_bind, Option.bind_eq_some_iff] at hr ⊢
    obtain ⟨least, hl, m, hm, hu⟩ := hr
    exact ⟨least, spFirst_mono hf hl, m, hm, update_mono hf hu⟩
  · simp only [Option.bind_eq_bind, Option.bind_eq_some_iff] at hr ⊢
    obtain ⟨most, hl, m, hm, hu⟩ := hr
    exact ⟨most, spLast_mono hf hl, m, hm, update_mono hf hu⟩
  · split_ifs at hr ⊢
    · exact hr
    · simp only [Option.bind_eq_bind, Option.bind_eq_some_iff] at hr ⊢
      obtain ⟨paren, hp, hu⟩ := hr
      exact ⟨paren, hp, update_mono hf hu⟩

lemma sideHint_nonneg_of_hints (hh : ∀ x, 0 ≤ h.hint x) (p : Option ℕ) : 0 ≤ sideHint h p := by
  cases p with
  | none => exact le_rfl
  | some a =>
    have := hh a
    rw [sideHint_some]
    omega

lemma update_hints {fuel : ℕ} {p : Option ℕ} {r : Option ℕ × SpHeap} (hh : ∀ x, 0 ≤ h.hint x)
    (hu : update fuel root h p = some r) : ∀ x, 0 ≤ r.2.hint x := by
  induction fuel generalizing root h p with
  | zero =>
    cases p with
    | none =>
      obtain rfl : (root, h) = r := by simpa [update] using hu
      exact hh
    | some n => simp [update] at hu
  | succ fuel ih =>
    cases p with
    | none =>
      obtain rfl : (root, h) = r := by simpa [update] using hu
      exact hh
    | some n =>
      simp only [update, Option.bind_eq_bind, Option.bind_eq_some_iff] at hu
      obtain ⟨⟨root', m⟩, -, hu⟩ := hu
      have hnew : ∀ x, 0 ≤ Function.update h.hint n (maxHint ⟨m, h.hint⟩ n) x := by
        intro x
        rw [Function.update_apply]
        split_ifs
        · unfold maxHint
          split_ifs <;> exact @sideHint_nonneg_of_hints ⟨m, h.hint⟩ hh _
        · exact hh x
      split_ifs at hu
      · exact @ih root' ⟨m, Function.update h.hint n (maxHint ⟨m, h.hint⟩ n)⟩ _ hnew hu
      · cases hu
        exact hnew

lemma spInsert_hints {fuel : ℕ} {p : Option ℕ} {d : SpDir} {r : Option ℕ × SpHeap}
    (hh : ∀ x, 0 ≤ h.hint x) (hi : spInsert fuel root h p n d = some r) :
    ∀ x, 0 ≤ r.2.hint x := by
  cases root with
  | none =>
    obtain rfl : (some n, h) = r := by simpa [spInsert] using hi
    exact hh
  | some a =>
    cases p with
    | none => simp [spInsert] at hi
    | some p =>
      refine update_hints ?_ hi
      exact hh

lemma spRemove_hints {fuel : ℕ} {r : Option ℕ × SpHeap} (hh : ∀ x, 0 ≤ h.hint x)
    (hr : spRemove fuel root h n = some r) : ∀ x, 0 ≤ r.2.hint x := by
  unfold spRemove at hr
  split at hr
  · simp only [Option.bind_eq_bind, Option.bind_eq_some_iff] at hr
    obtain ⟨least, -, m, -, hu⟩ := hr
    exact @update_hints _ ⟨m, h.hint⟩ _ _ _ hh hu
  · simp only [Option.bind_eq_bind, Option.bind_eq_some_iff] at hr
    obtain ⟨most, -, m, -, hu⟩ := hr
    exact @update_hints _ ⟨m, h.hint⟩ _ _ _ hh hu
  · split_ifs at hr
    · cases hr
      exact hh
    · simp only [Option.bind_eq_bind, Option.bind_eq_some_iff] at hr
      obtain ⟨paren, -, hu⟩ := hr
      refine update_hints ?_ hu
      exact hh

lemma update_leaf {fuel : ℕ} (hl : h.links.left n = none) (hr : h.links.right n = none) :
    update (fuel + 1) root h (some n) =
      update fuel root ⟨h.links, Function.update h.hint n 0⟩ (h.links.parent n) := by
  have hb : balance h n = 0 := by simp [balance, hl, hr]
  have hm : maxHint h n = 0 := by simp [maxHint, hl, hr]
  have hre : rebalance root h n = some (root, h.links) := by simp [rebalance, hb]
  simp [update, hre, hm]

lemma spInsert_stale {fuel a p : ℕ} (d : SpDir) (q : Option ℕ) (k : ℤ) (hn : n ≠ p)
    (hl : h.links.left n = none) (hr : h.links.right n = none) :
    spInsert fuel (some a) ⟨h.links.setParent n q, Function.update h.hint n k⟩ (some p) n d =
      spInsert fuel (some a) h (some p) n d := by
  have hlinks : ∀ m : Links ℕ, (m.setParent n q).setParent n (some p) = m.setParent n (some p) := by
    intro m
    simp [Links.setParent]
  cases fuel with
  | zero => cases d <;> rfl
  | succ fuel =>
    cases d with
    | left =>
      have hcomm : ((h.links.setParent n q).setLeft p (some n)).setParent n (some p) =
          (h.links.setLeft p (some n)).setParent n (some p) := hlinks (h.links.setLeft p (some n))
      simp only [spInsert, hcomm]
      rw [update_leaf (by simp [hn, hl]) (by simp [hr]), update_leaf (by simp [hn, hl]) (by simp [hr])]
      simp
    | right =>
      have hcomm : ((h.links.setParent n q).setRight p (some n)).setParent n (some p) =
          (h.links.setRight p (some n)).setParent n (some p) := hlinks (h.links.setRight p (some n))
      simp only [spInsert, hcomm]
      rw [update_leaf (by simp [hl]) (by simp [hn, hr]), update_leaf (by simp [hl]) (by simp [hn, hr])]
      simp

end Kmi.SpTree
