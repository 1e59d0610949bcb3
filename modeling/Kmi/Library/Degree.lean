import Mathlib.Data.Finset.Card
import Mathlib.Data.Set.Card

/-! Counted references: how many members of a finite set have a given key. -/

namespace Kmi.Library.Degree

variable {ι κ : Type*} [DecidableEq κ] {s : Finset ι} {f : ι → κ} {a : ι} {k : κ}

def degree (s : Finset ι) (f : ι → κ) (k : κ) : ℕ := {a ∈ s | f a = k}.card

lemma degree_insert [DecidableEq ι] (ha : a ∉ s) (f : ι → κ) (k : κ) :
    degree (insert a s) f k = degree s f k + if f a = k then 1 else 0 := by
  rw [degree, degree, Finset.filter_insert]
  split_ifs
  · apply Finset.card_insert_of_notMem
    exact fun h => ha (Finset.mem_filter.1 h).1
  · rfl

lemma degree_erase [DecidableEq ι] (ha : a ∈ s) (f : ι → κ) (k : κ) :
    degree s f k = degree (s.erase a) f k + if f a = k then 1 else 0 := by
  have h := degree_insert (Finset.notMem_erase a s) f k
  rwa [Finset.insert_erase ha] at h

lemma degree_eq_zero : degree s f k = 0 ↔ ∀ a ∈ s, f a ≠ k := by
  rw [degree, Finset.card_eq_zero, Finset.filter_eq_empty_iff]

lemma degree_pos (ha : a ∈ s) (hk : f a = k) : 0 < degree s f k := by
  apply Nat.pos_of_ne_zero
  intro h
  exact degree_eq_zero.1 h a ha hk

lemma degree_eq_ncard {α : Type*} {p : α → Prop} {g : ι → α} (hinj : Set.InjOn g s)
    (hp : ∀ x, p x ↔ ∃ a ∈ s, f a = k ∧ g a = x) : degree s f k = Set.ncard {x | p x} := by
  have himage : {x | p x} = g '' ({a ∈ s | f a = k} : Finset ι) := by
    ext x
    rw [Set.mem_ofPred_eq, hp, Set.mem_image]
    constructor
    · rintro ⟨a, ha, hk, rfl⟩
      exact ⟨a, Finset.mem_coe.2 (Finset.mem_filter.2 ⟨ha, hk⟩), rfl⟩
    · rintro ⟨a, ha, rfl⟩
      obtain ⟨ha, hk⟩ := Finset.mem_filter.1 (Finset.mem_coe.1 ha)
      exact ⟨a, ha, hk, rfl⟩
  rw [himage, Set.InjOn.ncard_image, Set.ncard_coe_finset, degree]
  intro a ha b hb
  exact hinj (Finset.mem_filter.1 (Finset.mem_coe.1 ha)).1 (Finset.mem_filter.1 (Finset.mem_coe.1 hb)).1

end Kmi.Library.Degree
