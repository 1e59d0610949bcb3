import Kmi.Vmem.Graves

/-! A clone of a table with gravestones: both loops of `clone_uvmem` stop at an empty
entry, and what they do not reach is empty to a walk. -/

namespace Kmi.Vmem

open Kmi.Mem

variable {r b : Table} {i left n : ℕ}

lemma cloneUsed_stops (h : (cloneUsed r left i b).2 = n) (hn : n < i + left) : r n = 0 := by
  induction left generalizing i b with
  | zero =>
    change i = n at h
    omega
  | succ left ih =>
    rw [cloneUsed] at h
    split_ifs at h with hz
    · rwa [← h]
    · exact ih h (by omega)

lemma clearUsed_clears (left i : ℕ) (b : Table) :
    ∃ m, i ≤ m ∧ m ≤ i + left ∧ (m < i + left → b m = 0) ∧
      ∀ j, clearUsed left i b j = if i ≤ j ∧ j < m then 0 else b j := by
  induction left generalizing i b with
  | zero =>
    refine ⟨i, le_rfl, le_rfl, fun h => by omega, fun j => ?_⟩
    rw [if_neg (by omega)]
    rfl
  | succ left ih =>
    rw [clearUsed]
    split_ifs with hz
    · refine ⟨i, le_rfl, by omega, fun _ => hz, fun j => ?_⟩
      rw [if_neg (by omega)]
    · obtain ⟨m, him, hm, hstop, hj⟩ := ih (i + 1) (Function.update b i 0)
      refine ⟨m, by omega, by omega, fun h => ?_, fun j => ?_⟩
      · have h0 := hstop (by omega)
        rwa [Function.update_of_ne (by omega)] at h0
      · rw [hj j]
        by_cases hji : j = i
        · rw [if_neg (by omega), if_pos (by omega), hji, Function.update_self]
        · rw [Function.update_of_ne hji]
          congr 1
          apply propext
          omega

lemma Graved.unused_behind (h : Graved b) {j : ℕ} (hz : b i = 0) (hij : i ≤ j) (hj : j < CSTACK_PAGE) :
    unused (b j) = true := by
  by_cases he : i = j
  · rw [← he, hz]
    rfl
  · by_contra hu
    exact h j hj (Bool.eq_false_iff.2 hu) i (by omega) hz

lemma cloneUvmem_graved (hr : Graved r) (hb : Graved b) :
    ∃ n ≤ CSTACK_PAGE, (∀ j < n, r j ≠ 0 ∧ cloneUvmem r b j = r j) ∧
      ∀ j, n ≤ j → j < CSTACK_PAGE → unused (r j) = true ∧ unused (cloneUvmem r b j) = true := by
  obtain ⟨n, -, hle, hn, hne, hcopy⟩ := cloneUsed_spec r b CSTACK_PAGE 0
  have hstop := @cloneUsed_stops r b 0 CSTACK_PAGE n hn
  obtain ⟨m, hnm, hm, hz, hclear⟩ := clearUsed_clears (CSTACK_PAGE - n) n (cloneUsed r CSTACK_PAGE 0 b).1
  have hj : ∀ j, cloneUvmem r b j = if n ≤ j ∧ j < m then 0 else if j < n then r j else b j := by
    intro j
    rw [cloneUvmem]
    dsimp only
    rw [hn, hclear, hcopy]
    simp only [Nat.zero_le, true_and]
  refine ⟨n, by omega, fun j hjn => ⟨hne j (by omega) hjn, ?_⟩, fun j hnj hjc => ⟨?_, ?_⟩⟩
  · rw [hj, if_neg (by omega), if_pos hjn]
  · exact hr.unused_behind (hstop (by omega)) hnj hjc
  · rw [hj, if_neg (show ¬ j < n by omega)]
    split_ifs with hjm
    · rfl
    · have hbm := hz (by omega)
      rw [hcopy, if_neg (by omega)] at hbm
      exact hb.unused_behind hbm (by omega) hjc

lemma cloneUvmem_sameEntry (hr : Graved r) (hb : Graved b) {j : ℕ} (hj : j < CSTACK_PAGE) :
    SameEntry (r j) (cloneUvmem r b j) := by
  obtain ⟨n, -, hcopy, hbehind⟩ := cloneUvmem_graved hr hb
  by_cases hjn : j < n
  · exact .inl (hcopy j hjn).2.symm
  · exact .inr (hbehind j (by omega) hj)

lemma statVpage_sameEntry {root root' : Table} {low : ℕ → Table} {v : ℕ}
    (h : SameEntry (root (vmToIndex v maxOrder)) (root' (vmToIndex v maxOrder))) :
    statVpage ⟨root', low⟩ v = statVpage ⟨root, low⟩ v := by
  obtain h | ⟨hu, hu'⟩ := h
  · exact statVpage_congr h.symm
  · have hnone : ∀ b : Table, unused (b (vmToIndex v maxOrder)) = true → statVpage ⟨b, low⟩ v = none := by
      intro b hb
      cases hs : statVpage ⟨b, low⟩ v with
      | none => rfl
      | some x =>
        have hf := statVpage_used hs
        rw [show (Space.mk b low).root = b from rfl, hb] at hf
        cases hf
    rw [hnone root hu, hnone root' hu']

theorem clone_is_source (hr : Graved r) (hb : Graved b) (low : ℕ → Table) :
    (∀ v, vmToIndex v maxOrder < CSTACK_PAGE →
      statVpage ⟨cloneUvmem r b, low⟩ v = statVpage ⟨r, low⟩ v) ∧
      Graved (cloneUvmem r b) ∧ ∀ i, CSTACK_PAGE ≤ i → cloneUvmem r b i = b i := by
  refine ⟨fun v hv => statVpage_sameEntry (cloneUvmem_sameEntry hr hb hv), ?_,
    fun i => cloneUvmem_above r b⟩
  obtain ⟨n, -, hcopy, hbehind⟩ := cloneUvmem_graved hr hb
  intro j hj hu i hij
  have hjn : j < n := by
    by_contra hjn
    rw [(hbehind j (by omega) hj).2] at hu
    cases hu
  obtain ⟨hne, he⟩ := hcopy i (by omega)
  rw [he]
  exact hne

def steppedTable : Table := fun i =>
  if i = 0 then GRAVESTONE else if i = 1 then toPte 0xc0000000 0xdf else 0

def lastingTable : Table := fun i => if i < 3 then toPte 0x80000000 0xdf else 0

lemma graved_of_used {n : ℕ} (hn : ∀ i < n, b i ≠ 0) (hz : ∀ i, n ≤ i → b i = 0) : Graved b := by
  intro j _ hu i hij
  apply hn
  by_contra hni
  rw [hz j (by omega)] at hu
  cases hu

theorem clone_is_source_gravestone :
    (∀ v, vmToIndex v maxOrder < CSTACK_PAGE →
      statVpage ⟨cloneUvmem steppedTable lastingTable, fun _ _ => 0⟩ v =
        statVpage ⟨steppedTable, fun _ _ => 0⟩ v) ∧
      Graved (cloneUvmem steppedTable lastingTable) ∧
      ∀ i, CSTACK_PAGE ≤ i → cloneUvmem steppedTable lastingTable i = lastingTable i := by
  have hs : Graved steppedTable := by
    apply @graved_of_used steppedTable 2
    · decide
    · intro i hi
      rw [steppedTable, if_neg (by omega), if_neg (by omega)]
  have hl : Graved lastingTable := by
    apply @graved_of_used lastingTable 3
    · decide
    · intro i hi
      rw [lastingTable, if_neg (by omega)]
  exact clone_is_source hs hl fun _ _ => 0

end Kmi.Vmem
