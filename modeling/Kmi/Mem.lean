import Mathlib.Tactic

/-! Page orders of a 64-bit machine as `init_mem` sets them up, the aligning helpers of
`include/kmi/utils.h` at `size_t` and the status codes of the memory code. -/

namespace Kmi.Mem

def OK : ℤ := 0

def ERR_NF : ℤ := -1

def ERR_ALIGN : ℤ := -2

def ERR_OOMEM : ℤ := -4

def ERR_INVAL : ℤ := -6

def ERR_MISC : ℤ := -8

def maxOrder : ℕ := 2

def orderWidth (order : ℕ) : ℕ := if order ≤ maxOrder then 512 else 0

def orderShift (order : ℕ) : ℕ := 12 + 9 * order

def orderSize (order : ℕ) : ℕ := if order ≤ maxOrder then 2 ^ orderShift order else 0

def basePageSize : ℕ := orderSize 0

def alignDown (val a : ℕ) : ℕ := if a = 0 then val else val - val % a

def alignUp (val a : ℕ) : ℕ :=
  if alignDown val a = val then val else (alignDown val a + a) % 2 ^ 64

def decr (n : ℕ) : ℕ := (n + (2 ^ 64 - 1)) % 2 ^ 64

def sub64 (a b : ℕ) : ℕ := (a + (2 ^ 64 - b)) % 2 ^ 64

def isAligned (val a : ℕ) : Bool := alignDown val a = val

lemma decr_eq {n : ℕ} (hpos : 0 < n) (hn : n < 2 ^ 64) : decr n = n - 1 := by
  rw [decr]
  omega

lemma basePageSize_eq : basePageSize = 4096 := by decide

lemma orderSize_eq {o : ℕ} (h : o ≤ 2) : orderSize o = 4096 * 512 ^ o := by
  simp only [orderSize, maxOrder, h, if_true, orderShift]
  rw [pow_add, pow_mul]
  norm_num

lemma orderSize_pos {o : ℕ} (h : o ≤ 2) : 0 < orderSize o := by
  rw [orderSize_eq h]
  positivity

lemma orderSize_succ {o : ℕ} (h : o < 2) : orderSize (o + 1) = orderSize o * 512 := by
  rw [orderSize_eq (by omega), orderSize_eq (by omega), pow_succ]
  ring

lemma alignDown_eq {val a : ℕ} (ha : 0 < a) : alignDown val a = a * (val / a) := by
  have := Nat.div_add_mod val a
  rw [alignDown, if_neg (by omega)]
  omega

lemma isAligned_iff {val a : ℕ} (ha : 0 < a) : isAligned val a = true ↔ val % a = 0 := by
  have := Nat.mod_le val a
  rw [isAligned, decide_eq_true_eq, alignDown, if_neg (by omega)]
  omega

lemma alignUp_eq {val a : ℕ} (ha : 0 < a) (hv : val + a ≤ 2 ^ 64) :
    alignUp val a = a * ((val + (a - 1)) / a) := by
  have hdiv := Nat.div_add_mod val a
  have hlt := Nat.mod_lt val ha
  rw [alignUp, alignDown_eq ha]
  split_ifs with h
  · have : val + (a - 1) = (a - 1) + a * (val / a) := by omega
    have hz : (a - 1) / a = 0 := Nat.div_eq_of_lt (by omega)
    rw [this, Nat.add_mul_div_left _ _ ha, hz, zero_add]
    exact h.symm
  · have : val + (a - 1) = (val % a - 1) + a * (val / a + 1) := by
      rw [mul_add, mul_one]
      omega
    have hz : (val % a - 1) / a = 0 := Nat.div_eq_of_lt (by omega)
    rw [this, Nat.add_mul_div_left _ _ ha, hz, zero_add, mul_add, mul_one]
    exact Nat.mod_eq_of_lt (by omega)

end Kmi.Mem
