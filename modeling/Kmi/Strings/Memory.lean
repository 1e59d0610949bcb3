import Kmi.Elf.Model
import Kmi.Library.LittleEndian

/-! `memset` and `memcpy` of `src/string.c`, with their paths for aligned memory. -/

namespace Kmi.Strings

open Kmi.Mem Kmi.Library.LittleEndian
open Elf (Bytes)

def setBytes : ℕ → ℕ → UInt8 → Bytes → Bytes
  | 0, _, _, m => m
  | num + 1, p, c, m => setBytes num (p + 1) c (Function.update m p c)

def copyBytes : ℕ → ℕ → ℕ → Bytes → Bytes
  | 0, _, _, m => m
  | num + 1, m2, m1, m => copyBytes num (m2 + 1) (m1 + 1) (Function.update m m2 (m m1))

/-- The eight statements of an aligned loop, from index `i` on. -/
def unrolled (step : ℕ → Bytes → Bytes) (i : ℕ) (m : Bytes) : Bytes :=
  step (i + 7) (step (i + 6) (step (i + 5) (step (i + 4) (step (i + 3) (step (i + 2) (step (i + 1)
    (step (i + 0) m)))))))

/-- `for (i = 0; i < count; i += MAGIC_NUMBER)` -/
def alignedLoop (step : ℕ → Bytes → Bytes) (count : ℕ) (m : Bytes) : Bytes :=
  (List.range ((count + 7) / 8)).foldl (fun m k => unrolled step (8 * k) m) m

def alignedMemcpy (m : Bytes) (dst src num : ℕ) : Bytes :=
  alignedLoop (fun i m => storeBits m (dst + 8 * i) (loadBits 64 m (src + 8 * i))) (num / 8) m

def toUchar (value : BitVec 32) : UInt8 := ⟨value.setWidth 8⟩

section Shift

-- the shift of an `int`, which is undefined where it is by 32 and more
variable (shl : BitVec 32 → ℕ → BitVec 32)

/-- The value in `bits`. The operand of the shift is an `int`, and so is its result. -/
def replicate (value : BitVec 32) : BitVec 64 :=
  (List.range 8).foldl (fun bits i => bits ||| (shl ((toUchar value).toBitVec.setWidth 32) (i * 8)).signExtend 64) 0#64

def alignedMemset (m : Bytes) (ptr : ℕ) (value : BitVec 32) (num : ℕ) : Bytes :=
  alignedLoop (fun i m => storeBits m (ptr + 8 * i) (replicate shl value)) (num / 8) m

def memset (m : Bytes) (ptr : ℕ) (value : BitVec 32) (num : ℕ) : Bytes :=
  if isAligned ptr 64 && isAligned num 64 then alignedMemset shl m ptr value num
  else setBytes num ptr (toUchar value) m

end Shift

def memcpy (m : Bytes) (dst src num : ℕ) : Bytes :=
  if isAligned dst 64 && isAligned src 64 && isAligned num 64 then alignedMemcpy m dst src num
  else copyBytes num dst src m

structure ShiftsInt (shl : BitVec 32 → ℕ → BitVec 32) : Prop where
  inRange : ∀ x n, n < 32 → shl x n = x <<< n
  zero : ∀ n, shl 0#32 n = 0#32

variable {shl : BitVec 32 → ℕ → BitVec 32} {m m' : Bytes} {ptr dst src num count x i j k : ℕ} {c : UInt8}
  {value : BitVec 32} {step : ℕ → Bytes → Bytes}

lemma setBytes_apply : setBytes num ptr c m x = if ptr ≤ x ∧ x < ptr + num then c else m x := by
  induction num generalizing ptr m with
  | zero => rw [setBytes, if_neg (by omega)]
  | succ num ih =>
    rw [setBytes, ih]
    by_cases hx : x = ptr
    · subst hx
      rw [if_neg (by omega), if_pos (by omega), Function.update_self]
    · rw [Function.update_of_ne hx]
      split_ifs <;> first | rfl | omega

lemma copyBytes_apply (hapart : dst + num ≤ src ∨ src + num ≤ dst) :
    copyBytes num dst src m x = if dst ≤ x ∧ x < dst + num then m (src + (x - dst)) else m x := by
  induction num generalizing dst src m with
  | zero => rw [copyBytes, if_neg (by omega)]
  | succ num ih =>
    rw [copyBytes, ih (by omega)]
    by_cases hx : x = dst
    · subst hx
      rw [if_neg (by omega), if_pos (by omega), Function.update_self, Nat.sub_self, Nat.add_zero]
    · rw [Function.update_of_ne hx]
      by_cases hin : dst + 1 ≤ x ∧ x < dst + 1 + num
      · rw [if_pos hin, if_pos (by omega), Function.update_of_ne (by omega)]
        congr 1
        omega
      · rw [if_neg hin, if_neg (by omega)]

lemma alignedLoop_rule (P : ℕ → Bytes → Prop) (hcount : 8 ∣ count) (h0 : P 0 m)
    (hstep : ∀ i < count, ∀ m, P i m → P (i + 1) (step i m)) : P count (alignedLoop step count m) := by
  obtain ⟨k, rfl⟩ := hcount
  have hrounds : (8 * k + 7) / 8 = k := by omega
  rw [alignedLoop, hrounds]
  have hall : ∀ j ≤ k, P (8 * j) ((List.range j).foldl (fun m k => unrolled step (8 * k) m) m) := by
    intro j hj
    induction j with
    | zero => exact h0
    | succ j ih =>
      rw [List.range_succ, List.foldl_append, List.foldl_cons, List.foldl_nil, unrolled]
      have h := hstep (8 * j) (by omega) _ (ih (by omega))
      have h := hstep (8 * j + 1) (by omega) _ h
      have h := hstep (8 * j + 2) (by omega) _ h
      have h := hstep (8 * j + 3) (by omega) _ h
      have h := hstep (8 * j + 4) (by omega) _ h
      have h := hstep (8 * j + 5) (by omega) _ h
      have h := hstep (8 * j + 6) (by omega) _ h
      exact hstep (8 * j + 7) (by omega) _ h
  exact hall k le_rfl

lemma alignedMemset_apply (hnum : num % 64 = 0) : alignedMemset shl m ptr value num x =
    if ptr ≤ x ∧ x < ptr + num then byteOf (replicate shl value) ((x - ptr) % 8) else m x := by
  have h := @alignedLoop_rule m (num / 8) (fun i m => storeBits m (ptr + 8 * i) (replicate shl value))
    (fun i m' => ∀ x, m' x = if ptr ≤ x ∧ x < ptr + 8 * i then byteOf (replicate shl value) ((x - ptr) % 8)
      else m x) (by omega) (fun x => by rw [if_neg (by omega)]) fun i _ m' hm x => by
    by_cases hin : ptr + 8 * i ≤ x ∧ x < ptr + 8 * i + 64 / 8
    · rw [storeBits_inside hin.1 hin.2, if_pos (by omega)]
      congr 1
      omega
    · rw [storeBits_outside (by omega), hm x]
      split_ifs <;> first | rfl | omega
  rw [alignedMemset, h x]
  congr 2
  rw [Nat.mul_div_cancel' (by omega)]

lemma alignedMemcpy_apply (hnum : num % 64 = 0) (hapart : dst + num ≤ src ∨ src + num ≤ dst) :
    alignedMemcpy m dst src num x = if dst ≤ x ∧ x < dst + num then m (src + (x - dst)) else m x := by
  have h := @alignedLoop_rule m (num / 8) (fun i m => storeBits m (dst + 8 * i) (loadBits 64 m (src + 8 * i)))
    (fun i m' => ∀ x, m' x = if dst ≤ x ∧ x < dst + 8 * i then m (src + (x - dst)) else m x) (by omega)
    (fun x => by rw [if_neg (by omega)]) fun i hi m' hm x => by
    by_cases hin : dst + 8 * i ≤ x ∧ x < dst + 8 * i + 64 / 8
    · rw [storeBits_inside hin.1 hin.2, byteOf_loadBits (by omega), hm, if_neg (by omega), if_pos (by omega)]
      congr 1
      omega
    · rw [storeBits_outside (by omega), hm x]
      split_ifs <;> first | rfl | omega
  rw [alignedMemcpy, h x]
  congr 2
  rw [Nat.mul_div_cancel' (by omega)]

lemma memcpy_eq (hapart : dst + num ≤ src ∨ src + num ≤ dst) :
    memcpy m dst src num = copyBytes num dst src m := by
  rw [memcpy]
  split_ifs with hal
  · simp only [Bool.and_eq_true] at hal
    have hnum := (isAligned_iff (show 0 < 64 by decide)).1 hal.2
    funext x
    rw [alignedMemcpy_apply hnum hapart, copyBytes_apply hapart]
  · rfl

lemma replicate_high (hi : i < 32) (hj : j < 32) :
    (replicate shl value).getLsbD (32 + i) = (replicate shl value).getLsbD (32 + j) := by
  rw [replicate]
  generalize List.range 8 = l
  have hall : ∀ bits : BitVec 64, bits.getLsbD (32 + i) = bits.getLsbD (32 + j) →
      (l.foldl (fun bits k => bits ||| (shl ((toUchar value).toBitVec.setWidth 32) (k * 8)).signExtend 64)
        bits).getLsbD (32 + i) =
      (l.foldl (fun bits k => bits ||| (shl ((toUchar value).toBitVec.setWidth 32) (k * 8)).signExtend 64)
        bits).getLsbD (32 + j) := by
    induction l with
    | nil => exact fun _ h => h
    | cons k l ih =>
      intro bits h
      rw [List.foldl_cons]
      apply ih
      rw [BitVec.getLsbD_or, BitVec.getLsbD_or, BitVec.getLsbD_signExtend, BitVec.getLsbD_signExtend, h,
        if_neg (by omega), if_neg (by omega), decide_eq_true (by omega), decide_eq_true (by omega)]
  exact hall 0#64 (by rw [BitVec.getLsbD_zero, BitVec.getLsbD_zero])

lemma eq_of_bits {b : Bool} (h : ∀ i < 8, c.toBitVec.getLsbD i = b) : c = 0 ∨ c = 255 := by
  cases b with
  | false =>
    left
    apply UInt8.toBitVec_inj.1
    apply BitVec.eq_of_getLsbD_eq
    intro i hi
    rw [h i hi]
    exact BitVec.getLsbD_zero.symm
  | true =>
    right
    apply UInt8.toBitVec_inj.1
    apply BitVec.eq_of_getLsbD_eq
    intro i hi
    rw [h i hi]
    revert i
    decide

lemma replicate_zero (h : ShiftsInt shl) (hc : toUchar value = 0) : replicate shl value = 0#64 := by
  have hz : (0 : UInt8).toBitVec.setWidth 32 = 0#32 := rfl
  rw [replicate, hc, hz]
  simp only [h.zero]
  decide

lemma replicate_ones (h : ShiftsInt shl) (hc : toUchar value = 255) :
    replicate shl value = BitVec.allOnes 64 := by
  have hz : (255 : UInt8).toBitVec.setWidth 32 = 255#32 := rfl
  have hlow : 0#64 ||| (255#32 <<< (0 * 8)).signExtend 64 ||| (255#32 <<< (1 * 8)).signExtend 64 |||
      (255#32 <<< (2 * 8)).signExtend 64 ||| (255#32 <<< (3 * 8)).signExtend 64 = BitVec.allOnes 64 := by
    decide
  rw [replicate, hc, hz, show List.range 8 = [0, 1, 2, 3, 4, 5, 6, 7] from rfl]
  simp only [List.foldl_cons, List.foldl_nil]
  rw [h.inRange _ (0 * 8) (by omega), h.inRange _ (1 * 8) (by omega), h.inRange _ (2 * 8) (by omega),
    h.inRange _ (3 * 8) (by omega), hlow]
  simp only [BitVec.allOnes_or]

lemma replicate_iff (h : ShiftsInt shl) :
    (∀ k < 8, byteOf (replicate shl value) k = toUchar value) ↔ toUchar value = 0 ∨ toUchar value = 255 := by
  constructor
  · intro hall
    apply @eq_of_bits _ ((replicate shl value).getLsbD (32 + 0))
    intro i hi
    rw [← hall 4 (by omega), getLsbD_byteOf hi]
    exact replicate_high (by omega) (by omega)
  · rintro (hc | hc) k hk
    · rw [replicate_zero h hc, hc]
      apply byte_ext
      intro i hi
      rw [getLsbD_byteOf hi, BitVec.getLsbD_zero]
      exact BitVec.getLsbD_zero.symm
    · rw [replicate_ones h hc, hc]
      apply byte_ext
      intro i hi
      rw [getLsbD_byteOf hi, BitVec.getLsbD_allOnes, decide_eq_true (by omega)]
      revert i
      decide

lemma alignedMemset_eq (hnum : num % 64 = 0) (hrep : ∀ k < 8, byteOf (replicate shl value) k = toUchar value) :
    alignedMemset shl m ptr value num = setBytes num ptr (toUchar value) m := by
  funext x
  rw [alignedMemset_apply hnum, setBytes_apply, hrep _ (Nat.mod_lt _ (by decide))]

lemma memset_eq (hrep : ∀ k < 8, byteOf (replicate shl value) k = toUchar value) :
    memset shl m ptr value num = setBytes num ptr (toUchar value) m := by
  rw [memset]
  split_ifs with hal
  · simp only [Bool.and_eq_true] at hal
    exact alignedMemset_eq ((isAligned_iff (show 0 < 64 by decide)).1 hal.2) hrep
  · rfl

lemma memset_zero (h : ShiftsInt shl) : memset shl m ptr 0#32 num = setBytes num ptr 0 m := by
  have hc : toUchar 0#32 = 0 := rfl
  rw [memset_eq ((replicate_iff h).2 (.inl hc)), hc]

/-- `memcpy` is the loop over the bytes for any two buffers that are apart. `memset` is it unless it fills aligned
memory with a byte that is neither 0 nor 255. -/
theorem fast_eq_plain_iff (h : ShiftsInt shl) (m : Bytes) (value : BitVec 32) (ptr dst src num len : ℕ)
    (hapart : dst + len ≤ src ∨ src + len ≤ dst) :
    memcpy m dst src len = copyBytes len dst src m ∧
      (memset shl m ptr value num = setBytes num ptr (toUchar value) m ↔
        (isAligned ptr 64 = true → isAligned num 64 = true →
          num = 0 ∨ toUchar value = 0 ∨ toUchar value = 255)) := by
  refine ⟨memcpy_eq hapart, ?_⟩
  constructor
  · intro heq hptr hnum
    have hnum' := (isAligned_iff (show 0 < 64 by decide)).1 hnum
    by_cases h0 : num = 0
    · exact .inl h0
    · right
      rw [← replicate_iff h]
      intro k hk
      have hk' := congrFun heq (ptr + k)
      rw [memset, if_pos (by rw [hptr, hnum, Bool.and_self]), alignedMemset_apply hnum', setBytes_apply,
        if_pos (by omega), if_pos (by omega), Nat.add_sub_cancel_left, Nat.mod_eq_of_lt hk] at hk'
      exact hk'
  · intro hcond
    by_cases hal : (isAligned ptr 64 && isAligned num 64) = true
    · have hal' := Bool.and_eq_true_iff.1 hal
      rcases hcond hal'.1 hal'.2 with rfl | hc
      · rw [memset, if_pos hal]
        funext x
        rw [alignedMemset_apply (Nat.zero_mod 64), setBytes_apply]
        split_ifs <;> first | rfl | omega
      · exact memset_eq ((replicate_iff h).2 hc)
    · rw [memset, if_neg hal]

def sllw (x : BitVec 32) (n : ℕ) : BitVec 32 := x <<< (n % 32)

lemma shiftsInt_sllw : ShiftsInt sllw where
  inRange _ _ hn := by rw [sllw, Nat.mod_eq_of_lt hn]
  zero n := BitVec.zero_shiftLeft (n % 32)

theorem fast_eq_plain_iff_sllw :
    ShiftsInt sllw ∧ (0 + 64 ≤ 64 ∨ 64 + 64 ≤ 0) ∧
      memcpy (fun _ => 7) 0 64 64 = copyBytes 64 0 64 (fun _ => 7) ∧
      (memset sllw (fun _ => 7) 0 5#32 64 = setBytes 64 0 (toUchar 5#32) (fun _ => 7) ↔
        (isAligned 0 64 = true → isAligned 64 64 = true →
          64 = 0 ∨ toUchar 5#32 = 0 ∨ toUchar 5#32 = 255)) :=
  ⟨shiftsInt_sllw, .inl (by decide), fast_eq_plain_iff shiftsInt_sllw _ _ _ _ _ _ _ (.inl (by decide))⟩

theorem aligned_memset_drops_byte : memset sllw (fun _ => 0) 0 1#32 64 4 = 0 ∧
    setBytes 64 0 (toUchar 1#32) (fun _ => 0) 4 = 1 := by
  have hnum : 64 % 64 = 0 := rfl
  have hal : (isAligned 0 64 && isAligned 64 64) = true := by decide
  constructor
  · rw [memset, if_pos hal, alignedMemset_apply hnum]
    decide
  · rw [setBytes_apply]
    decide

end Kmi.Strings
