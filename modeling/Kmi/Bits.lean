import Kmi.Pmem.Model
import Kmi.Strings.Memory

/-! The bitmaps of `include/kmi/bits.h`, found and changed in bytes and searched in words. -/

namespace Kmi.Bits

open Kmi.Library.LittleEndian
open Elf (Bytes)
open Strings (memset setBytes setBytes_apply memset_zero ShiftsInt sllw shiftsInt_sllw)

def isNset (x : UInt8) (y : ℕ) : Bool := x.toBitVec.setWidth 64 &&& (1#64 <<< y) != 0#64

def setNbit (x : UInt8) (y : ℕ) : UInt8 := ⟨(x.toBitVec.setWidth 64 ||| (1#64 <<< y)).setWidth 8⟩

def clearNbit (x : UInt8) (y : ℕ) : UInt8 := ⟨(x.toBitVec.setWidth 64 &&& ~~~(1#64 <<< y)).setWidth 8⟩

def bitmapIsSet (m : Bytes) (bmap n : ℕ) : Bool :=
  let i := n / 8
  let r := n - i * 8
  isNset (m (bmap + i)) r

def bitmapSet (m : Bytes) (bmap n : ℕ) : Bytes :=
  let i := n / 8
  let r := n - i * 8
  Function.update m (bmap + i) (setNbit (m (bmap + i)) r)

def bitmapClear (m : Bytes) (bmap n : ℕ) : Bytes :=
  let i := n / 8
  let r := n - i * 8
  Function.update m (bmap + i) (clearNbit (m (bmap + i)) r)

def bitmapClearAll (shl : BitVec 32 → ℕ → BitVec 32) (m : Bytes) (bmap n : ℕ) : Bytes :=
  let i := n / 8
  let r := n - i * 8
  (List.range r).foldl (fun m k => Function.update m (bmap + i) (clearNbit (m (bmap + i)) k))
    (memset shl m bmap 0#32 i)

def builtinFfs (v : BitVec 32) : ℕ := if v = 0#32 then 0 else v.ctz.toNat + 1

/-- The statements of `ffs` from `int c = 32` on, once `v &= -v` has left one bit. -/
def ffsMasks (v : BitVec 32) : ℕ :=
  let c := 32
  let c := if v != 0#32 then c - 1 else c
  let c := if v &&& 0x0000FFFF#32 != 0#32 then c - 16 else c
  let c := if v &&& 0x00FF00FF#32 != 0#32 then c - 8 else c
  let c := if v &&& 0x0F0F0F0F#32 != 0#32 then c - 4 else c
  let c := if v &&& 0x33333333#32 != 0#32 then c - 2 else c
  let c := if v &&& 0x55555555#32 != 0#32 then c - 1 else c
  c + 1

def ffs (v : BitVec 32) : ℕ :=
  if v = 0#32 then 0
  else if v = BitVec.intMin 32 then 32
  else ffsMasks (v &&& -v)

/-- The loops of the search: the first of `left` indices from `k` on that stops them. -/
def scan (stop : ℕ → Bool) (otherwise : ℕ) : ℕ → ℕ → ℕ
  | 0, _ => otherwise
  | left + 1, k => if stop k then k else scan stop otherwise left (k + 1)

def imap (m : Bytes) (bmap c : ℕ) : BitVec 32 := loadBits 32 m (bmap + 4 * c)

def bitmapFindFirst (ffs : BitVec 32 → ℕ) (m : Bytes) (bmap n : ℕ) (set : Bool) : ℕ :=
  let i := n / 32
  let target := if set then 0#32 else -1#32
  let c := scan (fun c => imap m bmap c != target) i i 0
  let b := c * 32
  let check := if set then imap m bmap c else ~~~imap m bmap c
  if c ≠ i then b + ffs check - 1
  else
    let r := n - i * 32
    if r = 0 then (n + 1) % 2 ^ 64
    else scan (fun k => bitmapIsSet m bmap k == set) ((n + 1) % 2 ^ 64) r b

variable {m : Bytes} {bmap n left k i j c otherwise : ℕ} {b set : Bool} {x : UInt8} {v : BitVec 32}
  {stop : ℕ → Bool} {shl : BitVec 32 → ℕ → BitVec 32}

lemma isNset_eq (hi : i < 8) : isNset x i = x.toBitVec.getLsbD i := by
  have hone : BitVec.twoPow 64 i ≠ 0#64 := by
    intro h
    have hbit := congrArg (fun y => BitVec.getLsbD y i) h
    rw [BitVec.getLsbD_twoPow, BitVec.getLsbD_zero, decide_eq_true (by omega), decide_eq_true rfl] at hbit
    exact absurd hbit (by decide)
  rw [isNset, ← BitVec.twoPow_eq, BitVec.and_twoPow, BitVec.getLsbD_setWidth, decide_eq_true (by omega),
    Bool.true_and]
  cases x.toBitVec.getLsbD i with
  | false => rfl
  | true => exact bne_iff_ne.2 hone

lemma getLsbD_setNbit (hi : i < 8) (hj : j < 8) :
    (setNbit x i).toBitVec.getLsbD j = if j = i then true else x.toBitVec.getLsbD j := by
  rw [setNbit, ← BitVec.twoPow_eq, BitVec.getLsbD_setWidth, BitVec.getLsbD_or, BitVec.getLsbD_setWidth,
    BitVec.getLsbD_twoPow, decide_eq_true hj, decide_eq_true (show j < 64 by omega),
    decide_eq_true (show i < 64 by omega), Bool.true_and, Bool.true_and, Bool.true_and]
  split_ifs with hij
  · rw [decide_eq_true hij.symm, Bool.or_true]
  · rw [decide_eq_false (Ne.symm hij), Bool.or_false]

lemma getLsbD_clearNbit (hi : i < 8) (hj : j < 8) :
    (clearNbit x i).toBitVec.getLsbD j = if j = i then false else x.toBitVec.getLsbD j := by
  rw [clearNbit, ← BitVec.twoPow_eq, BitVec.getLsbD_setWidth, BitVec.getLsbD_and, BitVec.getLsbD_setWidth,
    BitVec.getLsbD_not, BitVec.getLsbD_twoPow, decide_eq_true hj, decide_eq_true (show j < 64 by omega),
    decide_eq_true (show i < 64 by omega), Bool.true_and, Bool.true_and, Bool.true_and, Bool.true_and]
  split_ifs with hij
  · rw [decide_eq_true hij.symm, Bool.not_true, Bool.and_false]
  · rw [decide_eq_false (Ne.symm hij), Bool.not_false, Bool.and_true]

lemma bitmapIsSet_eq : bitmapIsSet m bmap k = (m (bmap + k / 8)).toBitVec.getLsbD (k % 8) := by
  have hr : k - k / 8 * 8 = k % 8 := by omega
  rw [bitmapIsSet, hr, isNset_eq (Nat.mod_lt k (by decide))]

lemma bitmapIsSet_update : bitmapIsSet (Function.update m (bmap + i) x) bmap k =
    if k / 8 = i then x.toBitVec.getLsbD (k % 8) else bitmapIsSet m bmap k := by
  rw [bitmapIsSet_eq, bitmapIsSet_eq]
  split_ifs with hk
  · rw [hk, Function.update_self]
  · rw [Function.update_of_ne (by omega)]

lemma bitmapIsSet_bitmapSet :
    bitmapIsSet (bitmapSet m bmap n) bmap k = if k = n then true else bitmapIsSet m bmap k := by
  rw [bitmapSet, bitmapIsSet_update]
  by_cases hbyte : k / 8 = n / 8
  · rw [if_pos hbyte, getLsbD_setNbit (by omega) (by omega), ← hbyte, ← bitmapIsSet_eq]
    split_ifs <;> first | rfl | omega
  · rw [if_neg hbyte, if_neg (by rintro rfl; exact hbyte rfl)]

lemma bitmapIsSet_bitmapClear :
    bitmapIsSet (bitmapClear m bmap n) bmap k = if k = n then false else bitmapIsSet m bmap k := by
  rw [bitmapClear, bitmapIsSet_update]
  by_cases hbyte : k / 8 = n / 8
  · rw [if_pos hbyte, getLsbD_clearNbit (by omega) (by omega), ← hbyte, ← bitmapIsSet_eq]
    split_ifs <;> first | rfl | omega
  · rw [if_neg hbyte, if_neg (by rintro rfl; exact hbyte rfl)]

lemma bitmapIsSet_clearTail (hj : j ≤ 8) :
    bitmapIsSet ((List.range j).foldl
      (fun m k => Function.update m (bmap + i) (clearNbit (m (bmap + i)) k)) m) bmap k =
        if k / 8 = i ∧ k % 8 < j then false else bitmapIsSet m bmap k := by
  induction j with
  | zero => rw [if_neg (by omega), List.range_zero, List.foldl_nil]
  | succ j ih =>
    rw [List.range_succ, List.foldl_append, List.foldl_cons, List.foldl_nil, bitmapIsSet_update]
    by_cases hk : k / 8 = i
    · rw [if_pos hk, getLsbD_clearNbit (by omega) (by omega), ← hk, ← bitmapIsSet_eq, hk, ih (by omega)]
      split_ifs <;> first | rfl | omega
    · rw [if_neg hk, ih (by omega), if_neg (by omega), if_neg (by omega)]

lemma bitmapIsSet_bitmapClearAll (h : ShiftsInt shl) :
    bitmapIsSet (bitmapClearAll shl m bmap n) bmap k = if k < n then false else bitmapIsSet m bmap k := by
  have hbytes : bitmapIsSet (setBytes (n / 8) bmap 0 m) bmap k =
      if k / 8 < n / 8 then false else bitmapIsSet m bmap k := by
    rw [bitmapIsSet_eq, bitmapIsSet_eq, setBytes_apply]
    by_cases hk : k / 8 < n / 8
    · rw [if_pos (by omega), if_pos hk]
      exact BitVec.getLsbD_zero
    · rw [if_neg (by omega), if_neg hk]
  rw [bitmapClearAll, bitmapIsSet_clearTail (by omega), memset_zero h, hbytes]
  split_ifs <;> first | rfl | omega

lemma clearTail_below (hx : j < bmap) : (List.range n).foldl
    (fun m k => Function.update m (bmap + i) (clearNbit (m (bmap + i)) k)) m j = m j := by
  induction n with
  | zero => rfl
  | succ n ih =>
    rw [List.range_succ, List.foldl_append, List.foldl_cons, List.foldl_nil, Function.update_of_ne (by omega), ih]

lemma bitmapClearAll_below (h : ShiftsInt shl) (hx : j < bmap) : bitmapClearAll shl m bmap n j = m j := by
  rw [bitmapClearAll, clearTail_below hx, memset_zero h, setBytes_apply, if_neg (by omega)]

lemma and_neg_self (hv : v ≠ 0#32) : v &&& -v = BitVec.twoPow 32 v.ctz.toNat := by
  have hlt : v.ctz.toNat < 32 := BitVec.ctz_lt_iff_ne_zero.2 hv
  have hset := BitVec.getLsbD_true_ctz_of_ne_zero hv
  apply BitVec.eq_of_getLsbD_eq
  intro i hi
  rw [BitVec.getLsbD_and, BitVec.getLsbD_neg, BitVec.getLsbD_twoPow, decide_eq_true hlt, decide_eq_true hi,
    Bool.true_and, Bool.true_and]
  rcases Nat.lt_trichotomy i v.ctz.toNat with hlow | rfl | hhigh
  · rw [BitVec.getLsbD_false_of_lt_ctz hlow, Bool.false_and, decide_eq_false (by omega)]
  · have hnone : ¬∃ j < v.ctz.toNat, v.getLsbD j = true := by
      rintro ⟨j, hj, hbit⟩
      rw [BitVec.getLsbD_false_of_lt_ctz hj] at hbit
      exact Bool.false_ne_true hbit
    rw [hset, decide_eq_false hnone, decide_eq_true rfl]
    rfl
  · rw [decide_eq_true ⟨_, hhigh, hset⟩, decide_eq_false (by omega), Bool.xor_true, Bool.and_not_self]

lemma builtinFfs_eq (hv : v.getLsbD k = true) (hlow : ∀ j < k, v.getLsbD j = false) : builtinFfs v = k + 1 := by
  have h0 : v ≠ 0#32 := by
    rintro rfl
    rw [BitVec.getLsbD_zero] at hv
    exact Bool.false_ne_true hv
  rw [builtinFfs, if_neg h0, Nat.add_right_cancel_iff]
  rcases Nat.lt_trichotomy v.ctz.toNat k with hlt | heq | hgt
  · exact absurd ((BitVec.getLsbD_true_ctz_of_ne_zero h0).symm.trans (hlow _ hlt)) (by decide)
  · exact heq
  · exact absurd (hv.symm.trans (BitVec.getLsbD_false_of_lt_ctz hgt)) (by decide)

lemma ffsMasks_twoPow : ∀ k < 32, ffsMasks (BitVec.twoPow 32 k) = k + 1 := by decide

lemma ffs_eq : ffs v = builtinFfs v := by
  rw [ffs]
  split_ifs with h0 hmin
  · rw [builtinFfs, if_pos h0]
  · have hbit : ∀ j < 31, (BitVec.intMin 32).getLsbD j = false := by decide
    rw [hmin, builtinFfs_eq (show (BitVec.intMin 32).getLsbD 31 = true by decide) hbit]
  · rw [and_neg_self h0, ffsMasks_twoPow _ (BitVec.ctz_lt_iff_ne_zero.2 h0), builtinFfs, if_neg h0]

lemma scan_spec :
    (∃ j, k ≤ j ∧ j < k + left ∧ stop j = true ∧ (∀ l, k ≤ l → l < j → stop l = false) ∧
      scan stop otherwise left k = j) ∨
    ((∀ l, k ≤ l → l < k + left → stop l = false) ∧ scan stop otherwise left k = otherwise) := by
  induction left generalizing k with
  | zero => exact .inr ⟨fun l _ _ => by omega, rfl⟩
  | succ left ih =>
    rw [scan]
    by_cases hk : stop k = true
    · rw [if_pos hk]
      exact .inl ⟨k, le_rfl, by omega, hk, fun l _ _ => by omega, rfl⟩
    · have hk' := Bool.eq_false_of_not_eq_true hk
      rw [if_neg hk]
      rcases @ih (k + 1) with ⟨j, hlo, hhi, hj, hbefore, heq⟩ | ⟨hall, heq⟩
      · refine .inl ⟨j, by omega, by omega, hj, ?_, heq⟩
        intro l hl hlj
        rcases Nat.eq_or_lt_of_le hl with rfl | hl
        · exact hk'
        · exact hbefore l hl hlj
      · refine .inr ⟨?_, heq⟩
        intro l hl hlend
        rcases Nat.eq_or_lt_of_le hl with rfl | hl
        · exact hk'
        · exact hall l hl (by omega)

lemma getLsbD_imap (hi : i < 32) : (imap m bmap c).getLsbD i = bitmapIsSet m bmap (c * 32 + i) := by
  have hbyte : bmap + 4 * c + i / 8 = bmap + (c * 32 + i) / 8 := by omega
  have hbit : i % 8 = (c * 32 + i) % 8 := by omega
  rw [imap, getLsbD_loadBits hi, bitmapIsSet_eq, hbyte, hbit]

lemma getLsbD_check (hi : i < 32) :
    (if set = true then imap m bmap c else ~~~imap m bmap c).getLsbD i =
      (bitmapIsSet m bmap (c * 32 + i) == set) := by
  cases set with
  | false => rw [if_neg Bool.false_ne_true, BitVec.getLsbD_not, getLsbD_imap hi, decide_eq_true hi,
      Bool.true_and, beq_false]
  | true => rw [if_pos rfl, getLsbD_imap hi, beq_true]

lemma imap_eq_target : imap m bmap c = (if set = true then 0#32 else -1#32) ↔
    (if set = true then imap m bmap c else ~~~imap m bmap c) = 0#32 := by
  cases set with
  | false =>
    rw [if_neg Bool.false_ne_true, if_neg Bool.false_ne_true, BitVec.neg_one_eq_allOnes,
      ← BitVec.not_zero, ← BitVec.not_inj, BitVec.not_not]
  | true => rw [if_pos rfl, if_pos rfl]

lemma ffs_least {f : BitVec 32 → ℕ} (hf : f = builtinFfs ∨ f = ffs) (hv : v ≠ 0#32) :
    ∃ k < 32, v.getLsbD k = true ∧ (∀ j < k, v.getLsbD j = false) ∧ f v = k + 1 := by
  have hval : f v = v.ctz.toNat + 1 := by
    rcases hf with rfl | rfl
    · rw [builtinFfs, if_neg hv]
    · rw [ffs_eq, builtinFfs, if_neg hv]
  exact ⟨_, BitVec.ctz_lt_iff_ne_zero.2 hv, BitVec.getLsbD_true_ctz_of_ne_zero hv,
    fun j => BitVec.getLsbD_false_of_lt_ctz, hval⟩

lemma bitmapFindFirst_spec {f : BitVec 32 → ℕ} (hf : f = builtinFfs ∨ f = ffs) :
    (∃ k < n, bitmapIsSet m bmap k = set ∧ (∀ j < k, bitmapIsSet m bmap j ≠ set) ∧
      bitmapFindFirst f m bmap n set = k) ∨
    ((∀ k < n, bitmapIsSet m bmap k ≠ set) ∧ bitmapFindFirst f m bmap n set = (n + 1) % 2 ^ 64) := by
  -- no bit of the words that were passed over is wanted
  have hpassed : ∀ c, (∀ l, 0 ≤ l → l < c → (imap m bmap l != if set = true then 0#32 else -1#32) = false) →
      ∀ j < c * 32, bitmapIsSet m bmap j ≠ set := by
    intro c hall j hj heq
    have hword := imap_eq_target.1 (bne_eq_false_iff_eq.1 (hall (j / 32) (Nat.zero_le _) (by omega)))
    have hbit := @getLsbD_check m bmap (j % 32) (j / 32) set (by omega)
    rw [hword, BitVec.getLsbD_zero, show j / 32 * 32 + j % 32 = j by omega, heq, beq_self_eq_true] at hbit
    exact Bool.false_ne_true hbit
  rw [bitmapFindFirst]
  rcases @scan_spec (n / 32) 0 (n / 32) (fun c => imap m bmap c != if set = true then 0#32 else -1#32) with
    ⟨c, -, hc, hword, hbefore, heq⟩ | ⟨hall, heq⟩
  · have hcheck := mt imap_eq_target.2 (bne_iff_ne.1 hword)
    obtain ⟨k, hk, hbit, hlow, hffs⟩ := ffs_least hf hcheck
    left
    rw [getLsbD_check hk, beq_iff_eq] at hbit
    refine ⟨c * 32 + k, by omega, hbit, ?_, ?_⟩
    · intro j hj
      by_cases hjc : j < c * 32
      · exact hpassed c hbefore j hjc
      · have hj' := hlow (j - c * 32) (by omega)
        rw [getLsbD_check (by omega), beq_eq_false_iff_ne, Nat.add_sub_cancel' (by omega)] at hj'
        exact hj'
    · rw [heq, if_pos (by omega), hffs]
      omega
  · have hlow := hpassed (n / 32) (by simpa using hall)
    simp only [heq, ne_eq, not_true_eq_false, if_false]
    by_cases hr : n - n / 32 * 32 = 0
    · rw [if_pos hr]
      exact .inr ⟨fun k hk => hlow k (by omega), rfl⟩
    · rw [if_neg hr]
      rcases @scan_spec (n - n / 32 * 32) (n / 32 * 32) ((n + 1) % 2 ^ 64)
        (fun k => bitmapIsSet m bmap k == set) with ⟨k, hk, hkn, hbit, hbefore, heq'⟩ | ⟨hall', heq'⟩
      · refine .inl ⟨k, by omega, beq_iff_eq.1 hbit, ?_, heq'⟩
        intro j hj
        by_cases hjc : j < n / 32 * 32
        · exact hlow j hjc
        · exact beq_eq_false_iff_ne.1 (hbefore j (by omega) hj)
      · refine .inr ⟨?_, heq'⟩
        intro j hj
        by_cases hjc : j < n / 32 * 32
        · exact hlow j hjc
        · exact beq_eq_false_iff_ne.1 (hall' j (by omega) (by omega))

lemma bitmapFindFirst_unset {f : BitVec 32 → ℕ} (hf : f = builtinFfs ∨ f = ffs) (hn : n + 1 < 2 ^ 64) :
    bitmapFindFirst f m bmap n false = Pmem.findFirstUnset (bitmapIsSet m bmap) n := by
  rw [Pmem.findFirstUnset]
  rcases @bitmapFindFirst_spec m bmap n false f hf with ⟨k, hk, hbit, hbefore, heq⟩ | ⟨hall, heq⟩
  · have hfind : (List.range n).find? (fun i => !bitmapIsSet m bmap i) = some k := by
      rw [List.find?_range_eq_some]
      refine ⟨by rw [hbit, Bool.not_false], List.mem_range.2 hk, ?_⟩
      intro j hj
      rw [Bool.not_not]
      exact Bool.eq_true_of_not_eq_false (hbefore j hj)
    rw [heq, hfind, Option.getD_some]
  · have hfind : (List.range n).find? (fun i => !bitmapIsSet m bmap i) = none := by
      rw [List.find?_range_eq_none]
      intro j hj
      rw [Bool.not_not]
      exact Bool.eq_true_of_not_eq_false (hall j hj)
    rw [heq, hfind, Option.getD_none, Nat.mod_eq_of_lt hn]

/-- For every memory, every bitmap in it and either `ffs`, the search finds the least bit below `n` that is as
wanted, and the rest change the bits they name. -/
theorem bitmap_refines (h : ShiftsInt shl) {f : BitVec 32 → ℕ} (hf : f = builtinFfs ∨ f = ffs) (m : Bytes)
    (bmap n : ℕ) (set : Bool) :
    (∀ k, IsLeast {k | k < n ∧ bitmapIsSet m bmap k = set} k → bitmapFindFirst f m bmap n set = k) ∧
      ((∀ k < n, bitmapIsSet m bmap k ≠ set) → bitmapFindFirst f m bmap n set = (n + 1) % 2 ^ 64) ∧
      bitmapIsSet (bitmapSet m bmap n) bmap = Function.update (bitmapIsSet m bmap) n true ∧
      bitmapIsSet (bitmapClear m bmap n) bmap = Function.update (bitmapIsSet m bmap) n false ∧
      bitmapIsSet (bitmapClearAll shl m bmap n) bmap = (fun k => if k < n then false else bitmapIsSet m bmap k) ∧
      ∀ x < bmap, bitmapSet m bmap n x = m x ∧ bitmapClear m bmap n x = m x ∧
        bitmapClearAll shl m bmap n x = m x := by
  refine ⟨?_, ?_, ?_, ?_, ?_, ?_⟩
  · intro k hk
    rcases @bitmapFindFirst_spec m bmap n set f hf with ⟨j, hj, hbit, hbefore, heq⟩ | ⟨hall, -⟩
    · rw [heq]
      apply le_antisymm
      · by_contra hlt
        exact hbefore k (by omega) hk.1.2
      · exact hk.2 ⟨hj, hbit⟩
    · exact absurd hk.1.2 (hall k hk.1.1)
  · intro hnone
    rcases @bitmapFindFirst_spec m bmap n set f hf with ⟨j, hj, hbit, -⟩ | ⟨-, heq⟩
    · exact absurd hbit (hnone j hj)
    · exact heq
  · funext k
    rw [bitmapIsSet_bitmapSet, Function.update_apply]
  · funext k
    rw [bitmapIsSet_bitmapClear, Function.update_apply]
  · funext k
    exact bitmapIsSet_bitmapClearAll h
  · intro x hx
    rw [bitmapSet, bitmapClear, Function.update_of_ne (by omega), Function.update_of_ne (by omega)]
    exact ⟨rfl, rfl, bitmapClearAll_below h hx⟩

theorem bitmap_refines_ffs : ShiftsInt sllw ∧ bitmapFindFirst ffs (fun _ => 4) 0 40 true = 2 ∧
    bitmapFindFirst ffs (fun _ => 0) 0 40 true = 41 := by
  have hleast : IsLeast {k | k < 40 ∧ bitmapIsSet (fun _ => 4) 0 k = true} 2 := by
    refine ⟨⟨by decide, by decide⟩, ?_⟩
    rintro k ⟨-, hk⟩
    by_contra hlt
    have hlow : ∀ k < 2, bitmapIsSet (fun _ => 4) 0 k = false := by decide
    rw [hlow k (by omega)] at hk
    exact Bool.false_ne_true hk
  have hnone : ∀ k < 40, bitmapIsSet (fun _ => 0) 0 k ≠ true := by decide
  exact ⟨shiftsInt_sllw, (bitmap_refines shiftsInt_sllw (.inr rfl) (fun _ => 4) 0 40 true).1 2 hleast,
    (bitmap_refines shiftsInt_sllw (.inr rfl) (fun _ => 0) 0 40 true).2.1 hnone⟩

end Kmi.Bits
