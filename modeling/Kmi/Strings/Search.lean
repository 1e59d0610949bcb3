import Kmi.Library.Horspool
import Kmi.Strings.Compare

/-! `strlen`, `memcmp` and `strstr` of `src/string.c`. -/

namespace Kmi.Strings

open Kmi.Mem Kmi.Library.Horspool
open Elf (Bytes)

def strlenLoop (mem : Bytes) : ℕ → ℕ → Option ℕ
  | 0, _ => none
  | fuel + 1, s1 => if mem s1 ≠ 0 then strlenLoop mem fuel (s1 + 1) else some (s1 + 1)

def strlen (mem : Bytes) (fuel str : ℕ) : Option ℕ :=
  (strlenLoop mem fuel str).map fun s1 => s1 - str - 1

/-- The loop of `memcmp`, by the value of `--num`. -/
def memcmpLoop (mem : Bytes) : ℕ → ℕ → ℕ → ℤ
  | 0, p1, p2 => (mem p1).toNat - (mem p2).toNat
  | num + 1, p1, p2 =>
    if mem p1 = mem p2 then memcmpLoop mem num (p1 + 1) (p2 + 1) else (mem p1).toNat - (mem p2).toNat

def memcmp (mem : Bytes) (ptr1 ptr2 num : ℕ) : ℤ := memcmpLoop mem (decr num) ptr1 ptr2

/-- The table of `strstr` after `n` entries. It has characters for entries. -/
def deltas (mem : Bytes) (needle pl n : ℕ) : UInt8 → UInt8 :=
  (List.range n).foldl
    (fun table i => Function.update table (mem (needle + i)) (UInt8.ofNat (sub64 (sub64 pl i) 1))) fun _ => UInt8.ofNat pl

def strstrLoop (mem : Bytes) (table : UInt8 → UInt8) (haystack needle sl pl : ℕ) : ℕ → ℕ → Option ℕ
  | 0, _ => none
  | fuel + 1, skip =>
    if pl ≤ sub64 sl skip then
      let s1 := haystack + skip
      if memcmp mem s1 needle pl = 0 then some s1
      else strstrLoop mem table haystack needle sl pl fuel ((skip + (table (mem (haystack + (skip + pl - 1)))).toNat) % 2 ^ 64)
    else some 0

def strstr (mem : Bytes) (fuel str1 str2 : ℕ) : Option ℕ := do
  let sl ← strlen mem fuel str1
  let pl ← strlen mem fuel str2
  strstrLoop mem (deltas mem str2 pl (decr pl)) str1 str2 sl pl fuel 0

/-- The address of the first place at which `t` is in `s`, or null. -/
def Finds (str1 : ℕ) (s t : List UInt8) (r : ℕ) : Prop :=
  (∃ q, r = str1 + q ∧ t <+: s.drop q ∧ ∀ q' < q, ¬ t <+: s.drop q') ∨ r = 0 ∧ ∀ q, ¬ t <+: s.drop q

variable {mem : Bytes} {s t : List UInt8} {a p1 p2 str1 str2 num pl sl fuel skip n r : ℕ} {c : UInt8}
  {table : UInt8 → UInt8}

lemma CStr.char (h : CStr mem a s) (i : ℕ) (hi : i < s.length) : mem (a + i) = s[i] := by
  induction s generalizing a i with
  | nil => cases hi
  | cons c s ih =>
    obtain ⟨-, hc, hs⟩ := h
    cases i with
    | zero => exact hc
    | succ i =>
      rw [show a + (i + 1) = a + 1 + i by omega]
      exact ih hs i (Nat.lt_of_succ_lt_succ hi)

lemma strlenLoop_eq (h : CStr mem a s) (hfuel : s.length < fuel) : strlenLoop mem fuel a = some (a + s.length + 1) := by
  induction s generalizing a fuel with
  | nil =>
    obtain ⟨fuel, rfl⟩ := Nat.exists_eq_succ_of_ne_zero (by omega : fuel ≠ 0)
    rw [strlenLoop, if_neg (not_not.2 (show mem a = 0 from h))]
    rfl
  | cons c s ih =>
    obtain ⟨hne, hc, hs⟩ := h
    obtain ⟨fuel, rfl⟩ := Nat.exists_eq_succ_of_ne_zero (by omega : fuel ≠ 0)
    rw [strlenLoop, hc, if_pos hne, ih hs (Nat.lt_of_succ_lt_succ hfuel), List.length_cons]
    congr 1
    omega

lemma strlen_eq (h : CStr mem a s) (hfuel : s.length < fuel) : strlen mem fuel a = some s.length := by
  rw [strlen, strlenLoop_eq h hfuel, Option.map_some]
  congr 1
  omega

lemma strlenLoop_short (h : CStr mem a s) (hfuel : fuel ≤ s.length) : strlenLoop mem fuel a = none := by
  induction s generalizing a fuel with
  | nil =>
    obtain rfl := Nat.le_zero.1 hfuel
    rfl
  | cons c s ih =>
    cases fuel with
    | zero => rfl
    | succ fuel =>
      obtain ⟨hne, hc, hs⟩ := h
      rw [strlenLoop, hc, if_pos hne]
      exact ih hs (Nat.le_of_succ_le_succ hfuel)

lemma strlen_some (h : CStr mem a s) (hr : strlen mem fuel a = some r) : r = s.length := by
  by_cases hfuel : s.length < fuel
  · rw [strlen_eq h hfuel] at hr
    exact (Option.some.inj hr).symm
  · rw [strlen, strlenLoop_short h (by omega)] at hr
    cases hr

lemma sub_eq_zero_iff {x y : UInt8} : (x.toNat : ℤ) - y.toNat = 0 ↔ x = y := by
  rw [← UInt8.toNat_inj]
  omega

lemma memcmpLoop_eq_zero_iff (num p1 p2 : ℕ) :
    memcmpLoop mem num p1 p2 = 0 ↔ ∀ i ≤ num, mem (p1 + i) = mem (p2 + i) := by
  induction num generalizing p1 p2 with
  | zero =>
    rw [memcmpLoop, sub_eq_zero_iff]
    constructor
    · intro h i hi
      obtain rfl := Nat.le_zero.1 hi
      exact h
    · intro h
      exact h 0 le_rfl
  | succ num ih =>
    rw [memcmpLoop]
    constructor
    · intro h i hi
      split_ifs at h with heq
      · cases i with
        | zero => exact heq
        | succ i =>
          have := (ih (p1 + 1) (p2 + 1)).1 h i (Nat.le_of_succ_le_succ hi)
          rwa [Nat.add_right_comm, Nat.add_right_comm p2] at this
      · exact absurd (sub_eq_zero_iff.1 h) heq
    · intro h
      rw [if_pos (show mem p1 = mem p2 from h 0 (Nat.zero_le _)), ih]
      intro i hi
      have := h (i + 1) (Nat.succ_le_succ hi)
      rwa [Nat.add_right_comm, Nat.add_right_comm p2]

lemma memcmp_eq_zero_iff (hpos : 0 < num) (hlt : num < 2 ^ 64) :
    memcmp mem p1 p2 num = 0 ↔ ∀ i < num, mem (p1 + i) = mem (p2 + i) := by
  rw [memcmp, decr_eq hpos hlt, memcmpLoop_eq_zero_iff]
  refine forall_congr' fun i => ?_
  rw [show i ≤ num - 1 ↔ i < num by omega]

lemma deltas_succ : deltas mem a pl (n + 1) =
    Function.update (deltas mem a pl n) (mem (a + n)) (UInt8.ofNat (sub64 (sub64 pl n) 1)) := by
  simp only [deltas, List.range_succ, List.foldl_append, List.foldl_cons, List.foldl_nil]

lemma sub64_eq {x y : ℕ} (hle : y ≤ x) (hlt : x < 2 ^ 64) : sub64 x y = x - y := by
  rw [sub64]
  omega

lemma deltas_cases (hlt : pl < 2 ^ 64) (hn : n + 1 ≤ pl) (c : UInt8) :
    (deltas mem a pl n c = UInt8.ofNat pl ∧ ∀ i < n, mem (a + i) ≠ c) ∨
      ∃ j < n, mem (a + j) = c ∧ deltas mem a pl n c = UInt8.ofNat (pl - 1 - j) ∧ ∀ i < n, mem (a + i) = c → i ≤ j := by
  induction n with
  | zero => exact .inl ⟨rfl, fun i hi => absurd hi (Nat.not_lt_zero i)⟩
  | succ n ih =>
    rw [deltas_succ]
    by_cases hc : c = mem (a + n)
    · subst hc
      refine .inr ⟨n, Nat.lt_succ_self n, rfl, ?_, fun i hi _ => by omega⟩
      rw [Function.update_self, sub64_eq (by omega) hlt, sub64_eq (by omega) (by omega), Nat.sub_right_comm]
    · rw [Function.update_of_ne hc]
      obtain ⟨heq, hno⟩ | ⟨j, hj, hchar, heq, hmax⟩ := ih (by omega)
      · refine .inl ⟨heq, fun i hi he => ?_⟩
        obtain rfl | hlt' := (Nat.le_of_lt_succ hi).eq_or_lt
        · exact hc he.symm
        · exact hno i hlt' he
      · refine .inr ⟨j, by omega, hchar, heq, fun i hi he => ?_⟩
        obtain rfl | hlt' := (Nat.le_of_lt_succ hi).eq_or_lt
        · exact absurd he.symm hc
        · exact hmax i hlt' he

lemma ofNat_le (x : ℕ) : (UInt8.ofNat x).toNat ≤ x := by
  rw [UInt8.toNat_ofNat']
  exact Nat.mod_le _ _

lemma deltas_safe (hpos : 0 < pl) (hlt : pl < 2 ^ 64) :
    Safe (fun i => mem (a + i)) pl fun c => (deltas mem a pl (decr pl) c).toNat := by
  rw [decr_eq hpos hlt]
  constructor
  · intro c
    obtain ⟨heq, -⟩ | ⟨j, -, -, heq, -⟩ := @deltas_cases mem a pl (pl - 1) hlt (by omega) c
    · rw [heq]
      exact ofNat_le pl
    · rw [heq]
      exact (ofNat_le _).trans (by omega)
  · intro i hi
    obtain ⟨-, hno⟩ | ⟨j, -, -, heq, hmax⟩ := @deltas_cases mem a pl (pl - 1) hlt (by omega) (mem (a + i))
    · exact absurd rfl (hno i (by omega))
    · have := hmax i (by omega) rfl
      rw [heq]
      exact (ofNat_le _).trans (by omega)

lemma deltas_pos (hpos : 0 < pl) (hlt : pl < 256) (c : UInt8) : 0 < (deltas mem a pl (decr pl) c).toNat := by
  rw [decr_eq hpos (by omega)]
  obtain ⟨heq, -⟩ | ⟨j, hj, -, heq, -⟩ := @deltas_cases mem a pl (pl - 1) (by omega) (by omega) c
  · rw [heq, UInt8.toNat_ofNat', Nat.mod_eq_of_lt hlt]
    exact hpos
  · rw [heq, UInt8.toNat_ofNat', Nat.mod_eq_of_lt (by omega)]
    omega

lemma strstrLoop_eq (hsafe : Safe (fun i => mem (str2 + i)) pl fun c => (table c).toNat) (hsl : sl < 2 ^ 64)
    (hskip : skip ≤ sl) :
    strstrLoop mem table str1 str2 sl pl fuel skip =
      (search (fun q => memcmp mem (str1 + q) str2 pl = 0) (fun i => mem (str1 + i)) sl pl (fun c => (table c).toNat)
        fuel skip).map fun r => r.elim 0 (str1 + ·) := by
  induction fuel generalizing skip with
  | zero => rfl
  | succ fuel ih =>
    rw [strstrLoop, search, sub64_eq hskip hsl]
    by_cases hend : sl < skip + pl
    · rw [if_neg (by omega), if_pos hend]
      rfl
    · rw [if_pos (by omega), if_neg hend]
      by_cases hhit : memcmp mem (str1 + skip) str2 pl = 0
      · rw [if_pos hhit, if_pos (decide_eq_true hhit)]
        rfl
      · have hle := hsafe.le (mem (str1 + (skip + pl - 1)))
        rw [if_neg hhit, if_neg (by rwa [decide_eq_true_eq]), Nat.mod_eq_of_lt (by omega)]
        exact ih (by omega)

lemma prefix_drop_iff (h1 : CStr mem str1 s) (h2 : CStr mem str2 t) (ht : t ≠ []) (q : ℕ) :
    t <+: s.drop q ↔ Occurs (fun i => mem (str1 + i)) s.length (fun i => mem (str2 + i)) t.length q := by
  rw [List.prefix_iff_getElem?]
  have hpos := List.length_pos_iff.2 ht
  constructor
  · intro h
    have hlast := h (t.length - 1) (by omega)
    rw [List.getElem?_drop] at hlast
    have hin := (List.getElem?_eq_some_iff.1 hlast).1
    refine ⟨by omega, fun i hi => ?_⟩
    have hchar := h i hi
    rw [List.getElem?_drop, List.getElem?_eq_getElem (by omega)] at hchar
    dsimp only
    rw [CStr.char h1 (q + i) (by omega), CStr.char h2 i hi]
    exact Option.some.inj hchar
  · rintro ⟨hle, hall⟩ i hi
    have hchar := hall i hi
    dsimp only at hchar
    rw [CStr.char h1 (q + i) (by omega), CStr.char h2 i hi] at hchar
    rw [List.getElem?_drop, List.getElem?_eq_getElem (by omega), hchar]

lemma finds_of_first (h1 : CStr mem str1 s) (h2 : CStr mem str2 t) (ht : t ≠ []) {r : Option ℕ}
    (h : First (fun i => mem (str1 + i)) s.length (fun i => mem (str2 + i)) t.length r) :
    Finds str1 s t (r.elim 0 (str1 + ·)) := by
  cases r with
  | none => exact .inr ⟨rfl, fun q hq => h q ((prefix_drop_iff h1 h2 ht q).1 hq)⟩
  | some q =>
    obtain ⟨hocc, hbefore⟩ := h
    exact .inl ⟨q, rfl, (prefix_drop_iff h1 h2 ht q).2 hocc,
      fun q' hq hpre => hbefore q' hq ((prefix_drop_iff h1 h2 ht q').1 hpre)⟩

lemma hit_iff (hpos : 0 < pl) (hlt : pl < 2 ^ 64) (q : ℕ) (hq : q + pl ≤ n) :
    decide (memcmp mem (str1 + q) str2 pl = 0) = true ↔
      Occurs (fun i => mem (str1 + i)) n (fun i => mem (str2 + i)) pl q := by
  rw [decide_eq_true_eq, memcmp_eq_zero_iff hpos hlt]
  simp only [Occurs, hq, true_and, Nat.add_assoc]

lemma strstr_right (h1 : CStr mem str1 s) (h2 : CStr mem str2 t) (ht : t ≠ []) (hs : s.length < 2 ^ 64)
    (ht64 : t.length < 2 ^ 64) (hr : strstr mem fuel str1 str2 = some r) : Finds str1 s t r := by
  have hpos := List.length_pos_iff.2 ht
  obtain ⟨sl, hsl, hr⟩ := Option.bind_eq_some_iff.1 hr
  obtain ⟨pl, hpl, hr⟩ := Option.bind_eq_some_iff.1 hr
  rw [strlen_some h1 hsl, strlen_some h2 hpl, strstrLoop_eq (deltas_safe hpos ht64) hs (Nat.zero_le _)] at hr
  obtain ⟨q, hq, rfl⟩ := Option.map_eq_some_iff.1 hr
  apply finds_of_first h1 h2 ht
  exact search_first (deltas_safe hpos ht64) (fun q hq => hit_iff hpos ht64 q hq) fuel
    (fun q hq => absurd hq (Nat.not_lt_zero q)) hq

lemma strstr_returns (h1 : CStr mem str1 s) (h2 : CStr mem str2 t) (ht : t ≠ []) (hs : s.length < 2 ^ 64)
    (ht256 : t.length < 256) : ∃ fuel r, strstr mem fuel str1 str2 = some r := by
  have hpos := List.length_pos_iff.2 ht
  obtain ⟨q, hq⟩ := @search_returns _ (fun i => mem (str1 + i)) s.length t.length 0
    (fun c => (deltas mem str2 t.length (decr t.length) c).toNat)
    (fun q => memcmp mem (str1 + q) str2 t.length = 0) (deltas_pos hpos ht256) hpos (s.length + t.length) (by omega)
  refine ⟨s.length + t.length + 1, q.elim 0 (str1 + ·), ?_⟩
  rw [strstr, strlen_eq h1 (by omega), Option.bind_eq_bind, Option.bind_some, strlen_eq h2 (by omega), Option.bind_some,
    strstrLoop_eq (deltas_safe hpos (by omega)) hs (Nat.zero_le _), hq]
  rfl

/-- What `strstr` returns is the first place of the needle, or null where there is none. It does return if the needle has
at most 255 characters. -/
theorem strstr_finds (h1 : CStr mem str1 s) (h2 : CStr mem str2 t) (ht : t ≠ []) (hs : s.length < 2 ^ 64)
    (ht64 : t.length < 2 ^ 64) : (∀ fuel r, strstr mem fuel str1 str2 = some r → Finds str1 s t r) ∧
      (t.length < 256 → ∃ fuel r, strstr mem fuel str1 str2 = some r) := by
  constructor
  · intro fuel r hr
    exact strstr_right h1 h2 ht hs ht64 hr
  · exact strstr_returns h1 h2 ht hs

theorem strstr_finds_twoWords : ∃ fuel r, strstr twoWords fuel 0 3 = some r ∧ Finds 0 [97, 98] [97, 99] r := by
  obtain ⟨hright, hreturns⟩ := @strstr_finds twoWords [97, 98] [97, 99] 0 3 (by simp only [CStr]; decide)
    (by simp only [CStr]; decide) (List.cons_ne_nil _ _) (by decide) (by decide)
  obtain ⟨fuel, r, hr⟩ := hreturns (by decide)
  exact ⟨fuel, r, hr, hright fuel r hr⟩

lemma deltas_wraps (hpos : 0 < pl) (hlt : pl < 2 ^ 64) (hdvd : 256 ∣ pl) (hc : ∀ i < pl - 1, mem (a + i) ≠ c) :
    (deltas mem a pl (decr pl) c).toNat = 0 := by
  rw [decr_eq hpos hlt]
  obtain ⟨heq, -⟩ | ⟨j, hj, hchar, -⟩ := @deltas_cases mem a pl (pl - 1) hlt (by omega) c
  · rw [heq, UInt8.toNat_ofNat']
    exact Nat.mod_eq_zero_of_dvd hdvd
  · exact absurd hchar (hc j hj)

/-- With a needle whose length is a multiple of 256 `strstr` never returns, if the first window is no match and ends with
a character that is not in the needle before its last. -/
theorem strstr_spins (h1 : CStr mem str1 s) (h2 : CStr mem str2 t) (ht : t ≠ []) (hdvd : 256 ∣ t.length)
    (hs : s.length < 2 ^ 64) (hle : t.length ≤ s.length) (hno : ¬ t <+: s)
    (hc : ∀ i < t.length - 1, chr t i ≠ chr s (t.length - 1)) (fuel : ℕ) : strstr mem fuel str1 str2 = none := by
  have hpos := List.length_pos_iff.2 ht
  have hchr : ∀ {l : List UInt8} {a i : ℕ}, CStr mem a l → i < l.length → mem (a + i) = chr l i := fun h hi => by
    rw [CStr.char h _ hi, chr, List.getD_eq_getElem?_getD, List.getElem?_eq_getElem hi]
    rfl
  by_contra hsome
  obtain ⟨r, hr⟩ := Option.ne_none_iff_exists'.1 hsome
  obtain ⟨sl, hsl, hr⟩ := Option.bind_eq_some_iff.1 hr
  obtain ⟨pl, hpl, hr⟩ := Option.bind_eq_some_iff.1 hr
  rw [strlen_some h1 hsl, strlen_some h2 hpl, strstrLoop_eq (deltas_safe hpos (by omega)) hs (Nat.zero_le _)] at hr
  have hfits : 0 + t.length ≤ s.length := by rwa [Nat.zero_add]
  have hmiss : decide (memcmp mem (str1 + 0) str2 t.length = 0) = false := by
    rw [Bool.eq_false_iff]
    intro hhit
    have hocc := (hit_iff hpos (by omega) 0 hfits).1 hhit
    exact hno (by simpa only [List.drop_zero] using (prefix_drop_iff h1 h2 ht 0).2 hocc)
  have hzero : (deltas mem str2 t.length (decr t.length) (mem (str1 + (0 + t.length - 1)))).toNat = 0 := by
    refine deltas_wraps hpos (by omega) hdvd fun i hi => ?_
    rw [hchr h2 (by omega), Nat.zero_add, hchr h1 (by omega)]
    exact hc i hi
  have hspins := @search_spins _ (fun i => mem (str1 + i)) s.length t.length 0
    (fun c => (deltas mem str2 t.length (decr t.length) c).toNat) (fun q => memcmp mem (str1 + q) str2 t.length = 0)
    hfits hmiss hzero fuel
  rw [hspins] at hr
  cases hr

/-- A text of 256 letters `b`, and at 257 a needle of 256 letters `a`. -/
def longWords : Bytes := fun x => if x < 256 then 98 else if x = 256 then 0 else if x < 513 then 97 else 0

lemma cstr_replicate {c : UInt8} (hc : c ≠ 0) (n : ℕ) (h : ∀ i < n, mem (a + i) = c) (hz : mem (a + n) = 0) :
    CStr mem a (List.replicate n c) := by
  induction n generalizing a with
  | zero => exact hz
  | succ n ih =>
    refine ⟨hc, h 0 (Nat.succ_pos n), ih (fun i hi => ?_) ?_⟩
    · rw [show a + 1 + i = a + (i + 1) by omega]
      exact h (i + 1) (Nat.succ_lt_succ hi)
    · rw [show a + 1 + n = a + (n + 1) by omega]
      exact hz

theorem strstr_spins_longWords : (strstr longWords · 0 257) = fun _ => none := by
  funext fuel
  have h1 : CStr longWords 0 (List.replicate 256 98) := cstr_replicate (by decide) 256 (fun i hi => by
    rw [longWords, if_pos (by omega)]) rfl
  have h2 : CStr longWords 257 (List.replicate 256 97) := cstr_replicate (by decide) 256 (fun i hi => by
    rw [longWords, if_neg (by omega), if_neg (by omega), if_pos (by omega)]) rfl
  have hlen : ∀ c : UInt8, (List.replicate 256 c).length = 256 := fun c => List.length_replicate
  refine strstr_spins h1 h2 (List.ne_nil_of_length_pos (by rw [hlen]; norm_num)) (by rw [hlen])
    (by rw [hlen]; norm_num) (by rw [hlen, hlen]) (fun hpre => ?_)
    (fun i hi => ?_) fuel
  · have heq := hpre.eq_of_length (by rw [hlen, hlen])
    have := congrArg (fun l => l.getD 0 0) heq
    rw [List.replicate_succ, List.replicate_succ] at this
    exact absurd this (by decide)
  · rw [hlen] at hi ⊢
    rw [chr, chr, List.getD_eq_getElem?_getD, List.getD_eq_getElem?_getD, List.getElem?_replicate, List.getElem?_replicate,
      if_pos (by omega), if_pos (by omega)]
    decide

end Kmi.Strings
