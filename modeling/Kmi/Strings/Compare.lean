import Kmi.Elf.Model

/-! `strcmp` and `strncmp` of `src/string.c`, on two strings in memory. -/

namespace Kmi.Strings

open Kmi.Mem
open Elf (Bytes)

def CStr (mem : Bytes) : ℕ → List UInt8 → Prop
  | a, [] => mem a = 0
  | a, c :: s => c ≠ 0 ∧ mem a = c ∧ CStr mem (a + 1) s

structure Comparison where
  ret : ℤ
  first : List ℕ
  second : List ℕ

/-- The loop of `strcmp` and `strncmp`, on strings in `mem` and `mem'`. It looks at the characters
after those it has compared; `more` is the test of `num`, which comes last. Characters are
unsigned. -/
def compareLoop (more : ℕ → Bool) (mem mem' : Bytes) : ℕ → ℕ → ℕ → ℕ → Option Comparison
  | 0, _, _, _ => none
  | fuel + 1, s1, s2, num =>
    let ret : ℤ := (mem s1).toNat - (mem' s2).toNat
    if mem s1 ≠ mem' s2 then some ⟨ret, [s1], [s2]⟩
    else if mem (s1 + 1) = 0 then some ⟨ret, [s1, s1 + 1], [s2]⟩
    else if mem' (s2 + 1) = 0 ∨ more num = false then some ⟨ret, [s1, s1 + 1], [s2, s2 + 1]⟩
    else (compareLoop more mem mem' fuel (s1 + 1) (s2 + 1) (decr num)).map fun r =>
      ⟨r.ret, s1 :: (s1 + 1) :: r.first, s2 :: (s2 + 1) :: r.second⟩

def strcmp (mem mem' : Bytes) (fuel s1 s2 : ℕ) : Option Comparison :=
  compareLoop (fun _ => true) mem mem' fuel s1 s2 0

def strncmp (mem mem' : Bytes) (fuel s1 s2 num : ℕ) : Option Comparison :=
  compareLoop (fun num => decr num ≠ 0) mem mem' fuel s1 s2 num

def chr (s : List UInt8) (i : ℕ) : UInt8 := s.getD i 0

def Differ (s t : List UInt8) (v : ℤ) : Prop :=
  ∃ i, (∀ j < i, chr s j = chr t j) ∧ chr s i ≠ chr t i ∧ v = (chr s i).toNat - (chr t i).toNat

def Inside (s1 s2 : ℕ) (s t : List UInt8) (r : Comparison) : Prop :=
  (∀ x ∈ r.first, s1 ≤ x ∧ x ≤ s1 + s.length) ∧ ∀ x ∈ r.second, s2 ≤ x ∧ x ≤ s2 + t.length

/-- The comparison ends, decides whether `s'` and `t'` are equal, and keeps to the strings. -/
def Decides (compare : ℕ → Option Comparison) (s1 s2 : ℕ) (s t s' t' : List UInt8) : Prop :=
  ∃ fuel r, compare fuel = some r ∧ (r.ret = 0 ↔ s' = t') ∧ (s' ≠ t' → Differ s' t' r.ret) ∧
    Inside s1 s2 s t r

/-- Not both are empty, and what one goes on from is not a string that is not empty. -/
def Comparable (s t : List UInt8) : Prop :=
  ¬(s = [] ∧ t = []) ∧ ¬(s ≠ [] ∧ s ≠ t ∧ s <+: t) ∧ ¬(t ≠ [] ∧ s ≠ t ∧ t <+: s)

variable {mem mem' : Bytes} {more : ℕ → Bool} {s t l : List UInt8} {s1 s2 num n fuel : ℕ} {c d : UInt8}
  {r r' : Comparison} {v : ℤ}

lemma compareLoop_mono (h : compareLoop more mem mem' fuel s1 s2 num = some r) (k : ℕ) :
    compareLoop more mem mem' (fuel + k) s1 s2 num = some r := by
  induction fuel generalizing s1 s2 num r with
  | zero => cases h
  | succ fuel ih =>
    rw [compareLoop] at h
    rw [Nat.add_right_comm, compareLoop]
    split_ifs at h ⊢ with hne hfirst hsecond
    · exact h
    · exact h
    · exact h
    · obtain ⟨r', hr', rfl⟩ := Option.map_eq_some_iff.1 h
      rw [ih hr', Option.map_some]

lemma compareLoop_unique {fuel' : ℕ} (h : compareLoop more mem mem' fuel s1 s2 num = some r)
    (h' : compareLoop more mem mem' fuel' s1 s2 num = some r') : r = r' := by
  have heq := compareLoop_mono h fuel'
  rw [Nat.add_comm, compareLoop_mono h' fuel] at heq
  exact (Option.some.inj heq).symm

lemma Differ.cons (h : Differ s t v) : Differ (c :: s) (c :: t) v := by
  obtain ⟨i, heq, hne, rfl⟩ := h
  refine ⟨i + 1, fun j hj => ?_, hne, rfl⟩
  cases j with
  | zero => rfl
  | succ j => exact heq j (by omega)

lemma Differ.head (h : chr s 0 ≠ chr t 0) : Differ s t ((chr s 0).toNat - (chr t 0).toNat) :=
  ⟨0, fun j hj => absurd hj (Nat.not_lt_zero j), h, rfl⟩

lemma Differ.ne_zero (h : Differ s t v) : v ≠ 0 := by
  obtain ⟨i, -, hne, rfl⟩ := h
  intro h0
  apply hne
  apply UInt8.toNat_inj.1
  omega

lemma CStr.get (h : CStr mem s1 s) : mem s1 = chr s 0 := by
  cases s with
  | nil => exact h
  | cons c s => exact h.2.1

def Answer (s t : List UInt8) (v : ℤ) : Prop :=
  (s <+: t ∨ t <+: s → v = 0) ∧ (¬(s <+: t ∨ t <+: s) → Differ s t v)

lemma Answer.eq_zero_iff (h : Answer s t v) : v = 0 ↔ s <+: t ∨ t <+: s := by
  refine ⟨fun hv => ?_, h.1⟩
  by_contra hno
  exact (h.2 hno).ne_zero hv

lemma Answer.cons (h : Answer s t v) : Answer (c :: s) (c :: t) v := by
  have hpre : (c :: s <+: c :: t ∨ c :: t <+: c :: s) ↔ (s <+: t ∨ t <+: s) := by
    rw [List.cons_prefix_cons, List.cons_prefix_cons]
    simp
  exact ⟨fun hp => h.1 (hpre.1 hp), fun hp => (h.2 (mt hpre.2 hp)).cons⟩

lemma inside_cons (hs : Inside (s1 + 1) (s2 + 1) s t r) :
    Inside s1 s2 (c :: s) (d :: t) ⟨v, s1 :: (s1 + 1) :: r.first, s2 :: (s2 + 1) :: r.second⟩ := by
  obtain ⟨hfirst, hsecond⟩ := hs
  constructor
  · intro x hx
    obtain rfl | rfl | hx := by simpa using hx
    · simp
    · simp
    · have := hfirst x hx
      rw [List.length_cons]
      omega
  · intro x hx
    obtain rfl | rfl | hx := by simpa using hx
    · simp
    · simp
    · have := hsecond x hx
      rw [List.length_cons]
      omega

lemma answer_of_ne (hne : c ≠ d) : Answer (c :: s) (d :: t) (c.toNat - d.toNat) := by
  have hno : ¬(c :: s <+: d :: t ∨ d :: t <+: c :: s) := by
    rw [List.cons_prefix_cons, List.cons_prefix_cons]
    rintro (⟨heq, -⟩ | ⟨heq, -⟩)
    · exact hne heq
    · exact hne heq.symm
  exact ⟨fun h => absurd h hno, fun _ => Differ.head hne⟩

lemma compareLoop_answer (h1 : CStr mem s1 (c :: s)) (h2 : CStr mem' s2 (d :: t)) (hn : 0 < n)
    (hmore : ∀ i < (c :: s).length, i < n → more (decr^[i] num) = decide (i + 1 < n))
    (hfuel : min s.length t.length < fuel) :
    ∃ r, compareLoop more mem mem' fuel s1 s2 num = some r ∧ Inside s1 s2 (c :: s) (d :: t) r ∧
      Answer ((c :: s).take n) ((d :: t).take n) r.ret := by
  obtain ⟨n, rfl⟩ : ∃ k, n = k + 1 := ⟨n - 1, by omega⟩
  induction s generalizing s1 s2 c d t num n fuel with
  | nil =>
    obtain ⟨fuel, rfl⟩ : ∃ k, fuel = k + 1 := ⟨fuel - 1, by omega⟩
    obtain ⟨-, hc, hs⟩ := h1
    obtain ⟨-, hd, -⟩ := h2
    have hs : mem (s1 + 1) = 0 := hs
    rw [compareLoop, hc, hd, List.take_succ_cons, List.take_succ_cons]
    by_cases hcd : c = d
    · subst hcd
      rw [if_neg (by simp), if_pos hs, sub_self]
      refine ⟨_, rfl, ⟨by simp, by simp⟩, fun _ => rfl, fun hno => ?_⟩
      exact absurd (.inl (by simp)) hno
    · rw [if_pos hcd]
      exact ⟨_, rfl, ⟨by simp, by simp⟩, answer_of_ne hcd⟩
  | cons c' s ih =>
    obtain ⟨fuel, rfl⟩ : ∃ k, fuel = k + 1 := ⟨fuel - 1, by omega⟩
    obtain ⟨-, hc, hs⟩ := h1
    obtain ⟨-, hd, ht⟩ := h2
    have hc' : mem (s1 + 1) ≠ 0 := by
      rw [hs.2.1]
      exact hs.1
    have hlast := hmore 0 (by simp) (by omega)
    rw [Function.iterate_zero, id_eq] at hlast
    rw [compareLoop, hc, hd, List.take_succ_cons, List.take_succ_cons]
    by_cases hcd : c = d
    swap
    · rw [if_pos hcd]
      exact ⟨_, rfl, ⟨by simp, by simp⟩, answer_of_ne hcd⟩
    subst hcd
    rw [if_neg (by simp), if_neg hc', sub_self]
    cases t with
    | nil =>
      have ht : mem' (s2 + 1) = 0 := ht
      rw [if_pos (.inl ht)]
      refine ⟨_, rfl, ⟨by simp, by simp⟩, fun _ => rfl, fun hno => ?_⟩
      exact absurd (.inr (by simp)) hno
    | cons d' t =>
      have hd' : mem' (s2 + 1) ≠ 0 := by
        rw [ht.2.1]
        exact ht.1
      obtain rfl | hn := Nat.eq_zero_or_pos n
      · rw [if_pos (.inr (by simpa using hlast))]
        exact ⟨_, rfl, ⟨by simp, by simp⟩, fun _ => rfl, fun hno => absurd (.inl (by simp)) hno⟩
      · obtain ⟨n, rfl⟩ : ∃ k, n = k + 1 := ⟨n - 1, by omega⟩
        have hshort : min s.length t.length < fuel := by
          simp only [List.length_cons] at hfuel
          omega
        obtain ⟨r, hr, hin, hanswer⟩ := ih hs ht hshort n (by omega)
          (fun i hi hin => by
            have := hmore (i + 1) (by simpa using hi) (by omega)
            rw [Function.iterate_succ_apply] at this
            rw [this]
            simp)
        rw [if_neg (by simp [hd', hlast]), hr]
        exact ⟨_, rfl, inside_cons hin, hanswer.cons⟩

lemma compareLoop_ends (h2 : CStr mem' s2 (d :: t)) (hfuel : t.length < fuel) :
    ∃ r, compareLoop more mem mem' fuel s1 s2 num = some r ∧ s1 ∈ r.first := by
  induction fuel generalizing s1 s2 d t num with
  | zero => omega
  | succ fuel ih =>
    obtain ⟨-, hd, hs⟩ := h2
    rw [compareLoop]
    split_ifs with hne hfirst hlast
    · exact ⟨_, rfl, by simp⟩
    · exact ⟨_, rfl, by simp⟩
    · exact ⟨_, rfl, by simp⟩
    · cases t with
      | nil => exact absurd (.inl hs) hlast
      | cons d' t =>
        obtain ⟨r, hr, -⟩ := ih hs (by simpa using hfuel)
        exact ⟨_, by rw [hr, Option.map_some], by simp⟩

lemma compareLoop_empty (h1 : CStr mem s1 s) (h2 : CStr mem' s2 t) (hone : s = [] ∧ t ≠ [] ∨ s ≠ [] ∧ t = []) :
    compareLoop more mem mem' (fuel + 1) s1 s2 num =
      some ⟨(chr s 0).toNat - (chr t 0).toNat, [s1], [s2]⟩ ∧ chr s 0 ≠ chr t 0 := by
  have hne : chr s 0 ≠ chr t 0 := by
    obtain ⟨rfl, ht⟩ | ⟨hs, rfl⟩ := hone
    · cases t with
      | nil => exact absurd rfl ht
      | cons d t => exact h2.1.symm
    · cases s with
      | nil => exact absurd rfl hs
      | cons c s => exact h1.1
  refine ⟨?_, hne⟩
  rw [compareLoop, CStr.get h1, CStr.get h2, if_pos hne]

lemma compareLoop_both_empty (h1 : CStr mem s1 []) (h2 : CStr mem' s2 [])
    (h : compareLoop more mem mem' fuel s1 s2 num = some r) : s1 + 1 ∈ r.first := by
  have h1 : mem s1 = 0 := h1
  have h2 : mem' s2 = 0 := h2
  cases fuel with
  | zero => cases h
  | succ fuel =>
    rw [compareLoop, h1, h2, if_neg (by simp)] at h
    split_ifs at h
    · cases h
      simp
    · cases h
      simp
    · obtain ⟨r', -, rfl⟩ := Option.map_eq_some_iff.1 h
      simp

lemma Answer.decides_iff (h : Answer s t v) (hs : s ≠ []) (ht : t ≠ []) :
    (v = 0 ↔ s = t) ∧ (s ≠ t → Differ s t v) ↔ Comparable s t := by
  by_cases hpre : s <+: t ∨ t <+: s
  · have hv := h.1 hpre
    by_cases heq : s = t
    · exact iff_of_true ⟨iff_of_true hv heq, absurd heq⟩
        ⟨fun hnil => hs hnil.1, fun hp => hp.2.1 heq, fun hp => hp.2.1 heq⟩
    · refine iff_of_false (fun hd => heq (hd.1.1 hv)) fun hc => ?_
      obtain hp | hp := hpre
      · exact hc.2.1 ⟨hs, heq, hp⟩
      · exact hc.2.2 ⟨ht, heq, hp⟩
  · have hd := h.2 hpre
    have hne : s ≠ t := by
      rintro rfl
      exact hpre (.inl List.prefix_rfl)
    exact iff_of_true ⟨iff_of_false hd.ne_zero hne, fun _ => hd⟩
      ⟨fun hnil => hs hnil.1, fun hp => hpre (.inl hp.2.2), fun hp => hpre (.inr hp.2.2)⟩

lemma decides_iff (h1 : CStr mem s1 s) (h2 : CStr mem' s2 t) (hn : 0 < n)
    (hmore : ∀ i < s.length, i < n → more (decr^[i] num) = decide (i + 1 < n)) :
    Decides (fun fuel => compareLoop more mem mem' fuel s1 s2 num) s1 s2 s t (s.take n) (t.take n) ↔
      Comparable (s.take n) (t.take n) := by
  obtain ⟨m, rfl⟩ : ∃ m, n = m + 1 := ⟨n - 1, by omega⟩
  cases s with
  | nil =>
    cases t with
    | nil =>
      refine iff_of_false ?_ fun h => h.1 ⟨rfl, rfl⟩
      rintro ⟨fuel, r, hr, -, -, hin, -⟩
      have := hin _ (compareLoop_both_empty h1 h2 hr)
      simp at this
    | cons d t =>
      obtain ⟨hr, hne⟩ := @compareLoop_empty mem mem' more [] (d :: t) s1 s2 num 0 h1 h2 (.inl ⟨rfl, by simp⟩)
      refine iff_of_true ⟨1, _, hr, ?_, fun _ => Differ.head hne, by simp, by simp⟩ ⟨by simp, by simp, by simp⟩
      simpa using (Differ.head (s := []) (t := d :: t) hne).ne_zero
  | cons c s =>
    cases t with
    | nil =>
      obtain ⟨hr, hne⟩ := @compareLoop_empty mem mem' more (c :: s) [] s1 s2 num 0 h1 h2 (.inr ⟨by simp, rfl⟩)
      refine iff_of_true ⟨1, _, hr, ?_, fun _ => Differ.head hne, by simp, by simp⟩ ⟨by simp, by simp, by simp⟩
      simpa using (Differ.head (s := c :: s) (t := []) hne).ne_zero
    | cons d t =>
      obtain ⟨r, hr, hin, hanswer⟩ := compareLoop_answer h1 h2 hn hmore
        ((Nat.min_le_left _ _).trans_lt (Nat.lt_succ_self s.length))
      rw [← hanswer.decides_iff (by simp) (by simp)]
      constructor
      · rintro ⟨fuel, r', hr', hzero, hdiff, -⟩
        rw [compareLoop_unique hr hr']
        exact ⟨hzero, hdiff⟩
      · rintro ⟨hzero, hdiff⟩
        exact ⟨_, r, hr, hzero, hdiff, hin⟩

lemma decr_iterate {i : ℕ} (hi : i ≤ num) (hnum : num < 2 ^ 64) : decr^[i] num = num - i := by
  induction i with
  | zero => rfl
  | succ i ih =>
    rw [Function.iterate_succ_apply', ih (by omega), decr_eq (by omega) (by omega)]
    omega

lemma strcmp_answer (h1 : CStr mem s1 (c :: s)) (h2 : CStr mem' s2 (d :: t))
    (hfuel : min s.length t.length < fuel) :
    ∃ r, strcmp mem mem' fuel s1 s2 = some r ∧ Inside s1 s2 (c :: s) (d :: t) r ∧
      Answer (c :: s) (d :: t) r.ret := by
  have hmore : ∀ i < (c :: s).length, i < s.length + t.length + 2 →
      true = decide (i + 1 < s.length + t.length + 2) := by
    intro i hi _
    rw [List.length_cons] at hi
    rw [eq_comm, decide_eq_true_eq]
    omega
  obtain ⟨r, hr, hin, hanswer⟩ := @compareLoop_answer mem mem' (fun _ => true) s t s1 s2 0
    (s.length + t.length + 2) fuel c d h1 h2 (by omega) hmore hfuel
  rw [List.take_of_length_le (by simp; omega), List.take_of_length_le (by simp; omega)] at hanswer
  exact ⟨r, hr, hin, hanswer⟩

lemma strncmp_answer (h1 : CStr mem s1 (c :: s)) (h2 : CStr mem' s2 (d :: t)) (hpos : 0 < num)
    (hnum : num < 2 ^ 64) (hfuel : min s.length t.length < fuel) :
    ∃ r, strncmp mem mem' fuel s1 s2 num = some r ∧ Inside s1 s2 (c :: s) (d :: t) r ∧
      Answer ((c :: s).take num) ((d :: t).take num) r.ret := by
  refine compareLoop_answer h1 h2 hpos (fun i _ hi => ?_) hfuel
  rw [decr_iterate hi.le hnum, decr_eq (by omega) (by omega), decide_eq_decide]
  omega

theorem compare_decides_iff (h1 : CStr mem s1 s) (h2 : CStr mem' s2 t) :
    (Decides (fun fuel => strcmp mem mem' fuel s1 s2) s1 s2 s t s t ↔ Comparable s t) ∧
      ∀ num, 0 < num → num < 2 ^ 64 →
        (Decides (fun fuel => strncmp mem mem' fuel s1 s2 num) s1 s2 s t (s.take num) (t.take num) ↔
          Comparable (s.take num) (t.take num)) := by
  constructor
  · have h := @decides_iff mem mem' (fun _ => true) s t s1 s2 0 (s.length + t.length + 1) h1 h2 (by omega)
      fun i hi _ => by
        rw [eq_comm, decide_eq_true_eq]
        omega
    rwa [List.take_of_length_le (by omega), List.take_of_length_le (by omega)] at h
  · intro num hpos hnum
    refine decides_iff h1 h2 hpos fun i _ hi => ?_
    rw [decr_iterate hi.le hnum, decr_eq (by omega) (by omega), decide_eq_decide]
    omega

def twoWords : Bytes := fun x => [97, 98, 0, 97, 99, 0].getD x 0

theorem compare_decides_iff_twoWords :
    Decides (fun fuel => strcmp twoWords twoWords fuel 0 3) 0 3 [97, 98] [97, 99] [97, 98] [97, 99] ∧
      Decides (fun fuel => strncmp twoWords twoWords fuel 0 3 1) 0 3 [97, 98] [97, 99] [97] [97] := by
  obtain ⟨hall, hfirst⟩ := @compare_decides_iff twoWords twoWords [97, 98] [97, 99] 0 3 (by simp only [CStr]; decide)
    (by simp only [CStr]; decide)
  exact ⟨hall.2 ⟨by decide, by decide, by decide⟩,
    (hfirst 1 (by decide) (by decide)).2 ⟨by decide, by decide, by decide⟩⟩

def onePrefix : Bytes := fun x => [97, 0, 97, 98, 0].getD x 0

theorem prefix_compares_equal : CStr onePrefix 0 [97] ∧ CStr onePrefix 2 [97, 98] ∧
    strcmp onePrefix onePrefix 1 0 2 = some ⟨0, [0, 1], [2]⟩ ∧
      ¬Decides (fun fuel => strcmp onePrefix onePrefix fuel 0 2) 0 2 [97] [97, 98] [97] [97, 98] := by
  have hrun : strcmp onePrefix onePrefix 1 0 2 = some ⟨0, [0, 1], [2]⟩ := rfl
  refine ⟨by simp only [CStr]; decide, by simp only [CStr]; decide, hrun, ?_⟩
  rintro ⟨fuel, r, hr, hzero, -⟩
  obtain rfl := compareLoop_unique hrun hr
  exact absurd (hzero.1 rfl) (by decide)

end Kmi.Strings
