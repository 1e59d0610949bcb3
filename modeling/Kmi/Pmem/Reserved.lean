import Kmi.Pmem.Runs

/-! What `init_pmem` keeps free of the regions to avoid: where the map is placed, and
which base pages are marked used before it. -/

namespace Kmi.Pmem

open Kmi.Mem

structure AvoidRegion where
  base : ℕ
  size : ℕ

def add64 (a b : ℕ) : ℕ := (a + b) % 2 ^ 64

def overlaps (base1 size1 base2 size2 : ℕ) : Bool :=
  let b := base2 ≤ base1 ∧ base1 < add64 base2 size2
  let t := base2 < add64 base1 size1 ∧ add64 base1 size1 ≤ add64 base2 size2
  b ∨ t

def markPages : ℕ → ℕ → List ℕ
  | 0, _ => []
  | n + 1, runner => runner :: markPages n (add64 runner basePageSize)

def markAreaUsed (base top : ℕ) : List ℕ :=
  if top < base then []
  else
    let top := alignUp top basePageSize
    let base := alignDown base basePageSize
    let areaLeft := sub64 top base
    markPages (areaLeft / basePageSize) base ++
      if areaLeft % basePageSize = 0 then []
      else [add64 base (areaLeft / basePageSize * basePageSize)]

def markReserved (ramBase ramSize : ℕ) (avoid : List AvoidRegion) : List ℕ :=
  avoid.flatMap fun r =>
    if overlaps r.base r.size ramBase ramSize then markAreaUsed r.base (add64 r.base r.size) else []

def AvoidRegion.after (r : AvoidRegion) : ℕ := alignUp (add64 r.base r.size) 8

def accepts (ramBase ramSize size : ℕ) (avoid : List AvoidRegion) (base : ℕ) : Bool :=
  overlaps base size ramBase ramSize && avoid.all fun a => !overlaps base size a.base a.size

def selectFrom (ramBase ramSize size : ℕ) (avoid : List AvoidRegion) : List AvoidRegion → ℕ
  | [] => 0
  | r :: rs =>
    if accepts ramBase ramSize size avoid r.after then r.after
    else selectFrom ramBase ramSize size avoid rs

def selectBase (ramBase ramSize size : ℕ) (avoid : List AvoidRegion) : ℕ :=
  selectFrom ramBase ramSize size avoid avoid

def Surrounds (base1 size1 base2 size2 : ℕ) : Prop :=
  base1 < base2 ∧ base2 + size2 < base1 + size1

def Intersects (base1 size1 base2 size2 : ℕ) : Prop :=
  ∃ x, base1 ≤ x ∧ x < base1 + size1 ∧ base2 ≤ x ∧ x < base2 + size2

def OverlapsRight (base1 size1 base2 size2 : ℕ) : Prop :=
  overlaps base1 size1 base2 size2 ↔ Intersects base1 size1 base2 size2

def SelectRight (ramBase ramSize size : ℕ) (avoid : List AvoidRegion) : Prop :=
  ∀ base, selectBase ramBase ramSize size avoid = base → base ≠ 0 →
    ramBase ≤ base ∧ base + size ≤ ramBase + ramSize ∧
    ∀ a ∈ avoid, ¬Intersects base size a.base a.size

def SelectFits (ramBase ramSize size : ℕ) (avoid : List AvoidRegion) : Prop :=
  ∀ pre r post, avoid = pre ++ r :: post →
    (∀ x ∈ pre, ¬accepts ramBase ramSize size avoid x.after) →
    accepts ramBase ramSize size avoid r.after → r.after ≠ 0 →
    ramBase ≤ r.after ∧ r.after + size ≤ ramBase + ramSize ∧
    ∀ a ∈ avoid, 0 < a.size → ¬Surrounds r.after size a.base a.size

def RamPage (ramBase ramSize p : ℕ) : Prop :=
  4096 ∣ p ∧ ramBase ≤ p ∧ p + 4096 ≤ ramBase + ramSize

def MarkRight (ramBase ramSize : ℕ) (avoid : List AvoidRegion) : Prop :=
  ∀ p, p ∈ markReserved ramBase ramSize avoid ↔
    RamPage ramBase ramSize p ∧ ∃ r ∈ avoid, Intersects p 4096 r.base r.size

/-- A region that has RAM strictly inside it is not seen to meet it, and one whose pages
are the whole address space has an area of no bytes. -/
def Missed (ramBase ramSize : ℕ) (r : AvoidRegion) : Prop :=
  Surrounds r.base r.size ramBase ramSize ∨ (r.base < 4096 ∧ 2 ^ 64 < r.base + r.size + 4096)

def MarkFits (ramBase ramSize : ℕ) (avoid : List AvoidRegion) : Prop :=
  (∀ r ∈ avoid, ¬Missed ramBase ramSize r → overlaps r.base r.size ramBase ramSize →
    ramBase ≤ r.base / 4096 * 4096 ∧ (r.base + r.size + 4095) / 4096 * 4096 ≤ ramBase + ramSize) ∧
  ((∃ r ∈ avoid, Missed ramBase ramSize r) → ∀ p, RamPage ramBase ramSize p →
    ∃ r ∈ avoid, ¬Missed ramBase ramSize r ∧ Intersects p 4096 r.base r.size)

lemma intersects_iff {b₁ s₁ b₂ s₂ : ℕ} :
    Intersects b₁ s₁ b₂ s₂ ↔ 0 < s₁ ∧ 0 < s₂ ∧ b₁ < b₂ + s₂ ∧ b₂ < b₁ + s₁ := by
  constructor
  · rintro ⟨x, h₁, h₂, h₃, h₄⟩
    omega
  · rintro ⟨h₁, h₂, h₃, h₄⟩
    exact ⟨max b₁ b₂, by omega⟩

lemma overlaps_iff {b₁ s₁ b₂ s₂ : ℕ} (h₁ : b₁ + s₁ < 2 ^ 64) (h₂ : b₂ + s₂ < 2 ^ 64) :
    overlaps b₁ s₁ b₂ s₂ ↔
      (b₂ ≤ b₁ ∧ b₁ < b₂ + s₂) ∨ (b₂ < b₁ + s₁ ∧ b₁ + s₁ ≤ b₂ + s₂) := by
  simp only [overlaps, add64, Nat.mod_eq_of_lt h₁, Nat.mod_eq_of_lt h₂, decide_eq_true_eq]

lemma overlaps_of_intersects {b₁ s₁ b₂ s₂ : ℕ} (h₁ : b₁ + s₁ < 2 ^ 64) (h₂ : b₂ + s₂ < 2 ^ 64)
    (h : Intersects b₁ s₁ b₂ s₂) (hnot : ¬Surrounds b₁ s₁ b₂ s₂) : overlaps b₁ s₁ b₂ s₂ := by
  rw [overlaps_iff h₁ h₂]
  rw [intersects_iff] at h
  simp only [Surrounds] at hnot
  omega

lemma not_surrounds_of_overlaps {b₁ s₁ b₂ s₂ : ℕ} (h₁ : b₁ + s₁ < 2 ^ 64) (h₂ : b₂ + s₂ < 2 ^ 64)
    (h : overlaps b₁ s₁ b₂ s₂) : ¬Surrounds b₁ s₁ b₂ s₂ := by
  rw [overlaps_iff h₁ h₂] at h
  simp only [Surrounds]
  omega

lemma overlapsRight_iff {b₁ s₁ b₂ s₂ : ℕ} (hs₁ : 0 < s₁) (hs₂ : 0 < s₂) (h₁ : b₁ + s₁ < 2 ^ 64)
    (h₂ : b₂ + s₂ < 2 ^ 64) : OverlapsRight b₁ s₁ b₂ s₂ ↔ ¬Surrounds b₁ s₁ b₂ s₂ := by
  simp only [OverlapsRight, overlaps_iff h₁ h₂, intersects_iff, Surrounds]
  omega

lemma selectFrom_eq (ramBase ramSize size : ℕ) (avoid rs : List AvoidRegion) {base : ℕ}
    (hbase : base ≠ 0) :
    selectFrom ramBase ramSize size avoid rs = base ↔
      ∃ pre r post, rs = pre ++ r :: post ∧
        (∀ x ∈ pre, ¬accepts ramBase ramSize size avoid x.after) ∧
        accepts ramBase ramSize size avoid r.after ∧ r.after = base := by
  induction rs with
  | nil => simp [selectFrom, hbase.symm]
  | cons r rs ih =>
    rw [selectFrom]
    split
    · rename_i hacc
      constructor
      · rintro rfl
        exact ⟨[], r, rs, rfl, by simp, hacc, rfl⟩
      · rintro ⟨pre, x, post, hrs, hpre, -, rfl⟩
        cases pre with
        | nil =>
          obtain ⟨rfl, -⟩ := List.cons.inj hrs
          rfl
        | cons y pre =>
          obtain ⟨rfl, -⟩ := List.cons.inj hrs
          exact absurd hacc (hpre r List.mem_cons_self)
    · rename_i hacc
      rw [ih]
      constructor
      · rintro ⟨pre, x, post, rfl, hpre, hx, rfl⟩
        refine ⟨r :: pre, x, post, rfl, fun y hy => ?_, hx, rfl⟩
        obtain rfl | hy := List.mem_cons.1 hy
        · exact hacc
        · exact hpre y hy
      · rintro ⟨pre, x, post, hrs, hpre, hx, rfl⟩
        cases pre with
        | nil =>
          obtain ⟨rfl, -⟩ := List.cons.inj hrs
          exact absurd hx hacc
        | cons y pre =>
          obtain ⟨rfl, rfl⟩ := List.cons.inj hrs
          exact ⟨pre, x, post, rfl, fun z hz => hpre z (List.mem_cons_of_mem _ hz), hx, rfl⟩

lemma accepts_iff {ramBase ramSize size base : ℕ} {avoid : List AvoidRegion} :
    accepts ramBase ramSize size avoid base ↔
      overlaps base size ramBase ramSize ∧ ∀ a ∈ avoid, ¬overlaps base size a.base a.size := by
  simp [accepts]

lemma accepted_meets {ramBase ramSize size base : ℕ} {avoid : List AvoidRegion}
    (hplain : ∀ a ∈ avoid, a.base + a.size < 2 ^ 64) (hin : base + size < 2 ^ 64)
    (h : accepts ramBase ramSize size avoid base) (hsize : 0 < size) {a : AvoidRegion}
    (ha : a ∈ avoid) :
    Intersects base size a.base a.size ↔ 0 < a.size ∧ Surrounds base size a.base a.size := by
  have hno := (accepts_iff.1 h).2 a ha
  rw [overlaps_iff hin (hplain a ha)] at hno
  rw [intersects_iff]
  simp only [Surrounds]
  omega

lemma selectRight_iff {ramBase ramSize size : ℕ} {avoid : List AvoidRegion}
    (hram : ramBase + ramSize < 2 ^ 64) (hsize : 0 < size)
    (hplain : ∀ a ∈ avoid, a.base + a.size < 2 ^ 64) :
    SelectRight ramBase ramSize size avoid ↔ SelectFits ramBase ramSize size avoid := by
  constructor
  · intro h pre r post hav hpre hr hne
    obtain ⟨hlo, hhi, hapart⟩ := h r.after
      ((selectFrom_eq _ _ _ _ _ hne).2 ⟨pre, r, post, hav, hpre, hr, rfl⟩) hne
    refine ⟨hlo, hhi, fun a ha hpos hsur => hapart a ha ?_⟩
    exact (accepted_meets hplain (by omega) hr hsize ha).2 ⟨hpos, hsur⟩
  · intro h base hbase hne
    obtain ⟨pre, r, post, hav, hpre, hr, rfl⟩ := (selectFrom_eq _ _ _ _ _ hne).1 hbase
    obtain ⟨hlo, hhi, hapart⟩ := h pre r post hav hpre hr hne
    refine ⟨hlo, hhi, fun a ha hmeet => ?_⟩
    obtain ⟨hpos, hsur⟩ := (accepted_meets hplain (by omega) hr hsize ha).1 hmeet
    exact hapart a ha hpos hsur

lemma mem_markPages {n runner p : ℕ} (h : runner + n * 4096 ≤ 2 ^ 64) :
    p ∈ markPages n runner ↔ ∃ i < n, p = runner + i * 4096 := by
  induction n generalizing runner with
  | zero => simp [markPages]
  | succ n ih =>
    rw [markPages, List.mem_cons]
    by_cases hn : n = 0
    · subst hn
      simp [markPages]
    · have hadd : add64 runner basePageSize = runner + 4096 := by
        rw [add64, basePageSize_eq]
        omega
      rw [hadd, ih (by omega)]
      constructor
      · rintro (rfl | ⟨i, hi, rfl⟩)
        · exact ⟨0, by omega, by omega⟩
        · exact ⟨i + 1, by omega, by omega⟩
      · rintro ⟨i, hi, rfl⟩
        cases i with
        | zero => exact .inl (by omega)
        | succ i => exact .inr ⟨i, by omega, by omega⟩

lemma alignUp_page {n : ℕ} (h : n < 2 ^ 64) :
    alignUp n basePageSize = (n + 4095) / 4096 * 4096 % 2 ^ 64 := by
  have hdown : alignDown n 4096 = n / 4096 * 4096 := by
    rw [alignDown_eq (by norm_num), Nat.mul_comm]
  rw [basePageSize_eq, alignUp, hdown]
  split <;> omega

lemma alignDown_page (n : ℕ) : alignDown n basePageSize = n / 4096 * 4096 := by
  rw [basePageSize_eq, alignDown_eq (by norm_num), Nat.mul_comm]

lemma mem_markAreaUsed {base top p : ℕ} (hle : base ≤ top) (htop : top < 2 ^ 64)
    (hnot : ¬(base < 4096 ∧ 2 ^ 64 < top + 4096)) :
    p ∈ markAreaUsed base top ↔
      4096 ∣ p ∧ base / 4096 * 4096 ≤ p ∧ p < (top + 4095) / 4096 * 4096 := by
  have hleft : sub64 (alignUp top basePageSize) (alignDown base basePageSize) =
      ((top + 4095) / 4096 - base / 4096) * 4096 := by
    rw [alignUp_page htop, alignDown_page, sub64]
    omega
  rw [markAreaUsed, if_neg (by omega)]
  simp only
  rw [hleft, alignDown_page, basePageSize_eq, Nat.mul_mod_left, if_pos rfl, List.append_nil,
    Nat.mul_div_cancel _ (by norm_num), mem_markPages (by omega)]
  constructor
  · rintro ⟨i, hi, rfl⟩
    omega
  · rintro ⟨⟨k, rfl⟩, hlo, hhi⟩
    exact ⟨k - base / 4096, by omega, by omega⟩

section

variable {ramBase ramSize : ℕ} {avoid : List AvoidRegion}

lemma mem_markReserved {p : ℕ} :
    p ∈ markReserved ramBase ramSize avoid ↔ ∃ r ∈ avoid, overlaps r.base r.size ramBase ramSize ∧
      p ∈ markAreaUsed r.base (add64 r.base r.size) := by
  simp only [markReserved, List.mem_flatMap]
  apply exists_congr
  intro r
  apply and_congr_right
  intro _
  split
  · rename_i h
    simp [h]
  · rename_i h
    simp [h]

lemma markAreaUsed_whole {base top : ℕ} (hlo : base < 4096) (hhi : 2 ^ 64 < top + 4096)
    (htop : top < 2 ^ 64) : markAreaUsed base top = [] := by
  have hleft : sub64 (alignUp top basePageSize) (alignDown base basePageSize) = 0 := by
    rw [alignUp_page htop, alignDown_page, sub64]
    omega
  rw [markAreaUsed]
  split
  · rfl
  · simp only
    rw [hleft, Nat.zero_div, Nat.zero_mod, if_pos rfl]
    rfl

lemma overlaps_of_page (hram : ramBase + ramSize < 2 ^ 64) {r : AvoidRegion}
    (hwrap : r.base + r.size < 2 ^ 64) (hnot : ¬Missed ramBase ramSize r) {p : ℕ} (hp : RamPage ramBase ramSize p)
    (hmeet : Intersects p 4096 r.base r.size) :
    overlaps r.base r.size ramBase ramSize := by
  apply overlaps_of_intersects hwrap hram ?_ fun h => hnot (.inl h)
  obtain ⟨-, hlo, hhi⟩ := hp
  rw [intersects_iff] at hmeet ⊢
  omega

lemma missed_meets (hram : ramBase + ramSize < 2 ^ 64) {r : AvoidRegion} (hmiss : Missed ramBase ramSize r) {p : ℕ}
    (hp : RamPage ramBase ramSize p) : Intersects p 4096 r.base r.size := by
  obtain ⟨⟨k, rfl⟩, hlo, hhi⟩ := hp
  rw [intersects_iff]
  obtain ⟨h₁, h₂⟩ | ⟨h₁, h₂⟩ := hmiss
  · omega
  · omega

variable (hram : ramBase + ramSize < 2 ^ 64)
  (hplain : ∀ a ∈ avoid, a.base + a.size < 2 ^ 64)
  (hempty : ∀ a ∈ avoid, a.size = 0 → 4096 ∣ a.base)

include hram hplain hempty

lemma mem_region {r : AvoidRegion} (hr : r ∈ avoid) {p : ℕ} (hp : 4096 ∣ p) :
    (¬Missed ramBase ramSize r ∧ overlaps r.base r.size ramBase ramSize ∧
        Intersects p 4096 r.base r.size) ↔
      overlaps r.base r.size ramBase ramSize ∧
        p ∈ markAreaUsed r.base (add64 r.base r.size) := by
  have hwrap := hplain r hr
  have hpage := hempty r hr
  have hadd : add64 r.base r.size = r.base + r.size := Nat.mod_eq_of_lt hwrap
  rw [hadd]
  by_cases hwhole : r.base < 4096 ∧ 2 ^ 64 < r.base + r.size + 4096
  · rw [markAreaUsed_whole hwhole.1 hwhole.2 hwrap]
    constructor
    · rintro ⟨hnot, -⟩
      exact absurd (.inr hwhole) hnot
    · rintro ⟨-, hmem⟩
      cases hmem
  rw [mem_markAreaUsed (by omega) hwrap hwhole, intersects_iff]
  have hsur : overlaps r.base r.size ramBase ramSize → ¬Missed ramBase ramSize r := by
    rintro hov (h | h)
    · exact not_surrounds_of_overlaps hwrap hram hov h
    · exact hwhole h
  obtain ⟨k, rfl⟩ := hp
  constructor
  · rintro ⟨-, hov, -, hpos, h₁, h₂⟩
    exact ⟨hov, ⟨k, rfl⟩, by omega, by omega⟩
  · rintro ⟨hov, -, h₁, h₂⟩
    refine ⟨hsur hov, hov, by omega, ?_⟩
    by_cases hz : r.size = 0
    · have := hpage hz
      omega
    · omega

lemma mem_markReserved_iff {p : ℕ} : p ∈ markReserved ramBase ramSize avoid ↔
    4096 ∣ p ∧ ∃ r ∈ avoid, ¬Missed ramBase ramSize r ∧ overlaps r.base r.size ramBase ramSize ∧
      Intersects p 4096 r.base r.size := by
  rw [mem_markReserved]
  constructor
  · rintro ⟨r, hr, hov, hmem⟩
    have hwrap := hplain r hr
    have hp : 4096 ∣ p := by
      have hadd : add64 r.base r.size = r.base + r.size := Nat.mod_eq_of_lt hwrap
      rw [hadd] at hmem
      by_cases hwhole : r.base < 4096 ∧ 2 ^ 64 < r.base + r.size + 4096
      · rw [markAreaUsed_whole hwhole.1 hwhole.2 hwrap] at hmem
        cases hmem
      · exact ((mem_markAreaUsed (by omega) hwrap hwhole).1 hmem).1
    exact ⟨hp, r, hr, (mem_region hram hplain hempty hr hp).2 ⟨hov, hmem⟩⟩
  · rintro ⟨hp, r, hr, h⟩
    exact ⟨r, hr, (mem_region hram hplain hempty hr hp).1 h⟩

lemma markRight_of_fits (h : MarkFits ramBase ramSize avoid) :
    MarkRight ramBase ramSize avoid := by
  obtain ⟨hin, hall⟩ := h
  intro p
  rw [mem_markReserved_iff hram hplain hempty]
  constructor
  · rintro ⟨⟨k, rfl⟩, r, hr, hnot, hov, hmeet⟩
    obtain ⟨hlo, hhi⟩ := hin r hr hnot hov
    refine ⟨⟨⟨k, rfl⟩, ?_, ?_⟩, r, hr, hmeet⟩
    · rw [intersects_iff] at hmeet
      omega
    · rw [intersects_iff] at hmeet
      omega
  · rintro ⟨hp, r, hr, hmeet⟩
    by_cases hnot : Missed ramBase ramSize r
    · obtain ⟨r', hr', hnot', hmeet'⟩ := hall ⟨r, hr, hnot⟩ p hp
      exact ⟨hp.1, r', hr', hnot', overlaps_of_page hram (hplain r' hr') hnot' hp hmeet', hmeet'⟩
    · exact ⟨hp.1, r, hr, hnot, overlaps_of_page hram (hplain r hr) hnot hp hmeet, hmeet⟩

lemma fits_of_markRight (h : MarkRight ramBase ramSize avoid) :
    MarkFits ramBase ramSize avoid := by
  have hmem := @mem_markReserved_iff ramBase ramSize avoid hram hplain hempty
  constructor
  · intro r hr hnot hov
    have hwrap := hplain r hr
    have hpage := hempty r hr
    have hmarked : ∀ k, Intersects (4096 * k) 4096 r.base r.size →
        RamPage ramBase ramSize (4096 * k) :=
      fun k hk => ((h _).1 (hmem.2 ⟨⟨k, rfl⟩, r, hr, hnot, hov, hk⟩)).1
    by_cases hz : r.size = 0
    · obtain ⟨k, hk⟩ := hpage hz
      rw [overlaps_iff hwrap hram] at hov
      omega
    constructor
    · obtain ⟨-, hlo, -⟩ := hmarked (r.base / 4096) (by rw [intersects_iff]; omega)
      omega
    · obtain ⟨-, -, hhi⟩ := hmarked ((r.base + r.size - 1) / 4096) (by rw [intersects_iff]; omega)
      omega
  · rintro ⟨r, hr, hmiss⟩ p hp
    obtain ⟨-, r', hr', hnot, -, hmeet⟩ :=
      hmem.1 ((h p).2 ⟨hp, r, hr, missed_meets hram hmiss hp⟩)
    exact ⟨r', hr', hnot, hmeet⟩

end

theorem reserved_right_iff {base1 size1 base2 size2 ramBase ramSize size : ℕ}
    {avoid : List AvoidRegion} (hs₁ : 0 < size1) (hs₂ : 0 < size2) (h₁ : base1 + size1 < 2 ^ 64)
    (h₂ : base2 + size2 < 2 ^ 64) (hram : ramBase + ramSize < 2 ^ 64) (hsize : 0 < size)
    (hplain : ∀ a ∈ avoid, a.base + a.size < 2 ^ 64)
    (hempty : ∀ a ∈ avoid, a.size = 0 → 4096 ∣ a.base) :
    (OverlapsRight base1 size1 base2 size2 ↔ ¬Surrounds base1 size1 base2 size2) ∧
      (SelectRight ramBase ramSize size avoid ↔ SelectFits ramBase ramSize size avoid) ∧
      (MarkRight ramBase ramSize avoid ↔ MarkFits ramBase ramSize avoid) := by
  refine ⟨?_, ?_, ?_⟩
  · exact overlapsRight_iff hs₁ hs₂ h₁ h₂
  · exact selectRight_iff hram hsize hplain
  · exact ⟨fits_of_markRight hram hplain hempty, markRight_of_fits hram hplain hempty⟩

theorem reserved_right_iff_one_region :
    OverlapsRight 4096 4096 4096 8192 ∧ SelectRight (2 ^ 31) (2 ^ 22) 8192 [⟨2 ^ 31, 4096⟩] ∧
      MarkRight (2 ^ 31) (2 ^ 22) [⟨2 ^ 31, 4096⟩] := by
  have hiff := @reserved_right_iff 4096 4096 4096 8192 (2 ^ 31) (2 ^ 22) 8192 [⟨2 ^ 31, 4096⟩]
    (by norm_num) (by norm_num) (by norm_num) (by norm_num) (by norm_num) (by norm_num) (by simp)
    (by simp)
  refine ⟨hiff.1.2 ?_, hiff.2.1.2 ?_, hiff.2.2.2 ?_⟩
  · simp [Surrounds]
  · intro pre r post hav _ _ _
    have hr : r ∈ [(⟨2 ^ 31, 4096⟩ : AvoidRegion)] := by
      rw [hav]
      simp
    obtain rfl := List.mem_singleton.1 hr
    have hafter : AvoidRegion.after ⟨2 ^ 31, 4096⟩ = 2 ^ 31 + 4096 := by decide
    rw [hafter]
    simp [Surrounds]
  · constructor
    · simp
    · simp [Missed, Surrounds]

/-- An interval that strictly contains the other is not seen; a block is placed over a
region, and a page in front of RAM is marked. -/
theorem reserved_region_missed :
    ¬OverlapsRight 4096 12288 8192 4096 ∧
      ¬SelectRight (2 ^ 31) (2 ^ 22) 16384 [⟨2 ^ 31, 4096⟩, ⟨2 ^ 31 + 8192, 4096⟩] ∧
      ¬MarkRight (2 ^ 31) (2 ^ 22) [⟨2 ^ 31 - 4096, 8192⟩] := by
  refine ⟨?_, ?_, ?_⟩
  · rw [overlapsRight_iff (by norm_num) (by norm_num) (by norm_num) (by norm_num)]
    simp [Surrounds]
  · intro h
    have hsel : selectBase (2 ^ 31) (2 ^ 22) 16384 [⟨2 ^ 31, 4096⟩, ⟨2 ^ 31 + 8192, 4096⟩] =
        2 ^ 31 + 4096 := by decide
    obtain ⟨-, -, hapart⟩ := h _ hsel (by norm_num)
    apply hapart ⟨2 ^ 31 + 8192, 4096⟩ (by simp)
    rw [intersects_iff]
    norm_num
  · intro h
    have hmem : 2 ^ 31 - 4096 ∈ markReserved (2 ^ 31) (2 ^ 22) [⟨2 ^ 31 - 4096, 8192⟩] := by decide
    obtain ⟨⟨-, hlo, -⟩, -⟩ := (h _).1 hmem
    norm_num at hlo

end Kmi.Pmem
