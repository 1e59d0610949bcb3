import Kmi.Uvmem.Ranges

/-! The loop of `map_fixed_region`, page by page, for any address it is given: the walks see
27 bits of a page number, so a long range may come back to where it began. -/

namespace Kmi.Uvmem

open Kmi.Mem Kmi.Vmem

variable {m m' : Space} {v y start bytes flags fuel k : ℕ} {x : Stat} {pages : Pages}
  {answers : List Pages}

def walkPage (v : ℕ) : ℕ := v / 4096 % 2 ^ 27

lemma pageOf_walkPage : pageOf (y % 2 ^ 39) 0 = pageOf (v % 2 ^ 39) 0 ↔ walkPage y = walkPage v := by
  rw [pageOf, pageOf, walkPage, walkPage, show orderShift 0 = 12 from rfl]
  omega

lemma pageOf_of_base {a b : ℕ} (h : pageOf a 0 = pageOf b 0) (o : ℕ) : pageOf a o = pageOf b o := by
  induction o with
  | zero => exact h
  | succ o ih => rw [pageOf_succ, pageOf_succ, ih]

lemma statVpage_walkPage (m : Space) (h : walkPage y = walkPage v) : statVpage m y = statVpage m v := by
  have hpage := pageOf_walkPage.2 h
  rw [← statVpage_mod m y, ← statVpage_mod m v]
  cases hv : statVpage m (v % 2 ^ 39) with
  | some x => exact statVpage_page hv (pageOf_of_base hpage _)
  | none =>
    cases hy : statVpage m (y % 2 ^ 39) with
    | none => rfl
    | some x =>
      rw [statVpage_page hy (pageOf_of_base hpage.symm _)] at hv
      cases hv

lemma unmapVpage_mod (m : Space) (v : ℕ) : unmapVpage m (v % 2 ^ 39) = unmapVpage m v := by
  rw [unmapVpage, unmapVpage, findVmem_mod m v none le_rfl, vmToIndex_mod v le_rfl]

lemma mapBasePage_spec (hf : PageFlags flags) (hw : WellFormed m) (hs : start < 2 ^ 64)
    (hal : start % 4096 = 0) (hsmall : ∀ x, statVpage m v = some x → x.order = 0)
    (hp : FreshPages m pages) :
    WellFormed (mapVpage m start v flags 0 pages).1 ∧
      TablesFrom m pages (mapVpage m start v flags 0 pages).1 ∧
      ((mapVpage m start v flags 0 pages).2 = OK ∧ statVpage m v = none ∧
          (∀ y, statVpage (mapVpage m start v flags 0 pages).1 y =
            if walkPage y = walkPage v then some ⟨start, 0, flags ||| (VM_A ||| VM_D)⟩
            else statVpage m y) ∨
        (mapVpage m start v flags 0 pages).2 ≠ OK ∧
          ∀ y, statVpage (mapVpage m start v flags 0 pages).1 y = statVpage m y) := by
  have hlt : v % 2 ^ 39 < 2 ^ 39 := Nat.mod_lt _ (by norm_num)
  have hn : NoLargerLeaf m (v % 2 ^ 39) 0 := by
    apply noLargerLeaf_of_order
    intro x hx
    rw [statVpage_mod] at hx
    exact (hsmall x hx).le
  have hnone := @mapVpage_ok_none _ _ 0 _ hw hlt (Nat.zero_le _) hn hp start flags
  have hspec := mapVpage_spec hw hf.1 hf.2 hs hal hlt (Nat.zero_le _) hn hp
  rw [mapVpage_mod m start v flags pages (Nat.zero_le _)] at hnone hspec
  rw [statVpage_mod] at hnone
  obtain ⟨hw', ht, ⟨hok, hstat⟩ | ⟨herr, hstat⟩⟩ := hspec
  · refine ⟨hw', ht, .inl ⟨hok, hnone hok, fun y => ?_⟩⟩
    rw [← statVpage_mod, hstat _ (Nat.mod_lt _ (by norm_num)), statVpage_mod]
    simp only [pageOf_walkPage]
  · refine ⟨hw', ht, .inr ⟨?_, fun y => ?_⟩⟩
    · obtain herr | herr := herr
      · rw [herr]
        decide
      · rw [herr]
        decide
    · rw [← statVpage_mod, hstat _ (Nat.mod_lt _ (by norm_num)), statVpage_mod]

structure MapsFixed (flags : ℕ) (m m' : Space) (v start k : ℕ) : Prop where
  wf : WellFormed m'
  old : ∀ j < k, ∀ y, walkPage y = (v / 4096 + j) % 2 ^ 27 → statVpage m y = none
  new : ∀ j < k, ∀ y, walkPage y = (v / 4096 + j) % 2 ^ 27 →
    statVpage m' y = some ⟨(start + j * 4096) % 2 ^ 64, 0, flags ||| (VM_A ||| VM_D)⟩
  rest : ∀ y, (∀ j < k, walkPage y ≠ (v / 4096 + j) % 2 ^ 27) → statVpage m' y = statVpage m y

lemma MapsFixed.le (h : MapsFixed flags m m' v start k) : k ≤ 2 ^ 27 := by
  by_contra hk
  have hy : walkPage v = (v / 4096 + 0) % 2 ^ 27 := rfl
  have hz : walkPage v = (v / 4096 + 2 ^ 27) % 2 ^ 27 := by
    rw [walkPage]
    omega
  have heq := (h.new 0 (by omega) v hy).symm.trans (h.new (2 ^ 27) (by omega) v hz)
  simp only [Option.some.injEq, Stat.mk.injEq, and_true] at heq
  omega

lemma walkPage_next (hv : v % 4096 = 0) (j : ℕ) :
    ((v + 4096) % 2 ^ 64 / 4096 + j) % 2 ^ 27 = (v / 4096 + (j + 1)) % 2 ^ 27 := by
  omega

lemma MapsFixed.cons {m₁ : Space} (hv : v % 4096 = 0) (hnone : statVpage m v = none)
    (hstat : ∀ y, statVpage m₁ y = if walkPage y = walkPage v
      then some ⟨start % 2 ^ 64, 0, flags ||| (VM_A ||| VM_D)⟩ else statVpage m y)
    (h : MapsFixed flags m₁ m' ((v + 4096) % 2 ^ 64) ((start + 4096) % 2 ^ 64) k) :
    MapsFixed flags m m' v start (k + 1) := by
  have hnext := fun j => @walkPage_next v hv j
  have hother : ∀ j < k, ∀ y, walkPage y = (v / 4096 + (j + 1)) % 2 ^ 27 →
      walkPage y ≠ walkPage v ∧ statVpage m y = none := by
    intro j hj y hy
    have hold := h.old j hj y (by rw [hnext, hy])
    rw [hstat] at hold
    split_ifs at hold with hp
    exact ⟨hp, hold⟩
  refine ⟨h.wf, fun j hj y hy => ?_, fun j hj y hy => ?_, fun y hy => ?_⟩
  · cases j with
    | zero => rw [statVpage_walkPage m hy, hnone]
    | succ j => exact (hother j (by omega) y hy).2
  · cases j with
    | zero =>
      have hp : walkPage y = walkPage v := hy
      rw [h.rest, hstat, if_pos hp, Nat.zero_mul, Nat.add_zero]
      intro j hj hj'
      rw [hnext] at hj'
      exact (hother j hj y hj').1 hp
    | succ j =>
      have hstart : ((start + 4096) % 2 ^ 64 + j * 4096) % 2 ^ 64 = (start + (j + 1) * 4096) % 2 ^ 64 := by
        omega
      rw [h.new j (by omega) y (by rw [hnext, hy]), hstart]
  · have hne : walkPage y ≠ walkPage v := hy 0 (by omega)
    rw [h.rest, hstat, if_neg hne]
    intro j hj
    rw [hnext]
    exact hy (j + 1) (by omega)

lemma freshPages_first (hfresh : FreshPages m answers.flatten) : FreshPages m (answers.headD []) := by
  cases answers with
  | nil => exact hfresh
  | cons a rest =>
    rw [List.flatten_cons] at hfresh
    exact hfresh.prefixed

lemma freshPages_rest (hfresh : FreshPages m answers.flatten)
    (ht : TablesFrom m (answers.headD []) m') : FreshPages m' answers.tail.flatten := by
  cases answers with
  | nil => exact @FreshPages.after m _ [] [] hfresh ht
  | cons a rest =>
    rw [List.flatten_cons] at hfresh
    exact hfresh.after ht

lemma mapFixedPages_spec {ret : ℤ} (hf : PageFlags flags) (hw : WellFormed m) (hv : v % 4096 = 0)
    (hs : start < 2 ^ 64) (hal : start % 4096 = 0) (hb : bytes % 4096 = 0) (hlt : bytes < 2 ^ 64)
    (hsmall : ∀ j < bytes / 4096, ∀ y, walkPage y = (v / 4096 + j) % 2 ^ 27 →
      ∀ x, statVpage m y = some x → x.order = 0)
    (hp : FreshPages m answers.flatten)
    (h : mapFixedPages flags fuel v start bytes answers m = some (m', ret)) :
    ∃ k ≤ bytes / 4096, MapsFixed flags m m' v start k ∧ (ret = OK ↔ k = bytes / 4096) := by
  induction fuel generalizing m v start bytes answers with
  | zero => cases h
  | succ fuel ih =>
    rw [mapFixedPages] at h
    have hnil : ∀ m₁, WellFormed m₁ → (∀ y, statVpage m₁ y = statVpage m y) →
        MapsFixed flags m m₁ v start 0 :=
      fun m₁ hw₁ hy => ⟨hw₁, fun j hj => absurd hj (by omega), fun j hj => absurd hj (by omega),
        fun y _ => hy y⟩
    by_cases hz : bytes = 0
    · rw [if_pos hz] at h
      cases h
      exact ⟨0, by omega, hnil _ hw fun _ => rfl, by simp [hz]⟩
    rw [if_neg hz] at h
    obtain ⟨hw₁, ht, ⟨hok, hnone, hstat⟩ | ⟨herr, hstat⟩⟩ := mapBasePage_spec hf hw hs hal
      (fun x hx => hsmall 0 (by omega) v rfl x hx) (freshPages_first hp)
    · have hfresh := freshPages_rest hp ht
      generalize mapVpage m start v flags 0 (answers.headD []) = r at h hw₁ hok hstat hfresh
      obtain ⟨m₁, ret₁⟩ := r
      dsimp only at h hw₁ hok hstat hfresh
      have hsub : sub64 bytes basePageSize = bytes - 4096 := by
        rw [sub64, basePageSize_eq]
        omega
      rw [if_neg (by rw [hok]; decide), hsub, basePageSize_eq] at h
      obtain ⟨k, hk, hm, hret⟩ := @ih m₁ ((v + 4096) % 2 ^ 64) ((start + 4096) % 2 ^ 64) (bytes - 4096)
        answers.tail hw₁ (by omega) (Nat.mod_lt _ (by norm_num)) (by omega) (by omega) (by omega) (by
          intro j hj y hy x hx
          rw [walkPage_next hv] at hy
          rw [hstat] at hx
          split_ifs at hx with hpage
          · cases hx
            rfl
          · exact hsmall (j + 1) (by omega) y hy x hx) hfresh h
      refine ⟨k + 1, by omega, hm.cons hv hnone ?_, by rw [hret]; omega⟩
      rw [Nat.mod_eq_of_lt hs]
      exact hstat
    · generalize mapVpage m start v flags 0 (answers.headD []) = r at h hw₁ herr hstat
      obtain ⟨m₁, ret₁⟩ := r
      dsimp only at h hw₁ herr hstat
      rw [if_pos herr] at h
      cases h
      exact ⟨0, by omega, hnil _ hw₁ hstat, by simp only [herr, false_iff]; omega⟩

lemma unmapVpage_stat (hw : WellFormed m) (hx : statVpage m v = some x) (y : ℕ) :
    statVpage (unmapVpage m v).1 y =
      if pageOf (y % 2 ^ 39) x.order = pageOf (v % 2 ^ 39) x.order then none else statVpage m y := by
  have hlt : v % 2 ^ 39 < 2 ^ 39 := Nat.mod_lt _ (by norm_num)
  have hspec := (unmapVpage_spec hw hlt).2
  rw [unmapVpage_mod, statVpage_mod, hx] at hspec
  obtain ⟨-, hnone, -⟩ | ⟨-, x', hx', hstat⟩ := hspec
  · cases hnone
  · cases hx'
    rw [← statVpage_mod, hstat _ (Nat.mod_lt _ (by norm_num)), statVpage_mod]

lemma unmapPages_shrinks {freed : List (ℕ × ℕ)} (hw : WellFormed m)
    (h : unmapPages fuel v bytes m = some (m', freed)) (hy : statVpage m' y = some x) :
    statVpage m y = some x := by
  induction fuel generalizing m v bytes freed with
  | zero => cases h
  | succ fuel ih =>
    rw [unmapPages] at h
    split_ifs at h with hz
    · cases h
      exact hy
    · cases hv : statVpage m v with
      | none =>
        rw [hv] at h
        cases h
        exact hy
      | some z =>
        rw [hv] at h
        simp only [Option.bind_eq_bind, Option.bind_eq_some_iff, Option.some.injEq, Prod.mk.injEq,
          Prod.exists] at h
        obtain ⟨m₂, freed₂, hrec, rfl, -⟩ := h
        have hx := ih (unmapVpage_wellFormed hw v) hrec
        rw [unmapVpage_stat hw hv] at hx
        split_ifs at hx
        exact hx

lemma unmapPages_prefix {freed : List (ℕ × ℕ)} (hw : WellFormed m) (hv : v % 4096 = 0)
    (hk : k ≤ 2 ^ 27) (hb : bytes % 4096 = 0) (hlt : bytes < 2 ^ 64) (hkb : k * 4096 ≤ bytes)
    (hx : ∀ j < k, ∀ y, walkPage y = (v / 4096 + j) % 2 ^ 27 → ∃ x, statVpage m y = some x ∧ x.order = 0)
    (h : unmapPages fuel v bytes m = some (m', freed)) :
    ∀ j < k, ∀ y, walkPage y = (v / 4096 + j) % 2 ^ 27 → statVpage m' y = none := by
  induction fuel generalizing m v bytes k freed with
  | zero => cases h
  | succ fuel ih =>
    cases k with
    | zero => exact fun j hj => absurd hj (Nat.not_lt_zero j)
    | succ k =>
      obtain ⟨x, hx₀, ho⟩ := hx 0 (Nat.succ_pos k) v rfl
      have hkb₁ : k * 4096 ≤ bytes - 4096 := by
        rw [Nat.succ_mul] at hkb
        exact Nat.le_sub_of_add_le hkb
      rw [unmapPages, if_neg (by omega), hx₀] at h
      have hsub : sub64 bytes 4096 = bytes - 4096 := by
        rw [sub64]
        omega
      simp only [ho, show orderSize 0 = 4096 by decide, hsub, Option.bind_eq_bind, Option.bind_eq_some_iff,
        Option.some.injEq, Prod.mk.injEq, Prod.exists] at h
      obtain ⟨m₂, freed₂, hrec, rfl, -⟩ := h
      have hstat := unmapVpage_stat hw hx₀
      rw [ho] at hstat
      simp only [pageOf_walkPage] at hstat
      have hw₁ := unmapVpage_wellFormed hw v
      intro j hj y hy
      cases j with
      | zero =>
        cases hlast : statVpage m₂ y with
        | none => rfl
        | some z =>
          have hz := unmapPages_shrinks hw₁ hrec hlast
          rw [hstat, if_pos (show walkPage y = walkPage v from hy)] at hz
          cases hz
      | succ j =>
        have hleft : ∀ i < k, ∀ z, walkPage z = ((v + 4096) % 2 ^ 64 / 4096 + i) % 2 ^ 27 →
            ∃ x, statVpage (unmapVpage m v).1 z = some x ∧ x.order = 0 := by
          intro i hi z hz
          rw [walkPage_next hv] at hz
          have hne : walkPage z ≠ walkPage v := by
            rw [hz, walkPage]
            omega
          rw [hstat, if_neg hne]
          exact hx (i + 1) (by omega) z hz
        apply ih hw₁ (by omega) (by omega) (by omega) (by omega) hkb₁ hleft hrec j (by omega) y
        rw [walkPage_next hv, hy]

lemma alignRegion_eq (hs : start < 2 ^ 64) (hb : bytes % 4096 = 0) :
    alignRegion start bytes =
      (start - start % 4096, (if start % 4096 = 0 then bytes else bytes + 4096) % 2 ^ 64) := by
  simp only [alignRegion, shift_page, sub64, basePageSize_eq, Prod.mk.injEq, true_and]
  split_ifs <;> omega

def pagesAcross (start bytes : ℕ) : ℕ :=
  (if start % 4096 = 0 then bytes else bytes + 4096) % 2 ^ 64 / 4096

lemma mapFixedRegion_spec {ret : ℤ} (hf : PageFlags flags) (hw : WellFormed m) (hs : start < 2 ^ 64)
    (hb : bytes % 4096 = 0)
    (hsmall : ∀ j < pagesAcross start bytes, ∀ y, walkPage y = ((v - v % 4096) / 4096 + j) % 2 ^ 27 →
      ∀ x, statVpage m y = some x → x.order = 0)
    (hp : FreshPages m answers.flatten)
    (h : mapFixedRegion m v start bytes flags answers = some (m', ret)) :
    ∃ k ≤ pagesAcross start bytes, MapsFixed flags m m' (v - v % 4096) (start - start % 4096) k ∧
      (ret = OK ↔ k = pagesAcross start bytes) := by
  rw [mapFixedRegion, alignRegion_eq hs hb, alignDown_page] at h
  apply mapFixedPages_spec hf hw (by omega) (by omega) (by omega) (by split_ifs <;> omega)
    (Nat.mod_lt _ (by norm_num)) hsmall hp h

lemma MapsFixed.unmapRegion {m₁ : Space} {freed : List (ℕ × ℕ)} (hv : v < 2 ^ 64)
    (hm : MapsFixed flags m m₁ (v - v % 4096) start k) (hb : bytes % 4096 = 0) (hlt : bytes < 2 ^ 64)
    (hkb : k * 4096 ≤ bytes) (h : unmapRegion m₁ v bytes = some (m', freed))
    (hy : statVpage m' y = some x) : statVpage m y = some x := by
  have hup : sub64 (alignUp ((v - v % 4096 + bytes) % 2 ^ 64) basePageSize) (v - v % 4096) = bytes := by
    rw [sub64, alignUp, alignDown_page, basePageSize_eq, if_pos (by omega)]
    omega
  rw [Uvmem.unmapRegion, alignDown_page, hup] at h
  have hbefore := unmapPages_shrinks hm.wf h hy
  by_cases hnew : ∃ j < k, walkPage y = ((v - v % 4096) / 4096 + j) % 2 ^ 27
  · obtain ⟨j, hj, hpage⟩ := hnew
    have hmapped : ∀ j < k, ∀ y, walkPage y = ((v - v % 4096) / 4096 + j) % 2 ^ 27 →
        ∃ x, statVpage m₁ y = some x ∧ x.order = 0 := fun j hj y hy => ⟨_, hm.new j hj y hy, rfl⟩
    have hnone := unmapPages_prefix hm.wf (by omega) hm.le hb hlt hkb hmapped h j hj y hpage
    rw [hy] at hnone
    cases hnone
  · rw [← hbefore, hm.rest]
    intro j hj hpage
    exact hnew ⟨j, hj, hpage⟩

end Kmi.Uvmem
