import Kmi.Vmem.Tables

/-! The way from the top-level table down to the entry of an address, and what a
translation depends on. -/

namespace Kmi.Vmem

open Kmi.Mem

variable {m m' : Space} {v v' o o' n a p f pte pte' : ℕ} {b b' : Option ℕ}

def stops (pte : ℕ) : Bool := unused pte || isLeaf pte

inductive Walks (m : Space) (v : ℕ) : ℕ → Option ℕ → Prop
  | top : Walks m v maxOrder none
  | down {o : ℕ} {b : Option ℕ} : Walks m v (o + 1) b →
      stops (m.leaf b (vmToIndex v (o + 1))) = false →
      Walks m v o (some (pteAddr (m.leaf b (vmToIndex v (o + 1)))))

def pageOf (v o : ℕ) : ℕ := v / 2 ^ orderShift o

structure WellFormed (m : Space) : Prop where
  one_path : ∀ {v v' o o' a}, v < 2 ^ 39 → v' < 2 ^ 39 → Walks m v o (some a) →
    Walks m v' o' (some a) → o = o' ∧ pageOf v (o + 1) = pageOf v' (o + 1)

def entryStat (pte o : ℕ) : Option Stat :=
  if unused pte then none else some ⟨pteAddr pte, o, pteFlags pte⟩

lemma orderShift_succ (o : ℕ) : 2 ^ orderShift (o + 1) = 2 ^ orderShift o * 512 := by
  rw [orderShift, orderShift, show 12 + 9 * (o + 1) = 12 + 9 * o + 9 by ring, pow_add]
  norm_num

lemma pageOf_succ (v o : ℕ) : pageOf v (o + 1) = pageOf v o / 512 := by
  rw [pageOf, pageOf, orderShift_succ, Nat.div_div_eq_div_mul]

lemma vmToIndex_eq (v o : ℕ) : vmToIndex v o = pageOf v o % 512 := by
  rw [vmToIndex, pageOf, Nat.shiftRight_eq_div_pow]

lemma pageOf_eq_iff (v v' o : ℕ) : pageOf v o = pageOf v' o ↔
    pageOf v (o + 1) = pageOf v' (o + 1) ∧ vmToIndex v o = vmToIndex v' o := by
  rw [pageOf_succ, pageOf_succ, vmToIndex_eq, vmToIndex_eq]
  omega

lemma pageOf_top (hv : v < 2 ^ 39) : pageOf v (maxOrder + 1) = 0 := by
  rw [pageOf, show orderShift (maxOrder + 1) = 39 from rfl]
  exact Nat.div_eq_of_lt hv

lemma Walks.le (h : Walks m v o b) : o ≤ maxOrder := by
  induction h with
  | top => exact le_rfl
  | down _ _ ih => omega

lemma Walks.top_iff : Walks m v o none ↔ o = maxOrder := by
  constructor
  · intro h
    cases h
    rfl
  · rintro rfl
    exact .top

lemma Walks.inv (h : Walks m v o b) (ho : o < maxOrder) :
    ∃ b', Walks m v (o + 1) b' ∧ stops (m.leaf b' (vmToIndex v (o + 1))) = false ∧
      b = some (pteAddr (m.leaf b' (vmToIndex v (o + 1)))) := by
  cases h with
  | top => omega
  | down h hs => exact ⟨_, h, hs, rfl⟩

lemma Walks.unique (h : Walks m v o b) (h' : Walks m v o b') : b = b' := by
  induction h generalizing b' with
  | top =>
    cases h' with
    | top => rfl
    | down h' _ =>
      have := h'.le
      omega
  | down h hs ih =>
    obtain ⟨c, hc, -, rfl⟩ := h'.inv (by have := h.le; omega)
    rw [ih hc]

lemma Walks.same_page (h : Walks m v o b) (hp : pageOf v o = pageOf v' o) : Walks m v' o b := by
  induction h with
  | top => exact .top
  | @down o b h hs ih =>
    obtain hp := ((pageOf_eq_iff v v' o).1 hp).1
    have hidx := ((pageOf_eq_iff v v' (o + 1)).1 hp).2
    rw [hidx] at hs ⊢
    exact .down (ih hp) hs

lemma WellFormed.pageOf_eq (hw : WellFormed m) (hv : v < 2 ^ 39) (hv' : v' < 2 ^ 39)
    (h : Walks m v o b) (h' : Walks m v' o' b) (hi : vmToIndex v o = vmToIndex v' o') :
    o = o' ∧ pageOf v o = pageOf v' o := by
  cases b with
  | none =>
    obtain rfl := Walks.top_iff.1 h
    obtain rfl := Walks.top_iff.1 h'
    refine ⟨rfl, (pageOf_eq_iff v v' _).2 ⟨?_, hi⟩⟩
    rw [pageOf_top hv, pageOf_top hv']
  | some a =>
    obtain ⟨rfl, hp⟩ := hw.one_path hv hv' h h'
    exact ⟨rfl, (pageOf_eq_iff v v' o).2 ⟨hp, hi⟩⟩

lemma SameEntry.stops (h : SameEntry pte pte') : stops pte = stops pte' := by
  obtain rfl | ⟨h, h'⟩ := h
  · rfl
  · simp [Vmem.stops, h, h']

lemma SameEntry.entryStat (h : SameEntry pte pte') (o : ℕ) : entryStat pte o = entryStat pte' o := by
  obtain rfl | ⟨h, h'⟩ := h
  · rfl
  · simp [Vmem.entryStat, h, h']

lemma SameEntry.eq_of_not_stops (h : SameEntry pte pte') (hs : Vmem.stops pte = false) : pte = pte' := by
  obtain rfl | ⟨h, -⟩ := h
  · rfl
  · simp [Vmem.stops, h] at hs

def statFrom (m : Space) (v o : ℕ) (b : Option ℕ) : Option Stat :=
  (findVmem m v o b).map fun x => ⟨pteAddr (m.leaf x.1 x.2.1), x.2.2, pteFlags (m.leaf x.1 x.2.1)⟩

lemma statVpage_eq (m : Space) (v : ℕ) : statVpage m v = statFrom m v maxOrder none := by
  rw [statVpage, statFrom]
  cases findVmem m v maxOrder none with
  | none => rfl
  | some x => rfl

lemma statFrom_stops (hs : stops (m.leaf b (vmToIndex v o)) = true) :
    statFrom m v o b = entryStat (m.leaf b (vmToIndex v o)) o := by
  rw [statFrom, entryStat]
  rw [stops, Bool.or_eq_true] at hs
  cases o with
  | zero =>
    rw [findVmem]
    split_ifs with hu hl
    · rfl
    · rfl
    · exact absurd hs (by simp [hu, hl])
  | succ o =>
    rw [findVmem]
    split_ifs with hu hl
    · rfl
    · rfl
    · exact absurd hs (by simp [hu, hl])

lemma statFrom_down (hs : stops (m.leaf b (vmToIndex v (o + 1))) = false) :
    statFrom m v (o + 1) b = statFrom m v o (some (pteAddr (m.leaf b (vmToIndex v (o + 1))))) := by
  rw [stops, Bool.or_eq_false_iff] at hs
  rw [statFrom, findVmem, if_neg (by simp [hs.1]), if_neg (by simp [hs.2])]
  rfl

lemma statFrom_bottom (hs : stops (m.leaf b (vmToIndex v 0)) = false) : statFrom m v 0 b = none := by
  rw [stops, Bool.or_eq_false_iff] at hs
  rw [statFrom, findVmem, if_neg (by simp [hs.1]), if_neg (by simp [hs.2])]
  rfl

lemma Walks.statVpage (h : Walks m v o b) : statVpage m v = statFrom m v o b := by
  induction h with
  | top => exact statVpage_eq m v
  | down _ hs ih => rw [ih, statFrom_down hs]

lemma statVpage_congr_walk
    (h : ∀ o b, Walks m v o b → SameEntry (m.leaf b (vmToIndex v o)) (m'.leaf b (vmToIndex v o))) :
    Vmem.statVpage m' v = Vmem.statVpage m v := by
  have hfrom : ∀ o b, Walks m v o b → statFrom m' v o b = statFrom m v o b := by
    intro o
    induction o with
    | zero =>
      intro b hb
      have he := h 0 b hb
      cases hs : stops (m.leaf b (vmToIndex v 0)) with
      | true => rw [statFrom_stops hs, statFrom_stops (he.stops ▸ hs), he.entryStat]
      | false => rw [statFrom_bottom hs, statFrom_bottom (he.stops ▸ hs)]
    | succ o ih =>
      intro b hb
      have he := h (o + 1) b hb
      cases hs : stops (m.leaf b (vmToIndex v (o + 1))) with
      | true => rw [statFrom_stops hs, statFrom_stops (he.stops ▸ hs), he.entryStat]
      | false =>
        rw [statFrom_down hs, statFrom_down (he.stops ▸ hs), ← he.eq_of_not_stops hs]
        exact ih _ (hb.down hs)
  rw [statVpage_eq, statVpage_eq]
  exact hfrom maxOrder none .top

def SameWay (pte pte' : ℕ) : Prop := pte = pte' ∨ stops pte = true ∧ stops pte' = true

lemma SameWay.stops (h : SameWay pte pte') : Vmem.stops pte = Vmem.stops pte' := by
  obtain rfl | ⟨h, h'⟩ := h
  · rfl
  · rw [h, h']

lemma SameWay.symm (h : SameWay pte pte') : SameWay pte' pte := by
  obtain rfl | ⟨h, h'⟩ := h
  · exact .inl rfl
  · exact .inr ⟨h', h⟩

lemma SameEntry.sameWay (h : SameEntry pte pte') : SameWay pte pte' := by
  obtain rfl | ⟨h, h'⟩ := h
  · exact .inl rfl
  · exact .inr ⟨by rw [Vmem.stops, h]; rfl, by rw [Vmem.stops, h']; rfl⟩

lemma Walks.of_sameWay (hs : ∀ b i, SameWay (m.leaf b i) (m'.leaf b i)) (h : Walks m v o b) :
    Walks m' v o b := by
  induction h with
  | top => exact .top
  | @down o b _ hstop ih =>
    have hway := hs b (vmToIndex v (o + 1))
    have heq : m.leaf b (vmToIndex v (o + 1)) = m'.leaf b (vmToIndex v (o + 1)) := by
      obtain h | ⟨h, -⟩ := hway
      · exact h
      · rw [h] at hstop
        cases hstop
    rw [heq] at hstop ⊢
    exact .down ih hstop

lemma walks_iff_of_sameWay (hs : ∀ b i, SameWay (m.leaf b i) (m'.leaf b i)) :
    Walks m' v o b ↔ Walks m v o b :=
  ⟨.of_sameWay fun b i => (hs b i).symm, .of_sameWay hs⟩

lemma WellFormed.of_sameWay (hw : WellFormed m) (hs : ∀ b i, SameWay (m.leaf b i) (m'.leaf b i)) :
    WellFormed m' := by
  refine ⟨fun hv hv' h h' => ?_⟩
  rw [walks_iff_of_sameWay hs] at h h'
  exact hw.one_path hv hv' h h'

lemma leaf_setLeaf (m : Space) (b : Option ℕ) (idx pte : ℕ) (b' : Option ℕ) (i : ℕ) :
    (m.setLeaf b idx pte).leaf b' i = if b' = b ∧ i = idx then pte else m.leaf b' i := by
  cases b with
  | none =>
    cases b' with
    | none => simp [Space.setLeaf, Space.leaf, Function.update_apply]
    | some a => simp [Space.setLeaf, Space.leaf]
  | some a =>
    cases b' with
    | none => simp [Space.setLeaf, Space.leaf]
    | some a' =>
      by_cases ha : a' = a
      · subst ha
        simp [Space.setLeaf, Space.leaf, Function.update_apply]
      · simp [Space.setLeaf, Space.leaf, ha]

section Edit

variable {i : ℕ}

lemma setLeaf_sameWay (hold : stops (m.leaf b i) = true) (hnew : stops pte = true)
    (b' : Option ℕ) (j : ℕ) : SameWay (m.leaf b' j) ((m.setLeaf b i pte).leaf b' j) := by
  rw [leaf_setLeaf]
  split_ifs with h
  · rw [h.1, h.2]
    exact .inr ⟨hold, hnew⟩
  · exact .inl rfl

lemma WellFormed.statVpage_setLeaf (hw : WellFormed m) (hv : v < 2 ^ 39) (hv' : v' < 2 ^ 39)
    (h : Walks m v o b) (hold : stops (m.leaf b (vmToIndex v o)) = true) (hnew : stops pte = true) :
    Vmem.statVpage (m.setLeaf b (vmToIndex v o) pte) v' =
      if pageOf v' o = pageOf v o then entryStat pte o else Vmem.statVpage m v' := by
  split_ifs with hp
  · have hidx := ((pageOf_eq_iff v' v o).1 hp).2
    have hwalk : Walks (m.setLeaf b (vmToIndex v o) pte) v' o b :=
      (h.same_page hp.symm).of_sameWay (setLeaf_sameWay hold hnew)
    have hent : (m.setLeaf b (vmToIndex v o) pte).leaf b (vmToIndex v' o) = pte := by
      rw [leaf_setLeaf, if_pos ⟨rfl, hidx⟩]
    rw [hwalk.statVpage, statFrom_stops (by rw [hent]; exact hnew), hent]
  · apply statVpage_congr_walk
    intro o' b' h'
    rw [leaf_setLeaf]
    split_ifs with hb
    · obtain ⟨rfl, hi⟩ := hb
      obtain ⟨rfl, hpage⟩ := hw.pageOf_eq hv' hv h' h hi
      exact absurd hpage hp
    · exact .refl _

end Edit

end Kmi.Vmem
