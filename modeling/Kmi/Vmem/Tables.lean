import Kmi.Vmem.Model

/-! What the page table calls do to the top-level table. -/

namespace Kmi.Vmem

open Kmi.Mem

variable {b b' r : Table} {m : Space} {i idx left v : ℕ}

def Keeps (b b' : Table) : Prop := ∀ i, unused (b i) = false → b' i = b i

def Closed (b : Table) : Prop := ∀ i j, i ≤ j → j < CSTACK_PAGE → b i = 0 → b j = 0

@[simp]
lemma unused_zero : unused 0 = true := rfl

@[simp]
lemma unused_gravestone : unused GRAVESTONE = true := rfl

lemma Keeps.refl (b : Table) : Keeps b b := fun _ _ => rfl

lemma Keeps.trans {c : Table} (h : Keeps b b') (h' : Keeps b' c) : Keeps b c := by
  intro i hi
  rw [h' i, h i hi]
  rwa [h i hi]

lemma Keeps.update (h : unused (b idx) = true) (pte : ℕ) : Keeps b (Function.update b idx pte) := by
  intro i hi
  apply Function.update_of_ne
  rintro rfl
  simp [h] at hi

def SameEntry (pte pte' : ℕ) : Prop := pte = pte' ∨ unused pte = true ∧ unused pte' = true

lemma SameEntry.refl (pte : ℕ) : SameEntry pte pte := .inl rfl

lemma SameEntry.trans {x y z : ℕ} (h : SameEntry x y) (h' : SameEntry y z) : SameEntry x z := by
  obtain rfl | ⟨hx, hy⟩ := h
  · exact h'
  · obtain rfl | ⟨-, hz⟩ := h'
    · exact .inr ⟨hx, hy⟩
    · exact .inr ⟨hx, hz⟩

lemma SameEntry.update {pte : ℕ} (h : unused (b idx) = true) (hp : unused pte = true) (i : ℕ) :
    SameEntry (b i) (Function.update b idx pte i) := by
  obtain rfl | hne := eq_or_ne i idx
  · rw [Function.update_self]
    exact .inr ⟨h, hp⟩
  · rw [Function.update_of_ne hne]
    exact .refl _

lemma Keeps.of_sameEntry (h : ∀ i, SameEntry (b i) (b' i)) : Keeps b b' := by
  intro i hi
  obtain h | ⟨h, -⟩ := h i
  · exact h.symm
  · rw [h] at hi
    cases hi

lemma addGravesBelow_sameEntry (b : Table) (n i : ℕ) : SameEntry (b i) (addGravesBelow b n i) := by
  induction n generalizing b with
  | zero => exact .refl _
  | succ n ih =>
    rw [addGravesBelow]
    split_ifs with h
    · exact (SameEntry.update h unused_gravestone i).trans (ih _)
    · exact .refl _

lemma addGraves_sameEntry (b : Table) (idx i : ℕ) : SameEntry (b i) (addGraves b idx i) := by
  rw [addGraves]
  split_ifs
  · exact .refl _
  · exact addGravesBelow_sameEntry b idx i

lemma removeGravesBelow_sameEntry (b : Table) (n i : ℕ) :
    SameEntry (b i) (removeGravesBelow b n i) := by
  induction n generalizing b with
  | zero => exact .refl _
  | succ n ih =>
    rw [removeGravesBelow]
    split_ifs with h
    · exact (SameEntry.update (by rw [h]; rfl) unused_zero i).trans (ih _)
    · exact .refl _

lemma removeGraves_sameEntry (b : Table) (idx i : ℕ) : SameEntry (b i) (removeGraves b idx i) := by
  rw [removeGraves]
  split_ifs
  · exact .refl _
  · exact .refl _
  · exact removeGravesBelow_sameEntry b _ i

lemma createLeaf_root {m m' : Space} {pages pages' : Pages} {leaf : ℕ}
    (h : createLeaf m pages = some (m', leaf, pages')) : m'.root = m.root := by
  cases pages with
  | nil => cases h
  | cons page pages =>
    rw [createLeaf] at h
    split_ifs at h
    cases h
    rfl

lemma mapWalk_some_root (v left top a : ℕ) (pages : Pages) (m : Space) :
    (mapWalk v left top (some a) pages m).1.root = m.root := by
  induction left generalizing top a pages m with
  | zero => rfl
  | succ left ih =>
    rw [mapWalk]
    split_ifs
    · cases h : createLeaf m pages with
      | none => rfl
      | some x =>
        obtain ⟨m', leaf, pages'⟩ := x
        dsimp only
        rw [ih, ← createLeaf_root h]
        rfl
    · exact ih _ _ _ _

lemma mapWalk_root (v left top : ℕ) (pages : Pages) (m : Space) :
    (mapWalk v left top none pages m).1.root = m.root ∨
      unused (m.root (vmToIndex v top)) = true ∧
        ∃ pte, (mapWalk v left top none pages m).1.root =
          Function.update m.root (vmToIndex v top) pte := by
  cases left with
  | zero => exact .inl rfl
  | succ left =>
    rw [mapWalk]
    split_ifs with hu
    · cases h : createLeaf m pages with
      | none => exact .inl rfl
      | some x =>
        obtain ⟨m', leaf, pages'⟩ := x
        refine .inr ⟨hu, leaf, ?_⟩
        dsimp only
        rw [mapWalk_some_root, ← createLeaf_root h]
        rfl
    · exact .inl (mapWalk_some_root _ _ _ _ _ _)

lemma mapWalk_some_branch (v left top a : ℕ) (pages : Pages) (m : Space) {t : Option ℕ}
    (h : (mapWalk v left top (some a) pages m).2 = some t) : t.isSome := by
  induction left generalizing top a pages m with
  | zero =>
    cases h
    rfl
  | succ left ih =>
    rw [mapWalk] at h
    split_ifs at h
    · cases hc : createLeaf m pages with
      | none =>
        rw [hc] at h
        cases h
      | some x =>
        rw [hc] at h
        exact ih _ _ _ _ h
    · exact ih _ _ _ _ h

lemma mapWalk_branch (v left top : ℕ) (pages : Pages) (m : Space) {t : Option ℕ}
    (h : (mapWalk v (left + 1) top none pages m).2 = some t) : t.isSome := by
  rw [mapWalk] at h
  split_ifs at h
  · cases hc : createLeaf m pages with
    | none =>
      rw [hc] at h
      cases h
    | some x =>
      rw [hc] at h
      exact mapWalk_some_branch _ _ _ _ _ _ h
  · exact mapWalk_some_branch _ _ _ _ _ _ h

lemma setLeaf_root (m : Space) (t : Option ℕ) (idx pte : ℕ) :
    (m.setLeaf t idx pte).root = m.root ∨
      t = none ∧ (m.setLeaf t idx pte).root = Function.update m.root idx pte := by
  cases t with
  | none => exact .inr ⟨rfl, rfl⟩
  | some a => exact .inl rfl

lemma mapWalk_keeps (v left top : ℕ) (pages : Pages) (m : Space) :
    Keeps m.root (mapWalk v left top none pages m).1.root := by
  obtain h | ⟨hu, pte, h⟩ := mapWalk_root v left top pages m
  · rw [h]
    exact .refl _
  · rw [h]
    exact .update hu pte

lemma mapVpage_keeps (m : Space) (paddr vaddr flags order : ℕ) (pages : Pages) :
    Keeps m.root (mapVpage m paddr vaddr flags order pages).1.root := by
  have hw := mapWalk_keeps vaddr (maxOrder - order) maxOrder pages m
  rw [mapVpage]
  cases h : mapWalk vaddr (maxOrder - order) maxOrder none pages m with
  | mk m' branch =>
    rw [h] at hw
    cases branch with
    | none => exact hw
    | some branch =>
      dsimp only
      split_ifs with hu
      · apply hw.trans
        refine .trans ?_ (.of_sameEntry (addGraves_sameEntry _ _))
        obtain hr | ⟨rfl, hr⟩ := setLeaf_root m' branch (vmToIndex vaddr order)
          (toPte (pa paddr) (vpFlags (flags ||| (VM_A ||| VM_D))))
        · rw [hr]
          exact .refl _
        · rw [hr]
          exact .update hu _
      · exact hw

lemma mapVpage_root_of_ne (paddr flags : ℕ) (pages : Pages) (hv : CSTACK_PAGE ≤ vmToIndex v maxOrder)
    (hi : i < CSTACK_PAGE) : (mapVpage m paddr v flags 0 pages).1.root i = m.root i := by
  have hne : i ≠ vmToIndex v maxOrder := by omega
  have hw : (mapWalk v (1 + 1) maxOrder none pages m).1.root i = m.root i := by
    obtain h | ⟨-, pte, h⟩ := mapWalk_root v (1 + 1) maxOrder pages m
    · rw [h]
    · rw [h, Function.update_of_ne hne]
  have hb := @mapWalk_branch v 1 maxOrder pages m
  rw [mapVpage, show maxOrder - 0 = 1 + 1 from rfl]
  cases h : mapWalk v (1 + 1) maxOrder none pages m with
  | mk m' branch =>
    rw [h] at hw hb
    cases branch with
    | none => exact hw
    | some branch =>
      obtain ⟨a, rfl⟩ := Option.isSome_iff_exists.1 (hb rfl)
      dsimp only
      split_ifs
      · rw [addGraves, if_pos hv]
        exact hw
      · exact hw

lemma findVmem_top (m : Space) (v : ℕ) :
    findVmem m v maxOrder none =
      if unused (m.root (vmToIndex v maxOrder)) then none
      else if isLeaf (m.root (vmToIndex v maxOrder)) then some (none, vmToIndex v maxOrder, maxOrder)
      else findVmem m v 1 (some (pteAddr (m.root (vmToIndex v maxOrder)))) :=
  rfl

lemma findVmem_some_table {a idx order top : ℕ} {t : Option ℕ}
    (h : findVmem m v top (some a) = some (t, idx, order)) : t.isSome := by
  induction top generalizing a with
  | zero =>
    rw [findVmem] at h
    split_ifs at h
    cases h
    rfl
  | succ top ih =>
    rw [findVmem] at h
    split_ifs at h
    · cases h
      rfl
    · exact ih h

lemma findVmem_none_isLeaf {idx order : ℕ} (h : findVmem m v maxOrder none = some (none, idx, order)) :
    isLeaf (m.root (vmToIndex v maxOrder)) = true := by
  rw [findVmem_top] at h
  split_ifs at h with hu hl
  · exact hl
  · have := findVmem_some_table h
    cases this

lemma findVmem_none_idx {idx order : ℕ} (h : findVmem m v maxOrder none = some (none, idx, order)) :
    idx = vmToIndex v maxOrder := by
  rw [findVmem_top] at h
  split_ifs at h with hu hl
  · cases h
    rfl
  · have := findVmem_some_table h
    cases this

lemma unmapVpage_root (hu : unused (m.root i) = false)
    (h : i = vmToIndex v maxOrder → isLeaf (m.root i) = false) :
    (unmapVpage m v).1.root i = m.root i := by
  rw [unmapVpage]
  cases hf : findVmem m v maxOrder none with
  | none => rfl
  | some x =>
    obtain ⟨t, idx, order⟩ := x
    have hset : (m.setLeaf t idx GRAVESTONE).root i = m.root i := by
      obtain hr | ⟨rfl, hr⟩ := setLeaf_root m t idx GRAVESTONE
      · rw [hr]
      · rw [hr, Function.update_of_ne]
        rintro rfl
        have hidx := findVmem_none_idx hf
        have hl := findVmem_none_isLeaf hf
        rw [← hidx, h hidx] at hl
        cases hl
    dsimp only
    rw [Keeps.of_sameEntry (removeGraves_sameEntry _ _) i, hset]
    rwa [hset]

lemma cloneUsed_spec (r b : Table) (left i : ℕ) :
    ∃ n, i ≤ n ∧ n ≤ i + left ∧ (cloneUsed r left i b).2 = n ∧
      (∀ j, i ≤ j → j < n → r j ≠ 0) ∧
      ∀ j, (cloneUsed r left i b).1 j = if i ≤ j ∧ j < n then r j else b j := by
  induction left generalizing i b with
  | zero =>
    refine ⟨i, le_rfl, le_rfl, rfl, fun j _ _ => by omega, fun j => ?_⟩
    rw [if_neg (by omega)]
    rfl
  | succ left ih =>
    rw [cloneUsed]
    split_ifs with h
    · refine ⟨i, le_rfl, by omega, rfl, fun j _ _ => by omega, fun j => ?_⟩
      rw [if_neg (by omega)]
    · obtain ⟨n, hn, hle, hs, hr, hj⟩ := ih (Function.update b i (r i)) (i + 1)
      refine ⟨n, by omega, by omega, hs, fun j hij hjn => ?_, fun j => ?_⟩
      · obtain rfl | hne := eq_or_ne j i
        · exact h
        · exact hr j (by omega) hjn
      · rw [hj j]
        obtain rfl | hne := eq_or_ne j i
        · rw [if_neg (by omega), if_pos (by omega), Function.update_self]
        · rw [Function.update_of_ne hne]
          congr 1
          apply propext
          omega

lemma clearUsed_spec (hb : ∀ j k, i ≤ j → j ≤ k → k < i + left → b j = 0 → b k = 0) (j : ℕ) :
    clearUsed left i b j = if i ≤ j ∧ j < i + left then 0 else b j := by
  induction left generalizing i b with
  | zero =>
    rw [if_neg (by omega)]
    rfl
  | succ left ih =>
    rw [clearUsed]
    split_ifs with h hij hij
    · exact hb i j le_rfl hij.1 hij.2 h
    · rfl
    · rw [ih]
      · obtain rfl | hne := eq_or_ne j i
        · rw [if_neg (by omega), Function.update_self]
        · rw [if_pos (by omega)]
      · intro k l hk hkl hl
        rw [Function.update_of_ne (by omega), Function.update_of_ne (by omega)]
        exact hb k l (by omega) hkl (by omega)
    · rw [ih, if_neg (by omega), Function.update_of_ne (by omega)]
      intro k l hk hkl hl
      rw [Function.update_of_ne (by omega), Function.update_of_ne (by omega)]
      exact hb k l (by omega) hkl (by omega)

lemma clearUsed_above (b : Table) {j : ℕ} (hj : i + left ≤ j) : clearUsed left i b j = b j := by
  induction left generalizing i b with
  | zero => rfl
  | succ left ih =>
    rw [clearUsed]
    split_ifs with hz
    · rfl
    · rw [ih _ (by omega), Function.update_of_ne (by omega)]

lemma cloneUvmem_above (r b : Table) {j : ℕ} (hj : CSTACK_PAGE ≤ j) : cloneUvmem r b j = b j := by
  obtain ⟨n, -, hn, hn', -, hu⟩ := cloneUsed_spec r b CSTACK_PAGE 0
  rw [cloneUvmem]
  generalize cloneUsed r CSTACK_PAGE 0 b = c at hn' hu
  obtain ⟨c, i⟩ := c
  dsimp only at hn' hu ⊢
  rw [clearUsed_above c (by omega), hu j, if_neg (by omega)]

lemma cloneUvmem_spec (r : Table) (hb : Closed b) :
    ∃ n ≤ CSTACK_PAGE, (∀ j < n, r j ≠ 0) ∧
      ∀ j < CSTACK_PAGE, cloneUvmem r b j = if j < n then r j else 0 := by
  obtain ⟨n, -, hle, hn, hr, hj⟩ := cloneUsed_spec r b CSTACK_PAGE 0
  refine ⟨n, by omega, fun j hjn => hr j (by omega) hjn, fun j hjc => ?_⟩
  rw [cloneUvmem]
  dsimp only
  rw [hn, clearUsed_spec]
  · by_cases hjn : j < n
    · rw [if_neg (by omega), if_pos hjn, hj, if_pos (by omega)]
    · rw [if_pos (by omega), if_neg hjn]
  · intro k l hk hkl hl
    rw [hj, hj, if_neg (by omega), if_neg (by omega)]
    exact hb k l hkl (by omega)

lemma cloneUvmem_closed (r : Table) (hb : Closed b) : Closed (cloneUvmem r b) := by
  obtain ⟨n, hn, hr, hj⟩ := cloneUvmem_spec r hb
  intro i j hij hjc h
  rw [hj i (by omega)] at h
  rw [hj j hjc]
  split_ifs at h with hin
  · exact absurd h (hr i hin)
  · rw [if_neg (by omega)]

lemma cloneUvmem_used (r : Table) (hb : Closed b) (hi : i < CSTACK_PAGE)
    (hu : unused (cloneUvmem r b i) = false) : cloneUvmem r b i = r i := by
  obtain ⟨n, hn, hr, hj⟩ := cloneUvmem_spec r hb
  rw [hj i hi] at hu ⊢
  split_ifs at hu ⊢
  · rfl
  · cases hu

lemma findVmem_some_congr (root root' : Table) (low : ℕ → Table) (v top a : ℕ) :
    findVmem ⟨root', low⟩ v top (some a) = findVmem ⟨root, low⟩ v top (some a) := by
  induction top generalizing a with
  | zero => rfl
  | succ top ih =>
    simp only [findVmem, Space.leaf, ih]
    rfl

lemma findVmem_used {x : Option ℕ × ℕ × ℕ} (h : findVmem m v maxOrder none = some x) :
    unused (m.root (vmToIndex v maxOrder)) = false := by
  rw [findVmem_top] at h
  split_ifs at h with hu hl
  · exact Bool.eq_false_iff.2 hu
  · exact Bool.eq_false_iff.2 hu

lemma statVpage_congr {root root' : Table} {low : ℕ → Table}
    (h : root' (vmToIndex v maxOrder) = root (vmToIndex v maxOrder)) :
    statVpage ⟨root', low⟩ v = statVpage ⟨root, low⟩ v := by
  have hf : findVmem ⟨root', low⟩ v maxOrder none = findVmem ⟨root, low⟩ v maxOrder none := by
    rw [findVmem_top, findVmem_top, findVmem_some_congr root root']
    simp only [h]
  rw [statVpage, statVpage, hf]
  cases hx : findVmem ⟨root, low⟩ v maxOrder none with
  | none => rfl
  | some x =>
    obtain ⟨t, idx, order⟩ := x
    cases t with
    | some a => rfl
    | none =>
      obtain rfl := findVmem_none_idx hx
      dsimp only [Space.leaf]
      rw [h]

lemma statVpage_used {x : Stat} (h : statVpage m v = some x) :
    unused (m.root (vmToIndex v maxOrder)) = false := by
  rw [statVpage] at h
  cases hf : findVmem m v maxOrder none with
  | none =>
    rw [hf] at h
    cases h
  | some y => exact findVmem_used hf

lemma createVmem_user (kvmem : ℕ) {i : ℕ} (hi : i < CSTACK_PAGE) : createVmem kvmem i = 0 := by
  rw [createVmem, if_pos]
  exact hi.trans (by decide)

lemma vmToIndex_lt {v : ℕ} (hv : v < UVMEM_END) : vmToIndex v maxOrder < CSTACK_PAGE := by
  have hd : v / 2 ^ 30 < 248 := by
    rw [Nat.div_lt_iff_lt_mul (by positivity)]
    exact hv
  rw [vmToIndex, orderShift, maxOrder, Nat.shiftRight_eq_div_pow, Nat.mod_eq_of_lt]
  · exact hd
  · exact hd.trans (by decide)

end Kmi.Vmem
