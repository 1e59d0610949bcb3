import Kmi.Uvmem.Growth

/-! Whether `map_fixed_region` gets through is decided before it starts: by the entries in
use, the tables that are there and the pages that `alloc_page` has for the others. -/

namespace Kmi.Uvmem

open Kmi.Mem Kmi.Vmem

variable {m m₁ m' : Space} {v y o i n start flags order fuel left : ℕ} {b : Option ℕ} {pages : Pages}
  {answers : List Pages}

def HasTable (m : Space) (v o : ℕ) : Prop := ∃ b, Walks m v o b

def EmptyAt (m : Space) (v o : ℕ) : Prop := ∀ b, Walks m v o b → unused (m.leaf b (vmToIndex v o)) = true

def Empty (m : Space) (v : ℕ) : Prop := EmptyAt m v 0

lemma HasTable.of_page (h : HasTable m v o) (hp : pageOf y (o + 1) = pageOf v (o + 1)) :
    HasTable m y o := by
  obtain ⟨b, h⟩ := h
  cases h with
  | top => exact ⟨none, .top⟩
  | down h hs =>
    have hidx := ((pageOf_eq_iff y v _).1 hp).2
    rw [← hidx] at hs
    exact ⟨_, (h.same_page hp.symm).down hs⟩

lemma HasTable.up (h : HasTable m v o) (hi : o ≤ i) (hm : i ≤ maxOrder) : HasTable m v i := by
  induction i, hi using Nat.le_induction with
  | base => exact h
  | succ i _ ih =>
    obtain ⟨b, hb⟩ := ih (by omega)
    obtain ⟨b', hb', -⟩ := hb.inv (by omega)
    exact ⟨b', hb'⟩

structure Opens (v o : ℕ) (m m₁ : Space) : Prop where
  tables : ∀ y < 2 ^ 39, ∀ i, HasTable m₁ y i → HasTable m y i ∨ o ≤ i ∧ pageOf y (i + 1) = pageOf v (i + 1)
  entries : ∀ y < 2 ^ 39, ∀ i ≤ o, pageOf y i ≠ pageOf v i → EmptyAt m y i → EmptyAt m₁ y i

lemma Opens.refl (v o : ℕ) (m : Space) : Opens v o m m := ⟨fun _ _ _ => .inl, fun _ _ _ _ _ => id⟩

lemma Opens.trans (h : Opens v o m m₁) (h' : Opens v o m₁ m') : Opens v o m m' := by
  refine ⟨fun y hy i ht => ?_, fun y hy i hi hne he => h'.entries y hy i hi hne (h.entries y hy i hi hne he)⟩
  obtain ht | hp := h'.tables y hy i ht
  · exact h.tables y hy i ht
  · exact .inr hp

section Link

variable {a : ℕ} (hw : WellFormed m) (hv : v < 2 ^ 39) (h : Walks m v (o + 1) b) (ha : a < 2 ^ 64)
  (hal : a % 4096 = 0) (hf : ∀ v < 2 ^ 39, ∀ o, ¬ Walks m v o (some a))

include hw hv h ha hal hf

lemma Opens.link (hi : i ≤ o) : Opens v i m (linked m b (vmToIndex v (o + 1)) a) := by
  constructor
  · rintro y hy o' ⟨b', hb'⟩
    obtain hold | ⟨-, rfl, hp⟩ := walks_linked_cases hw hv h ha hal hf hy hb'
    · exact .inl ⟨b', hold⟩
    · exact .inr ⟨hi, hp⟩
  · intro y hy j hj _ he b' hb'
    obtain hold | ⟨rfl, -⟩ := walks_linked_cases hw hv h ha hal hf hy hb'
    · have hne : b' ≠ some a := by
        rintro rfl
        exact hf y hy _ hold
      rw [linked_leaf (link_ne hv h hf) hne, if_neg]
      · exact he b' hold
      · rintro ⟨rfl, hidx⟩
        obtain ⟨ho, -⟩ := hw.pageOf_eq hy hv hold h hidx
        omega
    · rw [linked_leaf_new (link_ne hv h hf)]
      rfl

end Link

/-- The loop of `map_vpage` finds its table if it has a page for each that is missing, the
lowest counted first, and a table that it makes is empty. -/
structure Finds (v o left : ℕ) (m : Space) (pages : Pages) (r : Space × Option (Option ℕ)) : Prop where
  opens : Opens v o m r.1
  found : r.2.isSome ↔ ∀ i < left, ¬ HasTable m v (o + i) → pages.getD i 0 ≠ 0
  fresh : ¬ HasTable m v o → ∀ b, r.2 = some b → unused (r.1.leaf b (vmToIndex v o)) = true

lemma not_hasTable_below (h : Walks m v (o + left) b)
    (hs : stops (m.leaf b (vmToIndex v (o + left))) = true) : ∀ i < left, ¬ HasTable m v (o + i) := by
  rintro i hi ⟨b', hb'⟩
  have hno := Walks.not_stops_above hb' h (by omega)
  rw [hs] at hno
  cases hno

lemma mapWalk_finds (hw : WellFormed m) (hv : v < 2 ^ 39) (h : Walks m v (o + left) b)
    (hn : NoLargerLeaf m v o) (hp : FreshPages m pages) :
    Finds v o left m pages (mapWalk v left (o + left) b pages m) := by
  induction left generalizing m b pages with
  | zero =>
    refine ⟨.refl v o m, ?_, fun hno => absurd ⟨b, h⟩ hno⟩
    exact iff_of_true rfl fun i hi => absurd hi (Nat.not_lt_zero i)
  | succ left ih =>
    rw [← add_assoc] at h ⊢
    rw [mapWalk]
    split_ifs with hu
    · have hs : stops (m.leaf b (vmToIndex v (o + left + 1))) = true := by
        rw [stops, hu, Bool.true_or]
      have hmissing : ∀ i < left + 1, ¬ HasTable m v (o + i) := not_hasTable_below h hs
      obtain ⟨hz, hc⟩ | ⟨a, rest, rfl, ha, hc⟩ := createLeaf_cases m pages
      · rw [hc]
        refine ⟨.refl v o m, iff_of_false (by simp) fun hall => ?_, fun _ b' hb' => (by cases hb')⟩
        apply hall 0 (Nat.succ_pos left) (hmissing 0 (Nat.succ_pos left))
        cases pages with
        | nil => rfl
        | cons a rest => exact hz
      · obtain ⟨halt, hal⟩ := hp.aligned a (List.mem_cons_self ..)
        have hf := hp.fresh a (List.mem_cons_self ..) ha
        have hnew := Walks.link_new hv h hu halt hal hf
        have hr := ih (hw.link hv h halt hal hf) hnew (hn.link hw hv h hp ha) (hp.link hw hv h ha)
        have hentry : pteAddr ((linked m b (vmToIndex v (o + left + 1)) a).leaf b
            (vmToIndex v (o + left + 1))) = a := by
          rw [linked, leaf_setLeaf, if_pos ⟨rfl, rfl⟩, pteAddr_toPte (by decide) halt hal]
        have hempty : ∀ j, (linked m b (vmToIndex v (o + left + 1)) a).leaf (some a) j = 0 :=
          linked_leaf_new (link_ne hv h hf)
        have hbelow := not_hasTable_below hnew (by rw [hempty]; rfl)
        rw [hc]
        change Finds v o (left + 1) m (a :: rest) (mapWalk v left (o + left) (some (pteAddr
          ((linked m b (vmToIndex v (o + left + 1)) a).leaf b _))) rest (linked m b _ a))
        rw [hentry]
        refine ⟨(Opens.link hw hv h halt hal hf (Nat.le_add_right o left)).trans hr.opens, ?_, fun _ => ?_⟩
        · rw [hr.found]
          constructor
          · intro hall i hi _
            cases i with
            | zero => exact ha
            | succ i => exact hall i (by omega) (hbelow i (by omega))
          · intro hall i hi _
            exact hall (i + 1) (by omega) (hmissing (i + 1) (by omega))
        · intro b' hb'
          cases left with
          | zero =>
            cases hb'
            rw [mapWalk, hempty]
            rfl
          | succ left => exact hr.fresh (hbelow 0 (Nat.succ_pos left)) b' hb'
    · have hs : stops (m.leaf b (vmToIndex v (o + left + 1))) = false := by
        rw [stops, hn _ b (by omega) h, Bool.or_false]
        simpa using hu
      have hr := ih hw (h.down hs) hn hp
      refine ⟨hr.opens, hr.found.trans ?_, hr.fresh⟩
      refine ⟨fun hall i hi hno => ?_, fun hall i hi => hall i (by omega)⟩
      apply hall i _ hno
      by_contra hge
      obtain rfl : i = left := by omega
      exact hno ⟨_, h.down hs⟩

lemma Opens.setLeaf {pte : ℕ} (hw : WellFormed m) (hv : v < 2 ^ 39) (h : Walks m v o b)
    (hold : stops (m.leaf b (vmToIndex v o)) = true) (hnew : stops pte = true) :
    Opens v o m (m.setLeaf b (vmToIndex v o) pte) := by
  have hsame := setLeaf_sameWay hold hnew
  constructor
  · rintro y - i ⟨b', hb'⟩
    exact .inl ⟨b', (walks_iff_of_sameWay hsame).1 hb'⟩
  · intro y hy i _ hne he b' hb'
    rw [walks_iff_of_sameWay hsame] at hb'
    rw [leaf_setLeaf, if_neg]
    · exact he b' hb'
    · rintro ⟨rfl, hidx⟩
      obtain ⟨rfl, hpage⟩ := hw.pageOf_eq hy hv hb' h hidx
      exact hne hpage

lemma Opens.setRoot {root' : Table} (h : ∀ i, SameEntry (m.root i) (root' i)) :
    Opens v o m { m with root := root' } := by
  have hsame := fun b i => (root_sameEntry h b i).sameWay
  constructor
  · rintro y - i ⟨b', hb'⟩
    exact .inl ⟨b', (walks_iff_of_sameWay hsame).1 hb'⟩
  · intro y _ i _ _ he b' hb'
    have hold := he b' ((walks_iff_of_sameWay hsame).1 hb')
    obtain heq | ⟨-, hnew⟩ := root_sameEntry h b' (vmToIndex y i)
    · rw [← heq, hold]
    · exact hnew

lemma mapVpage_supplied (hf : PageFlags flags) (hw : WellFormed m) (hv : v < 2 ^ 39) (ho : order ≤ maxOrder)
    (hn : NoLargerLeaf m v order) (hp : FreshPages m pages) :
    ((mapVpage m start v flags order pages).2 = OK ↔
      EmptyAt m v order ∧ ∀ i < maxOrder - order, ¬ HasTable m v (order + i) → pages.getD i 0 ≠ 0) ∧
        Opens v order m (mapVpage m start v flags order pages).1 := by
  have htop : Walks m v (order + (maxOrder - order)) none := by
    rw [Nat.add_sub_cancel' ho]
    exact .top
  have hr := mapWalk_reaches hw hv htop hn hp
  have hsame := mapWalk_cases hw hv htop hn hp
  obtain ⟨hopens, hfound, hfresh⟩ := mapWalk_finds hw hv htop hn hp
  simp only [Nat.add_sub_cancel' ho] at hr hfound hfresh hopens hsame
  rw [mapVpage]
  generalize mapWalk v (maxOrder - order) maxOrder none pages m = r at hr hopens hfound hfresh hsame
  obtain ⟨m', branch⟩ := r
  dsimp only at hopens hfound hfresh hsame
  cases branch with
  | none =>
    refine ⟨iff_of_false (show ERR_OOMEM ≠ OK by decide) fun hall => ?_, hopens⟩
    have hno := hfound.2 hall.2
    cases hno
  | some branch =>
    have hb := hr.walks branch rfl
    have hentry : unused (m'.leaf branch (vmToIndex v order)) = true ↔ EmptyAt m v order := by
      by_cases ht : HasTable m v order
      · obtain ⟨b, hold⟩ := ht
        obtain ⟨rfl, -⟩ | ⟨⟨-, hno⟩, -⟩ := hsame
        · obtain rfl := hold.unique hb
          refine ⟨fun hu b' hb' => ?_, fun he => he b hold⟩
          rwa [← hold.unique hb']
        · exact absurd hold (hno b)
      · exact iff_of_true (hfresh ht branch rfl) fun b hb => absurd ⟨b, hb⟩ ht
    dsimp only
    split_ifs with hu
    · have hold : stops (m'.leaf branch (vmToIndex v order)) = true := by rw [stops, hu]; rfl
      have hnew : stops (toPte (pa start) (vpFlags (flags ||| (VM_A ||| VM_D)))) = true := by
        rw [stops, ((page_entry hf.1 hf.2).2 (pa start)).2.1, Bool.or_true]
      have hset := Opens.setLeaf hr.wf hv hb hold hnew
      exact ⟨iff_of_true rfl ⟨hentry.1 hu, hfound.1 rfl⟩,
        (hopens.trans hset).trans (.setRoot (addGraves_sameEntry _ _))⟩
    · exact ⟨iff_of_false (show ERR_INVAL ≠ OK by decide) fun hall => hu (hentry.2 hall.1), hopens⟩

structure Opened (v o : ℕ) (m : Space) (pages : Pages) (m₁ : Space) : Prop where
  opens : Opens v o m m₁
  grows : Grows m pages m₁
  table : HasTable m₁ v o

section Step

variable (h : Opened v o m pages m₁) (hp : FreshPages m pages) (hy : y < 2 ^ 39)

include h hp hy

lemma Opened.hasTable (hi : i < maxOrder) :
    HasTable m₁ y i ↔ HasTable m y i ∨ o ≤ i ∧ pageOf y (i + 1) = pageOf v (i + 1) := by
  refine ⟨h.opens.tables y hy i, ?_⟩
  rintro (⟨b, hb⟩ | ⟨hoi, hpage⟩)
  · exact ⟨b, h.grows.walks hp hy hb⟩
  · exact (h.table.up hoi hi.le).of_page hpage

lemma Opened.emptyAt (hi : i ≤ o) (hne : pageOf y i ≠ pageOf v i) : EmptyAt m₁ y i ↔ EmptyAt m y i := by
  refine ⟨fun he b hb => ?_, h.opens.entries y hy i hi hne⟩
  by_contra hu
  rw [Bool.not_eq_true] at hu
  have hnew := he b (h.grows.walks hp hy hb)
  rw [h.grows b _ (fun a ha h0 hba => hp.fresh a ha h0 y hy i (hba ▸ hb)) hu, hu] at hnew
  cases hnew

end Step

/-- There is no table of an order for page `j` of a range, and none of the pages before it
is in need of the same. -/
def Lacks (m : Space) (v o j : ℕ) : Prop :=
  ¬ HasTable m (v + j * 4096) o ∧ (j = 0 ∨ (v + j * 4096) % orderSize (o + 1) = 0)

structure Supplied (m : Space) (v n : ℕ) (answers : List Pages) : Prop where
  empty : ∀ j < n, Empty m (v + j * 4096)
  pages : ∀ j < n, ∀ o < 2, Lacks m v o j → (answers.getD j []).getD o 0 ≠ 0

lemma Opened.lacks {j : ℕ} (h : Opened v 0 m pages m₁) (hp : FreshPages m pages) (hv : v % 4096 = 0)
    (hy : v + (j + 1) * 4096 < 2 ^ 39) (ho : o < 2) : Lacks m₁ (v + 4096) o j ↔ Lacks m v o (j + 1) := by
  have hj : v + 4096 + j * 4096 = v + (j + 1) * 4096 := by ring
  rw [Lacks, Lacks, hj, h.hasTable hp hy ho, not_or, and_assoc, and_congr_right_iff, and_iff_right (Nat.zero_le o)]
  intro _
  have hsize : orderSize (o + 1) = 2 ^ orderShift (o + 1) := orderSize_shift (by rw [maxOrder]; omega)
  rw [hsize, pageOf, pageOf]
  have hcases : o = 0 ∨ o = 1 := by omega
  obtain rfl | rfl := hcases
  · rw [show orderShift (0 + 1) = 21 from rfl]
    omega
  · rw [show orderShift (1 + 1) = 30 from rfl]
    omega

lemma getD_zero_headD : answers.getD 0 [] = answers.headD [] := by
  cases answers <;> rfl

lemma lacks_zero : Lacks m v o 0 ↔ ¬ HasTable m v o := by
  simp [Lacks]

lemma Supplied.first (h : Supplied m v (n + 1) answers) :
    Empty m v ∧ ∀ i < 2, ¬ HasTable m v i → (answers.headD []).getD i 0 ≠ 0 := by
  refine ⟨by simpa using h.empty 0 (Nat.succ_pos n), fun i hi hno => ?_⟩
  rw [← getD_zero_headD]
  exact h.pages 0 (Nat.succ_pos n) i hi (lacks_zero.2 hno)

lemma Opened.supplied (h : Opened v 0 m pages m₁) (hp : FreshPages m pages) (hv : v % 4096 = 0)
    (he : v + (n + 1) * 4096 ≤ 2 ^ 39) : Supplied m v (n + 1) answers ↔
      (Empty m v ∧ ∀ i < 2, ¬ HasTable m v i → (answers.headD []).getD i 0 ≠ 0) ∧
        Supplied m₁ (v + 4096) n answers.tail := by
  have htail : ∀ j, answers.getD (j + 1) [] = answers.tail.getD j [] := by
    intro j
    cases answers <;> rfl
  have hempty : ∀ j < n, Empty m₁ (v + 4096 + j * 4096) ↔ Empty m (v + (j + 1) * 4096) := by
    intro j hj
    rw [show v + 4096 + j * 4096 = v + (j + 1) * 4096 by ring]
    apply h.emptyAt hp (by omega) le_rfl
    rw [pageOf, pageOf, show orderShift 0 = 12 from rfl]
    omega
  constructor
  · intro hall
    refine ⟨hall.first, fun j hj => ?_, fun j hj o ho hl => ?_⟩
    · exact (hempty j hj).2 (hall.empty (j + 1) (by omega))
    · rw [← htail]
      exact hall.pages (j + 1) (by omega) o ho ((h.lacks hp hv (by omega) ho).1 hl)
  · rintro ⟨⟨hv₀, hpages₀⟩, hall, hpages⟩
    refine ⟨fun j hj => ?_, fun j hj o ho hl => ?_⟩
    · cases j with
      | zero => simpa using hv₀
      | succ j => exact (hempty j (by omega)).1 (hall j (by omega))
    · cases j with
      | zero =>
        rw [getD_zero_headD]
        exact hpages₀ o ho (lacks_zero.1 hl)
      | succ j =>
        rw [htail]
        exact hpages j (by omega) o ho ((h.lacks hp hv (by omega) ho).2 hl)

lemma mapFixedPages_supplied (hf : PageFlags flags) (hw : WellFormed m) (hv : v % 4096 = 0)
    (hs : start < 2 ^ 64) (hal : start % 4096 = 0) (he : v + n * 4096 ≤ 2 ^ 39)
    (hnone : ∀ j < n, statVpage m (v + j * 4096) = none) (hp : FreshPages m answers.flatten)
    (hfuel : n < fuel) :
    ∃ m' ret, mapFixedPages flags fuel v start (n * 4096) answers m = some (m', ret) ∧
      (ret = OK ↔ Supplied m v n answers) := by
  induction n generalizing m v start answers fuel with
  | zero =>
    obtain ⟨fuel, rfl⟩ : ∃ k, fuel = k + 1 := ⟨fuel - 1, by omega⟩
    refine ⟨m, OK, ?_, iff_of_true rfl ⟨fun j hj => ?_, fun j hj => ?_⟩⟩
    · rw [mapFixedPages, Nat.zero_mul, if_pos rfl]
    · exact absurd hj (Nat.not_lt_zero j)
    · exact absurd hj (Nat.not_lt_zero j)
  | succ n ih =>
    obtain ⟨fuel, rfl⟩ : ∃ k, fuel = k + 1 := ⟨fuel - 1, by omega⟩
    have hv₀ : v < 2 ^ 39 := by omega
    have hx : statVpage m v = none := by simpa using hnone 0 (Nat.succ_pos n)
    have hfirst := freshPages_first hp
    obtain ⟨hiff, hopens⟩ := @mapVpage_supplied m v start flags 0 _ hf hw hv₀ (Nat.zero_le _)
      (noLargerLeaf_of_none hx) hfirst
    simp only [Nat.zero_add] at hiff
    change _ ↔ Empty m v ∧ ∀ i < 2, ¬ HasTable m v i → (answers.headD []).getD i 0 ≠ 0 at hiff
    have hgrows := mapVpage_grows m start v flags 0 (answers.headD [])
    obtain ⟨hw₁, ht, hcase⟩ := mapBasePage_spec hf hw hs hal (fun x hx' => by
      rw [hx] at hx'
      cases hx') hfirst
    have hrest := freshPages_rest hp ht
    rw [mapFixedPages, if_neg (by omega)]
    generalize mapVpage m start v flags 0 (answers.headD []) = r at hiff hopens hgrows hw₁ hcase hrest
    obtain ⟨m₁, ret⟩ := r
    dsimp only at hiff hopens hgrows hw₁ hcase hrest ⊢
    obtain ⟨rfl, -, hstat⟩ | ⟨herr, -⟩ := hcase
    · have hnew : statVpage m₁ v = some ⟨start, 0, flags ||| (VM_A ||| VM_D)⟩ := by
        rw [hstat, if_pos rfl]
      obtain ⟨b, hb, -⟩ := statVpage_eq_some.1 hnew
      have hopened : Opened v 0 m (answers.headD []) m₁ := ⟨hopens, hgrows, b, hb⟩
      have hmod : (v + basePageSize) % 2 ^ 64 = v + 4096 := by
        rw [basePageSize_eq]
        omega
      have hsub : sub64 ((n + 1) * 4096) basePageSize = n * 4096 := by
        rw [sub64, basePageSize_eq]
        omega
      have hnone₁ : ∀ j < n, statVpage m₁ (v + 4096 + j * 4096) = none := by
        intro j hj
        rw [hstat, if_neg]
        · rw [show v + 4096 + j * 4096 = v + (j + 1) * 4096 by ring]
          exact hnone (j + 1) (by omega)
        · rw [walkPage, walkPage]
          omega
      obtain ⟨m', ret, heq, hret⟩ := @ih m₁ (v + 4096) ((start + basePageSize) % 2 ^ 64) fuel
        answers.tail hw₁ (by omega) (Nat.mod_lt _ (by norm_num)) (by rw [basePageSize_eq]; omega)
        (by omega) hnone₁ hrest (by omega)
      refine ⟨m', ret, ?_, ?_⟩
      · rw [if_neg (by decide), hmod, hsub, heq]
      · rw [hret, hopened.supplied hfirst hv he, and_iff_right (hiff.1 rfl)]
    · refine ⟨m₁, ret, by rw [if_pos herr], iff_of_false herr fun hall => herr ?_⟩
      exact hiff.2 hall.first

lemma mapFixedRegion_supplied (hf : PageFlags flags) (hw : WellFormed m) (hv : v % 4096 = 0)
    (hs : start < 2 ^ 64) (hal : start % 4096 = 0) (he : v + n * 4096 ≤ 2 ^ 39)
    (hnone : ∀ j < n, statVpage m (v + j * 4096) = none) (hp : FreshPages m answers.flatten) :
    ∃ m' ret, mapFixedRegion m v start (n * 4096) flags answers = some (m', ret) ∧
      (ret = OK ↔ Supplied m v n answers) := by
  have hbytes : n * 4096 % 2 ^ 64 = n * 4096 := Nat.mod_eq_of_lt (by omega)
  rw [mapFixedRegion, alignRegion_eq hs (Nat.mul_mod_left ..), alignDown_page, if_pos hal, hal, hv,
    hbytes, basePageSize_eq]
  dsimp only
  rw [Nat.mul_div_cancel _ (by norm_num)]
  exact mapFixedPages_supplied hf hw hv hs hal he hnone hp (Nat.lt_succ_self n)

end Kmi.Uvmem
