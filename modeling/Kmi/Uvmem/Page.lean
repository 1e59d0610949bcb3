import Kmi.Uvmem.Runs
import Kmi.Uvmem.Supply

/-! The single large page of `alloc_uvpage`, from `src/vmem.c`, and `nearest_order`. -/

namespace Kmi.Uvmem

open Kmi.Mem Kmi.Vmem Kmi.Regions

def scanOrders (size : ℕ) : ℕ → Option ℕ
  | 0 => if orderSize 0 ≥ size then some 0 else none
  | order + 1 => if orderSize (order + 1) ≥ size then some (order + 1) else scanOrders size order

def nearestOrder (size : ℕ) : Option ℕ := scanOrders size maxOrder

/-- What `alloc_uvpage` leaves and returns, what it writes to `*startp` and `*sizep`, and the
pages with their orders that it takes from `alloc_page` and gives to `free_page`. -/
structure Uvpage where
  memory : UserVmem
  v : ℕ
  written : Option (ℕ × ℕ)
  taken : List (ℕ × ℕ)
  freed : List (ℕ × ℕ)

def allocUvpage (u : UserVmem) (pre post : Option ℕ) (size : ℕ) (flags : Flags) (start : ℕ)
    (answers : List Pages) : Option Uvpage := do
  let order ← nearestOrder size
  let size := orderSize order
  let (region, v, size) ← allocRegion u.region pre post size flags
  if errCode v then some ⟨⟨region, u.vmem⟩, v, none, [], []⟩
  else if start = 0 then do
    let (region, _) ← freeRegion region size
    some ⟨⟨region, u.vmem⟩, statusVm ERR_OOMEM, none, [], []⟩
  else do
    let (vmem, ret) ← mapFixedRegion u.vmem v start size flags.toNat answers
    if ret ≠ OK then
      let (vmem, freed) ← unmapRegion vmem v size
      let (region, _) ← freeRegion region v
      some ⟨⟨region, vmem⟩, statusVm ret, none, [(order, start)], freed⟩
    else some ⟨⟨region, vmem⟩, v, some (pa start, size), [(order, start)], []⟩

structure OnePage (u : UserVmem) (r : Uvpage) (o page : ℕ) (g : Region) : Prop where
  taken : r.taken = [(o, page)]
  freed : r.freed = []
  written : r.written = some (pa page, orderSize o)
  free : usedAt u.region g.start = none
  used : usedAt r.memory.region g.start = some g
  start : r.v = g.start * basePageSize
  size : g.size * basePageSize = orderSize o
  mapped : ∀ i < orderSize o, target r.memory.vmem (r.v + i) = some ((page + i) % 2 ^ 64)
  regions : ∀ p ≠ g.start, usedAt r.memory.region p = usedAt u.region p
  stat : ∀ y < UVMEM_END, y < r.v ∨ r.v + orderSize o ≤ y →
    statVpage r.memory.vmem y = statVpage u.vmem y

structure Unchanged (u : UserVmem) (r : Uvpage) : Prop where
  used : ∀ p, usedAt r.memory.region p = usedAt u.region p
  stat : ∀ y, statVpage r.memory.vmem y = statVpage u.vmem y
  tables : ∀ a, IsTable r.memory.vmem a ↔ IsTable u.vmem a
  pages : r.freed.Perm r.taken

def OneOrNothing (u : UserVmem) (size : ℕ) (r : Uvpage) : Prop :=
  errCode r.v = false ∧ (∃ o page g, IsLeast {o | o ≤ maxOrder ∧ size ≤ orderSize o} o ∧
    OnePage u r o page g) ∨ errCode r.v = true ∧ Unchanged u r

structure FreshPage (m : Space) (start : ℕ) : Prop where
  lt : start < 2 ^ 64
  aligned : start % 4096 = 0
  apart : ∀ y < UVMEM_END, ∀ i < orderSize maxOrder, target m y ≠ some ((start + i) % 2 ^ 64)

def gigaPages : ℕ := pagesOf (orderSize maxOrder)

def NotFound (m : RegionMap) : Prop := ∃ align, findFreeRegion m gigaPages = some (none, align)

/-- When the call keeps to one page or nothing. With a page, no smaller order must do, there
must be a region, and `map_fixed_region` must get through. Without one, the address that is
freed by mistake must be that of the region, or there must be nothing to free. -/
def Served (u : UserVmem) (size start : ℕ) (answers : List Pages) : Prop :=
  start ≠ 0 ∧ orderSize 1 < size ∧ (∃ p, FoundAt u.region (orderSize maxOrder) p ∧
      Untranslated u.vmem p gigaPages ∧ Supplied u.vmem (p * basePageSize) gigaPages answers) ∨
    start = 0 ∧ (FoundAt u.region (orderSize maxOrder) gigaPages ∨
      NotFound u.region ∧ usedAt u.region gigaPages = none)

def Misfit (m : RegionMap) : Prop := ∃ x align, findFreeRegion m gigaPages = some (some x, align) ∧
  (m.region x).stop < (m.region x).start + align + gigaPages

variable {u : UserVmem} {m m' m₁ : Space} {v y i size start fuel bytes f : ℕ} {pre post : Option ℕ} {flags : Flags}
  {answers : List Pages} {freed : List (ℕ × ℕ)} {r : Uvpage} {pages : Pages}

lemma gigaPages_eq : gigaPages = 2 ^ 18 := by decide

lemma gigaPages_mul : gigaPages * basePageSize = orderSize maxOrder := by decide

lemma nearestOrder_eq (h : size ≤ orderSize maxOrder) : nearestOrder size = some maxOrder :=
  if_pos h

lemma isLeast_maxOrder (h : size ≤ orderSize maxOrder) :
    IsLeast {o | o ≤ maxOrder ∧ size ≤ orderSize o} maxOrder ↔ orderSize 1 < size := by
  constructor
  · intro hleast
    by_contra hle
    have := hleast.2 ⟨show 1 ≤ maxOrder by decide, not_lt.1 hle⟩
    exact absurd this (by decide)
  · intro hlt
    refine ⟨⟨le_rfl, h⟩, fun o ho => ?_⟩
    by_contra hno
    have hle : o ≤ 1 := by
      rw [maxOrder] at hno
      omega
    have hsize : orderSize o ≤ orderSize 1 := by
      rw [orderSize_eq (by omega), orderSize_eq (by norm_num)]
      exact Nat.mul_le_mul_left _ (Nat.pow_le_pow_right (by norm_num) hle)
    exact absurd (hlt.trans_le (ho.2.trans hsize)) (lt_irrefl _)

lemma mapWalk_rootLeaf {left top i : ℕ} (h : isLeaf ((mapWalk v left top none pages m).1.root i) = true) :
    (mapWalk v left top none pages m).1.root i = m.root i := by
  cases left with
  | zero => rfl
  | succ left =>
    rw [mapWalk] at h ⊢
    split_ifs at h ⊢ with hu
    · obtain ⟨-, hc⟩ | ⟨a, rest, rfl, -, hc⟩ := createLeaf_cases m pages
      · rw [hc]
      · rw [hc] at h ⊢
        dsimp only at h ⊢
        rw [mapWalk_some_root] at h ⊢
        change isLeaf (Function.update m.root (vmToIndex v top) (toPte (pa a) VM_V) i) = true at h
        change Function.update m.root (vmToIndex v top) (toPte (pa a) VM_V) i = m.root i
        rw [Function.update_apply] at h ⊢
        split_ifs at h ⊢
        · have hno := branch_stops (pa a)
          rw [stops, h, Bool.or_true] at hno
          cases hno
        · rfl
    · exact congrFun (mapWalk_some_root ..) i

lemma mapVpage_rootLeaf (h : isLeaf ((mapVpage m start v f 0 pages).1.root i) = true) :
    (mapVpage m start v f 0 pages).1.root i = m.root i := by
  have hwalk := @mapWalk_rootLeaf m v pages (maxOrder - 0) maxOrder i
  have hbranch := @mapWalk_branch v 1 maxOrder pages m
  rw [mapVpage] at h ⊢
  change ∀ {t}, (mapWalk v (maxOrder - 0) maxOrder none pages m).2 = some t → t.isSome at hbranch
  generalize mapWalk v (maxOrder - 0) maxOrder none pages m = r at h hwalk hbranch
  obtain ⟨m₁, branch⟩ := r
  cases branch with
  | none => exact hwalk h
  | some branch =>
    obtain ⟨a, rfl⟩ := Option.isSome_iff_exists.1 (hbranch rfl)
    dsimp only at h hwalk ⊢
    split_ifs at h ⊢ with hu
    · have hgraves := addGraves_sameEntry m₁.root (vmToIndex v maxOrder) i
      change isLeaf (addGraves m₁.root (vmToIndex v maxOrder) i) = true at h
      change addGraves m₁.root (vmToIndex v maxOrder) i = m.root i
      obtain heq | ⟨-, hunused⟩ := hgraves
      · rw [← heq] at h ⊢
        exact hwalk h
      · rw [isLeaf_used h] at hunused
        cases hunused
    · exact hwalk h

lemma mapFixedPages_rootLeaf {ret : ℤ}
    (hm : mapFixedPages f fuel v start bytes answers m = some (m', ret))
    (h : isLeaf (m'.root i) = true) : m'.root i = m.root i := by
  induction fuel generalizing m v start bytes answers with
  | zero => cases hm
  | succ fuel ih =>
    rw [mapFixedPages] at hm
    split_ifs at hm with hz
    · cases hm
      rfl
    · have hfirst := @mapVpage_rootLeaf m v i start f (answers.headD [])
      generalize mapVpage m start v f 0 (answers.headD []) = r at hm hfirst
      obtain ⟨m₁, ret₁⟩ := r
      dsimp only at hm hfirst
      split_ifs at hm with herr
      · cases hm
        exact hfirst h
      · have heq := ih hm
        rw [heq] at h ⊢
        exact hfirst h

lemma mapFixedPages_error {ret : ℤ}
    (hm : mapFixedPages f fuel v start bytes answers m = some (m', ret)) :
    ret = OK ∨ ret = ERR_INVAL ∨ ret = ERR_OOMEM := by
  induction fuel generalizing m v start bytes answers with
  | zero => cases hm
  | succ fuel ih =>
    rw [mapFixedPages] at hm
    split_ifs at hm with hz
    · cases hm
      exact .inl rfl
    · have hfirst : (mapVpage m start v f 0 (answers.headD [])).2 = OK ∨
          (mapVpage m start v f 0 (answers.headD [])).2 = ERR_INVAL ∨
            (mapVpage m start v f 0 (answers.headD [])).2 = ERR_OOMEM := by
        rw [mapVpage]
        generalize mapWalk v (maxOrder - 0) maxOrder none (answers.headD []) m = r
        obtain ⟨m₁, branch⟩ := r
        cases branch with
        | none => exact .inr (.inr rfl)
        | some branch =>
          dsimp only
          split_ifs
          · exact .inl rfl
          · exact .inr (.inl rfl)
      generalize mapVpage m start v f 0 (answers.headD []) = r at hm hfirst
      obtain ⟨m₁, ret₁⟩ := r
      dsimp only at hm hfirst
      split_ifs at hm with herr
      · cases hm
        exact hfirst
      · exact ih hm

lemma unmapVpage_root_cases (m : Space) (v i : ℕ) : (unmapVpage m v).1.root i = m.root i ∨
    unused ((unmapVpage m v).1.root i) = true := by
  rw [unmapVpage]
  cases findVmem m v maxOrder none with
  | none => exact .inl rfl
  | some x =>
    obtain ⟨b, idx, o⟩ := x
    dsimp only
    obtain heq | ⟨-, hu⟩ := removeGraves_sameEntry (m.setLeaf b idx GRAVESTONE).root
      (vmToIndex v maxOrder) i
    · rw [← heq]
      obtain hroot | ⟨-, hroot⟩ := setLeaf_root m b idx GRAVESTONE
      · exact .inl (congrFun hroot i)
      · rw [hroot, Function.update_apply]
        split_ifs
        · exact .inr rfl
        · exact .inl rfl
    · exact .inr hu

lemma unmapVpage_root_leaf (h : isLeaf (m.root (vmToIndex v maxOrder)) = true) :
    unused ((unmapVpage m v).1.root (vmToIndex v maxOrder)) = true := by
  have hf : findVmem m v maxOrder none = some (none, vmToIndex v maxOrder, maxOrder) := by
    rw [findVmem_top, isLeaf_used h, h]
    rfl
  rw [unmapVpage, hf]
  have hold : unused ((m.setLeaf none (vmToIndex v maxOrder) GRAVESTONE).root (vmToIndex v maxOrder)) =
      true := by
    change unused (Function.update m.root (vmToIndex v maxOrder) GRAVESTONE _) = true
    rw [Function.update_self]
    rfl
  obtain heq | ⟨-, hu⟩ := removeGraves_sameEntry
    (m.setLeaf none (vmToIndex v maxOrder) GRAVESTONE).root (vmToIndex v maxOrder) (vmToIndex v maxOrder)
  · dsimp only
    rwa [← heq]
  · exact hu

lemma unmapPages_root_unused (h : unmapPages fuel v bytes m = some (m', freed))
    (hu : unused (m.root i) = true) : unused (m'.root i) = true := by
  induction fuel generalizing m v bytes freed with
  | zero => cases h
  | succ fuel ih =>
    rw [unmapPages] at h
    split_ifs at h
    · cases h
      exact hu
    · cases hx : statVpage m v with
      | none =>
        rw [hx] at h
        cases h
        exact hu
      | some x =>
        rw [hx] at h
        simp only [Option.bind_eq_bind, Option.bind_eq_some_iff, Option.some.injEq, Prod.mk.injEq,
          Prod.exists] at h
        obtain ⟨_, _, hrec, rfl, -⟩ := h
        apply ih hrec
        obtain heq | hnew := unmapVpage_root_cases m v i
        · rw [heq, hu]
        · exact hnew

lemma unmapPages_freed_top {a : ℕ} (h : unmapPages fuel v bytes m = some (m', freed))
    (ha : (maxOrder, a) ∈ freed) : ∃ y, isLeaf (m.root (vmToIndex y maxOrder)) = true ∧
      unused (m'.root (vmToIndex y maxOrder)) = true := by
  induction fuel generalizing m v bytes freed with
  | zero => cases h
  | succ fuel ih =>
    rw [unmapPages] at h
    split_ifs at h
    · cases h
      cases ha
    · cases hx : statVpage m v with
      | none =>
        rw [hx] at h
        cases h
        cases ha
      | some x =>
        rw [hx] at h
        simp only [Option.bind_eq_bind, Option.bind_eq_some_iff, Option.some.injEq, Prod.mk.injEq,
          Prod.exists] at h
        obtain ⟨_, _, hrec, rfl, rfl⟩ := h
        obtain heq | ha := List.mem_cons.1 ha
        · obtain ⟨b, hb, hl, -⟩ := statVpage_eq_some.1 hx
          obtain ⟨ho, -⟩ := Prod.mk.inj heq
          rw [← ho] at hb hl
          obtain rfl : b = none := hb.unique .top
          exact ⟨v, hl, unmapPages_root_unused hrec (unmapVpage_root_leaf hl)⟩
        · obtain ⟨y, hl, hu⟩ := ih hrec ha
          refine ⟨y, ?_, hu⟩
          obtain heq | hno := unmapVpage_root_cases m v (vmToIndex y maxOrder)
          · rwa [heq] at hl
          · rw [isLeaf_used hl] at hno
            cases hno

lemma statVpage_rootLeaf (h : isLeaf (m.root (vmToIndex v maxOrder)) = true) :
    statVpage m v = some ⟨pteAddr (m.root (vmToIndex v maxOrder)), maxOrder,
      pteFlags (m.root (vmToIndex v maxOrder))⟩ := by
  have hl : isLeaf (m.leaf none (vmToIndex v maxOrder)) = true := h
  rw [Walks.top.statVpage, statFrom_stops (by rw [stops, hl, Bool.or_true]), entryStat, isLeaf_used hl]
  rfl

lemma not_unchanged_of_failed {w : Space} {ret : ℤ}
    (hm : mapFixedRegion m v start bytes f answers = some (m₁, ret))
    (hunmap : unmapRegion m₁ y size = some (w, freed)) (hf : freed.Perm [(maxOrder, start)]) :
    ∃ z, statVpage w z ≠ statVpage m z := by
  obtain ⟨z, hl, hu⟩ := unmapPages_freed_top hunmap (hf.mem_iff.2 (List.mem_singleton_self _))
  refine ⟨z, fun heq => ?_⟩
  rw [mapFixedPages_rootLeaf hm hl] at hl
  rw [statVpage_rootLeaf hl] at heq
  have hused := statVpage_used heq
  rw [hu] at hused
  cases hused

lemma errCode_user {p : ℕ} (hp : p + gigaPages ≤ Regions.page UVMEM_END) : errCode (p * basePageSize) = false := by
  have hend := page_uvmemEnd
  rw [errCode, basePageSize_eq, decide_eq_false_iff_not]
  omega

section Found

variable {p : ℕ} (hu : Valid u) (hr : Request u.region pre post (orderSize maxOrder))
  (hfound : FoundAt u.region (orderSize maxOrder) p)

include hu hr hfound

lemma found_alloc : ∃ region g, allocRegion u.region pre post (orderSize maxOrder) flags =
      some (region, p * basePageSize, orderSize maxOrder) ∧
    g.start = p ∧ g.size * basePageSize = orderSize maxOrder ∧ NewUsed u.region region g ∧
      p + gigaPages ≤ Regions.page UVMEM_END := by
  obtain ⟨region, g, halloc, hs, hgiven, hnew⟩ := @Valid.allocShared u (orderSize maxOrder) flags pre post
    hu hr 0 p hfound
  obtain ⟨-, hsize, -⟩ := given_size hr hgiven
  have hpages : pagesOf (orderSize maxOrder) * basePageSize = orderSize maxOrder := gigaPages_mul
  rw [hpages] at halloc
  refine ⟨region, g, halloc, hs, by rw [hsize, hpages], hnew, ?_⟩
  have hstop := hgiven.stop
  have hbounds := hnew.bounds.2
  rw [hu.stop] at hbounds
  rw [gigaPages]
  omega

end Found

lemma not_misfit {m : RegionMap} {p : ℕ} (h : FoundAt m (orderSize maxOrder) p) : ¬ Misfit m := by
  rintro ⟨x, align, hfind, hlt⟩
  obtain ⟨x', align', hfind', rfl, hle⟩ := h
  rw [gigaPages] at hfind hlt
  rw [hfind] at hfind'
  cases hfind'
  omega

lemma NotFound.not_misfit {m : RegionMap} (h : NotFound m) : ¬ Misfit m := by
  rintro ⟨x, align, hfind, -⟩
  obtain ⟨align', hfind'⟩ := h
  rw [hfind] at hfind'
  cases hfind'

lemma search_cases (hu : Valid u) :
    NotFound u.region ∨ (∃ p, FoundAt u.region (orderSize maxOrder) p) ∨ Misfit u.region := by
  obtain ⟨xs, hp⟩ := hu.region
  obtain ⟨⟨found, align⟩, hfind, -⟩ := findFreeRegion_spec hp gigaPages
  cases found with
  | none => exact .inl ⟨align, hfind⟩
  | some x =>
    obtain hle | hlt := le_or_gt ((u.region.region x).start + align + gigaPages) (u.region.region x).stop
    · exact .inr (.inl ⟨_, x, align, hfind, rfl, hle⟩)
    · exact .inr (.inr ⟨x, align, hfind, hlt⟩)

lemma NotFound.alloc (h : NotFound u.region) : allocRegion u.region pre post (orderSize maxOrder) flags =
    some (u.region, 0, orderSize maxOrder) := by
  obtain ⟨align, hfind⟩ := h
  have hal : alignUp (orderSize maxOrder) basePageSize = orderSize maxOrder := by decide
  rw [show gigaPages = Regions.page (orderSize maxOrder) from congrArg Regions.page hal] at hfind
  simp only [allocRegion, allocSharedRegion, hfind, hal, Option.bind_eq_bind, Option.bind_some]

section Call

variable {region : RegionMap} (hsize : size ≤ orderSize maxOrder)
  (halloc : allocRegion u.region pre post (orderSize maxOrder) flags =
    some (region, v, orderSize maxOrder)) (herr : errCode v = false)

include hsize halloc herr

lemma allocUvpage_noPage : allocUvpage u pre post size flags 0 answers =
    (freeRegion region (orderSize maxOrder)).map fun s =>
      ⟨⟨s.1, u.vmem⟩, statusVm ERR_OOMEM, none, [], []⟩ := by
  simp only [allocUvpage, nearestOrder_eq hsize, halloc, herr, Option.bind_eq_bind, Option.bind_some,
    Bool.false_eq_true, if_false, if_true]
  cases freeRegion region (orderSize maxOrder) <;> rfl

lemma allocUvpage_mapped (hstart : start ≠ 0)
    (hmap : mapFixedRegion u.vmem v start (orderSize maxOrder) flags.toNat answers = some (m₁, OK)) :
    allocUvpage u pre post size flags start answers = some ⟨⟨region, m₁⟩, v,
      some (pa start, orderSize maxOrder), [(maxOrder, start)], []⟩ := by
  simp only [allocUvpage, nearestOrder_eq hsize, halloc, herr, hstart, hmap, Option.bind_eq_bind,
    Option.bind_some, Bool.false_eq_true, if_false, ne_eq, not_true_eq_false]

lemma allocUvpage_cases (hstart : start ≠ 0)
    (h : allocUvpage u pre post size flags start answers = some r) :
    ∃ m₁ ret, mapFixedRegion u.vmem v start (orderSize maxOrder) flags.toNat answers = some (m₁, ret) ∧
      (ret = OK ∧ r = ⟨⟨region, m₁⟩, v, some (pa start, orderSize maxOrder), [(maxOrder, start)], []⟩ ∨
        ret ≠ OK ∧ ∃ w freed region', unmapRegion m₁ v (orderSize maxOrder) = some (w, freed) ∧
          r = ⟨⟨region', w⟩, statusVm ret, none, [(maxOrder, start)], freed⟩) := by
  simp only [allocUvpage, nearestOrder_eq hsize, halloc, herr, hstart, Option.bind_eq_bind,
    Option.bind_some, Bool.false_eq_true, if_false, Option.bind_eq_some_iff, Prod.exists] at h
  obtain ⟨m₁, ret, hmap, h⟩ := h
  refine ⟨m₁, ret, hmap, ?_⟩
  split_ifs at h with hret
  · simp only [Option.bind_eq_some_iff, Option.some.injEq, Prod.exists] at h
    obtain ⟨w, freed, hunmap, region', _, -, rfl⟩ := h
    exact .inr ⟨hret, w, freed, region', hunmap, rfl⟩
  · cases h
    exact .inl ⟨not_not.1 hret, rfl⟩

lemma OneOrNothing.mapped (hstart : start ≠ 0)
    (h : allocUvpage u pre post size flags start answers = some r) (hone : OneOrNothing u size r) :
    orderSize 1 < size ∧ ∃ m₁ g, mapFixedRegion u.vmem v start (orderSize maxOrder) flags.toNat answers =
      some (m₁, OK) ∧ r.memory = ⟨region, m₁⟩ ∧ r.v = v ∧ OnePage u r maxOrder start g := by
  obtain ⟨m₁, ret, hmap, ⟨rfl, rfl⟩ | ⟨hret, w, freed, region', hunmap, rfl⟩⟩ :=
    allocUvpage_cases hsize halloc herr hstart h
  · obtain ⟨-, o, page, g, hleast, hpage⟩ | ⟨hno, -⟩ := hone
    · have htaken := hpage.taken
      simp only [List.cons.injEq, Prod.mk.injEq, and_true] at htaken
      obtain ⟨rfl, rfl⟩ := htaken
      exact ⟨(isLeast_maxOrder hsize).1 hleast, m₁, g, hmap, rfl, rfl, hpage⟩
    · rw [herr] at hno
      cases hno
  · have hcode : errCode (statusVm ret) = true := by
      obtain hok | rfl | rfl := mapFixedPages_error hmap
      · exact absurd hok hret
      · decide
      · decide
    obtain ⟨hno, -⟩ | ⟨-, hsame⟩ := hone
    · rw [hcode] at hno
      cases hno
    · obtain ⟨z, hz⟩ := not_unchanged_of_failed hmap hunmap hsame.pages
      exact absurd (hsame.stat z) hz

lemma noPage_oneOrNothing {xs : List ℕ} (hp : Partition region xs) :
    (∃ r, allocUvpage u pre post size flags 0 answers = some r ∧ OneOrNothing u size r) ↔
      ∀ q, usedAt u.region q = if q = gigaPages then none else usedAt region q := by
  obtain ⟨region', status, -, hfree, -, -, -, hused⟩ := freeRegion_clears hp gigaPages
  rw [gigaPages_mul] at hfree
  rw [allocUvpage_noPage hsize halloc herr, hfree, Option.map_some]
  have hcode : errCode (statusVm ERR_OOMEM) = true := by decide
  constructor
  · rintro ⟨r, hr, ⟨hno, -⟩ | ⟨-, hsame⟩⟩ q
    · cases hr
      rw [hcode] at hno
      cases hno
    · cases hr
      rw [← hused, ← hsame.used]
  · intro hall
    refine ⟨_, rfl, .inr ⟨hcode, fun q => ?_, fun _ => rfl, fun _ => .rfl, .refl _⟩⟩
    rw [hall, hused]

end Call

section Request

variable (hu : Valid u) (hr : Request u.region pre post (orderSize maxOrder))
  (hsize : size ≤ orderSize maxOrder) (hf : PageFlags flags.toNat)
  (hfresh : FreshPages u.vmem answers.flatten)

include hu hr hsize in
lemma noPage_served (hfit : ¬ Misfit u.region) :
    (∃ r, allocUvpage u pre post size flags 0 answers = some r ∧ OneOrNothing u size r) ↔
      FoundAt u.region (orderSize maxOrder) gigaPages ∨
        NotFound u.region ∧ usedAt u.region gigaPages = none := by
  obtain hno | ⟨p, hfound⟩ | hmis := search_cases hu
  · obtain ⟨xs, hp⟩ := hu.region
    rw [noPage_oneOrNothing hsize hno.alloc (by decide) hp]
    constructor
    · intro hall
      refine .inr ⟨hno, ?_⟩
      rw [hall, if_pos rfl]
    · rintro (⟨x, align, hfind, -⟩ | ⟨-, hnone⟩) q
      · obtain ⟨align', hfind'⟩ := hno
        rw [gigaPages, hfind] at hfind'
        cases hfind'
      · split_ifs with hq
        · rw [hq, hnone]
        · rfl
  · obtain ⟨region, g, halloc, hs, -, hnew, hend⟩ := @found_alloc u pre post flags p hu hr hfound
    obtain ⟨xs, hp⟩ := hnew.whole
    rw [noPage_oneOrNothing hsize halloc (errCode_user hend) hp]
    constructor
    · intro hall
      have hq := hall p
      rw [← hs, hnew.free, hnew.self] at hq
      split_ifs at hq with hgiga
      · rw [← hgiga, hs]
        exact .inl hfound
    · rintro (hgiga | ⟨⟨align, hfind⟩, -⟩) q
      · rw [hnew.used, hs, FoundAt.unique hfound hgiga]
        split_ifs with hq
        · rw [hq, ← FoundAt.unique hfound hgiga, ← hs, hnew.free]
        · rfl
      · obtain ⟨x, align', hfind', -⟩ := hfound
        rw [gigaPages, hfind'] at hfind
        cases hfind
  · exact absurd hmis hfit

lemma OnePage.untranslated {p : ℕ} {g : Region} (h : OnePage u r maxOrder start g)
    (hgrows : Grows u.vmem answers.flatten r.memory.vmem) (hfresh : FreshPages u.vmem answers.flatten)
    (hpage : FreshPage u.vmem start) (hv : r.v = p * basePageSize)
    (hend : p + gigaPages ≤ Regions.page UVMEM_END) : Untranslated u.vmem p gigaPages := by
  intro y hy hlt
  have huser := page_uvmemEnd_mul
  have hb := basePageSize_eq
  have hmul := gigaPages_mul
  rw [hb] at hmul hv hy hlt
  rw [add_mul, hmul] at hlt
  have hyu : y < UVMEM_END := by omega
  cases hx : statVpage u.vmem y with
  | none => rfl
  | some x =>
    exfalso
    have hnew := h.mapped (y - r.v) (by omega)
    rw [Nat.add_sub_cancel' (by omega), target, hgrows.stat hfresh hx] at hnew
    apply hpage.apart y hyu (y - r.v) (by omega)
    rw [target, hx, hnew]

lemma Untranslated.base {p n : ℕ} (h : Untranslated m p n) :
    ∀ j < n, statVpage m (p * basePageSize + j * 4096) = none := by
  intro j hj
  have hb := basePageSize_eq
  apply h
  · exact Nat.le_add_right ..
  · rw [hb]
    omega

include hu hf hfresh in
lemma mapGiga_supplied {p : ℕ} (hpage : FreshPage u.vmem start) (hend : p + gigaPages ≤ Regions.page UVMEM_END)
    (hn : Untranslated u.vmem p gigaPages) :
    ∃ m' ret, mapFixedRegion u.vmem (p * basePageSize) start (orderSize maxOrder) flags.toNat answers =
      some (m', ret) ∧ (ret = OK ↔ Supplied u.vmem (p * basePageSize) gigaPages answers) := by
  have hb := basePageSize_eq
  have huser := page_uvmemEnd
  have hle : p * 4096 + gigaPages * 4096 ≤ 2 ^ 39 := by
    rw [Nat.mul_comm gigaPages]
    omega
  have hpages := hn.base
  rw [← gigaPages_mul]
  rw [hb] at hpages ⊢
  exact @mapFixedRegion_supplied u.vmem (p * 4096) gigaPages start flags.toNat answers hf hu.tables
    (Nat.mul_mod_left p 4096) hpage.lt hpage.aligned hle hpages hfresh

lemma target_mapped {f k : ℕ} (hm : MapsFixed f m m' v start k) (hv : v % 4096 = 0) (hi : i < k * 4096) :
    target m' (v + i) = some ((start + i) % 2 ^ 64) := by
  have hx := hm.new (i / 4096) (by omega) (v + i) (by rw [walkPage]; omega)
  have hsize : orderSize 0 = 4096 := by decide
  rw [target, hx, Option.map_some, hsize, Option.some.injEq]
  dsimp only
  omega

include hu hf hfresh in
lemma mapGiga_onePage {p : ℕ} {region : RegionMap} {g : Region} (hpage : FreshPage u.vmem start)
    (hend : p + gigaPages ≤ Regions.page UVMEM_END) (hn : Untranslated u.vmem p gigaPages)
    (hnew : NewUsed u.region region g) (hs : g.start = p)
    (hgsize : g.size * basePageSize = orderSize maxOrder)
    (hmap : mapFixedRegion u.vmem (p * basePageSize) start (orderSize maxOrder) flags.toNat answers =
      some (m₁, OK)) : OnePage u ⟨⟨region, m₁⟩, p * basePageSize, some (pa start, orderSize maxOrder),
        [(maxOrder, start)], []⟩ maxOrder start g := by
  have hb := basePageSize_eq
  have huser := page_uvmemEnd
  have husermul := page_uvmemEnd_mul
  have hgiga := gigaPages_eq
  have hsize : orderSize maxOrder = 2 ^ 30 := by decide
  have hacross : pagesAcross start (orderSize maxOrder) = gigaPages := by
    rw [pagesAcross, if_pos hpage.aligned, hsize, hgiga]
    norm_num
  have hv : p * basePageSize % 4096 = 0 := by
    rw [hb]
    exact Nat.mul_mod_left ..
  have hnone : ∀ j < pagesAcross start (orderSize maxOrder), ∀ y,
      walkPage y = ((p * basePageSize - p * basePageSize % 4096) / 4096 + j) % 2 ^ 27 →
        ∀ x, statVpage u.vmem y = some x → x.order = 0 := by
    intro j hj y hy x hx
    have hpg : walkPage y = walkPage (p * basePageSize + j * 4096) := by
      rw [hy, walkPage]
      omega
    rw [statVpage_walkPage _ hpg, hn.base j (hacross ▸ hj)] at hx
    cases hx
  obtain ⟨k, -, hm, hk⟩ := mapFixedRegion_spec hf hu.tables hpage.lt (by rw [hsize]; norm_num) hnone hfresh
    hmap
  rw [hk.1 rfl, hacross, hv, hpage.aligned, Nat.sub_zero, Nat.sub_zero] at hm
  refine ⟨rfl, rfl, rfl, hnew.free, hnew.self, by rw [hs], hgsize, fun i hi => ?_, fun q hq => ?_, fun y hy hout => ?_⟩
  · exact target_mapped hm hv (by rw [hgiga]; omega)
  · rw [hnew.used, if_neg hq]
  · apply hm.rest
    intro j hj hpg
    dsimp only at hout
    rw [walkPage] at hpg
    rw [hb] at hout hpg
    omega

include hu hr hsize hf hfresh in
lemma page_served (hpage : FreshPage u.vmem start) (hstart : start ≠ 0) (hfit : ¬ Misfit u.region) :
    (∃ r, allocUvpage u pre post size flags start answers = some r ∧ OneOrNothing u size r) ↔
      orderSize 1 < size ∧ ∃ p, FoundAt u.region (orderSize maxOrder) p ∧
        Untranslated u.vmem p gigaPages ∧ Supplied u.vmem (p * basePageSize) gigaPages answers := by
  obtain hno | ⟨p, hfound⟩ | hmis := search_cases hu
  · refine iff_of_false ?_ ?_
    · rintro ⟨r, heq, hone⟩
      obtain ⟨-, m₁, g, -, hmem, -, hgiga⟩ := hone.mapped hsize hno.alloc (by decide) hstart heq
      have hused := hgiga.used
      rw [hmem, hgiga.free] at hused
      cases hused
    · rintro ⟨-, p, ⟨x, align, hfind, -⟩, -⟩
      obtain ⟨align', hfind'⟩ := hno
      rw [gigaPages, hfind] at hfind'
      cases hfind'
  · obtain ⟨region, g, halloc, hs, hgsize, hnew, hend⟩ := @found_alloc u pre post flags p hu hr hfound
    have herr := errCode_user hend
    constructor
    · rintro ⟨r, heq, hone⟩
      obtain ⟨hlt, m₁, g', hmap, hmem, hv, hgiga⟩ := hone.mapped hsize halloc herr hstart heq
      have hgrows : Grows u.vmem answers.flatten r.memory.vmem := by
        rw [hmem]
        exact mapFixedPages_grows hmap
      have hn := hgiga.untranslated hgrows hfresh hpage hv hend
      obtain ⟨m', ret, hmap', hret⟩ := mapGiga_supplied hu hf hfresh hpage hend hn
      rw [hmap] at hmap'
      cases hmap'
      exact ⟨hlt, p, hfound, hn, hret.1 rfl⟩
    · rintro ⟨hlt, q, hq, hn, hsupplied⟩
      obtain rfl := hfound.unique hq
      obtain ⟨m₁, ret, hmap, hret⟩ := mapGiga_supplied hu hf hfresh hpage hend hn
      obtain rfl := hret.2 hsupplied
      refine ⟨_, allocUvpage_mapped hsize halloc herr hstart hmap, .inl ⟨herr, maxOrder, start, g,
        (isLeast_maxOrder hsize).2 hlt, ?_⟩⟩
      exact mapGiga_onePage hu hf hfresh hpage hend hn hnew hs hgsize hmap
  · exact absurd hmis hfit

include hu hr hsize hf hfresh in
/-- The call keeps to one page or nothing where it is served, and nowhere else, unless the
search hands out a block that is too small. -/
theorem allocUvpage_oneOrNothing_iff (hpage : start ≠ 0 → FreshPage u.vmem start) :
    (Served u size start answers →
        ∃ r, allocUvpage u pre post size flags start answers = some r ∧ OneOrNothing u size r) ∧
      ((∃ r, allocUvpage u pre post size flags start answers = some r ∧ OneOrNothing u size r) →
        Served u size start answers ∨ Misfit u.region) := by
  have hiff : ¬ Misfit u.region →
      ((∃ r, allocUvpage u pre post size flags start answers = some r ∧ OneOrNothing u size r) ↔
        Served u size start answers) := by
    intro hfit
    by_cases hstart : start = 0
    · subst hstart
      rw [noPage_served hu hr hsize hfit]
      simp [Served]
    · rw [page_served hu hr hsize hf hfresh (hpage hstart) hstart hfit]
      simp [Served, hstart]
  constructor
  · intro hserved
    have hfit : ¬ Misfit u.region := by
      obtain ⟨-, -, p, hfound, -⟩ | ⟨-, hfound | ⟨hno, -⟩⟩ := hserved
      · exact not_misfit hfound
      · exact not_misfit hfound
      · exact hno.not_misfit
    exact (hiff hfit).2 hserved
  · intro hone
    by_cases hfit : Misfit u.region
    · exact .inr hfit
    · exact .inl ((hiff hfit).1 hone)

end Request

def usedUpTo (bytes : ℕ) : RegionMap :=
  ((allocFixedRegion freshRegion (some 2) (some 3) 0 bytes 0x17).map Prod.fst).getD freshRegion

lemma usedUpTo_valid {bytes : ℕ} (hpos : 0 < bytes) (hle : pagesOf bytes ≤ Regions.page UVMEM_END)
    (hwrap : bytes + basePageSize ≤ 2 ^ 64) :
    Valid ⟨usedUpTo bytes, ⟨createVmem 0, fun _ _ => 0⟩⟩ := by
  have hu : Valid freshProcess.memory := (freshProcess_runs Orderly).valid fun _ _ hc => hc
  have hr : Request freshProcess.memory.region (some 2) (some 3) bytes :=
    ⟨hpos, hwrap, 2, 3, rfl, rfl, rfl, rfl, by decide⟩
  have hfree : RangeFree freshProcess.memory.region (Regions.page 0) (pagesOf bytes) := by
    refine ⟨by decide, ?_, fun p g hg => ?_⟩
    · rw [show Regions.page 0 = 0 from rfl, Nat.zero_add]
      exact hle
    · rw [show freshProcess.memory.region = freshRegion from rfl, freshRegion_usedAt] at hg
      cases hg
  obtain ⟨m', g, halloc, -, -, hnew⟩ := @Valid.allocSharedFixed _ _ 0x17 _ _ hu hr 0 0 hfree
  have hmap : usedUpTo bytes = m' := by
    rw [usedUpTo, allocFixedRegion, show freshRegion = freshProcess.memory.region from rfl, halloc]
    rfl
  rw [hmap]
  exact ⟨hnew.whole, hnew.start.trans hu.start, hnew.stop.trans hu.stop, hu.tables⟩

def firstUsed : UserVmem := ⟨usedUpTo (2 ^ 30), ⟨createVmem 0, fun _ _ => 0⟩⟩

def tablePage (k : ℕ) : ℕ := 0xffffffc100000000 + k * 4096

def gigaTables : List Pages := (List.range gigaPages).map fun j => [tablePage (2 * j), tablePage (2 * j + 1)]

lemma gigaTables_getD {j : ℕ} (hj : j < gigaPages) :
    gigaTables.getD j [] = [tablePage (2 * j), tablePage (2 * j + 1)] := by
  rw [gigaTables, List.getD_eq_getElem?_getD, List.getElem?_map, List.getElem?_range hj]
  rfl

lemma mem_gigaTables {p : ℕ} (h : p ∈ gigaTables.flatten) : ∃ k < 2 ^ 19, p = tablePage k := by
  obtain ⟨l, hl, hp⟩ := List.mem_flatten.1 h
  obtain ⟨j, hj, rfl⟩ := List.mem_map.1 hl
  rw [List.mem_range, gigaPages_eq] at hj
  obtain rfl | hp := List.mem_cons.1 hp
  · exact ⟨2 * j, by omega, rfl⟩
  · exact ⟨2 * j + 1, by omega, List.mem_singleton.1 hp⟩

lemma gigaTables_nodup : gigaTables.flatten.Nodup := by
  rw [gigaTables, ← List.flatMap_def, List.nodup_flatMap]
  constructor
  · intro j _
    simp [tablePage]
  · apply List.nodup_range.imp
    intro j k hjk
    simp only [Function.onFun, List.disjoint_left, List.mem_cons, List.not_mem_nil, or_false, tablePage]
    omega

lemma firstUsed_valid : Valid firstUsed := usedUpTo_valid (by norm_num) (by decide) (by decide)

lemma gigaTables_fresh : FreshPages firstUsed.vmem gigaTables.flatten := by
  apply createVmem_fresh (fun _ => rfl)
  · intro p hp
    obtain ⟨k, hk, rfl⟩ := mem_gigaTables hp
    rw [tablePage]
    omega
  · exact gigaTables_nodup.filter _
  · intro p hp heq
    obtain ⟨k, hk, rfl⟩ := mem_gigaTables hp
    rw [show pteAddr (toPte 0 VM_V) = 0xffffffc000000000 by decide, tablePage] at heq
    omega

lemma firstUsed_stat {y : ℕ} (hy : y < UVMEM_END) : statVpage firstUsed.vmem y = none :=
  createVmem_stat hy

lemma firstUsed_empty (y : ℕ) : Empty firstUsed.vmem y := by
  intro b hb
  obtain rfl | ⟨-, ho, -⟩ := createVmem_walks (fun _ => rfl) hb
  · exact absurd (Walks.top_iff.1 hb) (by decide)
  · cases ho

lemma firstUsed_found : FoundAt firstUsed.region (orderSize maxOrder) gigaPages :=
  ⟨3, 0, by decide +kernel, by decide +kernel, by decide +kernel⟩

lemma firstUsed_served : Served firstUsed (2 ^ 22) 0xffffffc180000000 gigaTables := by
  have hgiga := gigaPages_eq
  have hb := basePageSize_eq
  refine .inl ⟨by norm_num, by decide, gigaPages, firstUsed_found, fun y _ hy => ?_, ?_, ?_⟩
  · apply firstUsed_stat
    rw [hgiga, hb] at hy
    rw [UVMEM_END]
    omega
  · exact fun j _ => firstUsed_empty _
  · intro j hj o ho _
    have hcases : o = 0 ∨ o = 1 := by omega
    rw [gigaTables_getD hj]
    obtain rfl | rfl := hcases
    · change tablePage (2 * j) ≠ 0
      rw [tablePage]
      omega
    · change tablePage (2 * j + 1) ≠ 0
      rw [tablePage]
      omega

lemma usedUpTo_request : Request firstUsed.region (some 4) (some 5) (orderSize maxOrder) :=
  ⟨by decide, by decide, 4, 5, rfl, rfl, by decide +kernel, by decide +kernel, by decide⟩

theorem allocUvpage_oneOrNothing_iff_gigabyte : ∃ r, allocUvpage firstUsed (some 4) (some 5) (2 ^ 22) 0x17
    0xffffffc180000000 gigaTables = some r ∧ OneOrNothing firstUsed (2 ^ 22) r := by
  apply (allocUvpage_oneOrNothing_iff firstUsed_valid usedUpTo_request (by decide) ⟨by decide, by decide⟩
    gigaTables_fresh fun _ => ⟨by norm_num, by norm_num, fun y hy i _ => ?_⟩).1 firstUsed_served
  rw [target, firstUsed_stat hy]
  exact fun h => by cases h

theorem failed_page_keeps_region :
    ∃ r, allocUvpage ⟨usedUpTo (2 ^ 31), ⟨createVmem 0, fun _ _ => 0⟩⟩ (some 4) (some 5) 4096 0x17 0 [] =
        some r ∧ nearestOrder 4096 = some 2 ∧ errCode r.v = true ∧
      (usedAt (usedUpTo (2 ^ 31)) (2 ^ 19)).isSome = false ∧
      (usedAt r.memory.region (2 ^ 19)).isSome = true ∧
      ¬ OneOrNothing ⟨usedUpTo (2 ^ 31), ⟨createVmem 0, fun _ _ => 0⟩⟩ 4096 r := by
  have hrun : (allocUvpage ⟨usedUpTo (2 ^ 31), ⟨createVmem 0, fun _ _ => 0⟩⟩ (some 4) (some 5) 4096 0x17 0
      []).map (fun r => (errCode r.v, (usedAt r.memory.region (2 ^ 19)).isSome)) = some (true, true) := by
    decide +kernel
  obtain ⟨r, hr, heq⟩ := Option.map_eq_some_iff.1 hrun
  obtain ⟨herr, hused⟩ := Prod.mk.inj heq
  have hfree : (usedAt (usedUpTo (2 ^ 31)) (2 ^ 19)).isSome = false := by decide +kernel
  refine ⟨r, hr, by decide, herr, hfree, hused, ?_⟩
  rintro (⟨hno, -⟩ | ⟨-, hsame⟩)
  · rw [herr] at hno
    cases hno
  · rw [hsame.used, hfree] at hused
    cases hused

end Kmi.Uvmem
