import Kmi.Regions.Search

/-! Calls with any sizes and any fixed starts: what an allocation gives, and where the walk
to a fixed start ends. -/

namespace Kmi.Regions

open Kmi.Library.LinkedList Kmi.SpTree Kmi.Mem

variable {m m' : RegionMap} {xs : List ℕ} {x c : ℕ}

def SizeFits (size : ℕ) : Prop := 0 < size ∧ size + basePageSize ≤ 2 ^ 64

/-- Where no block has an aligned place, and the search does not turn to one remembered, the
place it takes in the last block leaves room for the pages. -/
def PlaceSafe (m : RegionMap) (size : ℕ) : Prop :=
  (∃ x ∈ m.spine, m.Fits size x) ∨ ∀ x, m.spine.getLast? = some x →
    m.Clear size x ∨ m.Spurned size x ∨
      (m.region x).start + (m.atLast size none (some x)).2 + size ≤ (m.region x).stop

inductive Reached : RegionMap → Prop
  | init {m₀ m : RegionMap} {x start arenaSize reserved : ℕ} {status : ℤ} :
      m₀.freeRegions = none → m₀.usedRegions = none → start + arenaSize ≤ 2 ^ 64 →
      0 < page arenaSize → initRegion m₀ (some x) start arenaSize reserved = some (m, status) →
      Reached m
  | alloc {m m' : RegionMap} {pre post : Option ℕ} {size addr asize : ℕ} {flags : Flags} :
      Reached m → SizeFits size → PlaceSafe m (pagesOf size) →
      allocRegion m pre post size flags = some (m', addr, asize) → Reached m'
  | fixed {m m' : RegionMap} {pre post : Option ℕ} {start size addr asize : ℕ} {flags : Flags} :
      Reached m → start < 2 ^ 64 → SizeFits size →
      allocFixedRegion m pre post start size flags = some (m', addr, asize) → Reached m'
  | free {m m' : RegionMap} {start : ℕ} {status : ℤ} : Reached m →
      freeRegion m start = some (m', status) → Reached m'

def WalkEnds (m : RegionMap) (start : ℕ) : Prop :=
  ∃ c x fuel, findClosestUsedRegion m start = some (some c) ∧ locate m (page start) fuel c = some x

def SizeSafe (m m' : RegionMap) (size v asize : ℕ) : Prop :=
  (v = 0 ∧ m' = m) ∨ ∃ xs x, Partition m' xs ∧ x ∈ xs ∧ (m'.region x).used = true ∧
    (m'.region x).start = page v ∧
    ((m'.region x).stop - (m'.region x).start) * basePageSize = asize ∧ 0 < asize ∧ size ≤ asize ∧
    ∀ y ∈ xs, y ≠ x → (m'.region y).used = true → (m'.region y).start ≠ (m'.region x).start ∧
      ((m'.region y).stop ≤ (m'.region x).start ∨ (m'.region x).stop ≤ (m'.region y).start)

lemma atLast_offset {size : ℕ} {best : Option ℕ} (hclear : ¬m.Clear size x)
    (hspurned : ¬m.Spurned size x) :
    m.atLast size best (some x) = (some x, (m.atLast size none (some x)).2) := by
  have hnot := not_or.2 ⟨hclear, hspurned⟩
  rw [RegionMap.atLast, RegionMap.atLast, if_neg hnot, if_neg hnot]
  split_ifs <;> rfl

lemma findFreeRegion_placed {size align : ℕ} (h : Partition m xs) (hstop : m.stop ≤ 2 ^ 53)
    (hsize : 0 < size) (hsafe : PlaceSafe m size)
    (hfind : findFreeRegion m size = some (some x, align)) :
    x ∈ xs ∧ (m.region x).used = false ∧ (m.region x).start + align + size ≤ (m.region x).stop := by
  by_cases hfits : ∃ y ∈ m.spine, m.Fits size y
  · obtain ⟨y, hf, hy, hfit⟩ := find?_fits hfits
    rw [findFreeRegion_of_fits hf] at hfind
    simp only [Option.some.injEq, Prod.mk.injEq] at hfind
    obtain ⟨rfl, rfl⟩ := hfind
    obtain ⟨hmem, hfree⟩ := free_of_mem_spine h hy
    obtain ⟨hstart, hend⟩ := fits_sound h hstop hsize hy hfit
    exact ⟨hmem, hfree, by rwa [hstart]⟩
  have hlast := hsafe.resolve_left hfits
  rw [findFreeRegion_of_not_fits h fun y hy hfit => hfits ⟨y, hy, hfit⟩] at hfind
  have hbest : m.spine.find? (m.Roomy size) = some x → align = 0 →
      x ∈ xs ∧ (m.region x).used = false ∧
        (m.region x).start + align + size ≤ (m.region x).stop := by
    rintro hx rfl
    obtain ⟨hspine, -, hroom⟩ := find?_roomy hx
    obtain ⟨hmem, hfree⟩ := free_of_mem_spine h hspine
    have := bounds_of_mem_spine h hspine
    rw [Region.size] at hroom
    exact ⟨hmem, hfree, by omega⟩
  cases hl : m.spine.getLast? with
  | none =>
    rw [hl] at hfind
    simp only [RegionMap.atLast, Option.some.injEq, Prod.mk.injEq] at hfind
    exact hbest hfind.1 hfind.2.symm
  | some y =>
    rw [hl] at hfind
    by_cases hnot : m.Clear size y ∨ m.Spurned size y
    · rw [RegionMap.atLast, if_pos hnot] at hfind
      simp only [Option.some.injEq, Prod.mk.injEq] at hfind
      exact hbest hfind.1 hfind.2.symm
    · obtain ⟨hclear, hspurned⟩ := not_or.1 hnot
      rw [atLast_offset hclear hspurned] at hfind
      simp only [Option.some.injEq, Prod.mk.injEq] at hfind
      obtain ⟨rfl, rfl⟩ := hfind
      obtain ⟨hmem, hfree⟩ := free_of_mem_spine h (List.mem_of_getLast? hl)
      exact ⟨hmem, hfree, ((hlast y hl).resolve_left hclear).resolve_left hspurned⟩

lemma locate_mem {ref fuel : ℕ} (h : Partition m xs) (hc : c ∈ xs)
    (hl : locate m ref fuel c = some x) :
    x ∈ xs ∧ (m.region x).start ≤ ref ∧ ref < (m.region x).stop := by
  induction fuel generalizing c with
  | zero => cases hl
  | succ fuel ih =>
    rw [locate] at hl
    obtain ⟨ys, zs, rfl⟩ := List.append_of_mem hc
    obtain ⟨-, -, hprev, hnext, -⟩ := isList_append_cons_iff.1 h.linked
    split_ifs at hl with hin hlt
    · cases hl
      exact ⟨hc, hin⟩
    · obtain ⟨n, hn, hl⟩ := Option.bind_eq_some_iff.1 hl
      rw [hnext] at hn
      exact ih (by simp [List.mem_of_head? hn]) hl
    · obtain ⟨p, hp, hl⟩ := Option.bind_eq_some_iff.1 hl
      rw [hprev] at hp
      exact ih (by simp [List.mem_of_getLast? hp]) hl

lemma page_lt {start : ℕ} (h : start < 2 ^ 64) : page start < 2 ^ 53 := by
  rw [page, basePageSize_eq]
  omega

lemma walkEnds_iff {start : ℕ} (h : Partition m xs) (hne : m.start < m.stop) (hstop : m.stop ≤ 2 ^ 52)
    (hstart : start < 2 ^ 64) : WalkEnds m start ↔ m.start ≤ page start ∧ page start < m.stop := by
  have hxs : xs ≠ [] := by
    rintro rfl
    have : m.start = m.stop := h.covers
    omega
  obtain ⟨c, hc, hfind⟩ := @findClosestUsedRegion_spec m xs start h hxs (page_lt hstart) (by omega)
  constructor
  · rintro ⟨c', x, fuel, hfind', hl⟩
    rw [hfind] at hfind'
    simp only [Option.some.injEq] at hfind'
    subst hfind'
    obtain ⟨hx, hs, he⟩ := locate_mem h hc hl
    have := h.covers.mem hx
    omega
  · rintro ⟨hs, he⟩
    obtain ⟨as, y, bs, -, -, -, hl⟩ := locate_spec h hc hs he
    exact ⟨c, y, m.fuel, hfind, hl⟩

lemma allocFixedRegion_inside {pre post : Option ℕ} {start size addr asize : ℕ} {flags : Flags}
    (h : Partition m xs) (hne : m.start < m.stop) (hstop : m.stop ≤ 2 ^ 52) (hstart : start < 2 ^ 64)
    (ha : allocFixedRegion m pre post start size flags = some (m', addr, asize)) :
    m.start ≤ page start ∧ page start < m.stop := by
  rw [← walkEnds_iff h hne hstop hstart]
  have hxs : xs ≠ [] := by
    rintro rfl
    have : m.start = m.stop := h.covers
    omega
  obtain ⟨c, -, hfind⟩ := @findClosestUsedRegion_spec m xs start h hxs (page_lt hstart) (by omega)
  simp only [allocFixedRegion, allocSharedFixedRegion, hfind, Option.bind_eq_bind, Option.bind_some,
    Option.bind_eq_some_iff] at ha
  obtain ⟨x, hx, -⟩ := ha
  exact ⟨c, x, m.fuel, hfind, hx⟩

structure Ready (m : RegionMap) : Prop where
  whole : ∃ xs, Partition m xs
  nonempty : m.start < m.stop
  stop : m.stop ≤ 2 ^ 52

lemma allocRegion_ready {pre post : Option ℕ} {size addr asize : ℕ} {flags : Flags} (h : Ready m)
    (hsize : SizeFits size) (hsafe : PlaceSafe m (pagesOf size))
    (ha : allocRegion m pre post size flags = some (m', addr, asize)) : Ready m' := by
  obtain ⟨⟨xs, hp⟩, hne, hstop⟩ := h
  have hpages := pagesOf_pos hsize.1 hsize.2
  simp only [allocRegion, allocSharedRegion, page_alignUp, Option.bind_eq_bind,
    Option.bind_eq_some_iff] at ha
  obtain ⟨⟨r, align⟩, hfind, ha⟩ := ha
  cases r with
  | none =>
    simp only [Option.some.injEq, Prod.mk.injEq] at ha
    obtain ⟨rfl, -⟩ := ha
    exact ⟨⟨xs, hp⟩, hne, hstop⟩
  | some x =>
    obtain ⟨hx, hfree, hfit⟩ := findFreeRegion_placed hp (by omega) hpages hsafe hfind
    obtain ⟨ys, zs, rfl⟩ := List.append_of_mem hx
    obtain ⟨r, hr, hres⟩ := Option.bind_eq_some_iff.1 ha
    simp only [Option.some.injEq, Prod.mk.injEq] at hres
    obtain ⟨rfl, -⟩ := hres
    obtain ⟨hp', hms, hme⟩ := partitionRegion_partition hp hfree (by omega) hpages hfit hr
    exact ⟨hp', by omega, by omega⟩

lemma allocFixedRegion_ready {pre post : Option ℕ} {start size addr asize : ℕ} {flags : Flags}
    (h : Ready m) (hstart : start < 2 ^ 64) (hsize : SizeFits size)
    (ha : allocFixedRegion m pre post start size flags = some (m', addr, asize)) : Ready m' := by
  obtain ⟨⟨xs, hp⟩, hne, hstop⟩ := h
  have hpages := pagesOf_pos hsize.1 hsize.2
  obtain ⟨hs, he⟩ := allocFixedRegion_inside hp hne hstop hstart ha
  obtain ⟨ys, x, zs, rfl, -, -, ⟨-, heq⟩ | ⟨hx, hfit, heq⟩⟩ := @allocSharedFixedRegion_cases m xs pre
    post start size 0 flags hp (by omega) hs he
  · rw [allocFixedRegion, heq] at ha
    simp only [Option.some.injEq, Prod.mk.injEq] at ha
    obtain ⟨rfl, -⟩ := ha
    exact ⟨⟨_, hp⟩, hne, hstop⟩
  · rw [allocFixedRegion, heq] at ha
    obtain ⟨r, hr, hres⟩ := Option.bind_eq_some_iff.1 ha
    simp only [Option.some.injEq, Prod.mk.injEq] at hres
    obtain ⟨rfl, -⟩ := hres
    obtain ⟨hp', hms, hme⟩ := partitionRegion_partition hp hx (by omega) hpages hfit hr
    exact ⟨hp', by omega, by omega⟩

lemma Reached.ready (h : Reached m) : Ready m := by
  induction h with
  | init hf hu harena hne hi =>
    obtain ⟨hp, hms, hme⟩ := initRegion_partition hf hu hne hi
    refine ⟨⟨_, hp⟩, by omega, ?_⟩
    have hb := basePageSize_eq
    rw [hme, page, page, hb]
    omega
  | alloc _ hsize hsafe ha ih => exact allocRegion_ready ih hsize hsafe ha
  | fixed _ hstart hsize ha ih => exact allocFixedRegion_ready ih hstart hsize ha
  | @free m _ start _ _ hf ih =>
    obtain ⟨⟨xs, hp⟩, hne, hstop⟩ := ih
    obtain ⟨m', status, hf', -, -, hp', hms, hme⟩ := freeRegion_spec hp start
    obtain ⟨rfl, -⟩ := Prod.mk.inj (Option.some.inj (hf'.symm.trans hf))
    exact ⟨hp', by omega, by omega⟩

theorem walk_ends_iff (h : Reached m) {start : ℕ} (hstart : start < 2 ^ 64) :
    WalkEnds m start ↔ m.start ≤ page start ∧ page start < m.stop := by
  obtain ⟨⟨xs, hp⟩, hne, hstop⟩ := h.ready
  exact walkEnds_iff hp hne hstop hstart

lemma sixteenPages_reached : Reached sixteenPages :=
  @Reached.init emptyMap sixteenPages 1 4096 65536 0 OK rfl rfl (by decide) (by decide) rfl

theorem walk_ends_iff_sixteen_pages : WalkEnds sixteenPages 8192 :=
  (walk_ends_iff sixteenPages_reached (by decide)).2 ⟨by decide, by decide⟩

def emptyUsed : RegionMap :=
  ((allocFixedRegion sixteenPages (some 2) (some 3) 8192 0 0).map Prod.fst).getD emptyMap

lemma locate_emptyUsed (fuel : ℕ) :
    locate emptyUsed 2 fuel 1 = none ∧ locate emptyUsed 2 fuel 2 = none := by
  induction fuel with
  | zero => exact ⟨rfl, rfl⟩
  | succ fuel ih =>
    have h₁ : (emptyUsed.region 1).start = 2 ∧ (emptyUsed.region 1).stop = 2 := by decide
    have h₂ : (emptyUsed.region 2).start = 1 ∧ (emptyUsed.region 2).stop = 2 := by decide
    have hprev : emptyUsed.list.prev 1 = some 2 := by decide
    have hnext : emptyUsed.list.next 2 = some 1 := by decide
    constructor
    · rw [locate, h₁.1, h₁.2, if_neg (by omega), if_neg (by omega), hprev]
      exact ih.2
    · rw [locate, h₂.1, h₂.2, if_neg (by omega), if_pos (by omega), hnext]
      exact ih.1

theorem walk_leaves_list : Reached sixteenPages ∧ ¬WalkEnds sixteenPages (2 ^ 20) ∧
    (∃ r, allocFixedRegion sixteenPages (some 2) (some 3) 8192 0 0 = some (emptyUsed, r)) ∧
    ¬WalkEnds emptyUsed 8192 := by
  refine ⟨sixteenPages_reached, ?_, ⟨_, rfl⟩, ?_⟩
  · obtain ⟨⟨xs, hp⟩, hne, hstop⟩ := sixteenPages_reached.ready
    rw [walkEnds_iff hp hne hstop (by norm_num)]
    decide
  · rintro ⟨c, x, fuel, hfind, hl⟩
    have hc : findClosestUsedRegion emptyUsed 8192 = some (some 1) := by decide
    rw [hc] at hfind
    simp only [Option.some.injEq] at hfind
    subst hfind
    have hpage : page 8192 = 2 := by decide
    rw [hpage, (locate_emptyUsed fuel).1] at hl
    cases hl

lemma sizeSafe_of_new {size pid : ℕ} {flags : Flags} {g : Region} (hsize : SizeFits size)
    (hg : Given g size flags pid) (hnew : NewUsed m m' g) :
    SizeSafe m m' size (g.start * basePageSize) (pagesOf size * basePageSize) := by
  obtain ⟨xs, hp⟩ := hnew.whole
  obtain ⟨x, hx, rfl, hu, -⟩ := (usedAt_eq_some hp).1 hnew.self
  have hpages := pagesOf_pos hsize.1 hsize.2
  have hwrap := hsize.2
  refine .inr ⟨xs, x, hp, hx, hu, (page_mul _).symm, ?_, ?_, ?_, ?_⟩
  · rw [hg.stop, Nat.add_sub_cancel_left]
  · rw [basePageSize_eq]
    omega
  · rw [pagesOf_eq hwrap, basePageSize_eq]
    omega
  · intro y hy hne _
    have hbx := hp.covers.mem hx
    have hby := hp.covers.mem hy
    have happart : ∀ q, (m'.region y).start ≤ q ∧ q < (m'.region y).stop →
        ¬((m'.region x).start ≤ q ∧ q < (m'.region x).stop) :=
      fun q hyq hxq => hne (hp.covers.eq_of_mem hy hx hyq hxq)
    have hmax := happart (max (m'.region x).start (m'.region y).start)
    constructor
    · intro heq
      apply happart (m'.region y).start <;> omega
    · omega

section Calls

variable {pre post : ℕ} {flags : Flags} {size : ℕ} (h : Reached m) (hpre : m.taken pre = false)
  (hpost : m.taken post = false) (hne : post ≠ pre) (hsize : SizeFits size)

include h hpre hpost hne hsize

lemma Reached.alloc_safe (hsafe : PlaceSafe m (pagesOf size)) :
    ∃ m' v asize, allocRegion m (some pre) (some post) size flags = some (m', v, asize) ∧
      SizeSafe m m' size v asize := by
  obtain ⟨⟨xs, hp⟩, -, hstop⟩ := h.ready
  obtain ⟨⟨r, align⟩, hfind, -⟩ := findFreeRegion_spec hp (pagesOf size)
  cases r with
  | none =>
    refine ⟨m, 0, alignUp size basePageSize, ?_, .inl ⟨rfl, rfl⟩⟩
    simp only [allocRegion, allocSharedRegion, page_alignUp, hfind, Option.bind_eq_bind,
      Option.bind_some]
  | some x =>
    obtain ⟨-, -, hfit⟩ := findFreeRegion_placed hp (by omega) (pagesOf_pos hsize.1 hsize.2) hsafe hfind
    obtain ⟨m', g, ha, hs, hg, hnew⟩ := @allocSharedRegion_found m xs size pre post 0 flags hp hstop
      hsize.1 hsize.2 hpre hpost hne ((m.region x).start + align) ⟨x, align, hfind, rfl, hfit⟩
    rw [← hs] at ha
    exact ⟨m', _, _, ha, sizeSafe_of_new hsize hg hnew⟩

lemma Reached.fixed_safe {start : ℕ} (hs : m.start ≤ page start) (he : page start < m.stop) :
    ∃ m' v asize, allocFixedRegion m (some pre) (some post) start size flags = some (m', v, asize) ∧
      SizeSafe m m' size v asize := by
  obtain ⟨⟨xs, hp⟩, -, hstop⟩ := h.ready
  obtain ⟨ys, x, zs, rfl, hxs, -, ⟨-, heq⟩ | ⟨hx, hfit, heq⟩⟩ := @allocSharedFixedRegion_cases m xs
    (some pre) (some post) start size 0 flags hp (by omega) hs he
  · exact ⟨m, 0, _, heq, .inl ⟨rfl, rfl⟩⟩
  · obtain ⟨m', g, hpart, -, hg, hnew⟩ := @partitionRegion_given m (ys ++ x :: zs) x size pre post 0
      flags hp hstop hsize.1 hsize.2 hpre hpost hne (page start - (m.region x).start) (by simp) hx hfit
    refine ⟨m', _, _, ?_, sizeSafe_of_new hsize hg hnew⟩
    rw [allocFixedRegion, heq, hpart, ← alignUp_pagesOf hsize.2]
    rfl

end Calls

theorem allocation_sizes_safe (h : Reached m) {pre post : ℕ} {flags : Flags} {size : ℕ}
    (hpre : m.taken pre = false) (hpost : m.taken post = false) (hne : post ≠ pre)
    (hsize : SizeFits size) :
    (PlaceSafe m (pagesOf size) →
      ∃ m' v asize, allocRegion m (some pre) (some post) size flags = some (m', v, asize) ∧
        SizeSafe m m' size v asize) ∧
    ∀ start, m.start ≤ page start → page start < m.stop →
      ∃ m' v asize,
        allocFixedRegion m (some pre) (some post) start size flags = some (m', v, asize) ∧
        SizeSafe m m' size v asize :=
  ⟨h.alloc_safe hpre hpost hne hsize, fun _ => h.fixed_safe hpre hpost hne hsize⟩

theorem allocation_sizes_safe_sixteen_pages :
    ∃ m' v asize, allocFixedRegion sixteenPages (some 2) (some 3) 8192 4096 0 = some (m', v, asize) ∧
      SizeSafe sixteenPages m' 4096 v asize :=
  (@allocation_sizes_safe sixteenPages sixteenPages_reached 2 3 0 4096 rfl rfl (by decide)
    ⟨by decide, by decide⟩).2 8192 (by decide) (by decide)

theorem allocation_empty :
    Reached sixteenPages ∧ ∀ size, size = 0 ∨ size = 2 ^ 64 - 1 →
      ∃ m', allocFixedRegion sixteenPages (some 2) (some 3) 8192 size 0 = some (m', 8192, 0) ∧
        ¬SizeSafe sixteenPages m' size 8192 0 := by
  refine ⟨sixteenPages_reached, fun size hsize => ?_⟩
  have hround : alignUp size basePageSize = 0 := by
    obtain rfl | rfl := hsize <;> decide
  have hsame : allocFixedRegion sixteenPages (some 2) (some 3) 8192 size 0 =
      allocFixedRegion sixteenPages (some 2) (some 3) 8192 0 0 := by
    simp only [allocFixedRegion, allocSharedFixedRegion, hround]
    rfl
  refine ⟨emptyUsed, hsame.trans rfl, ?_⟩
  rintro (⟨hv, -⟩ | ⟨xs, x, -, -, -, -, -, hpos, -⟩)
  · cases hv
  · cases hpos

end Kmi.Regions
