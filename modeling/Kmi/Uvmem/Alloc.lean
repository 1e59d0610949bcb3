import Kmi.Regions.Used
import Kmi.Uvmem.Ranges

/-! Allocating user memory is all or nothing where the region allocator finds a region. -/

namespace Kmi.Uvmem

open Kmi.Mem Kmi.Vmem Kmi.Regions

variable {u u' : UserVmem} {m m' : RegionMap} {g : Region} {size v pre post : ℕ} {flags : Flags}
  {answers : List Answer}

structure Valid (u : UserVmem) : Prop where
  region : ∃ xs, Partition u.region xs
  start : u.region.start = 0
  stop : u.region.stop = page UVMEM_END
  tables : WellFormed u.vmem

/-- There is a new used region at the address, of at least the size, with all its pages
mapped; all other regions and translations are as before. -/
structure Placed (u u' : UserVmem) (size v : ℕ) : Prop where
  used : ∃ g, usedAt u.region g.start = none ∧ usedAt u'.region g.start = some g ∧
    v = g.start * basePageSize ∧ size ≤ g.size * basePageSize ∧
    (∀ y, v ≤ y → y < g.stop * basePageSize → (statVpage u'.vmem y).isSome) ∧
    (∀ y < UVMEM_END, y < v ∨ g.stop * basePageSize ≤ y → statVpage u'.vmem y = statVpage u.vmem y) ∧
    ∀ p, p ≠ g.start → usedAt u'.region p = usedAt u.region p

structure Untouched (u u' : UserVmem) : Prop where
  used : ∀ p, usedAt u'.region p = usedAt u.region p
  stat : ∀ y < UVMEM_END, statVpage u'.vmem y = statVpage u.vmem y

def AllOrNothing (u u' : UserVmem) (size v : ℕ) : Prop :=
  errCode v = false ∧ Placed u u' size v ∨ errCode v = true ∧ Untouched u u'

def Untranslated (m : Space) (first pages : ℕ) : Prop :=
  ∀ y, first * basePageSize ≤ y → y < (first + pages) * basePageSize → statVpage m y = none

lemma mapRegion_spec {m : Space} {s bytes flags : ℕ} (hf : PageFlags flags) (hw : WellFormed m)
    (hs : s % 4096 = 0) (hb : bytes % 4096 = 0) (he : s + bytes ≤ 2 ^ 39)
    (hn : ∀ y, s ≤ y → y < s + bytes → statVpage m y = none) (ha : FreshAnswers m answers) :
    ∃ m' ret c, mapRegion m s bytes maxOrder flags answers = some (m', ret) ∧ Maps m m' s c ∧
      c ≤ s + bytes ∧ (ret = OK ∧ c = s + bytes ∨ ret = ERR_MISC) := by
  rw [mapRegion, alignRegion_aligned hs hb (by omega), basePageSize_eq]
  exact mapPages_spec hf le_rfl hw hs hb he hn ha (by omega)

lemma unmapRegion_spec {m : Space} {s bytes c : ℕ} (ht : Tiled m s c) (hw : WellFormed m)
    (hs : s % 4096 = 0) (hb : bytes % 4096 = 0) (he : s + bytes ≤ 2 ^ 39) (hc : c ≤ s + bytes)
    (hend : c = s + bytes ∨ statVpage m c = none) :
    ∃ m' freed, unmapRegion m s bytes = some (m', freed) ∧ Unmaps m m' s c := by
  rw [unmapRegion_eq (by omega) hs hb (by omega)]
  exact unmapPages_spec ht hw he hc hend (by omega)

lemma mapUvmem_spec {space : Space} (hu : Valid ⟨m, space⟩) (hg : NewUsed m m' g)
    (hlt : g.start < g.stop) (hsize : size ≤ g.size * basePageSize) (hf : PageFlags flags.toNat)
    (hn : Untranslated space g.start g.size) (ha : FreshAnswers space answers) :
    ∃ u' v, mapUvmem ⟨m', space⟩ (g.start * basePageSize) (g.size * basePageSize) flags answers =
        some (u', v) ∧ AllOrNothing ⟨m, space⟩ u' size v ∧ Valid u' := by
  obtain ⟨xs, hp⟩ := hg.whole
  have hstop : m.stop = page UVMEM_END := hu.stop
  have hend := page_uvmemEnd
  have hbounds := hg.bounds
  obtain ⟨s, hs⟩ : ∃ s, g.start * basePageSize = s := ⟨_, rfl⟩
  obtain ⟨bytes, hbytes⟩ : ∃ bytes, g.size * basePageSize = bytes := ⟨_, rfl⟩
  have hgs : g.size = g.stop - g.start := rfl
  have hstop : g.stop * basePageSize = s + bytes := by
    rw [← hs, ← hbytes, ← add_mul]
    congr 1
    omega
  have hb := basePageSize_eq
  have hs' : s = g.start * 4096 := by rw [← hs, hb]
  have hbytes' : bytes = g.size * 4096 := by rw [← hbytes, hb]
  have hn : ∀ y, s ≤ y → y < s + bytes → statVpage space y = none := by
    rwa [Untranslated, add_mul, hs, hbytes] at hn
  have herr : errCode s = false := by
    rw [errCode, hb, decide_eq_false_iff_not]
    omega
  rw [hs, hbytes]
  obtain ⟨space', ret, c, hmap, hm, hc, hret⟩ := @mapRegion_spec answers space s bytes flags.toNat hf
    hu.tables (by omega) (by omega) (by omega) hn ha
  simp only [mapUvmem, herr, Bool.false_eq_true, if_false, hmap, Option.bind_eq_bind, Option.bind_some]
  obtain ⟨rfl, rfl⟩ | rfl := hret
  · simp only [ne_eq, not_true_eq_false, if_false]
    refine ⟨_, _, rfl, .inl ⟨herr, ⟨g, hg.free, ?_, hs.symm, hbytes ▸ hsize, ?_, ?_, ?_⟩⟩, ⟨xs, hp⟩,
      hg.start.trans hu.start, hg.stop.trans hu.stop, hm.wf⟩
    · rw [hg.used, if_pos rfl]
    · intro y hy hy'
      obtain ⟨x, hx⟩ := hm.tiled.translated hy (by omega)
      rw [hx]
      rfl
    · intro y hy hout
      rw [UVMEM_END] at hy
      apply hm.rest y (by omega)
      omega
    · intro p hp
      rw [hg.used, if_neg hp]
  · -- the part that was mapped is taken out again, and the region given back
    obtain ⟨space'', freed, hunmap, hum⟩ := @unmapRegion_spec space' s bytes c hm.tiled hm.wf (by omega)
      (by omega) (by omega) hc (by
        obtain rfl | hlt := eq_or_lt_of_le hc
        · exact .inl rfl
        · right
          have hle := hm.tiled.le
          rw [hm.rest c (by omega) (.inr le_rfl), hn c hle hlt])
    have hused := hg.used g.start
    rw [if_pos rfl] at hused
    obtain ⟨m'', xs', hfree, hp', hs', he', huse⟩ := freeRegion_usedAt hp hused
    rw [hs] at hfree
    rw [if_pos (by decide), hunmap, Option.bind_some, hfree, Option.bind_some]
    refine ⟨_, _, rfl, .inr ⟨by decide, ?_, ?_⟩, ⟨xs', hp'⟩, (hs'.trans hg.start).trans hu.start,
      (he'.trans hg.stop).trans hu.stop, hum.wf⟩
    · intro p
      rw [huse]
      split_ifs with h
      · rw [h]
        exact hg.free.symm
      · rw [hg.used, if_neg h]
    · intro y hy
      rw [UVMEM_END] at hy
      rw [hum.stat y (by omega)]
      split_ifs with h
      · rw [hn y h.1 (by omega)]
      · apply hm.rest y (by omega)
        omega

lemma size_le_pagesOf (hwrap : size + basePageSize ≤ 2 ^ 64) : size ≤ pagesOf size * basePageSize := by
  have hb := basePageSize_eq
  rw [← alignUp_pagesOf hwrap, alignUp_eq (by omega) hwrap, hb]
  omega

structure Request (m : RegionMap) (pre post : Option ℕ) (size : ℕ) : Prop where
  pos : 0 < size
  wraps : size + basePageSize ≤ 2 ^ 64
  slots : ∃ a b, pre = some a ∧ post = some b ∧ m.taken a = false ∧ m.taken b = false ∧ b ≠ a

section Alloc

variable {pre post : Option ℕ} (hu : Valid u) (hr : Request u.region pre post size)

include hr in
lemma given_size {pid : ℕ} (hg : Given g size flags pid) :
    g.start < g.stop ∧ g.size = pagesOf size ∧ size ≤ g.size * basePageSize := by
  have hpos := pagesOf_pos hr.pos hr.wraps
  have hstop := hg.stop
  have hsize : g.size = pagesOf size := by
    rw [Region.size]
    omega
  refine ⟨by omega, hsize, ?_⟩
  rw [hsize]
  exact size_le_pagesOf hr.wraps

include hu in
lemma Valid.stop_le : u.region.stop ≤ 2 ^ 52 := by
  rw [hu.stop]
  decide

include hu hr in
lemma Valid.allocShared {pid first : ℕ} (hfound : FoundAt u.region size first) :
    ∃ m' g, allocSharedRegion u.region pre post size flags pid =
        some (m', first * basePageSize, pagesOf size * basePageSize) ∧
      g.start = first ∧ Given g size flags pid ∧ NewUsed u.region m' g := by
  obtain ⟨xs, hp⟩ := hu.region
  obtain ⟨a, b, rfl, rfl, ha, hb, hne⟩ := hr.slots
  exact allocSharedRegion_found hp hu.stop_le hr.pos hr.wraps ha hb hne hfound

include hu hr in
lemma Valid.allocSharedFixed {pid start : ℕ} (hfree : RangeFree u.region (page start) (pagesOf size)) :
    ∃ m' g, allocSharedFixedRegion u.region pre post start size flags pid =
        some (m', page start * basePageSize, pagesOf size * basePageSize) ∧
      g.start = page start ∧ Given g size flags pid ∧ NewUsed u.region m' g := by
  obtain ⟨xs, hp⟩ := hu.region
  obtain ⟨a, b, rfl, rfl, ha, hb, hne⟩ := hr.slots
  exact allocSharedFixedRegion_free hp hu.stop_le hr.pos hr.wraps ha hb hne hfree

section Map

variable (hf : PageFlags flags.toNat) (ha : FreshAnswers u.vmem answers)

include hu hr hf ha in
lemma allocUvmem_spec {first : ℕ} (hfound : FoundAt u.region size first)
    (hn : Untranslated u.vmem first (pagesOf size)) :
    ∃ u' v, allocUvmem u pre post size flags answers = some (u', v) ∧
      AllOrNothing u u' size v ∧ Valid u' := by
  obtain ⟨m', g, halloc, rfl, hg, hnew⟩ := @Valid.allocShared u size flags pre post hu hr 0 first hfound
  obtain ⟨hlt, hsize, hle⟩ := given_size hr hg
  rw [← hsize] at hn halloc
  simp only [allocUvmem, allocRegion, halloc, Option.bind_eq_bind, Option.bind_some]
  exact mapUvmem_spec hu hnew hlt hle hf hn ha

include hu hr hf ha in
lemma allocFixedUvmem_spec {start : ℕ} (hfree : RangeFree u.region (page start) (pagesOf size))
    (hn : Untranslated u.vmem (page start) (pagesOf size)) :
    ∃ u' v, allocFixedUvmem u pre post start size flags answers = some (u', v) ∧
      AllOrNothing u u' size v ∧ Valid u' := by
  obtain ⟨m', g, halloc, hs, hg, hnew⟩ := @Valid.allocSharedFixed u size flags pre post hu hr 0 start hfree
  obtain ⟨hlt, hsize, hle⟩ := given_size hr hg
  rw [← hs, ← hsize] at hn halloc
  simp only [allocFixedUvmem, allocFixedRegion, halloc, Option.bind_eq_bind, Option.bind_some]
  exact mapUvmem_spec hu hnew hlt hle hf hn ha

end Map

end Alloc

end Kmi.Uvmem
