import Kmi.Regions.Free

/-! The used regions of a map, by the page they start at. -/

namespace Kmi.Regions

open Kmi.Library.LinkedList Kmi.SpTree Kmi.Mem

variable {m m' : RegionMap} {xs ys zs : List ℕ} {x p : ℕ} {g : Region}

lemma findUsedRegion_spec (h : Partition m xs) (start : ℕ) :
    ∃ r, findUsedRegion m start = some r ∧ ∀ y, r = some y ↔
      (y ∈ xs ∧ (m.region y).used = true) ∧ (m.region y).start = page start := by
  obtain ⟨frees, useds, ht, -, hu⟩ := h.trees
  have hlen := h.length_lt ht.used.nodup fun y hy => ((hu y).1 hy).1
  obtain ⟨t, hw, hin⟩ := ht.used
  obtain ⟨r, hr, hmem⟩ := @findUsed_rep m (page start) m.fuel t none m.usedRegions hw.rep
    (by rw [hin]; omega) (by rw [hin]; exact ht.usedSorted)
  refine ⟨r, hr, fun y => ?_⟩
  rw [hmem, hin, hu]

def usedAt (m : RegionMap) (p : ℕ) : Option Region :=
  match findUsed m p m.fuel m.usedRegions with
  | some (some x) => some (m.region x)
  | _ => none

lemma page_mul (p : ℕ) : page (p * basePageSize) = p := by
  rw [page, basePageSize_eq]
  omega

lemma usedAt_spec (h : Partition m xs) (p : ℕ) :
    ∃ r, usedAt m p = r.map m.region ∧ ∀ y, r = some y ↔
      (y ∈ xs ∧ (m.region y).used = true) ∧ (m.region y).start = p := by
  obtain ⟨r, hr, hmem⟩ := findUsedRegion_spec h (p * basePageSize)
  rw [findUsedRegion, page_mul] at hr
  refine ⟨r, ?_, fun y => ?_⟩
  · rw [usedAt, hr]
    cases r with
    | none => rfl
    | some x => rfl
  · rw [hmem, page_mul]

lemma usedAt_eq_some (h : Partition m xs) :
    usedAt m p = some g ↔ ∃ x ∈ xs, m.region x = g ∧ g.used = true ∧ g.start = p := by
  obtain ⟨r, hr, hmem⟩ := usedAt_spec h p
  rw [hr, Option.map_eq_some_iff]
  constructor
  · rintro ⟨x, rfl, rfl⟩
    obtain ⟨⟨hx, hu⟩, hs⟩ := (hmem x).1 rfl
    exact ⟨x, hx, rfl, hu, hs⟩
  · rintro ⟨x, hx, rfl, hu, hs⟩
    exact ⟨x, (hmem x).2 ⟨⟨hx, hu⟩, hs⟩, rfl⟩

lemma usedAt_range (h : Partition m xs) (hu : usedAt m p = some g) :
    g.start = p ∧ m.start ≤ p ∧ p < g.stop ∧ g.stop ≤ m.stop := by
  obtain ⟨x, hx, rfl, -, rfl⟩ := (usedAt_eq_some h).1 hu
  exact ⟨rfl, h.covers.mem hx⟩

lemma usedAt_apart {q : ℕ} {g' : Region} (h : Partition m xs) (hu : usedAt m p = some g)
    (hu' : usedAt m q = some g') (hne : p ≠ q) : g.stop ≤ g'.start ∨ g'.stop ≤ g.start := by
  obtain ⟨-, -, hlt, -⟩ := usedAt_range h hu
  obtain ⟨-, -, hlt', -⟩ := usedAt_range h hu'
  obtain ⟨x, hx, rfl, -, rfl⟩ := (usedAt_eq_some h).1 hu
  obtain ⟨y, hy, rfl, -, rfl⟩ := (usedAt_eq_some h).1 hu'
  by_contra hover
  have hxy := h.covers.eq_of_mem hx hy (p := max (m.region x).start (m.region y).start) (by omega)
    (by omega)
  exact hne (congrArg (fun z => (m.region z).start) hxy)

lemma Carved.usedAt (hc : Carved m m' xs x g) (h : Partition m xs) (hx : x ∈ xs)
    (hu : (m.region x).used = false) (hg : g.used = true) (p : ℕ) :
    usedAt m' p = if p = g.start then some g else usedAt m p := by
  obtain ⟨xs', hp, hmem⟩ := hc.whole
  have hcarved := hc.carved
  split_ifs with hps
  · rw [usedAt_eq_some hp]
    exact ⟨x, (hmem x (by rw [hcarved, hg])).2 hx, hcarved, hg, hps.symm⟩
  · apply Option.ext
    intro k
    rw [usedAt_eq_some hp, usedAt_eq_some h]
    constructor
    · rintro ⟨y, hy, rfl, hyu, hys⟩
      have hne : y ≠ x := by
        rintro rfl
        rw [hcarved] at hys
        exact hps hys.symm
      have hyx := (hmem y hyu).1 hy
      exact ⟨y, hyx, (hc.others y hyx hne).symm, hyu, hys⟩
    · rintro ⟨y, hy, rfl, hyu, hys⟩
      have hne : y ≠ x := by
        rintro rfl
        simp [hu] at hyu
      have hsame := hc.others y hy hne
      exact ⟨y, (hmem y (by rw [hsame, hyu])).2 hy, hsame, hyu, hys⟩

lemma Freed.usedAt (hf : Freed m m' xs x) (h : Partition m xs) (hx : x ∈ xs)
    (hu : (m.region x).used = true) (p : ℕ) :
    usedAt m' p = if p = (m.region x).start then none else usedAt m p := by
  obtain ⟨xs', hp, hmem⟩ := hf.whole
  have hback : ∀ y ∈ xs', (m'.region y).used = true → y ≠ x ∧ y ∈ xs ∧ m'.region y = m.region y := by
    intro y hy hyu
    have hne : y ≠ x := by
      rintro rfl
      simp [hf.freed] at hyu
    exact ⟨hne, (hmem y hyu).1 hy, hf.others y hne⟩
  split_ifs with hps
  · rw [Option.eq_none_iff_forall_ne_some]
    intro k hk
    obtain ⟨y, hy, rfl, hyu, hys⟩ := (usedAt_eq_some hp).1 hk
    obtain ⟨hne, hyx, hsame⟩ := hback y hy hyu
    rw [hsame] at hyu hys
    have hbx := h.covers.mem hx
    have hby := h.covers.mem hyx
    exact hne (h.covers.eq_of_mem hyx hx (p := p) (by omega) (by omega))
  · apply Option.ext
    intro k
    rw [usedAt_eq_some hp, usedAt_eq_some h]
    constructor
    · rintro ⟨y, hy, rfl, hyu, hys⟩
      obtain ⟨-, hyx, hsame⟩ := hback y hy hyu
      exact ⟨y, hyx, hsame.symm, hyu, hys⟩
    · rintro ⟨y, hy, rfl, hyu, hys⟩
      have hne : y ≠ x := by
        rintro rfl
        exact hps hys.symm
      have hsame := hf.others y hne
      exact ⟨y, (hmem y (by rw [hsame, hyu])).2 hy, hsame, hyu, hys⟩

def pagesOf (size : ℕ) : ℕ := page (alignUp size basePageSize)

lemma page_alignUp (size : ℕ) : page (alignUp size basePageSize) = pagesOf size := rfl

lemma pagesOf_eq {size : ℕ} (hwrap : size + basePageSize ≤ 2 ^ 64) :
    pagesOf size = (size + 4095) / 4096 := by
  rw [basePageSize_eq] at hwrap
  rw [pagesOf, page, basePageSize_eq, alignUp_eq (by norm_num) hwrap,
    Nat.mul_div_cancel_left _ (by norm_num)]

lemma pagesOf_pos {size : ℕ} (hpos : 0 < size) (hwrap : size + basePageSize ≤ 2 ^ 64) :
    0 < pagesOf size := by
  have hb := basePageSize_eq
  rw [pagesOf, page, alignUp_eq (by omega) hwrap, hb]
  rw [Nat.mul_div_cancel_left _ (by decide)]
  omega

lemma allocSharedFixedRegion_cases {pre post : Option ℕ} {start size pid : ℕ} {flags : Flags}
    (h : Partition m xs) (hstop : m.stop ≤ 2 ^ 53) (hs : m.start ≤ page start)
    (he : page start < m.stop) :
    ∃ ys x zs, xs = ys ++ x :: zs ∧ (m.region x).start ≤ page start ∧ page start < (m.region x).stop ∧
      (((m.region x).used = true ∨ (m.region x).stop < page start + pagesOf size) ∧
          allocSharedFixedRegion m pre post start size flags pid =
            some (m, 0, alignUp size basePageSize) ∨
        (m.region x).used = false ∧
        (m.region x).start + (page start - (m.region x).start) + pagesOf size ≤ (m.region x).stop ∧
        allocSharedFixedRegion m pre post start size flags pid =
          (partitionRegion m pre post x (pagesOf size)
            (page start - (m.region x).start) flags pid).bind fun r =>
              some (r.1, r.2, alignUp size basePageSize)) := by
  have hne : xs ≠ [] := by
    rintro rfl
    have : m.start = m.stop := h.covers
    omega
  obtain ⟨c, hc, hfind⟩ := @findClosestUsedRegion_spec m xs start h hne (by omega) hstop
  obtain ⟨ys, x, zs, rfl, hxs, hxe, hloc⟩ := locate_spec h hc hs he
  refine ⟨ys, x, zs, rfl, hxs, hxe, ?_⟩
  simp only [allocSharedFixedRegion, hfind, Option.bind_eq_bind, Option.bind_some, hloc, page_alignUp]
  cases hused : (m.region x).used with
  | true => exact .inl ⟨.inl rfl, rfl⟩
  | false =>
    by_cases hfit : page start + pagesOf size > (m.region x).stop
    · exact .inl ⟨.inr hfit, by simp [hfit]⟩
    · exact .inr ⟨rfl, by omega, by simp [hfit]⟩

lemma Partition.setRegion (h : Partition m xs) (hs : g.start = (m.region x).start)
    (he : g.stop = (m.region x).stop) (hu : g.used = (m.region x).used) :
    Partition (m.setRegion x g) xs := by
  have hreg : ∀ y, ((m.setRegion x g).region y).start = (m.region y).start ∧
      ((m.setRegion x g).region y).stop = (m.region y).stop ∧
      ((m.setRegion x g).region y).used = (m.region y).used := by
    intro y
    obtain rfl | hne := eq_or_ne y x
    · simp [RegionMap.setRegion, hs, he, hu]
    · simp [RegionMap.setRegion, hne]
  obtain ⟨frees, useds, ht, hf, hus⟩ := h.trees
  refine ⟨h.linked, ?_, ?_, ⟨frees, useds, ?_, ?_, ?_⟩, h.taken, h.count⟩
  · exact h.covers.congr fun y _ => ⟨(hreg y).1, (hreg y).2.1⟩
  · exact h.noFreePair.congr fun y _ => (hreg y).2.2
  · exact ht.congr (m.setRegion x g) rfl rfl (s := []) (fun y _ => ⟨⟨rfl, rfl, rfl⟩, rfl⟩) (by simp)
      fun y _ => ⟨(hreg y).1, (hreg y).2.1⟩
  · intro y
    rw [hf, (hreg y).2.2]
  · intro y
    rw [hus, (hreg y).2.2]

lemma Freed.partition (hf : Freed m m' xs x) : ∃ xs', Partition m' xs' := by
  obtain ⟨xs', hp, -⟩ := hf.whole
  exact ⟨xs', hp⟩

lemma isAligned_mul (p : ℕ) : isAligned (p * basePageSize) basePageSize = true := by
  rw [isAligned, alignDown, basePageSize_eq]
  simp

lemma freeRegion_usedAt (h : Partition m xs) (hu : usedAt m p = some g) :
    ∃ m' xs', freeRegion m (p * basePageSize) = some (m', OK) ∧ Partition m' xs' ∧
      m'.start = m.start ∧ m'.stop = m.stop ∧
      ∀ q, usedAt m' q = if q = p then none else usedAt m q := by
  obtain ⟨x, hx, rfl, hxu, hxs⟩ := (usedAt_eq_some h).1 hu
  obtain ⟨r, hr, hmem⟩ := findUsedRegion_spec h (p * basePageSize)
  obtain rfl := (hmem x).2 ⟨⟨hx, hxu⟩, by rw [page_mul, hxs]⟩
  obtain ⟨m', hf, hd⟩ := freeKnownRegion_freed h hx hxu
  obtain ⟨xs', hp⟩ := hd.partition
  refine ⟨m', xs', by simp [freeRegion, isAligned_mul p, hr, hf], hp, hd.start, hd.stop, fun q => ?_⟩
  rw [hd.usedAt h hx hxu, hxs]

lemma freeRegion_none {v : ℕ} (h : Partition m xs) (hal : isAligned v basePageSize = true)
    (hu : usedAt m (page v) = none) : freeRegion m v = some (m, ERR_NF) := by
  obtain ⟨c, hc, hmem⟩ := findUsedRegion_spec h v
  cases c with
  | none => simp [freeRegion, hal, hc]
  | some x =>
    have hx := (hmem x).1 rfl
    rw [(usedAt_eq_some h).2 ⟨x, hx.1.1, rfl, hx.1.2, hx.2⟩] at hu
    cases hu

lemma freeRegion_clears (h : Partition m xs) (p : ℕ) :
    ∃ m' status xs', freeRegion m (p * basePageSize) = some (m', status) ∧ Partition m' xs' ∧
      m'.start = m.start ∧ m'.stop = m.stop ∧
      ∀ q, usedAt m' q = if q = p then none else usedAt m q := by
  cases hu : usedAt m p with
  | none =>
    refine ⟨m, ERR_NF, xs, freeRegion_none h (isAligned_mul p) (by rw [page_mul, hu]), h, rfl, rfl,
      fun q => ?_⟩
    split_ifs with hq
    · rw [hq, hu]
    · rfl
  | some g =>
    obtain ⟨m', xs', hf, hp⟩ := freeRegion_usedAt h hu
    exact ⟨m', OK, xs', hf, hp⟩

lemma findFreeRegion_spec (h : Partition m xs) (size : ℕ) :
    ∃ r, findFreeRegion m size = some r ∧
      ∀ x, r.1 = some x → x ∈ xs ∧ (m.region x).used = false := by
  obtain ⟨frees, useds, ht, hf, -⟩ := h.trees
  have hlen := h.length_lt ht.free.nodup fun y hy => ((hf y).1 hy).1
  obtain ⟨t, hw, rfl⟩ := ht.free
  obtain ⟨r, hr, hmem⟩ := @findFree_rep m _ size (page (poAlign (size * basePageSize))) m.fuel t none
    m.freeRegions none hw.rep (by omega) (fun _ hy => hy) (by simp)
  exact ⟨r, hr, fun x hx => (hf x).1 (hmem x hx)⟩

def FoundAt (m : RegionMap) (size first : ℕ) : Prop :=
  ∃ x align, findFreeRegion m (pagesOf size) = some (some x, align) ∧
    first = (m.region x).start + align ∧ first + pagesOf size ≤ (m.region x).stop

lemma FoundAt.unique {size q : ℕ} (hp : FoundAt m size p) (hq : FoundAt m size q) : p = q := by
  obtain ⟨x, align, hfind, rfl, -⟩ := hp
  obtain ⟨x', align', hfind', rfl, -⟩ := hq
  rw [hfind] at hfind'
  cases hfind'
  rfl

def RangeFree (m : RegionMap) (first pages : ℕ) : Prop :=
  m.start ≤ first ∧ first + pages ≤ m.stop ∧
    ∀ p g, usedAt m p = some g → g.stop ≤ first ∨ first + pages ≤ g.start

structure NewUsed (m m' : RegionMap) (g : Region) : Prop where
  whole : ∃ xs, Partition m' xs
  start : m'.start = m.start
  stop : m'.stop = m.stop
  bounds : m.start ≤ g.start ∧ g.stop ≤ m.stop
  free : usedAt m g.start = none
  used : ∀ p, usedAt m' p = if p = g.start then some g else usedAt m p

lemma NewUsed.kept {g' : Region} (hg : NewUsed m m' g) (h : usedAt m p = some g') :
    p ≠ g.start ∧ usedAt m' p = some g' := by
  have hne : p ≠ g.start := by
    rintro rfl
    rw [hg.free] at h
    cases h
  exact ⟨hne, by rw [hg.used, if_neg hne, h]⟩

lemma NewUsed.self (hg : NewUsed m m' g) : usedAt m' g.start = some g := by
  rw [hg.used, if_pos rfl]

lemma Carved.newUsed (hc : Carved m m' xs x g) (h : Partition m xs) (hx : x ∈ xs)
    (hu : (m.region x).used = false) (hg : g.used = true) (hs : (m.region x).start ≤ g.start)
    (hlt : g.start < g.stop) (he : g.stop ≤ (m.region x).stop) : NewUsed m m' g := by
  obtain ⟨xs', hp, -⟩ := hc.whole
  obtain ⟨hms, -, hme⟩ := h.covers.mem hx
  refine ⟨⟨xs', hp⟩, hc.start, hc.stop, ⟨by omega, by omega⟩, ?_, hc.usedAt h hx hu hg⟩
  rw [Option.eq_none_iff_forall_ne_some]
  intro k hk
  obtain ⟨y, hy, rfl, hyu, hys⟩ := (usedAt_eq_some h).1 hk
  have hby := h.covers.mem hy
  obtain rfl := h.covers.eq_of_mem hy hx (p := g.start) (by omega) (by omega)
  simp [hu] at hyu

lemma alignUp_pagesOf {size : ℕ} (hwrap : size + basePageSize ≤ 2 ^ 64) :
    alignUp size basePageSize = pagesOf size * basePageSize := by
  have hb := basePageSize_eq
  rw [pagesOf, page, alignUp_eq (by omega) hwrap, hb, Nat.mul_div_cancel_left _ (by decide)]
  ring

structure Given (g : Region) (size : ℕ) (flags : Flags) (pid : ℕ) : Prop where
  stop : g.stop = g.start + pagesOf size
  refcount : pid = 0 → g.refcount = 1
  flags : g.flags = flags ||| MR_USED
  pid : g.pid = pid

section Request

variable {size pre post pid : ℕ} {flags : Flags} (h : Partition m xs) (hstop : m.stop ≤ 2 ^ 52)
  (hpos : 0 < size) (hwrap : size + basePageSize ≤ 2 ^ 64) (hpre : m.taken pre = false)
  (hpost : m.taken post = false) (hne : post ≠ pre)

include h hstop hpos hwrap hpre hpost hne in
lemma partitionRegion_given {align : ℕ} (hx : x ∈ xs) (hu : (m.region x).used = false)
    (hfit : (m.region x).start + align + pagesOf size ≤ (m.region x).stop) :
    ∃ m' g, partitionRegion m (some pre) (some post) x (pagesOf size) align flags pid =
        some (m', g.start * basePageSize) ∧
      g.start = (m.region x).start + align ∧ Given g size flags pid ∧ NewUsed m m' g := by
  obtain ⟨ys, zs, rfl⟩ := List.append_of_mem hx
  have hpages := pagesOf_pos hpos hwrap
  have hb := basePageSize_eq
  have hbx := h.covers.mem hx
  obtain ⟨r, hr⟩ := @partitionRegion_exists m ys zs x pre post _ align pid flags h hu (by omega) hpages
    hfit hpre hpost hne
  obtain ⟨haddr, refcount, hcount, hc⟩ := partitionRegion_carved h hu (by omega) hpages hfit hr
  rw [Nat.mod_eq_of_lt (by rw [hb]; omega)] at haddr
  refine ⟨r.1, _, hr.trans ?_, rfl, ⟨rfl, hcount, rfl, rfl⟩, hc.newUsed h hx hu (used_of_or rfl)
    (Nat.le_add_right ..) ?_ hfit⟩
  · rw [← haddr]
  · exact Nat.lt_add_of_pos_right hpages

include h hstop hpos hwrap hpre hpost hne in
lemma allocSharedRegion_found {first : ℕ} (hfit : FoundAt m size first) :
    ∃ m' g, allocSharedRegion m (some pre) (some post) size flags pid =
        some (m', first * basePageSize, pagesOf size * basePageSize) ∧
      g.start = first ∧ Given g size flags pid ∧ NewUsed m m' g := by
  obtain ⟨x, align, hfind, rfl, hle⟩ := hfit
  obtain ⟨r, hr, hmem⟩ := findFreeRegion_spec h (pagesOf size)
  obtain rfl := Option.some.inj (hfind.symm.trans hr)
  obtain ⟨hx, hu⟩ := hmem x rfl
  obtain ⟨m', g, hpart, hs, hg, hnew⟩ := @partitionRegion_given m xs x size pre post pid flags h hstop hpos
    hwrap hpre hpost hne align hx hu hle
  refine ⟨m', g, ?_, hs, hg, hnew⟩
  rw [← alignUp_pagesOf hwrap, ← hs]
  simp only [allocSharedRegion, page_alignUp, hfind, hpart, Option.bind_eq_bind, Option.bind_some]

include h hstop hpos hwrap hpre hpost hne in
lemma allocSharedFixedRegion_free {start : ℕ} (hfree : RangeFree m (page start) (pagesOf size)) :
    ∃ m' g, allocSharedFixedRegion m (some pre) (some post) start size flags pid =
        some (m', page start * basePageSize, pagesOf size * basePageSize) ∧
      g.start = page start ∧ Given g size flags pid ∧ NewUsed m m' g := by
  have hpages := pagesOf_pos hpos hwrap
  obtain ⟨hs, he, hdis⟩ := hfree
  obtain ⟨ys, x, zs, rfl, hxs, hxe, hcase⟩ := @allocSharedFixedRegion_cases m xs (some pre) (some post)
    start size pid flags h (by omega) hs (by omega)
  obtain ⟨hbusy | hsmall, -⟩ | ⟨hu, hle, heq⟩ := hcase
  · have := hdis _ _ ((usedAt_eq_some h).2 ⟨x, by simp, rfl, hbusy, rfl⟩)
    omega
  · -- behind a free region that is too small there is a used one
    cases hu : (m.region x).used with
    | true =>
      have := hdis _ _ ((usedAt_eq_some h).2 ⟨x, by simp, rfl, hu, rfl⟩)
      omega
    | false =>
      obtain ⟨-, -, -, -, hafter⟩ := covers_append.1 h.covers
      cases zs with
      | nil =>
        have : (m.region x).stop = m.stop := hafter
        omega
      | cons z zs =>
        have hz := (h.neighbours_used hu).2 z rfl
        obtain ⟨hzs, -, -⟩ := hafter
        have := hdis _ _ ((usedAt_eq_some h).2 ⟨z, by simp, rfl, hz, rfl⟩)
        have := (h.covers.mem (x := z) (by simp)).2.1
        omega
  · obtain ⟨m', g, hpart, hgs, hg, hnew⟩ := @partitionRegion_given m (ys ++ x :: zs) x size pre post pid
      flags h hstop hpos hwrap hpre hpost hne (page start - (m.region x).start) (by simp) hu hle
    have hgs' : g.start = page start := by omega
    refine ⟨m', g, ?_, hgs', hg, hnew⟩
    rw [heq, hpart, alignUp_pagesOf hwrap, hgs']
    rfl

end Request

end Kmi.Regions
