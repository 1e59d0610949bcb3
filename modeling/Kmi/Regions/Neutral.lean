import Kmi.Library.Pieces
import Kmi.Regions.Runs

/-! A region map is told by its used regions, so that an allocation at a fixed place is
undone by the free of it. -/

namespace Kmi.Regions

open BinaryTree Kmi.Library.LinkedList Kmi.Library.PointerTree Kmi.Library.Pieces Kmi.SpTree Kmi.Mem

variable {m m' : RegionMap} {xs xs' : List ℕ} {x : ℕ}

def piece (m : RegionMap) (x : ℕ) : Piece ℕ :=
  ⟨(m.region x).start, (m.region x).stop, (m.region x).used⟩

def pieces (m : RegionMap) (xs : List ℕ) : List (Piece ℕ) := xs.map (piece m)

lemma Covers.tiled {s e : ℕ} (h : Covers m s xs e) : Tiled s (pieces m xs) e := by
  induction xs generalizing s with
  | nil => exact h
  | cons x xs ih =>
    obtain ⟨h₁, h₂, h₃⟩ := h
    exact ⟨h₁, h₂, ih h₃⟩

lemma NoFreePair.merged (h : NoFreePair m xs) : Merged (pieces m xs) :=
  (List.isChain_map (piece m)).2 h

lemma mem_pieces_iff {r : Piece ℕ} (h : Partition m xs) (hr : r.marked = true) :
    r ∈ pieces m xs ↔ ∃ g, usedAt m r.start = some g ∧ g.stop = r.stop := by
  constructor
  · intro hmem
    obtain ⟨x, hx, rfl⟩ := List.mem_map.1 hmem
    exact ⟨m.region x, (usedAt_eq_some h).2 ⟨x, hx, rfl, hr, rfl⟩, rfl⟩
  · rintro ⟨g, hg, hstop⟩
    obtain ⟨x, hx, rfl, hu, hs⟩ := (usedAt_eq_some h).1 hg
    obtain ⟨a, b, u⟩ := r
    obtain rfl : u = true := hr
    refine List.mem_map.2 ⟨x, hx, ?_⟩
    simp only [piece, Piece.mk.injEq]
    exact ⟨hs, hstop, hu⟩

lemma Partition.pieces_eq (h : Partition m xs) (h' : Partition m' xs') (hs : m'.start = m.start)
    (he : m'.stop = m.stop) (hused : ∀ p, usedAt m' p = usedAt m p) :
    pieces m' xs' = pieces m xs := by
  have hc := h'.covers.tiled
  rw [hs, he] at hc
  apply hc.unique h.covers.tiled h'.noFreePair.merged h.noFreePair.merged
  intro r hr
  rw [mem_pieces_iff h' hr, mem_pieces_iff h hr, hused]

lemma Holds.unique {root : Option ℕ} {h : SpHeap} (hx : Holds root h xs) (hx' : Holds root h xs') :
    xs = xs' := by
  obtain ⟨t, ht, rfl⟩ := hx
  obtain ⟨t', ht', rfl⟩ := hx'
  rw [ht.rep.unique ht'.rep]

def SameTrees (m m' : RegionMap) : Prop :=
  (∀ frees frees', Holds m.freeRegions m.heap frees → Holds m'.freeRegions m'.heap frees' →
    ∀ r, r ∈ pieces m' frees' ↔ r ∈ pieces m frees) ∧
  ∀ useds useds', Holds m.usedRegions m.heap useds → Holds m'.usedRegions m'.heap useds' →
    ∀ r, r ∈ pieces m' useds' ↔ r ∈ pieces m useds

lemma Partition.mem_trees (h : Partition m xs) :
    (∀ frees, Holds m.freeRegions m.heap frees →
      ∀ r, r ∈ pieces m frees ↔ r ∈ pieces m xs ∧ r.marked = false) ∧
    ∀ useds, Holds m.usedRegions m.heap useds →
      ∀ r, r ∈ pieces m useds ↔ r ∈ pieces m xs ∧ r.marked = true := by
  obtain ⟨frees₀, useds₀, ht, hf, hu⟩ := h.trees
  have hpieces : ∀ (ys : List ℕ) (v : Bool), (∀ y, y ∈ ys ↔ y ∈ xs ∧ (m.region y).used = v) →
      ∀ r, r ∈ pieces m ys ↔ r ∈ pieces m xs ∧ r.marked = v := by
    intro ys v hys r
    simp only [pieces, List.mem_map]
    constructor
    · rintro ⟨y, hy, rfl⟩
      obtain ⟨hy, hv⟩ := (hys y).1 hy
      exact ⟨⟨y, hy, rfl⟩, hv⟩
    · rintro ⟨⟨y, hy, rfl⟩, hv⟩
      exact ⟨y, (hys y).2 ⟨hy, hv⟩, rfl⟩
  constructor
  · intro frees hfrees
    obtain rfl := hfrees.unique ht.free
    exact hpieces frees false hf
  · intro useds huseds
    obtain rfl := huseds.unique ht.used
    exact hpieces useds true hu

lemma Partition.sameTrees (h : Partition m xs) (h' : Partition m' xs')
    (hpieces : pieces m' xs' = pieces m xs) : SameTrees m m' := by
  constructor
  · intro frees frees' hf hf' r
    rw [h'.mem_trees.1 frees' hf', h.mem_trees.1 frees hf, hpieces]
  · intro useds useds' hu hu' r
    rw [h'.mem_trees.2 useds' hu', h.mem_trees.2 useds hu, hpieces]

lemma allocFixedRegion_usedAt {pre post : Option ℕ} {start size v asize : ℕ} {flags : Flags}
    (h : Partition m xs) (hstop : m.stop ≤ 2 ^ 52) (hs : m.start ≤ page start)
    (he : page start < m.stop) (hpos : 0 < size) (hwrap : size + basePageSize ≤ 2 ^ 64)
    (halloc : allocFixedRegion m pre post start size flags = some (m', v, asize)) (hv : v ≠ 0) :
    v = page start * basePageSize ∧ usedAt m (page start) = none ∧
      (∃ xs', Partition m' xs') ∧ m'.start = m.start ∧ m'.stop = m.stop ∧
      ∃ g, ∀ q, usedAt m' q = if q = page start then some g else usedAt m q := by
  obtain ⟨ys, x, zs, rfl, hxs, hxe, ⟨-, heq⟩ | ⟨hx, hfit, heq⟩⟩ := @allocSharedFixedRegion_cases m xs
    pre post start size 0 flags h (by omega) hs he
  · rw [allocFixedRegion, heq] at halloc
    simp only [Option.some.injEq, Prod.mk.injEq] at halloc
    exact absurd halloc.2.1.symm hv
  rw [allocFixedRegion, heq, Option.bind_eq_some_iff] at halloc
  obtain ⟨r, hr, hres⟩ := halloc
  simp only [Option.some.injEq, Prod.mk.injEq] at hres
  obtain ⟨rfl, rfl, -⟩ := hres
  have hpages := pagesOf_pos hpos hwrap
  have hbounds := h.covers.mem (x := x) (by simp)
  obtain ⟨haddr, refcount, -, hc⟩ := partitionRegion_carved h hx (by omega) hpages hfit hr
  have hstart : (m.region x).start + (page start - (m.region x).start) = page start := by omega
  rw [hstart] at haddr hc
  have hnew := hc.newUsed h (by simp) hx (used_of_or rfl) hxs (Nat.lt_add_of_pos_right hpages)
    (by rwa [hstart] at hfit)
  refine ⟨?_, hnew.free, hnew.whole, hnew.start, hnew.stop, _, hnew.used⟩
  rw [haddr]
  apply Nat.mod_eq_of_lt
  rw [basePageSize_eq]
  omega

theorem allocFixedRegion_freeRegion {pre post : Option ℕ} {start size v asize : ℕ} {flags : Flags}
    (h : Partition m xs) (hstop : m.stop ≤ 2 ^ 52) (hs : m.start ≤ page start)
    (he : page start < m.stop) (hpos : 0 < size) (hwrap : size + basePageSize ≤ 2 ^ 64)
    (halloc : allocFixedRegion m pre post start size flags = some (m', v, asize)) (hv : v ≠ 0) :
    ∃ m'' xs'', freeRegion m' v = some (m'', OK) ∧ Partition m'' xs'' ∧
      pieces m'' xs'' = pieces m xs ∧ SameTrees m m'' := by
  obtain ⟨rfl, hfree, ⟨xs', h'⟩, hs', he', g, hused⟩ :=
    allocFixedRegion_usedAt h hstop hs he hpos hwrap halloc hv
  have hg : usedAt m' (page start) = some g := by
    rw [hused, if_pos rfl]
  obtain ⟨m'', xs'', hf, h'', hs'', he'', hused'⟩ := freeRegion_usedAt h' hg
  have hback : ∀ q, usedAt m'' q = usedAt m q := by
    intro q
    rw [hused', hused]
    by_cases hq : q = page start
    · subst hq
      rw [if_pos rfl, hfree]
    · rw [if_neg hq, if_neg hq]
  have hpieces := h.pieces_eq h'' (hs''.trans hs') (he''.trans he') hback
  exact ⟨m'', xs'', hf, h'', hpieces, h.sameTrees h'' hpieces⟩

lemma sixteenPages_partition : Partition sixteenPages [1] :=
  (@initRegion_partition sixteenPages emptyMap 1 4096 65536 0 OK rfl rfl (by decide) rfl).1

theorem allocFixedRegion_freeRegion_third_page :
    allocFixedRegion sixteenPages (some 2) (some 3) 8192 4096 0 =
        some (sixteenPagesCarved, 8192, 4096) ∧
      ∃ m'' xs'', freeRegion sixteenPagesCarved 8192 = some (m'', OK) ∧ Partition m'' xs'' ∧
        pieces m'' xs'' = pieces sixteenPages [1] ∧ SameTrees sixteenPages m'' :=
  ⟨rfl, @allocFixedRegion_freeRegion sixteenPages sixteenPagesCarved [1] (some 2) (some 3) 8192 4096
    8192 4096 0 sixteenPages_partition (by decide) (by decide) (by decide) (by decide) (by decide) rfl
    (by decide)⟩

end Kmi.Regions
