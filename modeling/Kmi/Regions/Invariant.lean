import Kmi.Regions.Trees

/-! What holds of a region map, and of one with a region taken out for a while. -/

namespace Kmi.Regions

open Kmi.Library.LinkedList Kmi.SpTree

def FreeLt (m : RegionMap) (a b : ℕ) : Prop :=
  (m.region a).size < (m.region b).size ∨
    ((m.region a).size = (m.region b).size ∧ (m.region a).start < (m.region b).start)

def UsedLt (m : RegionMap) (a b : ℕ) : Prop := (m.region a).start < (m.region b).start

lemma FreeLt.trans {m : RegionMap} {a b c : ℕ} (h : FreeLt m a b) (h' : FreeLt m b c) :
    FreeLt m a c := by
  unfold FreeLt at *
  omega

lemma freeGoLeft_iff {m : RegionMap} {x t : ℕ} : freeGoLeft m x t = true ↔ FreeLt m x t := by
  unfold freeGoLeft FreeLt
  split_ifs <;> simp <;> omega

lemma usedGoLeft_iff {m : RegionMap} {x t : ℕ} : usedGoLeft m x t = true ↔ UsedLt m x t := by
  simp [usedGoLeft, UsedLt]

structure Beside (s : List ℕ) (m m' : RegionMap) : Prop where
  heap : SameOutside s m.heap m'.heap
  list : ∀ y ∉ s, m'.list.next y = m.list.next y ∧ m'.list.prev y = m.list.prev y
  region : ∀ y ∉ s, m'.region y = m.region y
  taken : ∀ y ∉ s, m'.taken y = m.taken y

lemma Beside.refl (s : List ℕ) (m : RegionMap) : Beside s m m :=
  ⟨fun _ _ => ⟨⟨rfl, rfl, rfl⟩, rfl⟩, fun _ _ => ⟨rfl, rfl⟩, fun _ _ => rfl, fun _ _ => rfl⟩

lemma Beside.mono {s s' : List ℕ} {m m' : RegionMap} (h : Beside s m m') (hs : ∀ y ∈ s, y ∈ s') :
    Beside s' m m' :=
  ⟨fun y hy => h.heap y fun hm => hy (hs y hm), fun y hy => h.list y fun hm => hy (hs y hm),
    fun y hy => h.region y fun hm => hy (hs y hm), fun y hy => h.taken y fun hm => hy (hs y hm)⟩

lemma Beside.trans {s : List ℕ} {m m' m'' : RegionMap} (h : Beside s m m') (h' : Beside s m' m'') :
    Beside s m m'' := by
  refine ⟨h.heap.trans h'.heap, fun y hy => ?_, fun y hy => ?_, fun y hy => ?_⟩
  · rw [(h'.list y hy).1, (h'.list y hy).2]
    exact h.list y hy
  · rw [h'.region y hy, h.region y hy]
  · rw [h'.taken y hy, h.taken y hy]

structure Trees (m : RegionMap) (frees useds : List ℕ) : Prop where
  free : Holds m.freeRegions m.heap frees
  used : Holds m.usedRegions m.heap useds
  freeSorted : frees.Pairwise (FreeLt m)
  usedSorted : useds.Pairwise (UsedLt m)
  disjoint : ∀ x ∈ frees, x ∉ useds

namespace Trees

variable {m : RegionMap} {frees useds : List ℕ} {x : ℕ}

lemma congr (h : Trees m frees useds) (m' : RegionMap) (hf : m'.freeRegions = m.freeRegions)
    (hu : m'.usedRegions = m.usedRegions) {s : List ℕ} (hs : SameOutside s m.heap m'.heap)
    (hd : ∀ y, y ∈ frees ∨ y ∈ useds → y ∉ s)
    (hr : ∀ y, y ∈ frees ∨ y ∈ useds → (m'.region y).start = (m.region y).start ∧
      (m'.region y).stop = (m.region y).stop) : Trees m' frees useds where
  free := hf ▸ h.free.congr hs fun y hy => hd y (.inl hy)
  used := hu ▸ h.used.congr hs fun y hy => hd y (.inr hy)
  freeSorted := by
    apply h.freeSorted.imp_of_mem
    intro a b ha hb hlt
    have ha := hr a (.inl ha)
    have hb := hr b (.inl hb)
    simpa only [FreeLt, Region.size, ha, hb] using hlt
  usedSorted := by
    apply h.usedSorted.imp_of_mem
    intro a b ha hb hlt
    have ha := hr a (.inr ha)
    have hb := hr b (.inr hb)
    simpa only [UsedLt, ha, hb] using hlt
  disjoint := h.disjoint

lemma freeMono (h : Trees m frees useds) (x : ℕ) :
    frees.Pairwise fun a b => freeGoLeft m x a = true → freeGoLeft m x b = true := by
  apply h.freeSorted.imp
  intro a b hab ha
  exact freeGoLeft_iff.2 ((freeGoLeft_iff.1 ha).trans hab)

lemma usedMono (h : Trees m frees useds) (x : ℕ) :
    useds.Pairwise fun a b => usedGoLeft m x a = true → usedGoLeft m x b = true := by
  apply h.usedSorted.imp
  intro a b hab ha
  exact usedGoLeft_iff.2 ((usedGoLeft_iff.1 ha).trans hab)

lemma insertFree_beside {m' : RegionMap} (h : Trees m frees useds) (hx : x ∉ frees)
    (hlen : frees.length < m.fuel) (hi : insertFreeRegion m x = some m') :
    Beside (x :: frees) m m' ∧ m'.usedNodes = m.usedNodes := by
  obtain ⟨root, heap, ys, zs, hi', rfl, -, -, -, hs⟩ := insertRegion_spec h.free hx hlen (h.freeMono x)
  simp only [insertFreeRegion, hi', Option.bind_eq_bind, Option.bind_some, Option.some.injEq] at hi
  subst hi
  exact ⟨⟨hs, fun _ _ => ⟨rfl, rfl⟩, fun _ _ => rfl, fun _ _ => rfl⟩, rfl⟩

lemma insertUsed_beside {m' : RegionMap} (h : Trees m frees useds) (hx : x ∉ useds)
    (hlen : useds.length < m.fuel) (hi : insertUsedRegion m x = some m') :
    Beside (x :: useds) m m' ∧ m'.usedNodes = m.usedNodes := by
  obtain ⟨root, heap, ys, zs, hi', rfl, -, -, -, hs⟩ := insertRegion_spec h.used hx hlen (h.usedMono x)
  simp only [insertUsedRegion, hi', Option.bind_eq_bind, Option.bind_some, Option.some.injEq] at hi
  subst hi
  exact ⟨⟨hs, fun _ _ => ⟨rfl, rfl⟩, fun _ _ => rfl, fun _ _ => rfl⟩, rfl⟩

lemma insertFree (h : Trees m frees useds) (hx : x ∉ frees) (hx' : x ∉ useds)
    (hstart : ∀ y ∈ frees, (m.region y).start ≠ (m.region x).start)
    (hlen : frees.length < m.fuel) :
    ∃ root heap frees', insertFreeRegion m x = some { m with heap := heap, freeRegions := root } ∧
      Trees { m with heap := heap, freeRegions := root } frees' useds ∧
      ∀ y, y ∈ frees' ↔ y = x ∨ y ∈ frees := by
  obtain ⟨root, heap, ys, zs, hi, rfl, hh, hys, hzs, hs⟩ := @insertRegion_spec m.freeRegions frees x
    m (freeGoLeft m x) h.free hx hlen (h.freeMono x)
  refine ⟨root, heap, ys ++ x :: zs, by simp [insertFreeRegion, hi], ⟨hh, ?_, ?_, ?_, ?_⟩, ?_⟩
  · apply h.used.congr hs
    intro y hy hmem
    obtain rfl | hmem := List.mem_cons.1 hmem
    · exact hx' hy
    · exact h.disjoint y hmem hy
  · have hsort := h.freeSorted
    rw [List.pairwise_append] at hsort ⊢
    refine ⟨hsort.1, List.pairwise_cons.2 ⟨?_, hsort.2.1⟩, ?_⟩
    · exact fun z hz => freeGoLeft_iff.1 (hzs z hz)
    · intro y hy z hz
      have hyx : FreeLt m y x := by
        have hnot : ¬ FreeLt m x y := by
          rw [← freeGoLeft_iff, hys y hy]
          simp
        have := hstart y (List.mem_append_left _ hy)
        unfold FreeLt at *
        omega
      obtain rfl | hz := List.mem_cons.1 hz
      · exact hyx
      · exact hsort.2.2 y hy z hz
  · exact h.usedSorted
  · intro y hy
    simp only [List.mem_append, List.mem_cons] at hy
    obtain hy | rfl | hy := hy
    · exact h.disjoint y (List.mem_append_left _ hy)
    · exact hx'
    · exact h.disjoint y (List.mem_append_right _ hy)
  · intro y
    simp only [List.mem_append, List.mem_cons]
    tauto

lemma insertUsed (h : Trees m frees useds) (hx : x ∉ frees) (hx' : x ∉ useds)
    (hstart : ∀ y ∈ useds, (m.region y).start ≠ (m.region x).start)
    (hlen : useds.length < m.fuel) :
    ∃ root heap useds', insertUsedRegion m x = some { m with heap := heap, usedRegions := root } ∧
      Trees { m with heap := heap, usedRegions := root } frees useds' ∧
      ∀ y, y ∈ useds' ↔ y = x ∨ y ∈ useds := by
  obtain ⟨root, heap, ys, zs, hi, rfl, hh, hys, hzs, hs⟩ := @insertRegion_spec m.usedRegions useds x
    m (usedGoLeft m x) h.used hx' hlen (h.usedMono x)
  refine ⟨root, heap, ys ++ x :: zs, by simp [insertUsedRegion, hi], ⟨?_, hh, ?_, ?_, ?_⟩, ?_⟩
  · apply h.free.congr hs
    intro y hy hmem
    obtain rfl | hmem := List.mem_cons.1 hmem
    · exact hx hy
    · exact h.disjoint y hy hmem
  · exact h.freeSorted
  · have hsort := h.usedSorted
    rw [List.pairwise_append] at hsort ⊢
    refine ⟨hsort.1, List.pairwise_cons.2 ⟨?_, hsort.2.1⟩, ?_⟩
    · exact fun z hz => usedGoLeft_iff.1 (hzs z hz)
    · intro y hy z hz
      have hyx : UsedLt m y x := by
        have hnot : ¬ UsedLt m x y := by
          rw [← usedGoLeft_iff, hys y hy]
          simp
        have := hstart y (List.mem_append_left _ hy)
        unfold UsedLt at *
        omega
      obtain rfl | hz := List.mem_cons.1 hz
      · exact hyx
      · exact hsort.2.2 y hy z hz
  · intro y hy hmem
    simp only [List.mem_append, List.mem_cons] at hmem
    obtain hmem | rfl | hmem := hmem
    · exact h.disjoint y hy (List.mem_append_left _ hmem)
    · exact hx hy
    · exact h.disjoint y hy (List.mem_append_right _ hmem)
  · intro y
    simp only [List.mem_append, List.mem_cons]
    tauto

lemma removeFree (h : Trees m frees useds) (hx : x ∈ frees) (hlen : frees.length < m.fuel) :
    ∃ root heap frees', spRemove m.fuel m.freeRegions m.heap x = some (root, heap) ∧
      Trees { m with heap := heap, freeRegions := root } frees' useds ∧
      ∀ y, y ∈ frees' ↔ y ∈ frees ∧ y ≠ x := by
  obtain ⟨root, heap, ys, zs, hr, rfl, hh, hs⟩ := spRemove_holds h.free hx hlen
  have hsub : (ys ++ zs).Sublist (ys ++ x :: zs) :=
    List.Sublist.append_left (List.sublist_cons_self _ _) _
  refine ⟨root, heap, ys ++ zs, hr, ⟨hh, ?_, h.freeSorted.sublist hsub, h.usedSorted, ?_⟩, ?_⟩
  · exact h.used.congr hs fun y hy hmem => h.disjoint y hmem hy
  · exact fun y hy => h.disjoint y (hsub.subset hy)
  · intro y
    obtain ⟨-, hxy, hxz, -⟩ := nodup_append_cons h.free.nodup
    simp only [List.mem_append, List.mem_cons]
    constructor
    · rintro (hy | hy)
      · exact ⟨.inl hy, fun e => hxy (e ▸ hy)⟩
      · exact ⟨.inr (.inr hy), fun e => hxz (e ▸ hy)⟩
    · tauto

lemma removeUsed (h : Trees m frees useds) (hx : x ∈ useds) (hlen : useds.length < m.fuel) :
    ∃ root heap useds', spRemove m.fuel m.usedRegions m.heap x = some (root, heap) ∧
      Trees { m with heap := heap, usedRegions := root } frees useds' ∧
      ∀ y, y ∈ useds' ↔ y ∈ useds ∧ y ≠ x := by
  obtain ⟨root, heap, ys, zs, hr, rfl, hh, hs⟩ := spRemove_holds h.used hx hlen
  have hsub : (ys ++ zs).Sublist (ys ++ x :: zs) :=
    List.Sublist.append_left (List.sublist_cons_self _ _) _
  refine ⟨root, heap, ys ++ zs, hr, ⟨?_, hh, h.freeSorted, h.usedSorted.sublist hsub, ?_⟩, ?_⟩
  · exact h.free.congr hs fun y hy hmem => h.disjoint y hy hmem
  · exact fun y hy hmem => h.disjoint y hy (hsub.subset hmem)
  · intro y
    obtain ⟨-, hxy, hxz, -⟩ := nodup_append_cons h.used.nodup
    simp only [List.mem_append, List.mem_cons]
    constructor
    · rintro (hy | hy)
      · exact ⟨.inl hy, fun e => hxy (e ▸ hy)⟩
      · exact ⟨.inr (.inr hy), fun e => hxz (e ▸ hy)⟩
    · tauto

end Trees

def Covers (m : RegionMap) : ℕ → List ℕ → ℕ → Prop
  | s, [], e => s = e
  | s, x :: xs, e => (m.region x).start = s ∧ s < (m.region x).stop ∧
      Covers m (m.region x).stop xs e

section Covers

variable {m m' : RegionMap} {s e : ℕ} {xs ys : List ℕ}

lemma covers_append : Covers m s (xs ++ ys) e ↔ ∃ i, Covers m s xs i ∧ Covers m i ys e := by
  induction xs generalizing s with
  | nil => exact ⟨fun h => ⟨s, rfl, h⟩, fun ⟨_, rfl, h⟩ => h⟩
  | cons x xs ih =>
    constructor
    · rintro ⟨h₁, h₂, h₃⟩
      obtain ⟨i, h₃, h₄⟩ := ih.1 h₃
      exact ⟨i, ⟨h₁, h₂, h₃⟩, h₄⟩
    · rintro ⟨i, ⟨h₁, h₂, h₃⟩, h₄⟩
      exact ⟨h₁, h₂, ih.2 ⟨i, h₃, h₄⟩⟩

lemma Covers.congr (h : Covers m s xs e) (hr : ∀ y ∈ xs,
    (m'.region y).start = (m.region y).start ∧ (m'.region y).stop = (m.region y).stop) :
    Covers m' s xs e := by
  induction xs generalizing s with
  | nil => exact h
  | cons x xs ih =>
    obtain ⟨h₁, h₂, h₃⟩ := h
    obtain ⟨hs, he⟩ := hr x (List.mem_cons_self ..)
    refine ⟨hs.trans h₁, he ▸ h₂, ?_⟩
    rw [he]
    exact ih h₃ fun y hy => hr y (List.mem_cons_of_mem _ hy)

lemma Covers.le (h : Covers m s xs e) : s ≤ e := by
  induction xs generalizing s with
  | nil => exact Nat.le_of_eq h
  | cons x xs ih =>
    have := ih h.2.2
    have := h.2.1
    omega

lemma Covers.mem (h : Covers m s xs e) {x : ℕ} (hx : x ∈ xs) :
    s ≤ (m.region x).start ∧ (m.region x).start < (m.region x).stop ∧ (m.region x).stop ≤ e := by
  induction xs generalizing s with
  | nil => simp at hx
  | cons y xs ih =>
    obtain ⟨h₁, h₂, h₃⟩ := h
    obtain rfl | hx := List.mem_cons.1 hx
    · have := h₃.le
      omega
    · have := ih h₃ hx
      omega

lemma Covers.exists_mem (h : Covers m s xs e) {p : ℕ} (hs : s ≤ p) (he : p < e) :
    ∃ as x bs, xs = as ++ x :: bs ∧ (m.region x).start ≤ p ∧ p < (m.region x).stop := by
  induction xs generalizing s with
  | nil =>
    have : s = e := h
    omega
  | cons y xs ih =>
    obtain ⟨h₁, h₂, h₃⟩ := h
    by_cases hp : p < (m.region y).stop
    · exact ⟨[], y, xs, rfl, by omega, hp⟩
    · obtain ⟨as, x, bs, rfl, hx⟩ := ih h₃ (by omega)
      exact ⟨y :: as, x, bs, rfl, hx⟩

lemma Covers.eq_of_mem (h : Covers m s xs e) {x y p : ℕ} (hx : x ∈ xs) (hy : y ∈ xs)
    (hpx : (m.region x).start ≤ p ∧ p < (m.region x).stop)
    (hpy : (m.region y).start ≤ p ∧ p < (m.region y).stop) : x = y := by
  induction xs generalizing s with
  | nil => simp at hx
  | cons z xs ih =>
    obtain ⟨-, -, hrest⟩ := h
    obtain rfl | hx' := List.mem_cons.1 hx
    · obtain rfl | hy' := List.mem_cons.1 hy
      · rfl
      · have := hrest.mem hy'
        omega
    · obtain rfl | hy' := List.mem_cons.1 hy
      · have := hrest.mem hx'
        omega
      · exact ih hrest hx' hy'

end Covers

def NoFreePair (m : RegionMap) (xs : List ℕ) : Prop :=
  xs.IsChain fun a b => (m.region a).used = true ∨ (m.region b).used = true

lemma NoFreePair.congr {m m' : RegionMap} {xs : List ℕ} (h : NoFreePair m xs)
    (hr : ∀ y ∈ xs, (m'.region y).used = (m.region y).used) : NoFreePair m' xs := by
  apply List.IsChain.imp_of_mem_imp _ h
  intro a b ha hb hab
  rwa [hr a ha, hr b hb]

structure Partition (m : RegionMap) (xs : List ℕ) : Prop where
  linked : IsList m.list xs.head? xs
  covers : Covers m m.start xs m.stop
  noFreePair : NoFreePair m xs
  trees : ∃ frees useds, Trees m frees useds ∧
    (∀ y, y ∈ frees ↔ y ∈ xs ∧ (m.region y).used = false) ∧
    ∀ y, y ∈ useds ↔ y ∈ xs ∧ (m.region y).used = true
  taken : ∀ x ∈ xs, m.taken x = true
  count : xs.length ≤ m.usedNodes

structure Open (m : RegionMap) (ys : List ℕ) (x : ℕ) (zs : List ℕ) (s e : ℕ) : Prop where
  linked : IsList m.list (ys ++ x :: zs).head? (ys ++ x :: zs)
  before : Covers m m.start ys s
  after : Covers m e zs m.stop
  noFreePairBefore : NoFreePair m ys
  noFreePairAfter : NoFreePair m zs
  trees : ∃ frees useds, Trees m frees useds ∧
    (∀ y, y ∈ frees ↔ (y ∈ ys ∨ y ∈ zs) ∧ (m.region y).used = false) ∧
    ∀ y, y ∈ useds ↔ (y ∈ ys ∨ y ∈ zs) ∧ (m.region y).used = true
  taken : ∀ y ∈ ys ++ x :: zs, m.taken y = true
  count : (ys ++ x :: zs).length ≤ m.usedNodes

end Kmi.Regions
