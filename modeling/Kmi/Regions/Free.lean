import Kmi.Regions.Alloc

/-! Freeing a region and joining it with its free neighbours. -/

namespace Kmi.Regions

open Kmi.Library.LinkedList Kmi.SpTree Kmi.Mem

variable {m m' : RegionMap} {xs ys zs : List ℕ} {x p s e : ℕ}

structure Fills (m : RegionMap) (x s e : ℕ) : Prop where
  start : (m.region x).start = s
  stop : (m.region x).stop = e
  unused : (m.region x).used = false

lemma Open.absorb_trees {g : Region} {list : Chain ℕ} (h : Open m ys x zs s e)
    (hp : p ∈ ys ∨ p ∈ zs) (hpu : (m.region p).used = false) :
    ∃ root heap frees useds,
      spRemove m.fuel m.freeRegions m.heap p = some (root, heap) ∧
      Trees (freeMemNode { m.setRegion x g with
        list := list, heap := heap, freeRegions := root } p) frees useds ∧
      (∀ y, y ∈ frees ↔ (y ∈ ys ∨ y ∈ zs) ∧ y ≠ p ∧ (m.region y).used = false) ∧
      ∀ y, y ∈ useds ↔ (y ∈ ys ∨ y ∈ zs) ∧ y ≠ p ∧ (m.region y).used = true := by
  obtain ⟨frees, useds, ht, hf, hu⟩ := h.trees
  obtain ⟨hxy, hxz⟩ := h.not_mem
  have hlen := h.length_lt ht.free.nodup fun y hy => ((hf y).1 hy).1
  obtain ⟨root, heap, frees', hr, ht', hf'⟩ := ht.removeFree ((hf p).2 ⟨hp, hpu⟩) (by
    unfold RegionMap.fuel
    omega)
  refine ⟨root, heap, frees', useds, hr, ?_, fun y => ?_, fun y => ?_⟩
  · refine ht'.congr (freeMemNode { m.setRegion x g with
      list := list, heap := heap, freeRegions := root } p) rfl rfl (s := [])
      (fun y _ => ⟨⟨rfl, rfl, rfl⟩, rfl⟩) (by simp) fun y hy => ?_
    have hne : y ≠ x := by
      rintro rfl
      obtain hy | hy := hy
      · exact ((hf y).1 ((hf' y).1 hy).1).1.elim hxy hxz
      · exact ((hu y).1 hy).1.elim hxy hxz
    simp [freeMemNode, RegionMap.setRegion, hne]
  · rw [hf', hf]
    tauto
  · rw [hu]
    constructor
    · rintro ⟨hy, hyu⟩
      exact ⟨hy, fun e => by simp [e, hpu] at hyu, hyu⟩
    · exact fun hy => ⟨hy.1, hy.2.2⟩

lemma tryCoalescePrev_step {fuel : ℕ} (h : Open m (ys ++ [p]) x zs s e) (hx : Fills m x s e)
    (hpu : (m.region p).used = false) :
    ∃ m', tryCoalescePrev (fuel + 1) m (some x) = tryCoalescePrev fuel m' (m'.list.prev x) ∧
      Open m' ys x zs (m.region p).start e ∧ Fills m' x (m.region p).start e ∧
      m'.start = m.start ∧ m'.stop = m.stop ∧ (∀ y, y ≠ x → m'.region y = m.region y) ∧
      ∀ y ∈ ys.getLast?, (m'.region y).used = true := by
  obtain ⟨hxy, hxz⟩ := h.not_mem
  have hlinked : IsList m.list (ys ++ p :: x :: zs).head? (ys ++ p :: x :: zs) := by
    simpa using h.linked
  obtain ⟨hd, -, hprev, -⟩ := isList_append_cons_iff.1 h.linked
  obtain ⟨hd', -, -, hnext, -⟩ := isList_append_cons_iff.1 hlinked
  obtain ⟨-, hpy, hpz, -⟩ := nodup_append_cons hd'
  have hprev : m.list.prev x = some p := by simpa using hprev
  have hnext : m.list.next p = some x := by simpa using hnext
  have hxp : x ≠ p := fun e => hpz (by simp [e])
  obtain ⟨root, heap, frees, useds, hr, ht, hf, hu⟩ := @Open.absorb_trees m (ys ++ [p]) zs x p s e
    { m.region x with start := (m.region p).start } (m.list.skip p) h (.inl (by simp)) hpu
  obtain ⟨i, hbefore, hps, hpe, hpi⟩ := covers_append.1 h.before
  obtain rfl : (m.region p).stop = s := hpi
  have hpairs := List.isChain_append.1 h.noFreePairBefore
  set m' := freeMemNode { m.setRegion x { m.region x with start := (m.region p).start } with
    list := m.list.skip p, heap := heap, freeRegions := root } p with hm'
  have hreg : ∀ y, y ≠ x → m'.region y = m.region y := fun y hy => Function.update_of_ne hy _ _
  have hself : m'.region x = { m.region x with start := (m.region p).start } :=
    Function.update_self ..
  have hys : ∀ y ∈ ys, m'.region y = m.region y :=
    fun y hy => hreg y fun e => hxy (by simp [← e, hy])
  have hzs : ∀ y ∈ zs, m'.region y = m.region y := fun y hy => hreg y fun e => hxz (e ▸ hy)
  refine ⟨m', ?_, ⟨hlinked.skip, ?_, ?_, ?_, ?_, ⟨frees, useds, ht, ?_, ?_⟩, ?_, ?_⟩,
    ⟨?_, ?_, ?_⟩, rfl, rfl, hreg, ?_⟩
  · have hlist : (m.list.setPrev (some x) (m.list.prev p)).setNext (m.list.prev p) (some x) =
        m.list.skip p := by
      rw [Chain.skip, hnext]
    have hfuel : (m.setRegion x { m.region x with start := (m.region p).start }).fuel = m.fuel := rfl
    rw [tryCoalescePrev]
    simp only [hx.unused, hprev, hpu, Bool.false_eq_true, if_false]
    simp only [setPrev_prev, if_true, RegionMap.setRegion, hlist, RegionMap.fuel] at hr ⊢
    simp only [hr, Option.bind_eq_bind, Option.bind_some]
    rfl
  · rw [← hps] at hbefore
    exact hbefore.congr fun y hy => by simp [hys y hy]
  · exact h.after.congr fun y hy => by simp [hzs y hy]
  · exact NoFreePair.congr hpairs.1 fun y hy => by rw [hys y hy]
  · exact h.noFreePairAfter.congr fun y hy => by rw [hzs y hy]
  · intro y
    rw [hf]
    by_cases hy : y = x
    · subst hy
      simp only [List.mem_append, List.mem_singleton, not_or] at hxy
      simp [hxy, hxz]
    · rw [hreg y hy]
      by_cases hyp : y = p
      · subst hyp
        have : y ∉ zs := fun hy => hpz (by simp [hy])
        simp [hpy, this]
      · simp [hyp]
  · intro y
    rw [hu]
    by_cases hy : y = x
    · subst hy
      simp only [List.mem_append, List.mem_singleton, not_or] at hxy
      simp [hxy, hxz]
    · rw [hreg y hy]
      by_cases hyp : y = p
      · subst hyp
        have : y ∉ zs := fun hy => hpz (by simp [hy])
        simp [hpy, this]
      · simp [hyp]
  · intro y hy
    have hyp : y ≠ p := by
      rintro rfl
      simp only [List.mem_append] at hy
      exact hy.elim hpy hpz
    have hold : y ∈ ys ++ [p] ++ x :: zs := by
      simp only [List.mem_append, List.mem_cons] at hy ⊢
      tauto
    change Function.update m.taken p false y = true
    rw [Function.update_of_ne hyp]
    exact h.taken y hold
  · have := h.count
    simp only [List.length_append, List.length_cons, List.length_nil] at this ⊢
    change _ ≤ m.usedNodes - 1
    omega
  · rw [hself]
  · rw [hself]
    exact hx.stop
  · rw [hself]
    exact hx.unused
  · intro y hy
    rw [hys y (List.mem_of_getLast? hy)]
    simpa [hpu] using hpairs.2.2 y hy p (by simp)

lemma tryCoalesceNext_step {fuel : ℕ} (h : Open m ys x (p :: zs) s e) (hx : Fills m x s e)
    (hpu : (m.region p).used = false) :
    ∃ m', tryCoalesceNext (fuel + 1) m (some x) = tryCoalesceNext fuel m' (m'.list.next x) ∧
      Open m' ys x zs s (m.region p).stop ∧ Fills m' x s (m.region p).stop ∧
      m'.start = m.start ∧ m'.stop = m.stop ∧ (∀ y, y ≠ x → m'.region y = m.region y) ∧
      ∀ y ∈ zs.head?, (m'.region y).used = true := by
  obtain ⟨hxy, hxz⟩ := h.not_mem
  have hlinked : IsList m.list (ys ++ [x] ++ p :: zs).head? (ys ++ [x] ++ p :: zs) := by
    simpa using h.linked
  obtain ⟨-, -, -, hnext, -⟩ := isList_append_cons_iff.1 h.linked
  obtain ⟨hd', -, hprev, -⟩ := isList_append_cons_iff.1 hlinked
  obtain ⟨-, hpy, hpz, -⟩ := nodup_append_cons hd'
  have hprev : m.list.prev p = some x := by simpa using hprev
  have hnext : m.list.next x = some p := by simpa using hnext
  obtain ⟨root, heap, frees, useds, hr, ht, hf, hu⟩ := @Open.absorb_trees m ys (p :: zs) x p s e
    { m.region x with stop := (m.region p).stop } (m.list.skip p) h (.inr (by simp)) hpu
  obtain ⟨hps, hpe, hafter⟩ := h.after
  obtain ⟨hfirst, hpairs⟩ := List.isChain_cons.1 h.noFreePairAfter
  set m' := freeMemNode { m.setRegion x { m.region x with stop := (m.region p).stop } with
    list := m.list.skip p, heap := heap, freeRegions := root } p with hm'
  have hreg : ∀ y, y ≠ x → m'.region y = m.region y := fun y hy => Function.update_of_ne hy _ _
  have hself : m'.region x = { m.region x with stop := (m.region p).stop } :=
    Function.update_self ..
  have hys : ∀ y ∈ ys, m'.region y = m.region y := fun y hy => hreg y fun e => hxy (e ▸ hy)
  have hzs : ∀ y ∈ zs, m'.region y = m.region y :=
    fun y hy => hreg y fun e => hxz (by simp [← e, hy])
  have hskip : IsList (m.list.skip p) (ys ++ x :: zs).head? (ys ++ x :: zs) := by
    simpa using hlinked.skip
  refine ⟨m', ?_, ⟨hskip, ?_, ?_, ?_, ?_, ⟨frees, useds, ht, ?_, ?_⟩, ?_, ?_⟩,
    ⟨?_, ?_, ?_⟩, rfl, rfl, hreg, ?_⟩
  · have hlist : (m.list.setNext (some x) (m.list.next p)).setPrev (m.list.next p) (some x) =
        m.list.skip p := by
      rw [Chain.skip, hprev, setNext_setPrev_comm]
    rw [tryCoalesceNext]
    simp only [hx.unused, hnext, hpu, Bool.false_eq_true, if_false]
    simp only [setNext_next, if_true, RegionMap.setRegion, hlist, RegionMap.fuel] at hr ⊢
    simp only [hr, Option.bind_eq_bind, Option.bind_some]
    rfl
  · exact h.before.congr fun y hy => by simp [hys y hy]
  · exact hafter.congr fun y hy => by simp [hzs y hy]
  · exact h.noFreePairBefore.congr fun y hy => by rw [hys y hy]
  · exact NoFreePair.congr hpairs fun y hy => by rw [hzs y hy]
  · intro y
    rw [hf]
    by_cases hy : y = x
    · subst hy
      simp only [List.mem_cons, not_or] at hxz
      simp [hxy, hxz]
    · rw [hreg y hy]
      by_cases hyp : y = p
      · subst hyp
        have : y ∉ ys := fun hy => hpy (by simp [hy])
        simp [hpz, this]
      · simp [hyp]
  · intro y
    rw [hu]
    by_cases hy : y = x
    · subst hy
      simp only [List.mem_cons, not_or] at hxz
      simp [hxy, hxz]
    · rw [hreg y hy]
      by_cases hyp : y = p
      · subst hyp
        have : y ∉ ys := fun hy => hpy (by simp [hy])
        simp [hpz, this]
      · simp [hyp]
  · intro y hy
    have hyp : y ≠ p := by
      rintro rfl
      simp only [List.mem_append, List.mem_cons] at hy hpy
      tauto
    have hold : y ∈ ys ++ x :: p :: zs := by
      simp only [List.mem_append, List.mem_cons] at hy ⊢
      tauto
    change Function.update m.taken p false y = true
    rw [Function.update_of_ne hyp]
    exact h.taken y hold
  · have := h.count
    simp only [List.length_append, List.length_cons] at this ⊢
    change _ ≤ m.usedNodes - 1
    omega
  · rw [hself]
    exact hx.start
  · rw [hself]
  · rw [hself]
    exact hx.unused
  · intro y hy
    rw [hzs y (List.mem_of_head? hy)]
    simpa [hpu] using hfirst y hy

lemma tryCoalescePrev_spec {fuel : ℕ} (h : Open m ys x zs s e) (hx : Fills m x s e)
    (hfuel : 2 ≤ fuel) :
    ∃ m' ys' s', tryCoalescePrev fuel m (some x) = some m' ∧ Open m' ys' x zs s' e ∧
      Fills m' x s' e ∧ m'.start = m.start ∧ m'.stop = m.stop ∧ s' ≤ s ∧
      (∀ y, y ≠ x → m'.region y = m.region y) ∧
      (∀ y, (m.region y).used = true → (y ∈ ys' ↔ y ∈ ys)) ∧
      ∀ y ∈ ys'.getLast?, (m'.region y).used = true := by
  obtain ⟨fuel, rfl⟩ : ∃ k, fuel = k + 2 := ⟨fuel - 2, by omega⟩
  obtain ⟨-, -, hprev, -⟩ := isList_append_cons_iff.1 h.linked
  obtain rfl | ⟨ys, p, rfl⟩ := List.eq_nil_or_concat ys
  · refine ⟨m, [], s, ?_, h, hx, rfl, rfl, le_rfl, fun _ _ => rfl, fun _ _ => Iff.rfl, by simp⟩
    simp only [List.getLast?_nil] at hprev
    simp [tryCoalescePrev, hx.unused, hprev]
  · have hprev : m.list.prev x = some p := by simpa using hprev
    cases hpu : (m.region p).used with
    | true =>
      refine ⟨m, _, s, ?_, h, hx, rfl, rfl, le_rfl, fun _ _ => rfl, fun _ _ => Iff.rfl, by simp [hpu]⟩
      simp [tryCoalescePrev, hx.unused, hprev, hpu]
    | false =>
      obtain ⟨m', heq, ho, hx', hms, hme, hreg, hlast⟩ := @tryCoalescePrev_step m ys zs x p s e
        (fuel + 1) (by simpa using h) hx hpu
      have hle : (m.region p).start ≤ s := by
        have := h.before.mem (x := p) (by simp)
        omega
      have hmem : ∀ y, (m.region y).used = true → (y ∈ ys ↔ y ∈ ys.concat p) := by
        intro y hy
        have hne : y ≠ p := by
          rintro rfl
          simp [hpu] at hy
        simp [hne]
      refine ⟨m', ys, _, ?_, ho, hx', hms, hme, hle, hreg, hmem, hlast⟩
      rw [heq]
      obtain ⟨-, -, hprev', -⟩ := isList_append_cons_iff.1 ho.linked
      rw [hprev']
      cases hl : ys.getLast? with
      | none => rw [tryCoalescePrev]
      | some q => simp [tryCoalescePrev, hlast q hl]

lemma tryCoalesceNext_spec {fuel : ℕ} (h : Open m ys x zs s e) (hx : Fills m x s e)
    (hfuel : 2 ≤ fuel) :
    ∃ m' zs' e', tryCoalesceNext fuel m (some x) = some m' ∧ Open m' ys x zs' s e' ∧
      Fills m' x s e' ∧ m'.start = m.start ∧ m'.stop = m.stop ∧ e ≤ e' ∧
      (∀ y, y ≠ x → m'.region y = m.region y) ∧
      (∀ y, (m.region y).used = true → (y ∈ zs' ↔ y ∈ zs)) ∧
      ∀ y ∈ zs'.head?, (m'.region y).used = true := by
  obtain ⟨fuel, rfl⟩ : ∃ k, fuel = k + 2 := ⟨fuel - 2, by omega⟩
  obtain ⟨-, -, -, hnext, -⟩ := isList_append_cons_iff.1 h.linked
  cases zs with
  | nil =>
    refine ⟨m, [], e, ?_, h, hx, rfl, rfl, le_rfl, fun _ _ => rfl, fun _ _ => Iff.rfl, by simp⟩
    simp only [List.head?_nil] at hnext
    simp [tryCoalesceNext, hx.unused, hnext]
  | cons p zs =>
    have hnext : m.list.next x = some p := by simpa using hnext
    cases hpu : (m.region p).used with
    | true =>
      refine ⟨m, _, e, ?_, h, hx, rfl, rfl, le_rfl, fun _ _ => rfl, fun _ _ => Iff.rfl, by simp [hpu]⟩
      simp [tryCoalesceNext, hx.unused, hnext, hpu]
    | false =>
      obtain ⟨m', heq, ho, hx', hms, hme, hreg, hfirst⟩ :=
        @tryCoalesceNext_step m ys zs x p s e (fuel + 1) h hx hpu
      have hle : e ≤ (m.region p).stop := by
        have := h.after.mem (x := p) (by simp)
        omega
      have hmem : ∀ y, (m.region y).used = true → (y ∈ zs ↔ y ∈ p :: zs) := by
        intro y hy
        have hne : y ≠ p := by
          rintro rfl
          simp [hpu] at hy
        simp [hne]
      refine ⟨m', zs, _, ?_, ho, hx', hms, hme, hle, hreg, hmem, hfirst⟩
      rw [heq]
      obtain ⟨-, -, -, hnext', -⟩ := isList_append_cons_iff.1 ho.linked
      rw [hnext']
      cases hl : zs.head? with
      | none => rw [tryCoalesceNext]
      | some q => simp [tryCoalesceNext, hfirst q hl]

lemma Open.closeFree (h : Open m ys x zs s e) (hse : s < e) (hx : Fills m x s e)
    (hlast : ∀ y ∈ ys.getLast?, (m.region y).used = true)
    (hfirst : ∀ y ∈ zs.head?, (m.region y).used = true) :
    ∃ m', insertFreeRegion m x = some m' ∧ Partition m' (ys ++ x :: zs) ∧ m'.start = m.start ∧
      m'.stop = m.stop ∧ m'.region = m.region := by
  obtain ⟨frees, useds, ht, hf, hu⟩ := h.trees
  obtain ⟨hxy, hxz⟩ := h.not_mem
  have hset : m.setRegion x (m.region x) = m := by
    simp [RegionMap.setRegion]
  obtain ⟨ht', hxf, hxu, hstart⟩ := @Open.setRegion_trees m ys zs x s e (m.region x) frees useds h hse
    hx.start ht (by
      rintro y (hy | hy)
      · exact ((hf y).1 hy).1
      · exact ((hu y).1 hy).1)
  rw [hset] at ht' hstart
  have hlen := h.length_lt ht.free.nodup fun y hy => ((hf y).1 hy).1
  obtain ⟨root, heap, frees', hi, ht'', hf'⟩ := ht'.insertFree hxf hxu
    (fun y hy => hstart y (.inl hy)) (by
      unfold RegionMap.fuel
      omega)
  refine ⟨_, hi, ?_, rfl, rfl, rfl⟩
  apply h.close { m with heap := heap, freeRegions := root } rfl rfl rfl rfl rfl (fun _ _ => rfl) hse
    hx.start hx.stop (.inr ⟨hlast, hfirst⟩) ht''
  · intro y
    rw [hf', hf]
    by_cases hy : y = x
    · subst hy
      simp [hx.unused]
    · simp [hy]
  · intro y
    rw [hu]
    by_cases hy : y = x
    · subst hy
      simp [hxy, hxz, hx.unused]
    · simp [hy]

structure Freed (m m' : RegionMap) (xs : List ℕ) (x : ℕ) : Prop where
  whole : ∃ xs', Partition m' xs' ∧ ∀ y, (m'.region y).used = true → (y ∈ xs' ↔ y ∈ xs)
  start : m'.start = m.start
  stop : m'.stop = m.stop
  freed : (m'.region x).used = false
  others : ∀ y, y ≠ x → m'.region y = m.region y

lemma freeKnownRegion_stays (h : Partition m xs) (hx : x ∈ xs) (hu : (m.region x).used = true) :
    ∃ m' xs', freeKnownRegion m x = some m' ∧ Partition m' xs' ∧ x ∈ xs' ∧
      (∀ y, (m'.region y).used = true → (y ∈ xs' ↔ y ∈ xs)) ∧ m'.start = m.start ∧ m'.stop = m.stop ∧
      (m'.region x).used = false ∧ (m'.region x).start ≤ (m.region x).start ∧
      (m.region x).stop ≤ (m'.region x).stop ∧ ∀ y, y ≠ x → m'.region y = m.region y := by
  obtain ⟨ys, zs, rfl⟩ := List.append_of_mem hx
  obtain ⟨frees, useds, ht, hf, hus⟩ := h.trees
  obtain ⟨root, heap, useds', hr, ht', hus'⟩ := ht.removeUsed ((hus x).2 ⟨hx, hu⟩)
    (h.length_lt ht.used.nodup fun y hy => ((hus y).1 hy).1)
  set g : Region := { m.region x with flags := (m.region x).flags &&& ~~~MR_USED } with hg
  set m₁ : RegionMap := RegionMap.setRegion { m with heap := heap, usedRegions := root } x g with hm₁
  have hself : m₁.region x = g := Function.update_self ..
  have hxf : x ∉ frees := fun hmem => by
    have := ((hf x).1 hmem).2
    simp [hu] at this
  have htrees : Trees m₁ frees useds' := by
    refine ht'.congr m₁ rfl rfl (s := []) (fun y _ => ⟨⟨rfl, rfl, rfl⟩, rfl⟩) (by simp) fun y hy => ?_
    by_cases hyx : y = x
    · subst hyx
      rw [hself]
      exact ⟨rfl, rfl⟩
    · simp [m₁, RegionMap.setRegion, hyx]
  have hopen := h.open m₁ rfl rfl rfl rfl rfl (fun y hy => Function.update_of_ne hy _ _) htrees (by
    intro y
    rw [hf]
    constructor
    · exact fun hy => ⟨hy, fun e => hxf (e ▸ (hf y).2 hy)⟩
    · exact fun hy => hy.1) (by
    intro y
    rw [hus', hus])
  have hfills : Fills m₁ x (m.region x).start (m.region x).stop :=
    ⟨by rw [hself], by rw [hself], by rw [hself]; exact used_clear _⟩
  have hbounds := h.covers.mem hx
  obtain ⟨m₂, ys', s', hp, ho₂, hx₂, hs₂, he₂, hle₂, hreg₂, hmem₂, hlast⟩ :=
    tryCoalescePrev_spec hopen hfills (show 2 ≤ m₁.fuel by unfold RegionMap.fuel; omega)
  obtain ⟨m₃, zs', e', hn, ho₃, hx₃, hs₃, he₃, hle₃, hreg₃, hmem₃, hfirst⟩ :=
    tryCoalesceNext_spec ho₂ hx₂ (show 2 ≤ m₂.fuel by unfold RegionMap.fuel; omega)
  have hlast₃ : ∀ y ∈ ys'.getLast?, (m₃.region y).used = true := by
    intro y hy
    rw [hreg₃ y fun e => ho₃.not_mem.1 (e ▸ List.mem_of_getLast? hy)]
    exact hlast y hy
  obtain ⟨m₄, hi, hp₄, hs₄, he₄, hreg₄⟩ := ho₃.closeFree (by omega) hx₃ hlast₃ hfirst
  refine ⟨m₄, _, ?_, hp₄, by simp, fun y hy => ?_, (hs₄.trans hs₃).trans hs₂, (he₄.trans he₃).trans he₂, ?_,
    ?_, ?_, fun y hne => ?_⟩
  · simp only [freeKnownRegion, hr, Option.bind_eq_bind, Option.bind_some, tryCoalesceRegions]
    rw [← hg, ← hm₁, hp, Option.bind_some, hn, Option.bind_some, hi]
  · rw [hreg₄] at hy
    obtain rfl | hne := eq_or_ne y x
    · simp [hx₃.unused] at hy
    rw [hreg₃ y hne] at hy
    have hy₁ : (m₁.region y).used = true := by rwa [← hreg₂ y hne]
    simp only [List.mem_append, List.mem_cons, hmem₂ y hy₁, hmem₃ y hy]
  · rw [hreg₄]
    exact hx₃.unused
  · rw [hreg₄, hx₃.start]
    exact hle₂
  · rw [hreg₄, hx₃.stop]
    exact hle₃
  · rw [hreg₄, hreg₃ y hne, hreg₂ y hne]
    exact Function.update_of_ne hne _ _

lemma freeKnownRegion_freed (h : Partition m xs) (hx : x ∈ xs) (hu : (m.region x).used = true) :
    ∃ m', freeKnownRegion m x = some m' ∧ Freed m m' xs x := by
  obtain ⟨m', xs', heq, hp, -, hmem, hs, he, hfree, -, -, hothers⟩ := freeKnownRegion_stays h hx hu
  exact ⟨m', heq, ⟨xs', hp, hmem⟩, hs, he, hfree, hothers⟩

end Kmi.Regions
