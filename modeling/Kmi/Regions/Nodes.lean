import Kmi.Regions.Runs

/-! The nodes of a region map. Its operations leave the nodes of other maps alone, and
destroying it frees its own. -/

namespace Kmi.Regions

open BinaryTree Kmi.Library.LinkedList Kmi.Library.PointerTree Kmi.SpTree Kmi.Mem

variable {m m' m₀ : RegionMap} {xs xs' ys zs s s' frees useds : List ℕ} {x n i e : ℕ}

def freeNodes (m : RegionMap) (xs : List ℕ) : RegionMap :=
  { m with taken := fun x => if x ∈ xs then false else m.taken x, usedNodes := m.usedNodes - xs.length }

lemma freeNodes_append (m : RegionMap) (xs ys : List ℕ) :
    freeNodes (freeNodes m xs) ys = freeNodes m (xs ++ ys) := by
  have htaken : (fun x => if x ∈ ys then false else if x ∈ xs then false else m.taken x) =
      fun x => if x ∈ xs ++ ys then false else m.taken x := by
    funext x
    by_cases hy : x ∈ ys
    · simp [hy]
    · simp [hy]
  simp only [freeNodes, htaken, List.length_append, Nat.sub_sub]

lemma freeMemNode_eq (m : RegionMap) (x : ℕ) : freeMemNode m x = freeNodes m [x] := by
  have htaken : Function.update m.taken x false = fun y => if y ∈ [x] then false else m.taken y := by
    funext y
    rw [Function.update_apply]
    simp
  rw [freeMemNode, freeNodes, htaken]
  rfl

lemma destroyNodes_rep {fuel : ℕ} {t : BinaryTree ℕ} {up p : Option ℕ}
    (ht : Rep m.heap.links up p t) (hfuel : (inorder t).length ≤ fuel) :
    ∃ xs, destroyNodes fuel m p = some (freeNodes m xs) ∧ xs.Perm (inorder t) := by
  induction t generalizing fuel m up p with
  | nil =>
    obtain rfl : p = none := ht
    refine ⟨[], ?_, .refl _⟩
    rw [destroyNodes]
    rfl
  | node a l r ihl ihr =>
    obtain ⟨rfl, -, hl, hr⟩ := ht
    simp only [inorder_node, List.length_append, List.length_cons] at hfuel
    cases fuel with
    | zero => omega
    | succ fuel =>
      obtain ⟨xs, hxs, hpx⟩ := @ihl m fuel (some a) (m.heap.links.left a) hl (by omega)
      obtain ⟨ys, hys, hpy⟩ := @ihr (freeNodes m xs) fuel (some a) (m.heap.links.right a) hr (by omega)
      refine ⟨xs ++ ys ++ [a], ?_, ?_⟩
      · rw [destroyNodes, hxs]
        change (destroyNodes fuel (freeNodes m xs) (m.heap.links.right a)).bind _ = _
        rw [hys, Option.bind_some, freeMemNode_eq, freeNodes_append, freeNodes_append, ← List.append_assoc]
      · rw [List.append_assoc, inorder_node]
        apply hpx.append
        exact (hpy.append (.refl [a])).trans List.perm_append_comm

lemma destroyRegion_spec (h : Partition m xs) :
    ∃ ys, destroyRegion m = some (freeNodes m ys) ∧ ys.Perm xs := by
  obtain ⟨frees, useds, ht, hf, hu⟩ := h.trees
  have hlen := h.length_lt ht.free.nodup fun y hy => ((hf y).1 hy).1
  have hlen' := h.length_lt ht.used.nodup fun y hy => ((hu y).1 hy).1
  have hnodup : (frees ++ useds).Nodup := by
    rw [List.nodup_append]
    refine ⟨ht.free.nodup, ht.used.nodup, ?_⟩
    rintro y hy _ hy' rfl
    exact ht.disjoint y hy hy'
  have hmem : ∀ y, y ∈ frees ++ useds ↔ y ∈ xs := by
    intro y
    rw [List.mem_append, hf, hu]
    cases (m.region y).used <;> simp
  obtain ⟨t, hw, rfl⟩ := ht.free
  obtain ⟨t', hw', rfl⟩ := ht.used
  obtain ⟨ys, hys, hpy⟩ := @destroyNodes_rep m m.fuel t none m.freeRegions hw.rep hlen.le
  obtain ⟨zs, hzs, hpz⟩ := @destroyNodes_rep (freeNodes m ys) m.fuel t' none m.usedRegions hw'.rep hlen'.le
  refine ⟨ys ++ zs, ?_, (hpy.append hpz).trans ((List.perm_ext_iff_of_nodup hnodup h.linked.1).2 hmem)⟩
  rw [destroyRegion, hys]
  change destroyNodes m.fuel (freeNodes m ys) m.usedRegions = _
  rw [hzs, freeNodes_append]

lemma goFirst_spec {fuel : ℕ} (h : IsList m.list (ys ++ x :: zs).head? (ys ++ x :: zs))
    (hfuel : ys.length < fuel) : goFirst m fuel x = (ys ++ x :: zs).head? := by
  induction ys using List.reverseRecOn generalizing x zs fuel with
  | nil =>
    obtain ⟨fuel, rfl⟩ : ∃ k, fuel = k + 1 := ⟨fuel - 1, by omega⟩
    obtain ⟨-, -, hp, -⟩ := isList_append_cons_iff.1 h
    have hp : m.list.prev x = none := hp
    simp only [goFirst, hp]
    rfl
  | append_singleton ys y ih =>
    obtain ⟨fuel, rfl⟩ : ∃ k, fuel = k + 1 := ⟨fuel - 1, by omega⟩
    obtain ⟨-, -, hp, -⟩ := isList_append_cons_iff.1 h
    have hp : m.list.prev x = some y := by simpa using hp
    rw [List.length_append, List.length_singleton] at hfuel
    have hlist : ys ++ [y] ++ x :: zs = ys ++ y :: x :: zs := by simp
    rw [hlist] at h ⊢
    simp only [goFirst, hp]
    exact ih h (by omega)

lemma findFirstRegion_of_mem (h : Partition m xs) (hx : x ∈ xs)
    (hfind : findClosestUsedRegion m 0 = some (some x)) : findFirstRegion m = some xs.head? := by
  obtain ⟨ys, zs, rfl⟩ := List.append_of_mem hx
  have hcount := h.count
  rw [List.length_append] at hcount
  have hfirst := goFirst_spec h.linked (show ys.length < m.fuel by
    rw [RegionMap.fuel]
    omega)
  simp only [findFirstRegion, hfind, Option.bind_eq_bind, Option.bind_some, hfirst]
  cases ys with
  | nil => rfl
  | cons y ys => rfl

lemma findFirstRegion_spec (h : Partition m xs) (hne : xs ≠ []) (hstop : m.stop ≤ 2 ^ 53) :
    findFirstRegion m = some xs.head? := by
  obtain ⟨x, hx, hfind⟩ := @findClosestUsedRegion_spec m xs 0 h hne (by decide) hstop
  exact findFirstRegion_of_mem h hx hfind

structure Owns (m₀ m : RegionMap) (xs : List ℕ) : Prop where
  whole : Partition m xs
  beside : Beside xs m₀ m
  fresh : ∀ y ∈ xs, m₀.taken y = false
  count : m.usedNodes = m₀.usedNodes + xs.length

lemma Owns.grow (h : Owns m₀ m xs) (hp : Partition m' xs') (hg : Grown m m' xs xs') : Owns m₀ m' xs' := by
  refine ⟨hp, (h.beside.mono hg.sub).trans hg.beside, fun y hy => ?_, ?_⟩
  · by_cases hy' : y ∈ xs
    · exact h.fresh y hy'
    · rw [← h.beside.taken y hy']
      exact (hg.new y hy).resolve_left hy'
  · have := h.count
    have := hg.count
    omega

lemma initRegion_owns {start arenaSize reserved : ℕ} {status : ℤ} (hf : m₀.freeRegions = none)
    (hu : m₀.usedRegions = none) (hne : 0 < page arenaSize)
    (h : initRegion m₀ (some x) start arenaSize reserved = some (m, status)) : Owns m₀ m [x] := by
  have hfree := initRegion_free h
  obtain ⟨hp, -⟩ := initRegion_partition hf hu hne h
  rw [initRegion_eq hfree, Option.bind_eq_some_iff] at h
  obtain ⟨m₁, hi, hm₁⟩ := h
  cases hm₁
  obtain ⟨hbeside, hcount⟩ := (@initNode_trees m₀ x start arenaSize reserved hf hu).insertFree_beside
    (by simp) (by simp [RegionMap.fuel]) hi
  have hnode : Beside [x] m₀ (initNode m₀ x start arenaSize reserved) := by
    refine ⟨clearNode_sameOutside m₀.heap x, fun y hy => ?_, fun y hy => ?_, fun y hy => ?_⟩
    · rw [List.mem_singleton] at hy
      have hne : x ≠ y := fun e => hy e.symm
      simp [initNode, hne]
    · exact Function.update_of_ne (by simpa using hy) _ _
    · exact Function.update_of_ne (by simpa using hy) _ _
  refine ⟨hp, hnode.trans hbeside, fun y hy => ?_, hcount⟩
  rw [List.mem_singleton.1 hy, hfree]

lemma Owns.allocFixed {pre post : Option ℕ} {start size v asize : ℕ} {flags : Flags} (h : Owns m₀ m xs)
    (hstop : m.stop ≤ 2 ^ 52) (hs : m.start ≤ page start) (he : page start < m.stop) (hpos : 0 < size)
    (hwrap : size + basePageSize ≤ 2 ^ 64)
    (ha : allocFixedRegion m pre post start size flags = some (m', v, asize)) :
    ∃ xs', Owns m₀ m' xs' ∧ (m' = m ∧ v = 0 ∨ ∃ g, NewUsed m m' g ∧ Given g size flags 0 ∧
      g.start = page start ∧ v = page start * basePageSize) := by
  have hpages := pagesOf_pos hpos hwrap
  obtain ⟨ys, x, zs, rfl, hxs, hxe, ⟨-, heq⟩ | ⟨hu, hle, heq⟩⟩ :=
    @allocSharedFixedRegion_cases m xs pre post start size 0 flags h.whole (by omega) hs he
  · rw [allocFixedRegion, heq] at ha
    cases ha
    exact ⟨_, h, .inl ⟨rfl, rfl⟩⟩
  · rw [allocFixedRegion, heq, Option.bind_eq_some_iff] at ha
    obtain ⟨r, hr, hres⟩ := ha
    cases hres
    have hmem := (h.whole.covers.mem (x := x) (by simp)).2.2
    obtain ⟨haddr, ⟨refcount, hcount, hc⟩, xs', hp, hg⟩ :=
      partitionRegion_grown h.whole hu (by omega) hpages hle hr
    have hstart : (m.region x).start + (page start - (m.region x).start) = page start := by omega
    have hb := basePageSize_eq
    rw [hstart] at haddr hc hle
    rw [Nat.mod_eq_of_lt (by rw [hb]; omega)] at haddr
    exact ⟨xs', h.grow hp hg, .inr ⟨_, hc.newUsed h.whole (by simp) hu (used_of_or rfl) hxs
      (Nat.lt_add_of_pos_right hpages) hle, ⟨rfl, hcount, rfl, rfl⟩, rfl, haddr⟩⟩

structure SameNodes (m₀ m : RegionMap) : Prop where
  taken : m.taken = m₀.taken
  usedNodes : m.usedNodes = m₀.usedNodes
  links : ∀ y, m₀.taken y = true →
    SameAt m₀.heap.links m.heap.links y ∧ m.heap.hint y = m₀.heap.hint y
  list : ∀ y, m₀.taken y = true → m.list.next y = m₀.list.next y ∧ m.list.prev y = m₀.list.prev y
  region : ∀ y, m₀.taken y = true → m.region y = m₀.region y

lemma SameNodes.refl (m : RegionMap) : SameNodes m m :=
  ⟨rfl, rfl, fun _ _ => ⟨⟨rfl, rfl, rfl⟩, rfl⟩, fun _ _ => ⟨rfl, rfl⟩, fun _ _ => rfl⟩

lemma Owns.destroy (h : Owns m₀ m xs) : ∃ m', destroyRegion m = some m' ∧ SameNodes m₀ m' := by
  obtain ⟨ys, heq, hperm⟩ := destroyRegion_spec h.whole
  have hother : ∀ y, m₀.taken y = true → y ∉ xs := by
    intro y hy hmem
    rw [h.fresh y hmem] at hy
    cases hy
  refine ⟨_, heq, ?_, ?_, fun y hy => h.beside.heap y (hother y hy),
    fun y hy => h.beside.list y (hother y hy), fun y hy => h.beside.region y (hother y hy)⟩
  · funext y
    change (if y ∈ ys then false else m.taken y) = m₀.taken y
    split_ifs with hy
    · exact (h.fresh y (hperm.mem_iff.1 hy)).symm
    · exact h.beside.taken y fun hmem => hy (hperm.mem_iff.2 hmem)
  · change m.usedNodes - ys.length = m₀.usedNodes
    rw [h.count, hperm.length_eq, Nat.add_sub_cancel]

end Kmi.Regions
