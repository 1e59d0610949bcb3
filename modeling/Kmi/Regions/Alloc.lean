import Kmi.Regions.Invariant

/-! Carving a used region out of a free one. -/

namespace Kmi.Regions

open Kmi.Library.LinkedList Kmi.SpTree Kmi.Mem

variable {m m' : RegionMap} {xs ys zs : List ℕ} {x n s e : ℕ}

lemma used_of_or {f : Flags} {g : Region} (hg : g.flags = f ||| MR_USED) : g.used = true := by
  have h : (f ||| MR_USED) &&& MR_USED = MR_USED := by
    ext i
    simp only [BitVec.getElem_and, BitVec.getElem_or]
    cases f[i] <;> simp
  simp only [Region.used, hg, h]
  decide

lemma used_clear (g : Region) :
    ({ g with flags := g.flags &&& ~~~MR_USED } : Region).used = false := by
  have h : g.flags &&& ~~~MR_USED &&& MR_USED = 0 := by
    ext i hi
    simp [BitVec.getElem_and, BitVec.getElem_not]
  simp only [Region.used, h]
  decide

namespace Open

lemma not_mem (h : Open m ys x zs s e) : x ∉ ys ∧ x ∉ zs := by
  obtain ⟨-, hy, hz, -⟩ := nodup_append_cons h.linked.1
  exact ⟨hy, hz⟩

lemma length_lt {frees : List ℕ} (h : Open m ys x zs s e) (hd : frees.Nodup)
    (hsub : ∀ y ∈ frees, y ∈ ys ∨ y ∈ zs) : frees.length < m.usedNodes := by
  have hle : frees.length ≤ (ys ++ zs).length := by
    apply (hd.subperm _).length_le
    intro y hy
    exact List.mem_append.2 (hsub y hy)
  have := h.count
  simp only [List.length_append, List.length_cons] at this hle
  omega

lemma not_mem_of_free (h : Open m ys x zs s e) (hn : m.taken n = false) : n ∉ ys ++ x :: zs := by
  intro hmem
  have := h.taken n hmem
  simp [hn] at this

end Open

def addNode (m : RegionMap) (list : Chain ℕ) (n s e : ℕ) : RegionMap :=
  { m with
    heap := clearNode m.heap n
    list := list
    region := Function.update m.region n ⟨e, s, 0, 0, 0⟩
    taken := Function.update m.taken n true
    usedNodes := m.usedNodes + 1 }

lemma addNode_region_of_ne (list : Chain ℕ) {y : ℕ} (hy : y ≠ n) :
    (addNode m list n s e).region y = m.region y :=
  Function.update_of_ne hy _ _

@[simp] lemma addNode_region_self (list : Chain ℕ) :
    (addNode m list n s e).region n = ⟨e, s, 0, 0, 0⟩ :=
  Function.update_self ..

lemma Open.addNode_apart {list : Chain ℕ} {a b : ℕ} {frees useds : List ℕ} (h : Open m ys x zs s e)
    (hn : m.taken n = false) (ht : Trees m frees useds)
    (hin : ∀ y, y ∈ frees ∨ y ∈ useds → y ∈ ys ∨ y ∈ zs) :
    Trees (addNode m list n a b) frees useds ∧ ∀ y, y ∈ frees ∨ y ∈ useds → y ≠ n := by
  have hnew := h.not_mem_of_free hn
  simp only [List.mem_append, List.mem_cons, not_or] at hnew
  have hne : ∀ y, y ∈ frees ∨ y ∈ useds → y ≠ n := by
    rintro y hy rfl
    exact (hin y hy).elim hnew.1 hnew.2.2
  refine ⟨ht.congr (addNode m list n a b) rfl rfl (clearNode_sameOutside m.heap n) ?_ ?_, hne⟩
  · intro y hy
    simpa using hne y hy
  · intro y hy
    rw [addNode_region_of_ne list (hne y hy)]
    exact ⟨rfl, rfl⟩

lemma Open.addNode_trees {list : Chain ℕ} {a b : ℕ} (h : Open m ys x zs s e)
    (hn : m.taken n = false) (hstart : ∀ y, y ∈ ys ∨ y ∈ zs → (m.region y).start ≠ a) :
    ∃ root heap frees useds,
      insertFreeRegion (addNode m list n a b) n =
        some { addNode m list n a b with heap := heap, freeRegions := root } ∧
      Trees { addNode m list n a b with heap := heap, freeRegions := root } frees useds ∧
      (∀ y, y ∈ frees ↔ (y = n ∨ y ∈ ys ∨ y ∈ zs) ∧
        ((addNode m list n a b).region y).used = false) ∧
      ∀ y, y ∈ useds ↔ (y = n ∨ y ∈ ys ∨ y ∈ zs) ∧
        ((addNode m list n a b).region y).used = true := by
  obtain ⟨frees, useds, ht, hf, hu⟩ := h.trees
  have hnew := h.not_mem_of_free hn
  simp only [List.mem_append, List.mem_cons, not_or] at hnew
  obtain ⟨ht', hne⟩ := @Open.addNode_apart m ys zs x n s e list a b frees useds h hn ht (by
    rintro y (hy | hy)
    · exact ((hf y).1 hy).1
    · exact ((hu y).1 hy).1)
  have hlen := h.length_lt ht.free.nodup fun y hy => ((hf y).1 hy).1
  obtain ⟨root, heap, frees', hi, ht'', hf'⟩ := ht'.insertFree (fun hy => hne n (.inl hy) rfl)
    (fun hy => hne n (.inr hy) rfl) (by
      intro y hy
      rw [addNode_region_of_ne list (hne y (.inl hy)), addNode_region_self]
      exact hstart y ((hf y).1 hy).1) (by
      change frees.length < m.usedNodes + 1 + 2
      omega)
  refine ⟨root, heap, frees', useds, hi, ht'', fun y => ?_, fun y => ?_⟩
  · rw [hf']
    by_cases hy : y = n
    · subst hy
      simp [Region.used]
    · rw [addNode_region_of_ne list hy, hf]
      simp [hy]
  · rw [hu]
    by_cases hy : y = n
    · subst hy
      simp [Region.used, hnew]
    · rw [addNode_region_of_ne list hy]
      simp [hy]

lemma Open.addNode_beside {list : Chain ℕ} {a b : ℕ} (h : Open m ys x zs s e) (hn : m.taken n = false)
    (hl : ∀ y ∉ ys ++ x :: zs, y ≠ n → list.next y = m.list.next y ∧ list.prev y = m.list.prev y)
    (hi : insertFreeRegion (addNode m list n a b) n = some m') :
    Beside (n :: (ys ++ x :: zs)) m m' ∧ m'.usedNodes = m.usedNodes + 1 := by
  obtain ⟨frees, useds, ht, hf, hu⟩ := h.trees
  obtain ⟨ht', hne⟩ := @Open.addNode_apart m ys zs x n s e list a b frees useds h hn ht (by
    rintro y (hy | hy)
    · exact ((hf y).1 hy).1
    · exact ((hu y).1 hy).1)
  have hlen := h.length_lt ht.free.nodup fun y hy => ((hf y).1 hy).1
  obtain ⟨hbeside, hcount⟩ := ht'.insertFree_beside (fun hy => hne n (.inl hy) rfl) (by
    change frees.length < m.usedNodes + 1 + 2
    omega) hi
  have hadd : Beside (n :: (ys ++ x :: zs)) m (addNode m list n a b) := by
    refine ⟨fun y hy => ?_, fun y hy => ?_, fun y hy => ?_, fun y hy => ?_⟩
    · rw [List.mem_cons, not_or] at hy
      exact clearNode_sameOutside m.heap n y (by simpa using hy.1)
    · rw [List.mem_cons, not_or] at hy
      exact hl y hy.2 hy.1
    · rw [List.mem_cons, not_or] at hy
      exact addNode_region_of_ne list hy.1
    · rw [List.mem_cons, not_or] at hy
      exact Function.update_of_ne hy.1 _ _
  refine ⟨hadd.trans (hbeside.mono fun y hy => ?_), hcount⟩
  rw [List.mem_cons] at hy ⊢
  refine hy.imp id fun hy => ?_
  have := ((hf y).1 hy).1
  simp only [List.mem_append, List.mem_cons]
  tauto

lemma splitPre_eq {a b : ℕ} (hn : m.taken n = false) (hx : n ≠ x) (hab : a ≠ b) :
    splitPre m (some n) x a b = insertFreeRegion (addNode m
      (((m.list.setNext (some n) none).setPrev (some n) none).insertBefore x n) n a b) n := by
  simp [splitPre, createRegion, getMemNode, RegionMap.setRegion, addNode, Chain.insertBefore,
    hn, hx, hx.symm, hab]

lemma splitPost_eq {a b : ℕ} (hn : m.taken n = false) (hx : n ≠ x) (hab : a ≠ b) :
    splitPost m (some n) x a b = insertFreeRegion (addNode m
      (((m.list.setNext (some n) none).setPrev (some n) none).insertAfter x n) n a b) n := by
  simp [splitPost, createRegion, getMemNode, RegionMap.setRegion, addNode, Chain.insertAfter,
    hn, hx, hx.symm, hab]

lemma isList_setNode {list : Chain ℕ} (h : IsList list xs.head? xs) (hn : n ∉ xs) :
    IsList ((list.setNext (some n) none).setPrev (some n) none) xs.head? xs := by
  obtain ⟨hd, last, hs⟩ := h
  refine ⟨hd, last, hs.congr fun y hy => ?_⟩
  have : n ≠ y := fun e => hn (e ▸ hy)
  simp [this]

structure SameRest (m m' : RegionMap) : Prop where
  start : m'.start = m.start
  stop : m'.stop = m.stop
  region : ∀ y, m.taken y = true → m'.region y = m.region y
  taken : ∀ y, m.taken y = true → m'.taken y = true

lemma Open.addPre {i : ℕ} {list : Chain ℕ} (h : Open m ys x zs s e) (hn : m.taken n = false)
    (hsi : s < i) (hie : i ≤ e) (hlast : ∀ y ∈ ys.getLast?, (m.region y).used = true)
    (hl : IsList list (ys ++ [n] ++ x :: zs).head? (ys ++ [n] ++ x :: zs)) :
    ∃ m', insertFreeRegion (addNode m list n s i) n = some m' ∧ Open m' (ys ++ [n]) x zs i e ∧
      SameRest m m' ∧ m'.taken = Function.update m.taken n true ∧ (m'.region n).used = false := by
  have hnew := h.not_mem_of_free hn
  have hmem := hnew
  simp only [List.mem_append, List.mem_cons, not_or] at hmem
  have hne : ∀ y, y ∈ ys ∨ y ∈ zs → y ≠ n := by
    rintro y (hy | hy) rfl
    · exact hmem.1 hy
    · exact hmem.2.2 hy
  obtain ⟨root, heap, frees, useds, hi, ht, hf, hu⟩ := @Open.addNode_trees m ys zs x n s e
    list s i h hn (by
      rintro y (hy | hy)
      · have := h.before.mem hy
        omega
      · have := h.after.mem hy
        omega)
  have hreg : ∀ y, y ∈ ys ∨ y ∈ zs → ((addNode m list n s i).region y) = m.region y :=
    fun y hy => addNode_region_of_ne list (hne y hy)
  refine ⟨_, hi, ⟨?_, ?_, ?_, ?_, ?_, ⟨frees, useds, ht, ?_, ?_⟩, ?_, ?_⟩,
    ⟨rfl, rfl, fun y hy => addNode_region_of_ne list (by rintro rfl; simp [hn] at hy), fun y hy => ?_⟩,
    rfl, by simp [Region.used]⟩
  · exact hl
  · apply covers_append.2
    refine ⟨s, h.before.congr fun y hy => by simp [hreg y (.inl hy)], ?_, ?_, ?_⟩
    · simp
    · simpa using hsi
    · simp [Covers]
  · exact h.after.congr fun y hy => by simp [hreg y (.inr hy)]
  · apply List.isChain_append.2
    refine ⟨h.noFreePairBefore.congr fun y hy => by simp [hreg y (.inl hy)], by simp, ?_⟩
    intro y hy z _
    have hy' : y ∈ ys := List.mem_of_getLast? hy
    left
    simpa [hreg y (.inl hy')] using hlast y hy
  · exact h.noFreePairAfter.congr fun y hy => by simp [hreg y (.inr hy)]
  · intro y
    rw [hf]
    simp only [List.mem_append, List.mem_singleton]
    tauto
  · intro y
    rw [hu]
    simp only [List.mem_append, List.mem_singleton]
    tauto
  · intro y hy
    by_cases hyn : y = n
    · simp [addNode, hyn]
    · have : y ∈ ys ++ x :: zs := by
        simp only [List.mem_append, List.mem_cons] at hy ⊢
        tauto
      simpa [addNode, hyn] using h.taken y this
  · have := h.count
    simp only [List.length_append, List.length_cons, List.length_nil] at this ⊢
    change _ ≤ m.usedNodes + 1
    omega
  · change Function.update m.taken n true y = true
    rw [Function.update_apply, hy, ite_self]

lemma Open.addPost {i : ℕ} {list : Chain ℕ} (h : Open m ys x zs s e) (hn : m.taken n = false)
    (hsi : s < i) (hie : i < e) (hfirst : ∀ y ∈ zs.head?, (m.region y).used = true)
    (hl : IsList list (ys ++ x :: n :: zs).head? (ys ++ x :: n :: zs)) :
    ∃ m', insertFreeRegion (addNode m list n i e) n = some m' ∧ Open m' ys x (n :: zs) s i ∧
      SameRest m m' ∧ m'.taken = Function.update m.taken n true ∧ (m'.region n).used = false := by
  have hnew := h.not_mem_of_free hn
  have hmem := hnew
  simp only [List.mem_append, List.mem_cons, not_or] at hmem
  have hne : ∀ y, y ∈ ys ∨ y ∈ zs → y ≠ n := by
    rintro y (hy | hy) rfl
    · exact hmem.1 hy
    · exact hmem.2.2 hy
  obtain ⟨root, heap, frees, useds, hi, ht, hf, hu⟩ := @Open.addNode_trees m ys zs x n s e
    list i e h hn (by
      rintro y (hy | hy)
      · have := h.before.mem hy
        omega
      · have := h.after.mem hy
        omega)
  have hreg : ∀ y, y ∈ ys ∨ y ∈ zs → ((addNode m list n i e).region y) = m.region y :=
    fun y hy => addNode_region_of_ne list (hne y hy)
  refine ⟨_, hi, ⟨?_, ?_, ?_, ?_, ?_, ⟨frees, useds, ht, ?_, ?_⟩, ?_, ?_⟩,
    ⟨rfl, rfl, fun y hy => addNode_region_of_ne list (by rintro rfl; simp [hn] at hy), fun y hy => ?_⟩,
    rfl, by simp [Region.used]⟩
  · exact hl
  · exact h.before.congr fun y hy => by simp [hreg y (.inl hy)]
  · refine ⟨by simp, by simpa using hie, ?_⟩
    rw [addNode_region_self]
    exact h.after.congr fun y hy => by simp [hreg y (.inr hy)]
  · exact h.noFreePairBefore.congr fun y hy => by simp [hreg y (.inl hy)]
  · apply List.isChain_cons.2
    refine ⟨?_, h.noFreePairAfter.congr fun y hy => by simp [hreg y (.inr hy)]⟩
    intro y hy
    have hy' : y ∈ zs := List.mem_of_head? hy
    right
    simpa [hreg y (.inr hy')] using hfirst y hy
  · intro y
    rw [hf]
    simp only [List.mem_cons]
    tauto
  · intro y
    rw [hu]
    simp only [List.mem_cons]
    tauto
  · intro y hy
    by_cases hyn : y = n
    · simp [addNode, hyn]
    · have : y ∈ ys ++ x :: zs := by
        simp only [List.mem_append, List.mem_cons] at hy ⊢
        tauto
      simpa [addNode, hyn] using h.taken y this
  · have := h.count
    simp only [List.length_append, List.length_cons] at this ⊢
    change _ ≤ m.usedNodes + 1
    omega
  · change Function.update m.taken n true y = true
    rw [Function.update_apply, hy, ite_self]

lemma Open.splitPre_new {i : ℕ} (h : Open m ys x zs s e) (hn : m.taken n = false) (hsi : s < i)
    (hie : i ≤ e) (hlast : ∀ y ∈ ys.getLast?, (m.region y).used = true) :
    ∃ m', splitPre m (some n) x s i = some m' ∧ Open m' (ys ++ [n]) x zs i e ∧ SameRest m m' ∧
      m'.taken = Function.update m.taken n true ∧ (m'.region n).used = false := by
  have hnew := h.not_mem_of_free hn
  have hnx : n ≠ x := fun he => hnew (by simp [he])
  rw [splitPre_eq hn hnx hsi.ne]
  apply h.addPre hn hsi hie hlast
  exact (isList_setNode h.linked hnew).insertBefore hnew

lemma Open.splitPost_new {i : ℕ} (h : Open m ys x zs s e) (hn : m.taken n = false) (hsi : s < i)
    (hie : i < e) (hfirst : ∀ y ∈ zs.head?, (m.region y).used = true) :
    ∃ m', splitPost m (some n) x i e = some m' ∧ Open m' ys x (n :: zs) s i ∧ SameRest m m' ∧
      m'.taken = Function.update m.taken n true ∧ (m'.region n).used = false := by
  have hnew := h.not_mem_of_free hn
  have hnx : n ≠ x := fun he => hnew (by simp [he])
  rw [splitPost_eq hn hnx hie.ne]
  apply h.addPost hn hsi hie hfirst
  exact (isList_setNode h.linked hnew).insertAfter hnew

structure Grown (m m' : RegionMap) (xs xs' : List ℕ) : Prop where
  beside : Beside xs' m m'
  sub : ∀ y ∈ xs, y ∈ xs'
  new : ∀ y ∈ xs', y ∈ xs ∨ m.taken y = false
  count : m'.usedNodes + xs.length = m.usedNodes + xs'.length

lemma Beside.grown (h : Beside xs m m') (hc : m'.usedNodes = m.usedNodes) : Grown m m' xs xs :=
  ⟨h, fun _ hy => hy, fun _ hy => .inl hy, by rw [hc]⟩

lemma Grown.trans {m'' : RegionMap} {xs' xs'' : List ℕ} (h : Grown m m' xs xs')
    (h' : Grown m' m'' xs' xs'') : Grown m m'' xs xs'' := by
  refine ⟨(h.beside.mono h'.sub).trans h'.beside, fun y hy => h'.sub y (h.sub y hy), fun y hy => ?_, ?_⟩
  · by_cases hy' : y ∈ xs'
    · exact h.new y hy'
    · have htaken := (h'.new y hy).resolve_left hy'
      rw [h.beside.taken y hy'] at htaken
      exact .inr htaken
  · have := h.count
    have := h'.count
    omega

lemma splitPre_some {pre : Option ℕ} {a b : ℕ} (hab : a ≠ b)
    (h : Regions.splitPre m pre x a b = some m') : ∃ n, pre = some n ∧ m.taken n = false := by
  cases pre with
  | none => simp [Regions.splitPre, createRegion, hab] at h
  | some n =>
    refine ⟨n, rfl, ?_⟩
    by_contra hn
    have hn : m.taken n = true := by simpa using hn
    simp [Regions.splitPre, createRegion, getMemNode, hab, hn] at h

lemma splitPost_some {post : Option ℕ} {a b : ℕ} (hab : a ≠ b)
    (h : Regions.splitPost m post x a b = some m') : ∃ n, post = some n ∧ m.taken n = false := by
  cases post with
  | none => simp [Regions.splitPost, createRegion, hab] at h
  | some n =>
    refine ⟨n, rfl, ?_⟩
    by_contra hn
    have hn : m.taken n = true := by simpa using hn
    simp [Regions.splitPost, createRegion, getMemNode, hab, hn] at h

lemma Open.splitPre_new_grown {i : ℕ} (h : Open m ys x zs s e) (hn : m.taken n = false) (hsi : s < i)
    (hs : Regions.splitPre m (some n) x s i = some m') :
    Grown m m' (ys ++ x :: zs) (ys ++ [n] ++ x :: zs) := by
  have hnew := h.not_mem_of_free hn
  have hnx : n ≠ x := fun he => hnew (by simp [he])
  rw [splitPre_eq hn hnx hsi.ne] at hs
  obtain ⟨hbeside, hcount⟩ := h.addNode_beside hn (fun y hy hyn => by
    have hset := insertBefore_of_not_mem (isList_setNode h.linked hnew) (x := x) (by simp) hy hyn
    simpa [hyn.symm] using hset) hs
  refine ⟨hbeside.mono fun y hy => ?_, fun y hy => ?_, fun y hy => ?_, ?_⟩
  · simp only [List.mem_append, List.mem_cons, List.not_mem_nil, or_false] at hy ⊢
    tauto
  · simp only [List.mem_append, List.mem_cons, List.not_mem_nil, or_false] at hy ⊢
    tauto
  · by_cases hyn : y = n
    · exact .inr (hyn ▸ hn)
    · simp only [List.mem_append, List.mem_cons, List.not_mem_nil, or_false] at hy ⊢
      tauto
  · simp only [List.length_append, List.length_cons, List.length_nil]
    omega

lemma Open.splitPost_new_grown {i : ℕ} (h : Open m ys x zs s e) (hn : m.taken n = false) (hie : i < e)
    (hs : Regions.splitPost m (some n) x i e = some m') :
    Grown m m' (ys ++ x :: zs) (ys ++ x :: n :: zs) := by
  have hnew := h.not_mem_of_free hn
  have hnx : n ≠ x := fun he => hnew (by simp [he])
  rw [splitPost_eq hn hnx hie.ne] at hs
  obtain ⟨hbeside, hcount⟩ := h.addNode_beside hn (fun y hy hyn => by
    have hset := insertAfter_of_not_mem (isList_setNode h.linked hnew) (x := x) (by simp) hy hyn
    simpa [hyn.symm] using hset) hs
  refine ⟨hbeside.mono fun y hy => ?_, fun y hy => ?_, fun y hy => ?_, ?_⟩
  · simp only [List.mem_append, List.mem_cons] at hy ⊢
    tauto
  · simp only [List.mem_append, List.mem_cons] at hy ⊢
    tauto
  · by_cases hyn : y = n
    · exact .inr (hyn ▸ hn)
    · simp only [List.mem_append, List.mem_cons] at hy ⊢
      tauto
  · simp only [List.length_append, List.length_cons]
    omega

lemma Open.splitPre {i : ℕ} {pre : Option ℕ} (h : Open m ys x zs s e) (hsi : s ≤ i) (hie : i ≤ e)
    (hlast : ∀ y ∈ ys.getLast?, (m.region y).used = true)
    (hs : Regions.splitPre m pre x s i = some m') :
    ∃ ys', Open m' ys' x zs i e ∧ SameRest m m' ∧
      (∀ y, (m'.region y).used = true → (y ∈ ys' ↔ y ∈ ys)) ∧
      Grown m m' (ys ++ x :: zs) (ys' ++ x :: zs) := by
  by_cases he : s = i
  · subst he
    obtain rfl : m = m' := by simpa [Regions.splitPre] using hs
    exact ⟨ys, h, ⟨rfl, rfl, fun _ _ => rfl, fun _ hy => hy⟩, fun _ _ => Iff.rfl,
      (Beside.refl _ m).grown rfl⟩
  · obtain ⟨n, rfl, hn⟩ := splitPre_some he hs
    have hgrown := h.splitPre_new_grown hn (by omega) hs
    obtain ⟨m₁, hs₁, ho, hr, -, hu⟩ := h.splitPre_new hn (by omega) hie hlast
    obtain rfl := Option.some.inj (hs₁.symm.trans hs)
    refine ⟨_, ho, hr, fun y hy => ?_, hgrown⟩
    have hne : y ≠ n := by
      rintro rfl
      simp [hu] at hy
    simp [hne]

lemma Open.splitPost {i : ℕ} {post : Option ℕ} (h : Open m ys x zs s e) (hsi : s < i) (hie : i ≤ e)
    (hfirst : ∀ y ∈ zs.head?, (m.region y).used = true)
    (hs : Regions.splitPost m post x i e = some m') :
    ∃ zs', Open m' ys x zs' s i ∧ SameRest m m' ∧
      (∀ y, (m'.region y).used = true → (y ∈ zs' ↔ y ∈ zs)) ∧
      Grown m m' (ys ++ x :: zs) (ys ++ x :: zs') := by
  by_cases he : i = e
  · subst he
    obtain rfl : m = m' := by simpa [Regions.splitPost] using hs
    exact ⟨zs, h, ⟨rfl, rfl, fun _ _ => rfl, fun _ hy => hy⟩, fun _ _ => Iff.rfl,
      (Beside.refl _ m).grown rfl⟩
  · obtain ⟨n, rfl, hn⟩ := splitPost_some he hs
    have hgrown := h.splitPost_new_grown hn (by omega) hs
    obtain ⟨m₁, hs₁, ho, hr, -, hu⟩ := h.splitPost_new hn hsi (by omega) hfirst
    obtain rfl := Option.some.inj (hs₁.symm.trans hs)
    refine ⟨_, ho, hr, fun y hy => ?_, hgrown⟩
    have hne : y ≠ n := by
      rintro rfl
      simp [hu] at hy
    simp [hne]

lemma Open.splitPre_exists {i : ℕ} (h : Open m ys x zs s e) (hsi : s ≤ i) (hie : i ≤ e)
    (hlast : ∀ y ∈ ys.getLast?, (m.region y).used = true) (hn : m.taken n = false) :
    ∃ m', Regions.splitPre m (some n) x s i = some m' ∧ ∀ y, y ≠ n → m'.taken y = m.taken y := by
  by_cases he : s = i
  · exact ⟨m, by simp [Regions.splitPre, he], fun _ _ => rfl⟩
  · obtain ⟨m', hs, -, -, htk, -⟩ := h.splitPre_new hn (by omega) hie hlast
    refine ⟨m', hs, fun y hy => ?_⟩
    rw [htk, Function.update_of_ne hy]

lemma Open.splitPost_exists {i : ℕ} (h : Open m ys x zs s e) (hsi : s < i) (hie : i ≤ e)
    (hfirst : ∀ y ∈ zs.head?, (m.region y).used = true) (hn : m.taken n = false) :
    ∃ m', Regions.splitPost m (some n) x i e = some m' := by
  by_cases he : i = e
  · exact ⟨m, by simp [Regions.splitPost, he]⟩
  · obtain ⟨m', hs, -⟩ := h.splitPost_new hn hsi (by omega) hfirst
    exact ⟨m', hs⟩

lemma Partition.open (h : Partition m (ys ++ x :: zs)) (m' : RegionMap) (hl : m'.list = m.list)
    (hs : m'.start = m.start) (he : m'.stop = m.stop) (ht : m'.taken = m.taken)
    (hc : m'.usedNodes = m.usedNodes) (hr : ∀ y, y ≠ x → m'.region y = m.region y)
    {frees useds : List ℕ} (htrees : Trees m' frees useds)
    (hf : ∀ y, y ∈ frees ↔ (y ∈ ys ++ x :: zs ∧ (m.region y).used = false) ∧ y ≠ x)
    (hu : ∀ y, y ∈ useds ↔ (y ∈ ys ++ x :: zs ∧ (m.region y).used = true) ∧ y ≠ x) :
    Open m' ys x zs (m.region x).start (m.region x).stop := by
  obtain ⟨-, hxy, hxz, -⟩ := nodup_append_cons h.linked.1
  have hry : ∀ y ∈ ys, m'.region y = m.region y := fun y hy => hr y fun e => hxy (e ▸ hy)
  have hrz : ∀ y ∈ zs, m'.region y = m.region y := fun y hy => hr y fun e => hxz (e ▸ hy)
  obtain ⟨i, hbefore, hxs, -, hafter⟩ := covers_append.1 h.covers
  have hpairs := List.isChain_append.1 h.noFreePair
  have hmem : ∀ y, y ∈ ys ++ x :: zs ∧ y ≠ x ↔ y ∈ ys ∨ y ∈ zs := by
    intro y
    simp only [List.mem_append, List.mem_cons]
    constructor
    · tauto
    · rintro (hy | hy)
      · exact ⟨.inl hy, fun e => hxy (e ▸ hy)⟩
      · exact ⟨.inr (.inr hy), fun e => hxz (e ▸ hy)⟩
  have hside : ∀ y, (y ∈ ys ∨ y ∈ zs) → (m'.region y).used = (m.region y).used := by
    rintro y (hy | hy)
    · rw [hry y hy]
    · rw [hrz y hy]
  refine ⟨hl ▸ h.linked, ?_, ?_, ?_, ?_, ⟨frees, useds, htrees, ?_, ?_⟩, ht ▸ h.taken, hc ▸ h.count⟩
  · rw [hs, hxs]
    exact hbefore.congr fun y hy => by simp [hry y hy]
  · rw [he]
    exact hafter.congr fun y hy => by simp [hrz y hy]
  · exact NoFreePair.congr hpairs.1 fun y hy => hside y (.inl hy)
  · exact NoFreePair.congr (List.isChain_cons.1 hpairs.2.1).2 fun y hy => hside y (.inr hy)
  · intro y
    rw [hf, and_right_comm, hmem]
    constructor
    · exact fun hy => ⟨hy.1, (hside y hy.1).trans hy.2⟩
    · exact fun hy => ⟨hy.1, (hside y hy.1).symm.trans hy.2⟩
  · intro y
    rw [hu, and_right_comm, hmem]
    constructor
    · exact fun hy => ⟨hy.1, (hside y hy.1).trans hy.2⟩
    · exact fun hy => ⟨hy.1, (hside y hy.1).symm.trans hy.2⟩

lemma Partition.neighbours_used (h : Partition m (ys ++ x :: zs)) (hx : (m.region x).used = false) :
    (∀ y ∈ ys.getLast?, (m.region y).used = true) ∧ ∀ y ∈ zs.head?, (m.region y).used = true := by
  obtain ⟨-, hzs, hys⟩ := List.isChain_append.1 h.noFreePair
  constructor
  · intro y hy
    simpa [hx] using hys y hy x (by simp)
  · intro y hy
    simpa [hx] using (List.isChain_cons.1 hzs).1 y hy

lemma Partition.length_lt (h : Partition m xs) {frees : List ℕ} (hd : frees.Nodup)
    (hsub : ∀ y ∈ frees, y ∈ xs) : frees.length < m.fuel := by
  have := (hd.subperm hsub).length_le
  have := h.count
  unfold RegionMap.fuel
  omega

lemma Open.close (h : Open m ys x zs s e) (m' : RegionMap) (hl : m'.list = m.list)
    (hms : m'.start = m.start) (hme : m'.stop = m.stop) (htk : m'.taken = m.taken)
    (hc : m'.usedNodes = m.usedNodes) (hr : ∀ y, y ≠ x → m'.region y = m.region y) (hse : s < e)
    (hs : (m'.region x).start = s) (he : (m'.region x).stop = e)
    (hpair : (m'.region x).used = true ∨ ((∀ y ∈ ys.getLast?, (m.region y).used = true) ∧
      ∀ y ∈ zs.head?, (m.region y).used = true))
    {frees useds : List ℕ} (ht : Trees m' frees useds)
    (hf : ∀ y, y ∈ frees ↔ y ∈ ys ++ x :: zs ∧ (m'.region y).used = false)
    (hu : ∀ y, y ∈ useds ↔ y ∈ ys ++ x :: zs ∧ (m'.region y).used = true) :
    Partition m' (ys ++ x :: zs) := by
  obtain ⟨hxy, hxz⟩ := h.not_mem
  have hry : ∀ y ∈ ys, m'.region y = m.region y := fun y hy => hr y fun e => hxy (e ▸ hy)
  have hrz : ∀ y ∈ zs, m'.region y = m.region y := fun y hy => hr y fun e => hxz (e ▸ hy)
  refine ⟨hl ▸ h.linked, ?_, ?_, ⟨frees, useds, ht, hf, hu⟩, htk ▸ h.taken, hc ▸ h.count⟩
  · apply covers_append.2
    refine ⟨s, ?_, hs, he ▸ hse, ?_⟩
    · rw [hms]
      exact h.before.congr fun y hy => by simp [hry y hy]
    · rw [he, hme]
      exact h.after.congr fun y hy => by simp [hrz y hy]
  · apply List.isChain_append.2
    refine ⟨h.noFreePairBefore.congr fun y hy => by rw [hry y hy], ?_, ?_⟩
    · apply List.isChain_cons.2
      refine ⟨fun y hy => ?_, h.noFreePairAfter.congr fun y hy => by rw [hrz y hy]⟩
      rw [hrz y (List.mem_of_head? hy)]
      exact hpair.imp id fun hp => hp.2 y hy
    · intro y hy z hz
      obtain rfl : x = z := by simpa using hz
      rw [hry y (List.mem_of_getLast? hy)]
      exact hpair.symm.imp (fun hp => hp.1 y hy) id

lemma Open.setRegion_trees {g : Region} {frees useds : List ℕ} (h : Open m ys x zs s e)
    (hse : s < e) (hs : g.start = s) (ht : Trees m frees useds)
    (hin : ∀ y, y ∈ frees ∨ y ∈ useds → y ∈ ys ∨ y ∈ zs) :
    Trees (m.setRegion x g) frees useds ∧ x ∉ frees ∧ x ∉ useds ∧
      ∀ y, y ∈ frees ∨ y ∈ useds →
        ((m.setRegion x g).region y).start ≠ ((m.setRegion x g).region x).start := by
  obtain ⟨hxy, hxz⟩ := h.not_mem
  have hne : ∀ y, y ∈ frees ∨ y ∈ useds → y ≠ x := by
    rintro y hy rfl
    exact (hin y hy).elim hxy hxz
  have hreg : ∀ y, y ∈ frees ∨ y ∈ useds → (m.setRegion x g).region y = m.region y :=
    fun y hy => Function.update_of_ne (hne y hy) _ _
  have hself : (m.setRegion x g).region x = g := Function.update_self ..
  refine ⟨?_, fun hy => hne x (.inl hy) rfl, fun hy => hne x (.inr hy) rfl, fun y hy => ?_⟩
  · apply ht.congr (m.setRegion x g) rfl rfl (s := []) (fun y _ => ⟨⟨rfl, rfl, rfl⟩, rfl⟩)
    · simp
    · intro y hy
      rw [hreg y hy]
      exact ⟨rfl, rfl⟩
  · rw [hreg y hy, hself, hs]
    obtain hy | hy := hin y hy
    · have := h.before.mem hy
      omega
    · have := h.after.mem hy
      omega

lemma Open.closeUsed {g : Region} (h : Open m ys x zs s e) (hse : s < e) (hs : g.start = s)
    (he : g.stop = e) (hg : g.used = true) :
    ∃ m', insertUsedRegion (m.setRegion x g) x = some m' ∧ Partition m' (ys ++ x :: zs) ∧
      m'.start = m.start ∧ m'.stop = m.stop ∧ m'.region = Function.update m.region x g := by
  obtain ⟨frees, useds, ht, hf, hu⟩ := h.trees
  obtain ⟨hxy, hxz⟩ := h.not_mem
  obtain ⟨ht', hxf, hxu, hstart⟩ := @Open.setRegion_trees m ys zs x s e g frees useds h hse hs ht (by
    rintro y (hy | hy)
    · exact ((hf y).1 hy).1
    · exact ((hu y).1 hy).1)
  have hlen := h.length_lt ht.used.nodup fun y hy => ((hu y).1 hy).1
  obtain ⟨root, heap, useds', hi, ht'', hu'⟩ := ht'.insertUsed hxf hxu
    (fun y hy => hstart y (.inr hy)) (by
      change useds.length < m.usedNodes + 2
      omega)
  have hself : (m.setRegion x g).region x = g := Function.update_self ..
  have hr : ∀ y, y ≠ x → (m.setRegion x g).region y = m.region y :=
    fun y hy => Function.update_of_ne hy _ _
  refine ⟨_, hi, ?_, rfl, rfl, rfl⟩
  apply h.close { m.setRegion x g with heap := heap, usedRegions := root } rfl rfl rfl rfl rfl hr hse
    (by rw [hself, hs]) (by rw [hself, he]) (.inl (by rw [hself, hg])) ht''
  · intro y
    rw [hf]
    by_cases hy : y = x
    · subst hy
      simp [hxy, hxz, hself, hg]
    · rw [hr y hy]
      simp [hy]
  · intro y
    rw [hu', hu]
    by_cases hy : y = x
    · subst hy
      simp [hself, hg]
    · rw [hr y hy]
      simp [hy]

lemma Open.closeUsed_beside {g : Region} (h : Open m ys x zs s e) (hse : s < e) (hs : g.start = s)
    (hi : insertUsedRegion (m.setRegion x g) x = some m') :
    Beside (ys ++ x :: zs) m m' ∧ m'.usedNodes = m.usedNodes := by
  obtain ⟨frees, useds, ht, hf, hu⟩ := h.trees
  obtain ⟨ht', -, hxu, -⟩ := @Open.setRegion_trees m ys zs x s e g frees useds h hse hs ht (by
    rintro y (hy | hy)
    · exact ((hf y).1 hy).1
    · exact ((hu y).1 hy).1)
  have hlen := h.length_lt ht.used.nodup fun y hy => ((hu y).1 hy).1
  obtain ⟨hbeside, hcount⟩ := ht'.insertUsed_beside hxu (by
    change useds.length < m.usedNodes + 2
    omega) hi
  have hset : Beside (ys ++ x :: zs) m (m.setRegion x g) := by
    refine ⟨fun _ _ => ⟨⟨rfl, rfl, rfl⟩, rfl⟩, fun _ _ => ⟨rfl, rfl⟩, fun y hy => ?_, fun _ _ => rfl⟩
    apply Function.update_of_ne
    rintro rfl
    simp at hy
  refine ⟨hset.trans (hbeside.mono fun y hy => ?_), hcount⟩
  simp only [List.mem_append, List.mem_cons] at hy ⊢
  obtain rfl | hy := hy
  · exact .inr (.inl rfl)
  · have := ((hu y).1 hy).1
    tauto

lemma locate_forward {ref fuel y : ℕ} {as bs : List ℕ} (h : Partition m (ys ++ x :: (as ++ y :: bs)))
    (hy : (m.region y).start ≤ ref ∧ ref < (m.region y).stop) (hf : as.length + 1 < fuel) :
    locate m ref fuel x = some y := by
  induction as generalizing ys x fuel with
  | nil =>
    obtain ⟨fuel, rfl⟩ : ∃ k, fuel = k + 2 := ⟨fuel - 2, by simp at hf; omega⟩
    obtain ⟨-, -, -, hn, -⟩ := isList_append_cons_iff.1 h.linked
    obtain ⟨i, -, hx⟩ := covers_append.1 h.covers
    obtain ⟨hxs, hxe, hxy, -⟩ := hx
    have hnot : ¬ ((m.region x).start ≤ ref ∧ ref < (m.region x).stop) := by omega
    have hgt : ref > (m.region x).start := by omega
    simp [locate, hnot, hgt, hn, hy]
  | cons a as ih =>
    obtain ⟨fuel, rfl⟩ : ∃ k, fuel = k + 1 := ⟨fuel - 1, by simp at hf; omega⟩
    obtain ⟨-, -, -, hn, -⟩ := isList_append_cons_iff.1 h.linked
    obtain ⟨i, -, hx⟩ := covers_append.1 h.covers
    obtain ⟨hxs, hxe, hrest⟩ := hx
    have := hrest.mem (List.mem_append_right (a :: as) (List.mem_cons_self (a := y) (l := bs)))
    have hnot : ¬ ((m.region x).start ≤ ref ∧ ref < (m.region x).stop) := by omega
    have hgt : ref > (m.region x).start := by omega
    rw [locate, if_neg hnot, if_pos hgt, hn]
    simp only [List.cons_append, List.head?_cons, Option.bind_some]
    apply @ih (ys ++ [x]) a fuel (by simpa using h)
    simp at hf
    omega

lemma locate_backward {ref fuel y : ℕ} {as bs : List ℕ} (h : Partition m (as ++ y :: bs ++ x :: zs))
    (hy : (m.region y).start ≤ ref ∧ ref < (m.region y).stop) (hf : bs.length + 1 < fuel) :
    locate m ref fuel x = some y := by
  induction bs using List.reverseRecOn generalizing x zs fuel with
  | nil =>
    obtain ⟨fuel, rfl⟩ : ∃ k, fuel = k + 2 := ⟨fuel - 2, by simp at hf; omega⟩
    obtain ⟨-, -, hp, -⟩ := isList_append_cons_iff.1 h.linked
    obtain ⟨i, hleft, hxs, -⟩ := covers_append.1 h.covers
    have := hleft.mem (List.mem_append_right as (List.mem_cons_self (a := y) (l := [])))
    have hnot : ¬ ((m.region x).start ≤ ref ∧ ref < (m.region x).stop) := by omega
    have hgt : ¬ ref > (m.region x).start := by omega
    simp [locate, hnot, hgt, hp, hy]
  | append_singleton bs b ih =>
    obtain ⟨fuel, rfl⟩ : ∃ k, fuel = k + 1 := ⟨fuel - 1, by simp at hf; omega⟩
    obtain ⟨-, -, hp, -⟩ := isList_append_cons_iff.1 h.linked
    obtain ⟨i, hleft, hxs, -⟩ := covers_append.1 h.covers
    have := hleft.mem (List.mem_append_right as (List.mem_cons_self (a := y) (l := bs ++ [b])))
    have hnot : ¬ ((m.region x).start ≤ ref ∧ ref < (m.region x).stop) := by omega
    have hgt : ¬ ref > (m.region x).start := by omega
    have hlast : (as ++ y :: (bs ++ [b])).getLast? = some b := by
      rw [← List.cons_append, ← List.append_assoc, List.getLast?_concat]
    rw [locate, if_neg hnot, if_neg hgt, hp, hlast, Option.bind_some]
    apply @ih (x :: zs) b fuel (by simpa using h)
    simp at hf
    omega

lemma locate_spec {ref : ℕ} (h : Partition m xs) (hx : x ∈ xs) (hs : m.start ≤ ref)
    (he : ref < m.stop) :
    ∃ as y bs, xs = as ++ y :: bs ∧ (m.region y).start ≤ ref ∧ ref < (m.region y).stop ∧
      locate m ref m.fuel x = some y := by
  obtain ⟨as, y, bs, rfl, hy⟩ := h.covers.exists_mem hs he
  refine ⟨as, y, bs, rfl, hy.1, hy.2, ?_⟩
  have hcount := h.count
  simp only [List.length_append, List.length_cons] at hcount
  simp only [List.mem_append, List.mem_cons] at hx
  obtain hx | rfl | hx := hx
  · obtain ⟨as₁, as₂, rfl⟩ := List.append_of_mem hx
    apply @locate_forward m as₁ x ref m.fuel y as₂ bs (by simpa using h) hy
    simp only [List.length_append, List.length_cons] at hcount
    unfold RegionMap.fuel
    omega
  · simp [RegionMap.fuel, locate, hy]
  · obtain ⟨bs₁, bs₂, rfl⟩ := List.append_of_mem hx
    apply @locate_backward m bs₂ x ref m.fuel y as bs₁ (by simpa using h) hy
    simp only [List.length_append, List.length_cons] at hcount
    unfold RegionMap.fuel
    omega

lemma findClosestUsedRegion_spec {start : ℕ} (h : Partition m xs) (hne : xs ≠ [])
    (hstart : page start < 2 ^ 53) (hstop : m.stop ≤ 2 ^ 53) :
    ∃ y ∈ xs, findClosestUsedRegion m start = some (some y) := by
  obtain ⟨frees, useds, ht, hf, hu⟩ := h.trees
  cases hroot : m.usedRegions with
  | none =>
    have hused := ht.used
    rw [hroot, holds_nil_iff] at hused
    cases hfree : m.freeRegions with
    | none =>
      have hfrees := ht.free
      rw [hfree, holds_nil_iff] at hfrees
      obtain ⟨x, xs, rfl⟩ := List.exists_cons_of_ne_nil hne
      cases hx : (m.region x).used with
      | false => simpa [hfrees, hx] using hf x
      | true => simpa [hused, hx] using hu x
    | some a =>
      have := ht.free
      rw [hfree] at this
      exact ⟨a, ((hf a).1 this.root_mem).1, by simp [findClosestUsedRegion, hroot, hfree]⟩
  | some a =>
    have hlen := h.length_lt ht.used.nodup fun y hy => ((hu y).1 hy).1
    obtain ⟨t, hw, hin⟩ := ht.used
    rw [hroot] at hw
    obtain ⟨y, hfc, hy⟩ := @findClosest_rep m (page start) m.fuel (2 ^ 64 - 1) t none (some a) none
      hw.rep (by rw [hin]; omega) (by
        intro _
        constructor
        · rintro rfl
          cases hw.rep
        · intro y hy
          rw [hin] at hy
          have := h.covers.mem ((hu y).1 hy).1
          omega)
    refine ⟨y, ?_, by simp only [findClosestUsedRegion, hroot, hfc]⟩
    obtain hy | hy := hy
    · rw [hin] at hy
      exact ((hu y).1 hy).1
    · cases hy

lemma Partition.openFree (h : Partition m (ys ++ x :: zs)) (hx : (m.region x).used = false) :
    ∃ root heap, spRemove m.fuel m.freeRegions m.heap x = some (root, heap) ∧
      Open { m with heap := heap, freeRegions := root } ys x zs
        (m.region x).start (m.region x).stop := by
  obtain ⟨frees, useds, ht, hf, hu⟩ := h.trees
  have hxf : x ∈ frees := (hf x).2 ⟨by simp, hx⟩
  obtain ⟨root, heap, frees', hrem, ht', hf'⟩ := ht.removeFree hxf
    (h.length_lt ht.free.nodup fun y hy => ((hf y).1 hy).1)
  refine ⟨root, heap, hrem, ?_⟩
  apply h.open { m with heap := heap, freeRegions := root } rfl rfl rfl rfl rfl (fun _ _ => rfl) ht'
  · intro y
    rw [hf', hf]
  · intro y
    rw [hu]
    constructor
    · rintro ⟨hy, hyu⟩
      exact ⟨⟨hy, hyu⟩, fun e => by simp [e, hx] at hyu⟩
    · exact fun hy => hy.1

lemma Partition.openFree_beside {root : Option ℕ} {heap : SpHeap} (h : Partition m (ys ++ x :: zs))
    (hx : (m.region x).used = false)
    (hrem : spRemove m.fuel m.freeRegions m.heap x = some (root, heap)) :
    Beside (ys ++ x :: zs) m { m with heap := heap, freeRegions := root } := by
  obtain ⟨frees, useds, ht, hf, -⟩ := h.trees
  obtain ⟨root', heap', _, _, hrem', -, -, hs⟩ := spRemove_holds ht.free ((hf x).2 ⟨by simp, hx⟩)
    (h.length_lt ht.free.nodup fun y hy => ((hf y).1 hy).1)
  rw [hrem] at hrem'
  cases hrem'
  have hbeside : Beside frees m { m with heap := heap, freeRegions := root } :=
    ⟨hs, fun _ _ => ⟨rfl, rfl⟩, fun _ _ => rfl, fun _ _ => rfl⟩
  exact hbeside.mono fun y hy => ((hf y).1 hy).1

structure Carved (m m' : RegionMap) (xs : List ℕ) (x : ℕ) (g : Region) : Prop where
  whole : ∃ xs', Partition m' xs' ∧ ∀ y, (m'.region y).used = true → (y ∈ xs' ↔ y ∈ xs)
  start : m'.start = m.start
  stop : m'.stop = m.stop
  carved : m'.region x = g
  others : ∀ y ∈ xs, y ≠ x → m'.region y = m.region y

lemma partitionRegion_grown {pre post : Option ℕ} {pages align pid : ℕ} {flags : Flags}
    {r : RegionMap × ℕ} (h : Partition m (ys ++ x :: zs)) (hx : (m.region x).used = false)
    (hstop : m.stop < 2 ^ 64) (hpages : 0 < pages)
    (hfit : (m.region x).start + align + pages ≤ (m.region x).stop)
    (hr : partitionRegion m pre post x pages align flags pid = some r) :
    r.2 = ((m.region x).start + align) * basePageSize % 2 ^ 64 ∧
      (∃ refcount, (pid = 0 → refcount = 1) ∧ Carved m r.1 (ys ++ x :: zs) x
        ⟨(m.region x).start + align + pages, (m.region x).start + align, pid, refcount,
          flags ||| MR_USED⟩) ∧
      ∃ xs', Partition r.1 xs' ∧ Grown m r.1 (ys ++ x :: zs) xs' := by
  obtain ⟨hlast, hfirst⟩ := h.neighbours_used hx
  obtain ⟨root, heap, hrem, hopen⟩ := h.openFree hx
  have hg₀ := (h.openFree_beside hx hrem).grown rfl
  have hle := (h.covers.mem (x := x) (by simp)).2.2
  have h₁ : ((m.region x).start + align) % 2 ^ 64 = (m.region x).start + align :=
    Nat.mod_eq_of_lt (by omega)
  have h₂ : ((m.region x).start + align + pages) % 2 ^ 64 = (m.region x).start + align + pages :=
    Nat.mod_eq_of_lt (by omega)
  simp only [partitionRegion, hrem, Option.bind_eq_bind, Option.bind_some, h₁, h₂] at hr
  rw [Option.bind_eq_some_iff] at hr
  obtain ⟨m₁, hpre, hr⟩ := hr
  rw [Option.bind_eq_some_iff] at hr
  obtain ⟨m₂, hpost, hr⟩ := hr
  obtain ⟨ys', ho₁, hs₁, hu₁, hg₁⟩ := hopen.splitPre (by omega) (by omega) hlast hpre
  have hzs : ∀ y ∈ zs.head?, (m₁.region y).used = true := by
    intro y hy
    rw [hs₁.region y (h.taken y (by simp [List.mem_of_head? hy]))]
    exact hfirst y hy
  obtain ⟨zs', ho₂, hs₂, hu₂, hg₂⟩ := ho₁.splitPost (by omega) (by omega) hzs hpost
  obtain ⟨m₃, hi, hp, hms, hme, hreg⟩ := ho₂.closeUsed (g := ⟨(m.region x).start + align + pages,
    (m.region x).start + align, pid, if pid = 0 then 1 else (m₂.region x).refcount,
    flags ||| MR_USED⟩) (by omega) rfl rfl (used_of_or rfl)
  obtain ⟨hbeside, hcount⟩ := ho₂.closeUsed_beside (by omega) rfl hi
  simp only [hi, Option.bind_some, Option.some.injEq] at hr
  subst hr
  have hsame : ∀ y, m₁.taken y = true → y ≠ x → m₃.region y = m₁.region y := by
    intro y hy hne
    rw [hreg, Function.update_of_ne hne, hs₂.region y hy]
  refine ⟨rfl, ⟨_, fun hp => if_pos hp, ⟨_, hp, fun y hy => ?_⟩, ?_, ?_,
    by rw [hreg, Function.update_self], fun y hy hne => ?_⟩, _, hp,
    hg₀.trans (hg₁.trans (hg₂.trans (hbeside.grown hcount)))⟩
  · obtain rfl | hne := eq_or_ne y x
    · simp
    have hy₂ : (m₂.region y).used = true := by
      rwa [hreg, Function.update_of_ne hne] at hy
    have hys : y ∈ ys' ↔ y ∈ ys := by
      constructor
      · intro hmem
        apply (hu₁ y _).1 hmem
        rwa [← hsame y (ho₁.taken y (by simp [hmem])) hne]
      · intro hmem
        apply (hu₁ y _).2 hmem
        rwa [← hsame y (hs₁.taken y (h.taken y (by simp [hmem]))) hne]
    simp only [List.mem_append, List.mem_cons, hys, hu₂ y hy₂]
  · exact (hms.trans hs₂.start).trans hs₁.start
  · exact (hme.trans hs₂.stop).trans hs₁.stop
  · have htk := h.taken y hy
    rw [hsame y (hs₁.taken y htk) hne, hs₁.region y htk]

lemma partitionRegion_carved {pre post : Option ℕ} {pages align pid : ℕ} {flags : Flags}
    {r : RegionMap × ℕ} (h : Partition m (ys ++ x :: zs)) (hx : (m.region x).used = false)
    (hstop : m.stop < 2 ^ 64) (hpages : 0 < pages)
    (hfit : (m.region x).start + align + pages ≤ (m.region x).stop)
    (hr : partitionRegion m pre post x pages align flags pid = some r) :
    r.2 = ((m.region x).start + align) * basePageSize % 2 ^ 64 ∧
      ∃ refcount, (pid = 0 → refcount = 1) ∧ Carved m r.1 (ys ++ x :: zs) x
        ⟨(m.region x).start + align + pages, (m.region x).start + align, pid, refcount,
          flags ||| MR_USED⟩ := by
  obtain ⟨haddr, hcarved, -⟩ := partitionRegion_grown h hx hstop hpages hfit hr
  exact ⟨haddr, hcarved⟩

lemma partitionRegion_partition {pre post : Option ℕ} {pages align pid : ℕ} {flags : Flags}
    {r : RegionMap × ℕ} (h : Partition m (ys ++ x :: zs)) (hx : (m.region x).used = false)
    (hstop : m.stop < 2 ^ 64) (hpages : 0 < pages)
    (hfit : (m.region x).start + align + pages ≤ (m.region x).stop)
    (hr : partitionRegion m pre post x pages align flags pid = some r) :
    (∃ xs', Partition r.1 xs') ∧ r.1.start = m.start ∧ r.1.stop = m.stop := by
  obtain ⟨-, refcount, -, hc⟩ := partitionRegion_carved h hx hstop hpages hfit hr
  obtain ⟨xs', hp, -⟩ := hc.whole
  exact ⟨⟨xs', hp⟩, hc.start, hc.stop⟩

lemma partitionRegion_exists {pre post pages align pid : ℕ} {flags : Flags}
    (h : Partition m (ys ++ x :: zs)) (hx : (m.region x).used = false)
    (hstop : m.stop < 2 ^ 64) (hpages : 0 < pages)
    (hfit : (m.region x).start + align + pages ≤ (m.region x).stop)
    (hpre : m.taken pre = false) (hpost : m.taken post = false) (hne : post ≠ pre) :
    ∃ r, partitionRegion m (some pre) (some post) x pages align flags pid = some r := by
  obtain ⟨hlast, hfirst⟩ := h.neighbours_used hx
  obtain ⟨root, heap, hrem, hopen⟩ := h.openFree hx
  have hle := (h.covers.mem (x := x) (by simp)).2.2
  have h₁ : ((m.region x).start + align) % 2 ^ 64 = (m.region x).start + align :=
    Nat.mod_eq_of_lt (by omega)
  have h₂ : ((m.region x).start + align + pages) % 2 ^ 64 = (m.region x).start + align + pages :=
    Nat.mod_eq_of_lt (by omega)
  obtain ⟨m₁, hs₁, htk⟩ := hopen.splitPre_exists (i := (m.region x).start + align) (by omega)
    (by omega) hlast hpre
  obtain ⟨ys', ho₁, hr₁, -, -⟩ := hopen.splitPre (by omega) (by omega) hlast hs₁
  have hzs : ∀ y ∈ zs.head?, (m₁.region y).used = true := by
    intro y hy
    rw [hr₁.region y (h.taken y (by simp [List.mem_of_head? hy]))]
    exact hfirst y hy
  obtain ⟨m₂, hs₂⟩ := ho₁.splitPost_exists (i := (m.region x).start + align + pages) (by omega)
    (by omega) hzs ((htk post hne).trans hpost)
  obtain ⟨zs', ho₂, -⟩ := ho₁.splitPost (by omega) (by omega) hzs hs₂
  obtain ⟨m₃, hi, -⟩ := ho₂.closeUsed (g := ⟨(m.region x).start + align + pages,
    (m.region x).start + align, pid, if pid = 0 then 1 else (m₂.region x).refcount,
    flags ||| MR_USED⟩) (by omega) rfl rfl (used_of_or rfl)
  refine ⟨(m₃, ((m.region x).start + align) * basePageSize % 2 ^ 64), ?_⟩
  simp only [partitionRegion, hrem, h₁, h₂, hs₁, hs₂, hi, Option.bind_eq_bind, Option.bind_some]

end Kmi.Regions
