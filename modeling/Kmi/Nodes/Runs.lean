import Kmi.Nodes.Lists

/-! The node allocator hands out each free slot once, in every run in which the next
region with room is found. -/

namespace Kmi.Nodes

open Library.LinkedList Mem

variable {r r' : NodeRoot} {pages avail : List ℕ} {live : Finset ℕ} {nr i p : ℕ}

structure Fits (r : NodeRoot) : Prop where
  size_pos : 0 < r.nodeSize
  max_pos : 0 < r.maxNodes
  inside : r.firstNode + r.maxNodes * r.nodeSize ≤ 4096

def usedSlots (r : NodeRoot) (nr : ℕ) : Finset ℕ := {i ∈ Finset.range r.maxNodes | r.bitmap nr i = true}

structure Counted (r : NodeRoot) (pages : List ℕ) (live : Finset ℕ) : Prop where
  fits : Fits r
  used : ∀ x ∈ pages, r.usedNodes x = (usedSlots r x).card
  live : ∀ p, p ∈ live ↔ ∃ x ∈ pages, ∃ i ∈ usedSlots r x, p = slot r x i

structure Inv (r : NodeRoot) (pages avail : List ℕ) (live : Finset ℕ) : Prop where
  lists : Lists r pages avail
  counted : Counted r pages live
  room : ∀ x ∈ avail, r.usedNodes x < r.maxNodes

lemma Fits.slot_lt (h : Fits r) (hi : i < r.maxNodes) : i * r.nodeSize + r.firstNode < 4096 := by
  have hle : (i + 1) * r.nodeSize ≤ r.maxNodes * r.nodeSize := Nat.mul_le_mul_right _ hi
  have := h.inside
  have := h.size_pos
  rw [add_mul, one_mul] at hle
  omega

lemma Fits.nodeRegion_slot (h : Fits r) (hi : i < r.maxNodes) : nodeRegion (slot r nr i) = nr := by
  have := h.slot_lt hi
  rw [nodeRegion, slot]
  omega

lemma Fits.nodeIndex_slot (h : Fits r) (hi : i < r.maxNodes) : nodeIndex r (slot r nr i) = i := by
  rw [nodeIndex, h.nodeRegion_slot hi, slot, Nat.add_sub_cancel]
  exact Nat.mul_div_cancel _ h.size_pos

lemma Fits.slot_inj (h : Fits r) {x y j : ℕ} (hi : i < r.maxNodes) (hj : j < r.maxNodes)
    (he : slot r x i = slot r y j) : x = y ∧ i = j := by
  have hx := @Fits.nodeRegion_slot r x i h hi
  have hi' := @Fits.nodeIndex_slot r x i h hi
  rw [he, h.nodeRegion_slot hj] at hx
  rw [he, h.nodeIndex_slot hj] at hi'
  exact ⟨hx.symm, hi'.symm⟩

lemma mem_usedSlots : i ∈ usedSlots r nr ↔ i < r.maxNodes ∧ r.bitmap nr i = true := by
  simp [usedSlots]

lemma Counted.used_le (h : Counted r pages live) (hnr : nr ∈ pages) : r.usedNodes nr ≤ r.maxNodes := by
  rw [h.used nr hnr]
  calc (usedSlots r nr).card ≤ (Finset.range r.maxNodes).card := Finset.card_filter_le _ _
    _ = r.maxNodes := Finset.card_range _

lemma Fits.max_le (h : Fits r) : r.maxNodes ≤ 4096 := by
  have := Nat.le_mul_of_pos_right r.maxNodes h.size_pos
  have := h.inside
  omega

structure SameSlots (r r' : NodeRoot) : Prop where
  nodeSize : r'.nodeSize = r.nodeSize
  maxNodes : r'.maxNodes = r.maxNodes
  firstNode : r'.firstNode = r.firstNode
  usedNodes : r'.usedNodes = r.usedNodes
  bitmap : r'.bitmap = r.bitmap

lemma SameSlots.trans {r'' : NodeRoot} (h : SameSlots r r') (h' : SameSlots r' r'') : SameSlots r r'' :=
  ⟨h'.1.trans h.1, h'.2.trans h.2, h'.3.trans h.3, h'.4.trans h.4, h'.5.trans h.5⟩

lemma Counted.congr (h : Counted r pages live) (hs : SameSlots r r') : Counted r' pages live := by
  have hu : ∀ x, usedSlots r' x = usedSlots r x := fun x => by
    rw [usedSlots, usedSlots, hs.maxNodes, hs.bitmap]
  have hslot : ∀ x i, slot r' x i = slot r x i := fun x i => by
    rw [slot, slot, hs.nodeSize, hs.firstNode]
  refine ⟨?_, fun x hx => ?_, fun p => ?_⟩
  · have := h.fits
    refine ⟨by rw [hs.nodeSize]; exact this.1, by rw [hs.maxNodes]; exact this.2, ?_⟩
    rw [hs.nodeSize, hs.maxNodes, hs.firstNode]
    exact this.3
  · rw [hs.usedNodes, hu]
    exact h.used x hx
  · simp only [hu, hslot]
    exact h.live p

lemma popAvHead_sameSlots (r : NodeRoot) : SameSlots r (popAvHead r) := by
  unfold popAvHead
  split <;> exact ⟨rfl, rfl, rfl, rfl, rfl⟩

lemma freeRegion_sameSlots (r : NodeRoot) (nr : ℕ) : SameSlots r (freeRegion r nr) := by
  have h₁ : SameSlots r (leaveAv r nr) := by
    simp only [leaveAv]
    split_ifs
    · have h := popAvHead_sameSlots { r with
        av := (r.av.setPrev (r.av.next nr) (r.av.prev nr)).setNext (r.av.prev nr) (r.av.next nr) }
      exact ⟨h.1, h.2, h.3, h.4, h.5⟩
    · exact ⟨rfl, rfl, rfl, rfl, rfl⟩
  refine h₁.trans ?_
  simp only [leaveRegions, freeRegion_eq]
  split_ifs <;> exact ⟨rfl, rfl, rfl, rfl, rfl⟩

lemma Lists.congr (h : Lists r pages avail) (hr : r'.regions = r.regions) (hh : r'.head = r.head)
    (ha : r'.av = r.av) (hah : r'.avHead = r.avHead) : Lists r' pages avail := by
  refine ⟨?_, ?_, h.subset, ?_⟩
  · rw [hr, hh]
    exact h.regions
  · rw [ha, hah]
    exact h.available
  · rw [ha]
    exact h.rest

def mark (r : NodeRoot) (nr i : ℕ) (b : Bool) (n : ℕ) : NodeRoot :=
  { r with
    bitmap := Function.update r.bitmap nr (Function.update (r.bitmap nr) i b)
    usedNodes := Function.update r.usedNodes nr n }

lemma usedSlots_mark_of_ne {x n : ℕ} {b : Bool} (h : x ≠ nr) :
    usedSlots (mark r nr i b n) x = usedSlots r x := by
  simp [usedSlots, mark, h]

lemma usedSlots_mark_true {n : ℕ} (hi : i < r.maxNodes) :
    usedSlots (mark r nr i true n) nr = insert i (usedSlots r nr) := by
  ext j
  by_cases hj : j = i <;> simp [usedSlots, mark, hj, hi]

lemma usedSlots_mark_false {n : ℕ} : usedSlots (mark r nr i false n) nr = (usedSlots r nr).erase i := by
  ext j
  by_cases hj : j = i <;> simp [usedSlots, mark, hj]

lemma Counted.take (h : Counted r pages live) (hnr : nr ∈ pages) (hi : i < r.maxNodes)
    (hfree : r.bitmap nr i = false) :
    slot r nr i ∉ live ∧
      Counted (mark r nr i true (r.usedNodes nr + 1)) pages (insert (slot r nr i) live) := by
  have hnew : i ∉ usedSlots r nr := by simp [mem_usedSlots, hfree]
  refine ⟨fun hmem => ?_, ⟨h.fits.1, h.fits.2, h.fits.3⟩, fun x hx => ?_, fun p => ?_⟩
  · obtain ⟨x, -, j, hj, he⟩ := (h.live _).1 hmem
    obtain ⟨rfl, rfl⟩ := h.fits.slot_inj hi (mem_usedSlots.1 hj).1 he
    exact hnew hj
  · by_cases he : x = nr
    · subst he
      rw [usedSlots_mark_true hi, Finset.card_insert_of_notMem hnew, ← h.used x hx]
      simp [mark]
    · rw [usedSlots_mark_of_ne he, ← h.used x hx]
      simp [mark, he]
  · rw [Finset.mem_insert, h.live]
    constructor
    · rintro (rfl | ⟨x, hx, j, hj, rfl⟩)
      · exact ⟨nr, hnr, i, by simp [usedSlots_mark_true hi], rfl⟩
      · refine ⟨x, hx, j, ?_, rfl⟩
        by_cases he : x = nr
        · subst he
          simp [usedSlots_mark_true hi, hj]
        · rwa [usedSlots_mark_of_ne he]
    · rintro ⟨x, hx, j, hj, rfl⟩
      by_cases he : x = nr
      · subst he
        rw [usedSlots_mark_true hi, Finset.mem_insert] at hj
        obtain rfl | hj := hj
        · exact .inl rfl
        · exact .inr ⟨x, hx, j, hj, rfl⟩
      · rw [usedSlots_mark_of_ne he] at hj
        exact .inr ⟨x, hx, j, hj, rfl⟩

lemma Counted.give (h : Counted r pages live) (hnr : nr ∈ pages) (hi : i ∈ usedSlots r nr) :
    Counted (mark r nr i false (r.usedNodes nr - 1)) pages (live.erase (slot r nr i)) := by
  have hlt := (mem_usedSlots.1 hi).1
  refine ⟨⟨h.fits.1, h.fits.2, h.fits.3⟩, fun x hx => ?_, fun p => ?_⟩
  · by_cases he : x = nr
    · subst he
      rw [usedSlots_mark_false, Finset.card_erase_of_mem hi, ← h.used x hx]
      simp [mark]
    · rw [usedSlots_mark_of_ne he, ← h.used x hx]
      simp [mark, he]
  · rw [Finset.mem_erase, h.live]
    constructor
    · rintro ⟨hne, x, hx, j, hj, rfl⟩
      refine ⟨x, hx, j, ?_, rfl⟩
      by_cases he : x = nr
      · subst he
        rw [usedSlots_mark_false, Finset.mem_erase]
        refine ⟨?_, hj⟩
        rintro rfl
        exact hne rfl
      · rwa [usedSlots_mark_of_ne he]
    · rintro ⟨x, hx, j, hj, rfl⟩
      have hj' : j ∈ usedSlots r x ∧ (x = nr → j ≠ i) := by
        by_cases he : x = nr
        · subst he
          rw [usedSlots_mark_false, Finset.mem_erase] at hj
          exact ⟨hj.2, fun _ => hj.1⟩
        · rw [usedSlots_mark_of_ne he] at hj
          exact ⟨hj, fun h => absurd h he⟩
      refine ⟨fun he => ?_, x, hx, j, hj'.1, rfl⟩
      obtain ⟨rfl, rfl⟩ := h.fits.slot_inj (mem_usedSlots.1 hj'.1).1 hlt he
      exact hj'.2 rfl rfl

lemma ensureAvHead_slots (hh : r.avHead = none) :
    (ensureAvHead r nr).nodeSize = r.nodeSize ∧ (ensureAvHead r nr).maxNodes = r.maxNodes ∧
      (ensureAvHead r nr).firstNode = r.firstNode ∧
      (ensureAvHead r nr).usedNodes = Function.update r.usedNodes nr 0 ∧
      (ensureAvHead r nr).bitmap = Function.update r.bitmap nr fun _ => false := by
  simp [ensureAvHead, hh, createRegion]

lemma Counted.create (h : Counted r pages live) (hh : r.avHead = none) (hnr : nr ∉ pages) :
    Counted (ensureAvHead r nr) (nr :: pages) live := by
  obtain ⟨hsize, hmax, hfirst, hused, hbits⟩ := @ensureAvHead_slots r nr hh
  have hnew : usedSlots (ensureAvHead r nr) nr = ∅ := by simp [usedSlots, hbits]
  have hold : ∀ x ∈ pages, usedSlots (ensureAvHead r nr) x = usedSlots r x := by
    intro x hx
    have : x ≠ nr := fun e => hnr (e ▸ hx)
    simp [usedSlots, hbits, hmax, this]
  refine ⟨?_, ?_, fun p => ?_⟩
  · refine ⟨by rw [hsize]; exact h.fits.1, by rw [hmax]; exact h.fits.2, ?_⟩
    rw [hsize, hmax, hfirst]
    exact h.fits.3
  · intro x hx
    obtain rfl | hx := List.mem_cons.1 hx
    · simp [hused, hnew]
    · have : x ≠ nr := fun e => hnr (e ▸ hx)
      rw [hold x hx, hused, Function.update_of_ne this]
      exact h.used x hx
  · rw [h.live]
    simp only [slot, hsize, hfirst, List.mem_cons, exists_eq_or_imp, hnew, Finset.notMem_empty, false_and,
      exists_false, false_or]
    exact exists_congr fun x => and_congr_right fun hx => by rw [hold x hx]

lemma Inv.ensureAvHead (h : Inv r pages avail live) (hnr : nr ∉ pages) :
    ∃ pages' avail' x, Inv (ensureAvHead r nr) pages' avail' live ∧
      (Nodes.ensureAvHead r nr).avHead = some x := by
  cases hh : r.avHead with
  | some x =>
    have : Nodes.ensureAvHead r nr = r := by simp only [Nodes.ensureAvHead, hh]
    rw [this]
    exact ⟨pages, avail, x, h, hh⟩
  | none =>
    have havail : avail = [] := by
      have := h.lists.available
      rw [hh] at this
      obtain ⟨-, last, hs⟩ := this
      exact List.head?_eq_none_iff.1 hs.first_eq.symm
    subst havail
    refine ⟨nr :: pages, [nr], nr, ⟨h.lists.create hnr, h.counted.create hh hnr, ?_⟩, ?_⟩
    · obtain ⟨-, hmax, -, hused, -⟩ := @ensureAvHead_slots r nr hh
      simpa [hused, hmax] using h.counted.fits.max_pos
    · simp only [Nodes.ensureAvHead, hh]

lemma Counted.find_slot (h : Counted r pages live) (hnr : nr ∈ pages)
    (hroom : r.usedNodes nr < r.maxNodes) :
    ∃ i, ((List.range r.maxNodes).find? fun i => !r.bitmap nr i) = some i ∧ i < r.maxNodes ∧
      r.bitmap nr i = false := by
  cases hf : (List.range r.maxNodes).find? fun i => !r.bitmap nr i with
  | some i =>
    refine ⟨i, rfl, ?_, ?_⟩
    · simpa using List.mem_of_find?_eq_some hf
    · simpa using List.find?_some hf
  | none =>
    -- every bit is set, so the region is full
    have hall : usedSlots r nr = Finset.range r.maxNodes := by
      ext i
      have := List.find?_eq_none.1 hf i
      simp only [List.mem_range, Bool.not_eq_true', Bool.not_eq_false] at this
      rw [mem_usedSlots, Finset.mem_range]
      exact ⟨fun h => h.1, fun h => ⟨h, this h⟩⟩
    rw [h.used nr hnr, hall, Finset.card_range] at hroom
    exact absurd hroom (lt_irrefl _)

lemma getNode_eq {h q : ℕ} (hh : (ensureAvHead r q).avHead = some h)
    (hf : ((List.range (ensureAvHead r q).maxNodes).find? fun i => !(ensureAvHead r q).bitmap h i) = some i)
    (hlt : (ensureAvHead r q).usedNodes h + 1 < 2 ^ 64) :
    getNode r q = (
      let r' := mark (ensureAvHead r q) h i true ((ensureAvHead r q).usedNodes h + 1)
      if (ensureAvHead r q).usedNodes h + 1 = (ensureAvHead r q).maxNodes then popAvHead r' else r',
      some (slot (ensureAvHead r q) h i)) := by
  simp only [getNode, hh, findFreeNode, hf, Nat.mod_eq_of_lt hlt, mark]

def GetInOrder (r : NodeRoot) : Prop :=
  ∀ h, r.avHead = some h → r.usedNodes h + 1 = r.maxNodes → InOrder r h

lemma GetInOrder.ensureAvHead {x q : ℕ} (h : GetInOrder r) (hl : Lists r pages avail) (hq : q ∉ pages)
    (hx : (ensureAvHead r q).avHead = some x)
    (hfull : (Nodes.ensureAvHead r q).usedNodes x + 1 = (Nodes.ensureAvHead r q).maxNodes) :
    InOrder (Nodes.ensureAvHead r q) x := by
  cases hh : r.avHead with
  | some y =>
    have : Nodes.ensureAvHead r q = r := by simp only [Nodes.ensureAvHead, hh]
    rw [this] at hx hfull ⊢
    exact h x hx hfull
  | none =>
    -- a new region is the last one, and the only one with room
    have hhead : r.head ≠ some q := fun e => hq (e ▸ hl.regions).head_mem
    simp only [Nodes.ensureAvHead, hh, Option.some.injEq] at hx
    subst hx
    simp [InOrder, Nodes.ensureAvHead, hh, createRegion, straight, hhead]

lemma ensureAvHead_sizes (r : NodeRoot) (q : ℕ) :
    (ensureAvHead r q).nodeSize = r.nodeSize ∧ (ensureAvHead r q).maxNodes = r.maxNodes ∧
      (ensureAvHead r q).firstNode = r.firstNode := by
  unfold ensureAvHead
  split <;> exact ⟨rfl, rfl, rfl⟩

lemma Inv.take {x : ℕ} (h : Inv r pages avail live) (hx : r.avHead = some x) (hi : i < r.maxNodes)
    (hfree : r.bitmap x i = false)
    (ho : r.usedNodes x + 1 = r.maxNodes → InOrder r x) :
    ∃ avail', Inv (let r' := mark r x i true (r.usedNodes x + 1)
      if r.usedNodes x + 1 = r.maxNodes then popAvHead r' else r') pages avail'
      (insert (slot r x i) live) := by
  have hmem := (hx ▸ h.lists.available).head_mem
  have hc := (h.counted.take (h.lists.subset x hmem) hi hfree).2
  have hl : Lists (mark r x i true (r.usedNodes x + 1)) pages avail := h.lists.congr rfl rfl rfl rfl
  have hother : ∀ y, y ≠ x → (mark r x i true (r.usedNodes x + 1)).usedNodes y = r.usedNodes y :=
    fun y hy => Function.update_of_ne hy _ _
  dsimp only
  split_ifs with hfull
  · have hs := popAvHead_sameSlots (mark r x i true (r.usedNodes x + 1))
    refine ⟨avail.erase x, hl.pop hx (ho hfull), hc.congr hs, fun y hy => ?_⟩
    obtain ⟨hne, hy⟩ := h.lists.available.1.mem_erase_iff.1 hy
    rw [hs.usedNodes, hs.maxNodes, hother y hne]
    exact h.room y hy
  · refine ⟨avail, hl, hc, fun y hy => ?_⟩
    by_cases hne : y = x
    · have := h.room x hmem
      subst hne
      simp only [mark, Function.update_self]
      omega
    · rw [hother y hne]
      exact h.room y hy

lemma Inv.getNode {q : ℕ} (h : Inv r pages avail live) (hq : q ∉ pages) :
    ∃ x i, i < r.maxNodes ∧ (getNode r q).2 = some (slot r x i) ∧ slot r x i ∉ live ∧
      (GetInOrder r → ∃ pages' avail', Inv (getNode r q).1 pages' avail' (insert (slot r x i) live)) := by
  obtain ⟨pages', avail', x, hinv, hx⟩ := h.ensureAvHead hq
  have hmem := (hx ▸ hinv.lists.available).head_mem
  have hp := hinv.lists.subset x hmem
  obtain ⟨i, hf, hi, hfree⟩ := hinv.counted.find_slot hp (hinv.room x hmem)
  have hlt := (hinv.room x hmem).trans_le hinv.counted.fits.max_le
  obtain ⟨hsize, hmax, hfirst⟩ := ensureAvHead_sizes r q
  have hslot : slot (Nodes.ensureAvHead r q) x i = slot r x i := by
    rw [slot, slot, hsize, hfirst]
  have hget := getNode_eq hx hf (by omega)
  rw [hslot] at hget
  refine ⟨x, i, hmax ▸ hi, by rw [hget], ?_, fun ho => ?_⟩
  · rw [← hslot]
    exact (hinv.counted.take hp hi hfree).1
  · obtain ⟨avail'', hI⟩ := hinv.take hx hi hfree fun hfull => ho.ensureAvHead h.lists hq hx hfull
    rw [hget, ← hslot]
    exact ⟨pages', avail'', hI⟩

lemma Counted.drop (h : Counted r pages live) (hnr : nr ∈ pages) (hzero : r.usedNodes nr = 0) :
    Counted r (if pages = [nr] then pages else pages.erase nr) live := by
  have hempty : usedSlots r nr = ∅ := by
    rw [← Finset.card_eq_zero, ← h.used nr hnr, hzero]
  split_ifs
  · exact h
  · refine ⟨h.fits, fun x hx => h.used x (List.mem_of_mem_erase hx), fun p => ?_⟩
    rw [h.live]
    constructor
    · rintro ⟨x, hx, i, hi, rfl⟩
      have hne : x ≠ nr := by
        rintro rfl
        simp [hempty] at hi
      exact ⟨x, (List.mem_erase_of_ne hne).2 hx, i, hi, rfl⟩
    · rintro ⟨x, hx, i, hi, rfl⟩
      exact ⟨x, List.mem_of_mem_erase hx, i, hi, rfl⟩

def FreeInOrder (r : NodeRoot) (p : ℕ) : Prop :=
  r.usedNodes (nodeRegion p) = 1 → Removable r (nodeRegion p)

lemma freeNode_eq {n : ℕ} (hr : nodeRegion p = nr) (hi : nodeIndex r p = i)
    (hn : decr (r.usedNodes nr) = n) :
    freeNode r p = (
      let r' := mark r nr i false n
      if n = 0 then freeRegion r' nr
      else if r'.av.next nr = none ∧ r'.av.prev nr = none then pushAvHead r' nr
      else r') := by
  subst hr hi hn
  rfl

lemma Inv.freeNode (h : Inv r pages avail live) (hp : p ∈ live) (ho : FreeInOrder r p) :
    ∃ pages' avail', Inv (freeNode r p) pages' avail' (live.erase p) := by
  obtain ⟨x, hx, i, hi, rfl⟩ := (h.counted.live p).1 hp
  have hlt := (mem_usedSlots.1 hi).1
  have hpos : 0 < r.usedNodes x := by
    rw [h.counted.used x hx]
    exact Finset.card_pos.2 ⟨i, hi⟩
  have hle := h.counted.used_le hx
  have hmax := h.counted.fits.max_le
  have hdecr : decr (r.usedNodes x) = r.usedNodes x - 1 := decr_eq hpos (by omega)
  have hc := h.counted.give hx hi
  have hl : Lists (mark r x i false (r.usedNodes x - 1)) pages avail := h.lists.congr rfl rfl rfl rfl
  rw [FreeInOrder, h.counted.fits.nodeRegion_slot hlt] at ho
  rw [freeNode_eq (h.counted.fits.nodeRegion_slot hlt) (h.counted.fits.nodeIndex_slot hlt) hdecr]
  dsimp only
  have hused : (mark r x i false (r.usedNodes x - 1)).usedNodes x = r.usedNodes x - 1 :=
    Function.update_self ..
  have hother : ∀ y, y ≠ x → (mark r x i false (r.usedNodes x - 1)).usedNodes y = r.usedNodes y :=
    fun y hy => Function.update_of_ne hy _ _
  have hroom : ∀ y ∈ avail, (mark r x i false (r.usedNodes x - 1)).usedNodes y < r.maxNodes := by
    intro y hy
    by_cases hne : y = x
    · rw [hne, hused]
      omega
    · rw [hother y hne]
      exact h.room y hy
  split_ifs with hzero hfree
  · have hs := freeRegion_sameSlots (mark r x i false (r.usedNodes x - 1)) x
    refine ⟨_, _, hl.free hx (ho (by omega)), ?_, fun y hy => ?_⟩
    · -- the region has no used slot left, so no node goes with it
      apply Counted.congr _ hs
      apply hc.drop hx
      rw [hused, hzero]
    · rw [hs.usedNodes, hs.maxNodes]
      exact hroom y (List.mem_of_mem_erase hy)
  · refine ⟨pages, _, hl.push hx hfree.1 hfree.2, hc.congr ⟨rfl, rfl, rfl, rfl, rfl⟩, fun y hy => ?_⟩
    change (mark r x i false (r.usedNodes x - 1)).usedNodes y < r.maxNodes
    split_ifs at hy with hmem
    · exact hroom y hy
    · obtain rfl | hy := List.mem_cons.1 hy
      · rw [hused]
        omega
      · exact hroom y hy
  · exact ⟨pages, avail, hl, hc, hroom⟩

def RoomForNode (nodeSize : ℕ) : Prop :=
  0 < nodeSize ∧
    alignUp (sizeofNodeRegion + (4096 / nodeSize / 8 + 1)) nodeSize / nodeSize < 4096 / nodeSize

lemma initNodes_fits {nodeSize : ℕ} (h : RoomForNode nodeSize) : Fits (initNodes nodeSize nr) := by
  obtain ⟨hpos, hlt⟩ := h
  have hmax : 4096 / nodeSize ≤ 4096 := Nat.div_le_self _ _
  have hsize : nodeSize ≤ 4096 := by
    by_contra hgt
    rw [Nat.div_eq_of_lt (by omega : 4096 < nodeSize)] at hlt
    exact Nat.not_lt_zero _ hlt
  have halign := @alignUp_eq (sizeofNodeRegion + (4096 / nodeSize / 8 + 1)) nodeSize hpos
    (by simp only [sizeofNodeRegion]; omega)
  have hmul := Nat.div_mul_le_self 4096 nodeSize
  simp only [halign, Nat.mul_div_cancel_left _ hpos] at hlt
  generalize hk : (sizeofNodeRegion + (4096 / nodeSize / 8 + 1) + (nodeSize - 1)) / nodeSize = k at *
  generalize hM : 4096 / nodeSize = M at *
  have hnodes : (initNodes nodeSize nr).maxNodes = M - k := by
    simp only [initNodes, hM, halign, Nat.mul_div_cancel_left _ hpos]
    omega
  have hfirst : (initNodes nodeSize nr).firstNode = nodeSize * k := by
    simp only [initNodes, hM, halign]
  refine ⟨hpos, by omega, ?_⟩
  rw [hnodes, hfirst]
  change nodeSize * k + (M - k) * nodeSize ≤ 4096
  calc nodeSize * k + (M - k) * nodeSize = (k + (M - k)) * nodeSize := by ring
    _ = M * nodeSize := by rw [Nat.add_sub_of_le hlt.le]
    _ ≤ 4096 := hmul

lemma initNodes_inv {nodeSize : ℕ} (h : RoomForNode nodeSize) : Inv (initNodes nodeSize nr) [nr] [nr] ∅ := by
  have hfits := @initNodes_fits nr nodeSize h
  have hslots : usedSlots (initNodes nodeSize nr) nr = ∅ := by
    simp [usedSlots, initNodes, createRegion]
  have hused : (initNodes nodeSize nr).usedNodes nr = 0 := by
    simp [initNodes, createRegion]
  refine ⟨⟨?_, ?_, by simp, by simp⟩, ⟨hfits, by simp [hslots, hused], by simp [hslots]⟩, ?_⟩
  · exact ⟨by simp, some nr, rfl, by simp [initNodes, createRegion, Chain.flip],
      rfl, by simp [initNodes, createRegion, Chain.flip]⟩
  · exact ⟨by simp, some nr, rfl, by simp [initNodes, createRegion, straight],
      rfl, by simp [initNodes, createRegion, straight]⟩
  · simpa [hused] using hfits.max_pos

inductive Runs : NodeRoot → Finset ℕ → Prop
  | init (nodeSize nr : ℕ) : RoomForNode nodeSize → Runs (initNodes nodeSize nr) ∅
  | get {r : NodeRoot} {live : Finset ℕ} {p : ℕ} (q : ℕ) : Runs r live →
      ¬ Met r.regions.prev r.head q → GetInOrder r → (getNode r q).2 = some p →
      Runs (getNode r q).1 (insert p live)
  | free {r : NodeRoot} {live : Finset ℕ} (p : ℕ) : Runs r live → p ∈ live → FreeInOrder r p →
      Runs (freeNode r p) (live.erase p)

lemma Lists.met_iff (h : Lists r pages avail) {q : ℕ} : Met r.regions.prev r.head q ↔ q ∈ pages :=
  h.regions.met_iff

lemma Runs.inv (h : Runs r live) : ∃ pages avail, Inv r pages avail live := by
  induction h with
  | init nodeSize nr hfit => exact ⟨[nr], [nr], initNodes_inv hfit⟩
  | get q _ hq ho hp ih =>
    obtain ⟨pages, avail, hI⟩ := ih
    obtain ⟨x, i, -, hget, -, hstep⟩ := hI.getNode (mt hI.lists.met_iff.2 hq)
    rw [hget] at hp
    obtain rfl := Option.some.inj hp
    exact hstep ho
  | free p _ hp ho ih =>
    obtain ⟨pages, avail, hI⟩ := ih
    exact hI.freeNode hp ho

lemma Inv.met_av (h : Inv r pages avail live) (hm : Met r.av.next r.avHead nr) : nr ∈ avail := by
  apply @Met.of_closed ℕ nr r.av.next (· ∈ avail) r.avHead hm
  · exact fun y hy => (hy ▸ h.lists.available).head_mem
  · intro y z hy hz
    by_cases he : z = y
    · exact he ▸ hy
    · refine h.lists.available.neighbours_mem hy (.inl ?_)
      simp [straight, hz, he]

theorem run_slots_counted {r : NodeRoot} {live : Finset ℕ} (h : Runs r live) :
    (∀ q, ¬ Met r.regions.prev r.head q →
      ∃ nr i, i < r.maxNodes ∧ (getNode r q).2 = some (slot r nr i) ∧ slot r nr i ∉ live) ∧
    (∀ nr, Met r.regions.prev r.head nr →
      r.usedNodes nr = (usedSlots r nr).card ∧ r.usedNodes nr ≤ r.maxNodes) ∧
    ∀ nr, Met r.av.next r.avHead nr → ∃ i < r.maxNodes, r.bitmap nr i = false := by
  obtain ⟨pages, avail, hI⟩ := h.inv
  refine ⟨fun q hq => ?_, fun nr hnr => ?_, fun nr hnr => ?_⟩
  · obtain ⟨x, i, hi, hget, hnew, -⟩ := hI.getNode (mt hI.lists.met_iff.2 hq)
    exact ⟨x, i, hi, hget, hnew⟩
  · have hmem := hI.lists.met_iff.1 hnr
    exact ⟨hI.counted.used nr hmem, hI.counted.used_le hmem⟩
  · have hmem := hI.met_av hnr
    obtain ⟨i, -, hi, hfree⟩ := hI.counted.find_slot (hI.lists.subset nr hmem) (hI.room nr hmem)
    exact ⟨i, hi, hfree⟩

lemma initNodes_runs : Runs (initNodes 1024 7) ∅ := .init 1024 7 (by simp only [RoomForNode]; decide)

theorem run_slots_counted_two :
    ∃ r, Runs r {29696} ∧ ∃ p, (getNode r 8).2 = some p ∧ p ∉ ({29696} : Finset ℕ) := by
  have hget : Runs (getNode (initNodes 1024 7) 8).1 {29696} := by
    refine .get 8 initNodes_runs ?_ ?_ (by decide +kernel)
    · exact fun hm => absurd ((initNodes_inv (by simp only [RoomForNode]; decide)).lists.met_iff.1 hm)
        (by decide)
    · intro h hh hfull
      obtain rfl : 7 = h := Option.some.inj hh
      exact absurd hfull (by decide +kernel)
  have hfresh : ¬ Met (getNode (initNodes 1024 7) 8).1.regions.prev (getNode (initNodes 1024 7) 8).1.head 8 := by
    intro hm
    have h7 : 8 = 7 := hm.of_closed (S := (· = 7)) (fun y hy => (Option.some.inj hy).symm) (by
      rintro y z rfl hz
      cases hz)
    exact absurd h7 (by decide)
  obtain ⟨nr, i, -, hp, hnew⟩ := (run_slots_counted hget).1 8 hfresh
  exact ⟨_, hget, _, hp, hnew⟩

inductive NodeEvent where
  | get (q : ℕ)
  | free (p : ℕ)

def returned : NodeRoot → List NodeEvent → List (Option ℕ)
  | _, [] => []
  | r, .get q :: events => (getNode r q).2 :: returned (getNode r q).1 events
  | r, .free p :: events => returned (freeNode r p) events

theorem full_region_returns_null :
    returned (initNodes 1024 7) [.get 8, .get 8, .get 8, .get 8, .get 8, .get 8, .free 29696, .get 9, .get 9] =
      [some 29696, some 30720, some 31744, some 33792, some 34816, some 35840, some 29696, none] := by
  decide +kernel

end Kmi.Nodes
