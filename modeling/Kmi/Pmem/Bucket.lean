import Kmi.Pmem.Model

/-! One bucket: its counters count the set bits, and its free list holds exactly
the sets that are partly used. -/

namespace Kmi.Pmem

open Kmi.Library.LinkedList Kmi.Mem

def popcount (map : ℕ → Bool) (n : ℕ) : ℕ := ((Finset.range n).filter fun i => map i = true).card

lemma popcount_le (map : ℕ → Bool) (n : ℕ) : popcount map n ≤ n := by
  simpa [popcount] using Finset.card_filter_le (Finset.range n) fun i => map i = true

lemma popcount_pos {map : ℕ → Bool} {n i : ℕ} (hi : i < n) (h : map i = true) :
    0 < popcount map n :=
  Finset.card_pos.mpr ⟨i, by simp [hi, h]⟩

lemma popcount_set {map : ℕ → Bool} {n i : ℕ} (hi : i < n) (h : map i = false) :
    popcount (Function.update map i true) n = popcount map n + 1 := by
  have he : ((Finset.range n).filter fun j => Function.update map i true j = true) =
      insert i ((Finset.range n).filter fun j => map j = true) := by
    ext j
    by_cases hj : j = i <;> simp [hj, hi]
  rw [popcount, he, Finset.card_insert_of_notMem (by simp [h]), popcount]

lemma popcount_clear {map : ℕ → Bool} {n i : ℕ} (hi : i < n) (h : map i = true) :
    popcount (Function.update map i false) n + 1 = popcount map n := by
  have := @popcount_set (Function.update map i false) n i hi (by simp)
  rw [Function.update_idem] at this
  rw [← this]
  congr 1
  ext j
  by_cases hj : j = i <;> simp [hj, h]

lemma findFirstUnset_spec {map : ℕ → Bool} {n : ℕ} (h : popcount map n < n) :
    findFirstUnset map n < n ∧ map (findFirstUnset map n) = false := by
  have hex : ∃ i < n, map i = false := by
    by_contra hc
    push Not at hc
    have : popcount map n = n := by
      rw [popcount, Finset.filter_true_of_mem, Finset.card_range]
      intro i hi
      simpa using hc i (by simpa using hi)
    omega
  obtain ⟨i, hi, hf⟩ := hex
  cases hfind : (List.range n).find? fun i => !map i with
  | none =>
    rw [List.find?_eq_none] at hfind
    exact (hfind i (by simpa using hi) (by simp [hf])).elim
  | some j =>
    have hj : findFirstUnset map n = j := by rw [findFirstUnset, hfind, Option.getD_some]
    rw [hj]
    exact ⟨by simpa using List.mem_of_find?_eq_some hfind, by simpa using List.find?_some hfind⟩

section Fields

variable (b : Bucket) (s n i : ℕ) (v : Bool)

@[simp] lemma attachSet_size : (attachSet b s).size = b.size := by unfold attachSet; split <;> rfl
@[simp] lemma attachSet_used : (attachSet b s).used = b.used := by unfold attachSet; split <;> rfl
@[simp] lemma attachSet_map : (attachSet b s).map = b.map := by unfold attachSet; split <;> rfl
@[simp] lemma attachSet_bits : (attachSet b s).bits = b.bits := by unfold attachSet; split <;> rfl
@[simp] lemma attachSet_pageSize : (attachSet b s).pageSize = b.pageSize := by
  unfold attachSet; split <;> rfl

@[simp] lemma detachSet_size : (detachSet b s).size = b.size := rfl
@[simp] lemma detachSet_used : (detachSet b s).used = b.used := rfl
@[simp] lemma detachSet_map : (detachSet b s).map = b.map := rfl
@[simp] lemma detachSet_bits : (detachSet b s).bits = b.bits := rfl
@[simp] lemma detachSet_pageSize : (detachSet b s).pageSize = b.pageSize := rfl

@[simp] lemma setUsed_used : (b.setUsed s n).used = Function.update b.used s n := rfl
@[simp] lemma setUsed_size : (b.setUsed s n).size = b.size := rfl
@[simp] lemma setUsed_map : (b.setUsed s n).map = b.map := rfl
@[simp] lemma setUsed_bits : (b.setUsed s n).bits = b.bits := rfl
@[simp] lemma setUsed_pageSize : (b.setUsed s n).pageSize = b.pageSize := rfl
@[simp] lemma setUsed_head : (b.setUsed s n).head = b.head := rfl
@[simp] lemma setUsed_links : (b.setUsed s n).links = b.links := rfl

@[simp] lemma setBit_used : (b.setBit s i v).used = b.used := rfl
@[simp] lemma setBit_size : (b.setBit s i v).size = b.size := rfl
@[simp] lemma setBit_map :
    (b.setBit s i v).map = Function.update b.map s (Function.update (b.map s) i v) := rfl
@[simp] lemma setBit_bits : (b.setBit s i v).bits = b.bits := rfl
@[simp] lemma setBit_pageSize : (b.setBit s i v).pageSize = b.pageSize := rfl
@[simp] lemma setBit_head : (b.setBit s i v).head = b.head := rfl
@[simp] lemma setBit_links : (b.setBit s i v).links = b.links := rfl

end Fields

def FreeList (b : Bucket) (xs : List ℕ) : Prop :=
  IsList b.links b.head xs ∧ ∀ s ∉ xs, b.links.next s = none ∧ b.links.prev s = none

lemma FreeList.attach {b : Bucket} {xs : List ℕ} {s : ℕ} (h : FreeList b xs) (hs : s ∉ xs) :
    FreeList (attachSet b s) (s :: xs) := by
  obtain ⟨hl, hout⟩ := h
  have hh : b.head ≠ some s := by
    obtain ⟨-, last, hseg⟩ := hl
    intro he
    rw [he] at hseg
    exact hs (mem_of_first hseg)
  obtain ⟨hn, hp⟩ := hout s hs
  have he : attachSet b s = { b with head := some s, links := b.links.push b.head s } := by
    simp [attachSet, hn, hh]
  rw [he]
  refine ⟨hl.push hs hp, fun x hx => ?_⟩
  rw [List.mem_cons, not_or] at hx
  have hxh : b.head ≠ some x := by
    obtain ⟨-, last, hseg⟩ := hl
    intro he
    rw [he] at hseg
    exact hx.2 (mem_of_first hseg)
  simpa [Chain.push, Ne.symm hx.1, hxh] using hout x hx.2

lemma FreeList.detach {b : Bucket} {xs : List ℕ} {s : ℕ} (h : FreeList b xs) (hs : s ∈ xs) :
    FreeList (detachSet b s) (xs.erase s) := by
  obtain ⟨hl, hout⟩ := h
  refine ⟨hl.unlink hs, fun x hx => ?_⟩
  by_cases hxs : x = s
  · subst hxs
    exact unlink_self _ _
  · have hx' : x ∉ xs := fun hm => hx ((List.mem_erase_of_ne hxs).mpr hm)
    obtain ⟨hn, hp⟩ := unlink_of_not_mem hl hs hx'
    obtain ⟨hn', hp'⟩ := hout x hx'
    exact ⟨hn.trans hn', hp.trans hp'⟩

def MissedAttached (b : Bucket) (s : ℕ) : Prop :=
  b.used s < b.size s ∧ b.links.next s = none ∧ b.head ≠ some s

structure BucketOk (sets size : ℕ) (fresh : ℕ → Prop) (b : Bucket) : Prop where
  size_eq : ∀ s < sets, b.size s = size
  used_eq : ∀ s < sets, b.used s = popcount (b.map s) size
  listed : ∃ xs, FreeList b xs ∧
    ∀ s, s ∈ xs ↔ s < sets ∧ b.used s < size ∧ (0 < b.used s ∨ fresh s)

def fill (b : Bucket) (s bit : ℕ) : Bucket :=
  let b := (b.setUsed s (b.used s + 1)).setBit s bit true
  if b.used s = b.size s then detachSet b s else b

variable {sets size s bit : ℕ} {fresh fresh' : ℕ → Prop} {b : Bucket}

@[simp] lemma fill_map : (fill b s bit).map =
    Function.update b.map s (Function.update (b.map s) bit true) := by
  dsimp only [fill]
  split <;> rfl

@[simp] lemma fill_used : (fill b s bit).used = Function.update b.used s (b.used s + 1) := by
  dsimp only [fill]
  split <;> rfl

@[simp] lemma fill_size : (fill b s bit).size = b.size := by
  dsimp only [fill]
  split <;> rfl

@[simp] lemma fill_bits : (fill b s bit).bits = b.bits := by
  dsimp only [fill]
  split <;> rfl

@[simp] lemma fill_pageSize : (fill b s bit).pageSize = b.pageSize := by
  dsimp only [fill]
  split <;> rfl

lemma takePage_eq : takePage b s =
    (findFirstUnset (b.map s) (b.size s), fill b s (findFirstUnset (b.map s) (b.size s))) := rfl

lemma BucketOk.fill (h : BucketOk sets size fresh b) (hs : s < sets) (hbit : bit < size)
    (hb : b.map s bit = false) (hf : 0 < b.used s ∨ fresh s)
    (hfresh : ∀ x, x ≠ s → (fresh' x ↔ fresh x)) : BucketOk sets size fresh' (fill b s bit) := by
  have hcount : popcount (b.map s) size + 1 ≤ size := by
    rw [← popcount_set hbit hb]
    exact popcount_le _ _
  have hused := h.used_eq s hs
  obtain ⟨xs, hl, hmem⟩ := h.listed
  have hsx : s ∈ xs := (hmem s).mpr ⟨hs, by omega, hf⟩
  refine ⟨fun x hx => by simpa using h.size_eq x hx, fun x hx => ?_, ?_⟩
  · by_cases he : x = s
    · subst he
      simp [popcount_set hbit hb, hused]
    · simp [he, h.used_eq x hx]
  · by_cases hfull : b.used s + 1 = size
    · refine ⟨xs.erase s, ?_, fun x => ?_⟩
      · have : Pmem.fill b s bit = detachSet ((b.setUsed s (b.used s + 1)).setBit s bit true) s := by
          simp [Pmem.fill, hfull, h.size_eq s hs]
        rw [this]
        exact FreeList.detach (b := (b.setUsed s (b.used s + 1)).setBit s bit true) hl hsx
      · by_cases he : x = s
        · subst he
          simp [hl.1.1.not_mem_erase, hfull]
        · simp [List.mem_erase_of_ne he, hmem, he, hfresh x he]
    · refine ⟨xs, ?_, fun x => ?_⟩
      · have : Pmem.fill b s bit = (b.setUsed s (b.used s + 1)).setBit s bit true := by
          simp [Pmem.fill, hfull, h.size_eq s hs]
        rw [this]
        exact hl
      · by_cases he : x = s
        · subst he
          simp only [hsx, fill_used, Function.update_self, true_iff]
          omega
        · simp [hmem, he, hfresh x he]

def release (b : Bucket) (s bit : ℕ) : Bucket :=
  let b := attachSet ((b.setUsed s (decr (b.used s))).setBit s bit false) s
  if b.used s = 0 then detachSet b s else b

@[simp] lemma release_map : (release b s bit).map =
    Function.update b.map s (Function.update (b.map s) bit false) := by
  dsimp only [release]
  split <;> simp

@[simp] lemma release_used : (release b s bit).used =
    Function.update b.used s (decr (b.used s)) := by
  dsimp only [release]
  split <;> simp

@[simp] lemma release_size : (release b s bit).size = b.size := by
  dsimp only [release]
  split <;> simp

@[simp] lemma release_bits : (release b s bit).bits = b.bits := by
  dsimp only [release]
  split <;> simp

@[simp] lemma release_pageSize : (release b s bit).pageSize = b.pageSize := by
  dsimp only [release]
  split <;> simp

lemma attachSet_of_listed {xs : List ℕ} (h : FreeList b xs)
    (hm : s ∈ xs → (b.links.next s).isSome ∨ b.head = some s) :
    ∃ ys, FreeList (attachSet b s) ys ∧ s ∈ ys ∧ ∀ x, x ≠ s → (x ∈ ys ↔ x ∈ xs) := by
  by_cases hs : s ∈ xs
  · have : attachSet b s = b := by simp only [attachSet, hm hs, if_true]
    rw [this]
    exact ⟨xs, h, hs, fun _ _ => Iff.rfl⟩
  · exact ⟨s :: xs, h.attach hs, by simp, fun x hx => by simp [hx]⟩

lemma BucketOk.release (h : BucketOk sets size (fun _ => False) b) (hsize : size < 2 ^ 64)
    (hs : s < sets) (hbit : bit < size) (hb : b.map s bit = true) (hm : ¬ MissedAttached b s) :
    BucketOk sets size (fun _ => False) (release b s bit) := by
  have hcount := popcount_clear hbit hb
  have hle := popcount_le (b.map s) size
  have hused := h.used_eq s hs
  have hdec : decr (b.used s) = b.used s - 1 := decr_eq (by omega) (by omega)
  obtain ⟨xs, hl, hmem⟩ := h.listed
  let b₁ := (b.setUsed s (decr (b.used s))).setBit s bit false
  have hl₁ : FreeList b₁ xs := hl
  obtain ⟨ys, hl₂, hsy, hys⟩ := attachSet_of_listed (s := s) hl₁ fun hsx => by
    by_contra hc
    push Not at hc
    refine hm ⟨?_, Option.not_isSome_iff_eq_none.mp hc.1, hc.2⟩
    rw [h.size_eq s hs]
    exact ((hmem s).mp hsx).2.1
  refine ⟨fun x hx => by simpa using h.size_eq x hx, fun x hx => ?_, ?_⟩
  · by_cases he : x = s
    · subst he
      simp only [release_used, release_map, Function.update_self, hdec]
      omega
    · simp [he, h.used_eq x hx]
  · by_cases hz : b.used s - 1 = 0
    · refine ⟨ys.erase s, ?_, fun x => ?_⟩
      · have : Pmem.release b s bit = detachSet (attachSet b₁ s) s := by
          simp [Pmem.release, b₁, hdec, hz]
        rw [this]
        exact hl₂.detach hsy
      · by_cases he : x = s
        · subst he
          simp [hl₂.1.1.not_mem_erase, hdec, hz]
        · simp [List.mem_erase_of_ne he, hys x he, hmem, he]
    · refine ⟨ys, ?_, fun x => ?_⟩
      · have : Pmem.release b s bit = attachSet b₁ s := by
          simp [Pmem.release, b₁, hdec, hz]
        rw [this]
        exact hl₂
      · by_cases he : x = s
        · subst he
          simp only [hsy, release_used, Function.update_self, true_iff, hdec]
          omega
        · simp [hys x he, hmem, he]

lemma clearAll_eq (h : popcount (b.map s) (b.size s) = 0) : b.clearAll s = b := by
  have hmap : Function.update b.map s (fun i => if i < b.size s then false else b.map s i) =
      b.map := by
    refine Function.update_eq_iff.mpr ⟨?_, fun _ _ => rfl⟩
    funext i
    split_ifs with hi
    · have : b.map s i ≠ true := fun hm => by
        have := popcount_pos hi hm
        omega
      simpa using this
    · rfl
  rw [Bucket.clearAll, hmap]

lemma BucketOk.clearAll_eq (h : BucketOk sets size fresh b) (hs : s < sets) (hz : b.used s = 0) :
    b.clearAll s = b := by
  refine Pmem.clearAll_eq ?_
  rw [h.size_eq s hs, ← h.used_eq s hs, hz]

lemma BucketOk.attachEmpty (h : BucketOk sets size fresh b) (hs : s < sets) (hpos : 0 < size)
    (hz : b.used s = 0) (hf : fresh s → b.head = some s) :
    BucketOk sets size (fun x => x = s ∨ fresh x) (attachSet b s) := by
  obtain ⟨xs, hl, hmem⟩ := h.listed
  obtain ⟨ys, hl₂, hsy, hys⟩ := attachSet_of_listed (s := s) hl fun hsx => by
    obtain ⟨-, -, h | h⟩ := (hmem s).mp hsx
    · omega
    · exact Or.inr (hf h)
  refine ⟨fun x hx => by simpa using h.size_eq x hx, fun x hx => by simpa using h.used_eq x hx,
    ys, hl₂, fun x => ?_⟩
  by_cases he : x = s
  · subst he
    simp [hsy, hs, hz, hpos]
  · simp [hys x he, hmem, he]

lemma BucketOk.unlinked (h : BucketOk sets size (fun _ => False) b) (hz : b.used s = 0) :
    b.links.next s = none ∧ b.links.prev s = none := by
  obtain ⟨xs, hl, hmem⟩ := h.listed
  exact hl.2 s fun hx => by simpa [hz] using ((hmem s).mp hx).2.2

lemma BucketOk.carve_eq (h : BucketOk sets size (fun _ => False) b) (hs : s < sets)
    (hz : b.used s = 0) : carve b s = attachSet b s := by
  obtain ⟨hn, hp⟩ := h.unlinked hz
  have hlinks : (b.links.setNext (some s) none).setPrev (some s) none = b.links := by
    simp only [Chain.setNext, Chain.setPrev]
    rw [← hn, Function.update_eq_self, hn, ← hp, Function.update_eq_self]
  have hused : Function.update b.used s 0 = b.used := by rw [← hz, Function.update_eq_self]
  have hclear := h.clearAll_eq hs hz
  simp only [carve, Bucket.setUsed, hlinks, hused]
  rw [hclear]

lemma carve_head : (carve b s).head = some s := by
  simp only [carve, attachSet]
  split_ifs with hc
  · rcases hc with hc | hc
    · simp [Bucket.clearAll, Bucket.setUsed] at hc
    · exact hc
  · rfl

end Kmi.Pmem
