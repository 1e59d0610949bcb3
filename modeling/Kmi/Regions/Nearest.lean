import Kmi.Regions.Nodes
import Kmi.Regions.Lookup

/-! The used region that starts nearest to an address, and the way from it to the front of the list. -/

namespace Kmi.Regions

open BinaryTree Kmi.Library.LinkedList Kmi.Library.PointerTree Kmi.SpTree Kmi.Mem

variable {m : RegionMap} {us ws xs : List ℕ} {ref md a addr fuel : ℕ} {best b n up : Option ℕ} {t : BinaryTree ℕ}

def Nearest (m : RegionMap) (us : List ℕ) (ref : ℕ) (best : Option ℕ) (md : ℕ) (b : Option ℕ) : Prop :=
  (b = best ∧ ∀ y ∈ us, md ≤ dist m ref y) ∨
    ∃ x ∈ us, b = some x ∧ dist m ref x < md ∧ ∀ y ∈ us, dist m ref x ≤ dist m ref y

lemma keep_pos (hd : dist m ref a ≠ 0) (hmd : 0 < md) : 0 < (keep m ref a best md).2 := by
  rw [keep]
  split_ifs
  · exact Nat.pos_of_ne_zero hd
  · exact hmd

lemma Nearest.node (h : Nearest m us ref (keep m ref a best md).1 (keep m ref a best md).2 b) (ha : a ∈ ws)
    (hsub : ∀ y ∈ us, y ∈ ws) (hfar : ∀ y ∈ ws, y ∈ us ∨ dist m ref a ≤ dist m ref y) :
    Nearest m ws ref best md b := by
  by_cases hd : dist m ref a < md
  · rw [keep, if_pos hd] at h
    right
    obtain ⟨rfl, hall⟩ | ⟨x, hx, rfl, hlt, hall⟩ := h
    · refine ⟨a, ha, rfl, hd, ?_⟩
      intro y hy
      exact (hfar y hy).elim (hall y) id
    · refine ⟨x, hsub x hx, rfl, hlt.trans hd, ?_⟩
      intro y hy
      exact (hfar y hy).elim (hall y) fun hle => hlt.le.trans hle
  · rw [keep, if_neg hd] at h
    have hmd := not_lt.1 hd
    obtain ⟨rfl, hall⟩ | ⟨x, hx, rfl, hlt, hall⟩ := h
    · refine .inl ⟨rfl, ?_⟩
      intro y hy
      exact (hfar y hy).elim (hall y) fun hle => hmd.trans hle
    · refine .inr ⟨x, hsub x hx, rfl, hlt, ?_⟩
      intro y hy
      exact (hfar y hy).elim (hall y) fun hle => (hlt.le.trans hmd).trans hle

lemma findClosest_nearest (ht : Rep m.heap.links up n t) (hfuel : (inorder t).length ≤ fuel)
    (hsort : (inorder t).Pairwise fun a b => (m.region a).start < (m.region b).start) (hmd : 0 < md) :
    ∃ b, findClosest m ref fuel n best md = some b ∧ Nearest m (inorder t) ref best md b := by
  induction t generalizing fuel up n best md with
  | nil =>
    obtain rfl : n = none := ht
    exact ⟨best, by rw [findClosest], .inl ⟨rfl, by simp⟩⟩
  | node a l r ihl ihr =>
    obtain ⟨rfl, rfl, hl, hr⟩ := ht
    simp only [inorder_node, List.pairwise_append, List.pairwise_cons, List.mem_cons] at hsort
    obtain ⟨hsl, ⟨hsar, hsr⟩, hslr⟩ := hsort
    simp only [inorder_node, List.length_append, List.length_cons] at hfuel
    obtain ⟨fuel, rfl⟩ : ∃ k, fuel = k + 1 := ⟨fuel - 1, by omega⟩
    rw [findClosest_cons, inorder_node]
    split_ifs with hz hlt
    · refine ⟨some a, rfl, .inr ⟨a, by simp, rfl, by omega, ?_⟩⟩
      intro y _
      rw [hz]
      exact Nat.zero_le _
    · -- all starts to the right are behind that of the node
      obtain ⟨b, hb, hnear⟩ := @ihl (keep m ref a best md).2 fuel (keep m ref a best md).1 _ _ hl (by omega) hsl
        (keep_pos hz hmd)
      refine ⟨b, hb, hnear.node (by simp) (fun y hy => List.mem_append_left _ hy) ?_⟩
      intro y hy
      rw [List.mem_append, List.mem_cons] at hy
      obtain hy | rfl | hy := hy
      · exact .inl hy
      · exact .inr le_rfl
      · right
        have := hsar y hy
        rw [dist_of_ge hlt.le, dist_of_ge (by omega)]
        omega
    · have hle := not_lt.1 hlt
      obtain ⟨b, hb, hnear⟩ := @ihr (keep m ref a best md).2 fuel (keep m ref a best md).1 _ _ hr (by omega) hsr
        (keep_pos hz hmd)
      refine ⟨b, hb, hnear.node (by simp) (fun y hy => by simp [hy]) ?_⟩
      intro y hy
      rw [List.mem_append, List.mem_cons] at hy
      obtain hy | rfl | hy := hy
      · right
        have := hslr y hy a (.inl rfl)
        rw [dist_of_le hle, dist_of_le (by omega)]
        omega
      · exact .inr le_rfl
      · exact .inl hy

lemma findClosestUsedRegion_nearest (ht : Rep m.heap.links up m.usedRegions t) (hne : t ≠ nil)
    (hfuel : (inorder t).length ≤ m.fuel)
    (hsort : (inorder t).Pairwise fun a b => (m.region a).start < (m.region b).start)
    (hstart : ∀ y ∈ inorder t, (m.region y).start < 2 ^ 52) (haddr : addr < 2 ^ 64) :
    ∃ x ∈ inorder t, findClosestUsedRegion m addr = some (some x) ∧
      ∀ y ∈ inorder t, dist m (page addr) x ≤ dist m (page addr) y := by
  cases hroot : m.usedRegions with
  | none =>
    rw [hroot] at ht
    exact absurd (ht.ptr_eq_none.1 rfl) hne
  | some a =>
    rw [hroot] at ht
    obtain ⟨b, hb, hnear⟩ := @findClosest_nearest m (page addr) (2 ^ 64 - 1) m.fuel none (some a) up t ht hfuel
      hsort (by decide)
    rw [findClosestUsedRegion, hroot]
    obtain ⟨-, hall⟩ | ⟨x, hx, rfl, -, hall⟩ := hnear
    · have ha := ht.mem_of_ptr
      have hfar := hall a ha
      have := hstart a ha
      have hpage : page addr < 2 ^ 52 := by
        have hb := basePageSize_eq
        rw [page, hb]
        omega
      rw [dist] at hfar
      omega
    · exact ⟨x, hx, hb, hall⟩

lemma findFirstRegion_head (h : Partition m xs)
    (hstart : ∀ y ∈ xs, (m.region y).used = true → (m.region y).start < 2 ^ 52) :
    findFirstRegion m = some xs.head? := by
  obtain ⟨frees, useds, ht, hf, hu⟩ := h.trees
  obtain ⟨t, hw, rfl⟩ := ht.used
  by_cases hne : t = nil
  · -- no region is used: the search starts at the root of the free ones
    subst hne
    have hroot : m.usedRegions = none := hw.rep
    have hfind : findClosestUsedRegion m 0 = some m.freeRegions := by rw [findClosestUsedRegion, hroot]
    have hfrees := ht.free
    cases hfree : m.freeRegions with
    | none =>
      rw [hfree, holds_nil_iff] at hfrees
      have hnil : xs = [] := by
        apply List.eq_nil_iff_forall_not_mem.2
        intro x hx
        cases hxu : (m.region x).used with
        | false => simpa [hfrees] using (hf x).2 ⟨hx, hxu⟩
        | true => simpa using (hu x).2 ⟨hx, hxu⟩
      rw [findFirstRegion, hfind, hfree, hnil]
      rfl
    | some x =>
      rw [hfree] at hfrees hfind
      exact findFirstRegion_of_mem h ((hf x).1 hfrees.root_mem).1 hfind
  · have hlen := h.length_lt hw.nodup fun y hy => ((hu y).1 hy).1
    obtain ⟨x, hx, hfind, -⟩ := @findClosestUsedRegion_nearest m 0 none t hw.rep hne hlen.le ht.usedSorted
      (fun y hy => hstart y ((hu y).1 hy).1 ((hu y).1 hy).2) (by decide)
    exact findFirstRegion_of_mem h ((hu x).1 hx).1 hfind

end Kmi.Regions
