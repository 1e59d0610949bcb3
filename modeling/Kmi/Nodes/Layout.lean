import Kmi.Nodes.Runs

/-! The layout of a page of nodes, for every size of node. -/

namespace Kmi.Nodes

open Mem

variable {r : NodeRoot} {nodeSize first nr i j k p : ℕ}

def bitmapByte (nr k : ℕ) : ℕ := sizeofNodeRegion + 4096 * nr + k / 8

def InSlot (r : NodeRoot) (nr i p : ℕ) : Prop := slot r nr i ≤ p ∧ p < slot r nr i + r.nodeSize

structure PageLayout (r : NodeRoot) (nr : ℕ) : Prop where
  nonempty : 1 ≤ r.maxNodes
  inside : ∀ i < r.maxNodes, ∀ p, InSlot r nr i p → 4096 * nr ≤ p ∧ p < 4096 * nr + 4096
  header : ∀ i < r.maxNodes, ∀ p, InSlot r nr i p → 4096 * nr + sizeofNodeRegion ≤ p
  bitmap : ∀ i < r.maxNodes, ∀ p, InSlot r nr i p → ∀ k < r.maxNodes, p ≠ bitmapByte nr k
  apart : ∀ i < r.maxNodes, ∀ j < r.maxNodes, ∀ p, InSlot r nr i p → InSlot r nr j p → i = j
  found : ∀ i < r.maxNodes, ∀ p, InSlot r nr i p → nodeRegion p = nr ∧ nodeIndex r p = i
  freed : ∀ i < r.maxNodes, ∀ p, InSlot r nr i p → freeNode r p = freeNode r (slot r nr i)

lemma Fits.nodeRegion_of_inSlot (h : Fits r) (hi : i < r.maxNodes) (hp : InSlot r nr i p) :
    nodeRegion p = nr := by
  obtain ⟨hlo, hhi⟩ := hp
  have hle : (i + 1) * r.nodeSize ≤ r.maxNodes * r.nodeSize := Nat.mul_le_mul_right _ hi
  have := h.inside
  rw [add_mul, one_mul] at hle
  rw [slot] at hlo hhi
  rw [nodeRegion]
  omega

lemma Fits.nodeIndex_of_inSlot (h : Fits r) (hi : i < r.maxNodes) (hp : InSlot r nr i p) :
    nodeIndex r p = i := by
  rw [nodeIndex, h.nodeRegion_of_inSlot hi hp]
  obtain ⟨hlo, hhi⟩ := hp
  rw [slot] at hlo hhi
  apply Nat.div_eq_of_lt_le
  · omega
  · rw [add_mul, one_mul]
    omega

lemma freeNode_congr {q : ℕ} (hr : nodeRegion p = nodeRegion q) (hi : nodeIndex r p = nodeIndex r q) :
    freeNode r p = freeNode r q := by
  simp only [freeNode, hr, hi]

section Init

variable (hpos : 0 < nodeSize) (hfit : (initNodes nodeSize first).firstNode + nodeSize ≤ 4096)

include hpos hfit

lemma initNodes_firstNode : sizeofNodeRegion + (4096 / nodeSize / 8 + 1) ≤
      (initNodes nodeSize first).firstNode ∧ RoomForNode nodeSize := by
  have hbig : 4096 / nodeSize ≤ 4096 := Nat.div_le_self ..
  obtain ⟨v, hv⟩ : ∃ v, sizeofNodeRegion + (4096 / nodeSize / 8 + 1) = v := ⟨_, rfl⟩
  have hfirst : (initNodes nodeSize first).firstNode = alignUp v nodeSize := by rw [← hv]; rfl
  have hlt : v < 1000 := by
    rw [← hv, sizeofNodeRegion]
    omega
  have heq := @alignUp_eq v nodeSize hpos (by omega)
  have hdiv := Nat.div_add_mod (v + (nodeSize - 1)) nodeSize
  have hmod := Nat.mod_lt (v + (nodeSize - 1)) hpos
  rw [RoomForNode, hv]
  rw [hfirst] at hfit ⊢
  refine ⟨by omega, hpos, ?_⟩
  rw [heq] at hfit ⊢
  rw [Nat.mul_div_cancel_left _ hpos, Nat.lt_iff_add_one_le, Nat.le_div_iff_mul_le hpos, add_mul, one_mul,
    mul_comm]
  exact hfit

theorem initNodes_layout : PageLayout (initNodes nodeSize first) nr := by
  obtain ⟨hbitmap, hroom⟩ := initNodes_firstNode hpos hfit
  have hfits := @initNodes_fits first nodeSize hroom
  have hmax : (initNodes nodeSize first).maxNodes ≤ 4096 / nodeSize := by
    rw [Nat.le_div_iff_mul_le hpos]
    exact (Nat.le_add_left ..).trans hfits.inside
  generalize initNodes nodeSize first = r at hfits hbitmap hmax ⊢
  have hregion : ∀ {i p}, i < r.maxNodes → InSlot r nr i p → nodeRegion p = nr :=
    fun hi hp => hfits.nodeRegion_of_inSlot hi hp
  have hindex : ∀ {i p}, i < r.maxNodes → InSlot r nr i p → nodeIndex r p = i :=
    fun hi hp => hfits.nodeIndex_of_inSlot hi hp
  have hstart : ∀ {i p}, InSlot r nr i p → sizeofNodeRegion + 4096 * nr + (4096 / nodeSize / 8 + 1) ≤ p := by
    rintro i p ⟨hlo, -⟩
    rw [slot] at hlo
    omega
  refine ⟨hfits.max_pos, fun i hi p hp => ?_, fun i hi p hp => ?_, fun i hi p hp k hk => ?_,
    fun i hi j hj p hp hp' => ?_, fun i hi p hp => ⟨hregion hi hp, hindex hi hp⟩, fun i hi p hp => ?_⟩
  · have := hregion hi hp
    rw [nodeRegion] at this
    omega
  · have := hstart hp
    omega
  · have := hstart hp
    rw [bitmapByte]
    omega
  · rw [← hindex hi hp, hindex hj hp']
  · apply freeNode_congr
    · rw [hregion hi hp, hfits.nodeRegion_slot hi]
    · rw [hindex hi hp, hfits.nodeIndex_slot hi]

end Init

theorem initNodes_layout_small : PageLayout (initNodes 96 1) 1 :=
  initNodes_layout (by decide) (by decide)

end Kmi.Nodes
