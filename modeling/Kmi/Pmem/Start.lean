import Kmi.Pmem.Layout
import Kmi.Pmem.Mark

/-! The map that `populate_pmap` builds, and the marks put on it before use. -/

namespace Kmi.Pmem

open Kmi.Library.LinkedList Kmi.Mem

variable {g : Ram} {o : ℕ}

def Ram.bytes (g : Ram) : ℕ := g.pages * orderSize g.top

lemma Ram.bytes_div_of_le (ho : o ≤ g.top) : g.bytes / orderSize o = g.pagesAt o := by
  have htop := g.top_le
  have hsize : orderSize g.top = orderSize o * 512 ^ (g.top - o) := by
    rw [orderSize_eq htop, orderSize_eq (by omega), mul_assoc, ← pow_add]
    congr 2
    omega
  rw [bytes, hsize, mul_left_comm, Nat.mul_div_cancel_left _ (orderSize_pos (by omega)), pagesAt]

lemma Ram.bytes_div_of_lt (ho : g.top < o) (ho' : o ≤ 2) : g.bytes / orderSize o = 0 := by
  refine Nat.div_eq_of_lt ?_
  have hlt := g.small (by omega)
  have hsucc := orderSize_succ (o := g.top) (by omega)
  have hmono : orderSize (g.top + 1) ≤ orderSize o := by
    rw [orderSize_eq (by omega), orderSize_eq ho']
    exact Nat.mul_le_mul_left _ (Nat.pow_le_pow_right (by omega) ho)
  have hpos := orderSize_pos (o := g.top) (by omega)
  calc g.bytes < 512 * orderSize g.top := Nat.mul_lt_mul_of_pos_right hlt hpos
    _ = orderSize (g.top + 1) := by rw [hsucc, mul_comm]
    _ ≤ orderSize o := hmono

lemma find_order (ram iter cont o : ℕ) (ho : o < iter) (hn : ram / orderSize o ≠ 0) :
    ∃ cont', (maybePopulateOrders ram iter cont).1.find? (fun p => p.order = o) =
      some (maybePopulateBucket (ram / orderSize o) cont' o).1 := by
  induction iter generalizing cont with
  | zero => omega
  | succ iter ih =>
    by_cases hz : ram / orderSize iter = 0
    · obtain ⟨cont', h⟩ := ih cont (by
        rcases Nat.lt_succ_iff_lt_or_eq.mp ho with h | rfl
        · exact h
        · exact (hn hz).elim)
      exact ⟨cont', by simpa [maybePopulateOrders, hz] using h⟩
    · have horder := (maybePopulateBucket_placed _ cont iter hz).2.2.2.1
      by_cases he : o = iter
      · subst he
        exact ⟨cont, by simp [maybePopulateOrders, hz, horder]⟩
      · obtain ⟨cont', h⟩ := ih (maybePopulateBucket (ram / orderSize iter) cont iter).2 (by omega)
        exact ⟨cont', by simpa [maybePopulateOrders, hz, horder, Ne.symm he] using h⟩

lemma find_order_none (ram iter cont o : ℕ) (hn : iter ≤ o ∨ ram / orderSize o = 0) :
    (maybePopulateOrders ram iter cont).1.find? (fun p => p.order = o) = none := by
  induction iter generalizing cont with
  | zero => rfl
  | succ iter ih =>
    by_cases hz : ram / orderSize iter = 0
    · simpa [maybePopulateOrders, hz] using ih cont (by omega)
    · have horder := (maybePopulateBucket_placed _ cont iter hz).2.2.2.1
      have he : iter ≠ o := by
        rintro rfl
        omega
      simpa [maybePopulateOrders, hz, horder, he] using
        ih (maybePopulateBucket (ram / orderSize iter) cont iter).2 (by omega)

lemma head_order (ram iter cont top : ℕ) (ht : top < iter) (hn : ram / orderSize top ≠ 0)
    (hz : ∀ o, top < o → o < iter → ram / orderSize o = 0) :
    (maybePopulateOrders ram iter cont).1.head?.map BucketPlace.order = some top := by
  induction iter generalizing cont with
  | zero => omega
  | succ iter ih =>
    by_cases he : top = iter
    · subst he
      have horder := (maybePopulateBucket_placed _ cont top hn).2.2.2.1
      simp [maybePopulateOrders, hn, horder]
    · have hz' := hz iter (by omega) (by omega)
      simpa [maybePopulateOrders, hz'] using
        ih cont (by omega) fun o h₁ h₂ => hz o h₁ (by omega)

lemma sets_of_order (ho : o ≤ g.top) (cont : ℕ) :
    (maybePopulateBucket (g.pagesAt o) cont o).1.bits = g.bitsAt o ∧
      (maybePopulateBucket (g.pagesAt o) cont o).1.sets.map SetPlace.size =
        List.replicate (g.setsAt o) (g.sizeAt o) := by
  have htop := g.top_le
  have hpos := g.pages_pos
  have hpages : g.pagesAt o = g.setsAt o * g.sizeAt o := Ram.pagesAt_eq ho
  have hbits : (if orderWidth (o + 1) = 0 then g.pagesAt o else orderWidth (o + 1)) =
      g.bitsAt o := by
    by_cases h : o + 1 ≤ 2
    · simp [orderWidth, maxOrder, h, Ram.bitsAt, show o < 2 by omega]
    · obtain rfl : o = g.top := by omega
      simp [orderWidth, maxOrder, h, Ram.bitsAt, show ¬ g.top < 2 by omega, Ram.pagesAt]
  have hdiv : g.pagesAt o % g.bitsAt o = 0 ∧ g.pagesAt o / g.bitsAt o = g.setsAt o ∧
        g.sizeAt o = g.bitsAt o ∨
      g.pagesAt o % g.bitsAt o = g.sizeAt o ∧ g.pagesAt o / g.bitsAt o = 0 ∧ g.setsAt o = 1 := by
    by_cases h : o < g.top
    · have hs : g.sizeAt o = 512 := if_pos h
      rw [hpages, Ram.bitsAt_of_lt h, hs]
      exact Or.inl ⟨Nat.mul_mod_left _ _, Nat.mul_div_cancel _ (by omega), rfl⟩
    · have hone : g.setsAt o = 1 := if_neg h
      have hs : g.sizeAt o = g.pages := if_neg h
      rw [hpages, hone, one_mul, hs]
      by_cases h2 : o < 2
      · have hb : g.bitsAt o = 512 := if_pos h2
        have := g.small (by omega)
        rw [hb]
        exact Or.inr ⟨Nat.mod_eq_of_lt this, Nat.div_eq_of_lt this, rfl⟩
      · have hb : g.bitsAt o = g.pages := if_neg h2
        rw [hb]
        exact Or.inl ⟨Nat.mod_self _, Nat.div_self hpos, rfl⟩
  have hmod : g.pagesAt o - g.pagesAt o / g.bitsAt o * g.bitsAt o = g.pagesAt o % g.bitsAt o := by
    have := Nat.div_add_mod' (g.pagesAt o) (g.bitsAt o)
    omega
  have hsize := Ram.sizeAt_pos (g := g) (o := o)
  simp only [maybePopulateBucket, hbits, placeSets_eq, hmod]
  rcases hdiv with ⟨h₁, h₂, h₃⟩ | ⟨h₁, h₂, h₃⟩
  · simp [h₁, h₂, h₃, Function.comp_def]
  · simp [h₁, h₂, h₃, hsize.ne']

lemma popcount_false (n : ℕ) : popcount (fun _ => false) n = 0 := by simp [popcount]

lemma bucket_orderOk (p : BucketPlace) (ho : o ≤ g.top) (horder : p.order = o)
    (hbits : p.bits = g.bitsAt o)
    (hsets : p.sets.map SetPlace.size = List.replicate (g.setsAt o) (g.sizeAt o)) :
    OrderOk g o (True ∧ o = g.top) (p.bucket (decide (o = g.top))) := by
  have hlen : p.sets.length = g.setsAt o := by simpa using congrArg List.length hsets
  have hsize : ∀ s < g.setsAt o, ((p.sets[s]?).map SetPlace.size).getD 0 = g.sizeAt o := by
    intro s hs
    rw [← List.getElem?_map, hsets, List.getElem?_replicate, if_pos hs, Option.getD_some]
  let b : Bucket :=
    { bits := p.bits
      pageSize := orderSize p.order
      head := none
      links := ⟨fun _ => none, fun _ => none⟩
      size := fun set => ((p.sets[set]?).map SetPlace.size).getD 0
      used := fun _ => 0
      map := fun _ _ => false }
  have hfree : FreeList b [] := ⟨⟨List.nodup_nil, none, rfl, rfl⟩, fun _ _ => ⟨rfl, rfl⟩⟩
  have hpos := Ram.sizeAt_pos (g := g) (o := o)
  by_cases ht : o = g.top
  · subst ht
    have hone : g.setsAt g.top = 1 := if_neg (by omega)
    have hb : p.bucket (decide (g.top = g.top)) = attachSet b 0 := by
      simp only [BucketPlace.bucket, decide_true, if_true, hlen, hone]
      rfl
    rw [hb]
    refine ⟨by simpa using hbits, by simp [b, horder], fun s hs => by simpa using hsize s hs,
      fun s hs => by simp [b, popcount_false], [0], hfree.attach (by simp), fun s => ?_⟩
    simp [b, hone, hpos]
  · have hb : p.bucket (decide (o = g.top)) = b := by simp [BucketPlace.bucket, ht, b]
    rw [hb]
    exact ⟨hbits, by simp [b, horder], hsize, fun s hs => by simp [b, popcount_false], [], hfree,
      fun s => by simp [b, ht]⟩

lemma bucket_used (p : BucketPlace) (first : Bool) (s : ℕ) : (p.bucket first).used s = 0 := by
  have hfold : ∀ (xs : List ℕ) (b : Bucket), (xs.foldl attachSet b).used = b.used := by
    intro xs
    induction xs with
    | nil => exact fun _ => rfl
    | cons x xs ih => exact fun b => by rw [List.foldl_cons, ih, attachSet_used]
  simp only [BucketPlace.bucket]
  split
  · rw [hfold]
  · rfl

theorem populatePmap_inv (g : Ram) (ramBase start : ℕ) :
    Inv g True (populatePmap ramBase g.bytes start) 0 := by
  have htop := g.top_le
  have hpages : ∀ o, o ≤ g.top → g.bytes / orderSize o ≠ 0 := by
    intro o ho
    have := g.pages_pos
    rw [Ram.bytes_div_of_le ho, Ram.pagesAt]
    positivity
  have hhead : (maybePopulatePmap g.bytes start).1.head?.map BucketPlace.order = some g.top := by
    refine head_order _ _ _ _ (show g.top < 2 + 1 by omega) (hpages _ le_rfl) fun o h₁ h₂ => ?_
    exact Ram.bytes_div_of_lt h₁ (Nat.lt_succ_iff.mp h₂)
  have hbucket : ∀ o, o ≤ g.top → ∃ b, (populatePmap ramBase g.bytes start).buckets o = some b ∧
      OrderOk g o (True ∧ o = g.top) b ∧ ∀ s, b.used s = 0 := by
    intro o ho
    obtain ⟨cont, hfind⟩ := find_order g.bytes (maxOrder + 1) (start + sizeofPmap) o
      (show o < 2 + 1 by omega) (hpages o ho)
    rw [Ram.bytes_div_of_le ho] at hfind
    obtain ⟨hbits, hsets⟩ := sets_of_order ho cont
    have hne : g.pagesAt o ≠ 0 := by
      rw [← Ram.bytes_div_of_le ho]
      exact hpages o ho
    have horder := (maybePopulateBucket_placed _ cont o hne).2.2.2.1
    refine ⟨_, ?_, bucket_orderOk _ ho horder hbits hsets, ?_⟩
    · simp only [populatePmap, hhead]
      have : (maybePopulatePmap g.bytes start).1.find? (fun p => p.order = o) =
          some (maybePopulateBucket (g.pagesAt o) cont o).1 := hfind
      simp [this, eq_comm (a := g.top)]
    · exact bucket_used _ _
  refine ⟨fun o' _ ho => ?_, fun o' _ ho s hs hu => ?_, fun o' ho => ?_⟩
  · obtain ⟨b, hb, hok, -⟩ := hbucket o' ho
    exact ⟨b, hb, hok⟩
  · obtain ⟨b, hb, -, hz⟩ := hbucket o' ho.le
    rw [usedAt_eq hb, hz] at hu
    omega
  · have hnone := find_order_none g.bytes (maxOrder + 1) (start + sizeofPmap) o' (by
      by_cases h : o' ≤ 2
      · exact Or.inr (Ram.bytes_div_of_lt ho h)
      · exact Or.inl (by simp only [maxOrder]; omega))
    have : (maybePopulatePmap g.bytes start).1.find? (fun p => p.order = o') = none := hnone
    simp [populatePmap, this]

end Kmi.Pmem
