import Kmi.Pmem.Bucket

/-! The orders together: a set is in use only if its page of the next order is. -/

namespace Kmi.Pmem

open Kmi.Library.LinkedList Kmi.Mem

structure Ram where
  top : ℕ
  pages : ℕ
  top_le : top ≤ 2
  pages_pos : 0 < pages
  pages_lt : pages < 2 ^ 64
  small : top < 2 → pages < 512

namespace Ram

variable (g : Ram)

def pagesAt (o : ℕ) : ℕ := g.pages * 512 ^ (g.top - o)

def setsAt (o : ℕ) : ℕ := if o < g.top then g.pagesAt (o + 1) else 1

def sizeAt (o : ℕ) : ℕ := if o < g.top then 512 else g.pages

def bitsAt (o : ℕ) : ℕ := if o < 2 then 512 else g.pages

variable {g} {o : ℕ}

lemma pagesAt_eq (ho : o ≤ g.top) : g.pagesAt o = g.setsAt o * g.sizeAt o := by
  by_cases h : o < g.top
  · have : g.top - o = (g.top - (o + 1)) + 1 := by omega
    simp only [pagesAt, setsAt, sizeAt, h, if_true, this, pow_succ, mul_assoc]
  · have : g.top - o = 0 := by omega
    simp [pagesAt, setsAt, sizeAt, h, this]

lemma sizeAt_le : g.sizeAt o ≤ g.bitsAt o ∨ g.top < o := by
  have := g.small
  have := g.top_le
  unfold sizeAt bitsAt
  split_ifs <;> omega

lemma sizeAt_pos : 0 < g.sizeAt o := by
  have := g.pages_pos
  unfold sizeAt
  split_ifs <;> omega

lemma sizeAt_lt : g.sizeAt o < 2 ^ 64 := by
  have := g.pages_lt
  unfold sizeAt
  split_ifs <;> omega

lemma bitsAt_of_lt (ho : o < g.top) : g.bitsAt o = 512 := by
  have := g.top_le
  rw [bitsAt, if_pos (by omega)]

lemma bitsAt_pos : 0 < g.bitsAt o := by
  have := g.pages_pos
  unfold bitsAt
  split_ifs <;> omega

lemma set_lt {p : ℕ} (ho : o ≤ g.top) (hp : p < g.pagesAt o) :
    p / g.bitsAt o < g.setsAt o ∧ p % g.bitsAt o < g.sizeAt o := by
  rw [pagesAt_eq ho] at hp
  by_cases h : o < g.top
  · have hs : g.sizeAt o = 512 := if_pos h
    rw [hs, mul_comm] at hp
    rw [bitsAt_of_lt h, hs]
    exact ⟨Nat.div_lt_of_lt_mul hp, Nat.mod_lt _ (by omega)⟩
  · have hle : g.sizeAt o ≤ g.bitsAt o := by
      have := sizeAt_le (g := g) (o := o)
      omega
    have hone : g.setsAt o = 1 := if_neg h
    rw [hone, one_mul] at hp
    rw [hone, Nat.div_eq_of_lt (by omega), Nat.mod_eq_of_lt (by omega)]
    exact ⟨by omega, hp⟩

lemma page_lt {s i : ℕ} (ho : o ≤ g.top) (hs : s < g.setsAt o) (hi : i < g.sizeAt o) :
    s * g.bitsAt o + i < g.pagesAt o ∧ (s * g.bitsAt o + i) / g.bitsAt o = s ∧
      (s * g.bitsAt o + i) % g.bitsAt o = i := by
  have hle : g.sizeAt o ≤ g.bitsAt o := by
    have := sizeAt_le (g := g) (o := o)
    omega
  have hib : i < g.bitsAt o := by omega
  refine ⟨?_, ?_, ?_⟩
  · rw [pagesAt_eq ho]
    by_cases h : o < g.top
    · have hsz : g.sizeAt o = 512 := if_pos h
      rw [bitsAt_of_lt h, hsz] at *
      calc s * 512 + i < (s + 1) * 512 := by omega
        _ ≤ g.setsAt o * 512 := Nat.mul_le_mul_right _ hs
    · have hone : g.setsAt o = 1 := if_neg h
      rw [hone] at hs ⊢
      obtain rfl : s = 0 := by omega
      omega
  · rw [mul_comm, Nat.mul_add_div bitsAt_pos, Nat.div_eq_of_lt hib, add_zero]
  · rw [mul_comm, Nat.mul_add_mod, Nat.mod_eq_of_lt hib]

end Ram

def Pmap.bit (m : Pmap) (o p : ℕ) : Bool :=
  match m.buckets o with
  | none => false
  | some b => b.map (p / b.bits) (p % b.bits)

def Pmap.usedAt (m : Pmap) (o s : ℕ) : ℕ :=
  match m.buckets o with
  | none => 0
  | some b => b.used s

section Fields

variable (m : Pmap) (o o' p : ℕ) (b : Bucket)

@[simp] lemma setBucket_base : (m.setBucket o b).base = m.base := rfl

@[simp] lemma setBucket_buckets : (m.setBucket o b).buckets o' =
    if o' = o then some b else m.buckets o' := by
  simp [Pmap.setBucket, Function.update_apply]

lemma setBucket_bit : (m.setBucket o b).bit o' p =
    if o' = o then b.map (p / b.bits) (p % b.bits) else m.bit o' p := by
  by_cases h : o' = o <;> simp [Pmap.bit, h]

lemma setBucket_usedAt : (m.setBucket o b).usedAt o' p =
    if o' = o then b.used p else m.usedAt o' p := by
  by_cases h : o' = o <;> simp [Pmap.usedAt, h]

lemma bit_eq {m : Pmap} {o : ℕ} {b : Bucket} (h : m.buckets o = some b) (p : ℕ) :
    m.bit o p = b.map (p / b.bits) (p % b.bits) := by
  simp [Pmap.bit, h]

lemma usedAt_eq {m : Pmap} {o : ℕ} {b : Bucket} (h : m.buckets o = some b) (s : ℕ) :
    m.usedAt o s = b.used s := by
  simp [Pmap.usedAt, h]

lemma bit_congr {m m' : Pmap} {o : ℕ} (h : m'.buckets o = m.buckets o) (p : ℕ) :
    m'.bit o p = m.bit o p := by
  simp [Pmap.bit, h]

lemma usedAt_congr {m m' : Pmap} {o : ℕ} (h : m'.buckets o = m.buckets o) (s : ℕ) :
    m'.usedAt o s = m.usedAt o s := by
  simp [Pmap.usedAt, h]

end Fields

structure OrderOk (g : Ram) (o : ℕ) (fresh : Prop) (b : Bucket) : Prop where
  bits : b.bits = g.bitsAt o
  pageSize : b.pageSize = orderSize o
  ok : BucketOk (g.setsAt o) (g.sizeAt o) (fun _ => fresh) b

section Page

variable {g : Ram} {fresh : Prop} {m : Pmap} {o : ℕ} {b : Bucket}

lemma OrderOk.pageAddr_eq (h : OrderOk g o fresh b) (base s i : ℕ) :
    pageAddr base b s i = base + (s * g.bitsAt o + i) * orderSize o := by
  rw [pageAddr, h.bits, h.pageSize]
  ring

lemma OrderOk.getBit_eq (h : OrderOk g o fresh b) (base a : ℕ) :
    getBit base b a = ((a - base) / orderSize o / g.bitsAt o, (a - base) / orderSize o % g.bitsAt o) := by
  rw [getBit, h.bits, h.pageSize]

lemma OrderOk.bit_eq (h : OrderOk g o fresh b) (hm : m.buckets o = some b) (p : ℕ) :
    m.bit o p = b.map (p / g.bitsAt o) (p % g.bitsAt o) := by
  rw [Pmem.bit_eq hm, h.bits]

end Page

structure Inv (g : Ram) (start : Prop) (m : Pmap) (o : ℕ) : Prop where
  ok : ∀ o', o ≤ o' → o' ≤ g.top →
    ∃ b, m.buckets o' = some b ∧ OrderOk g o' (start ∧ o' = g.top) b
  closed : ∀ o', o ≤ o' → o' < g.top → ∀ s < g.setsAt o', 0 < m.usedAt o' s →
    m.bit (o' + 1) s = true
  above : ∀ o', g.top < o' → m.buckets o' = none

lemma Inv.succ {g : Ram} {start : Prop} {m : Pmap} {o : ℕ} (h : Inv g start m o) :
    Inv g start m (o + 1) :=
  ⟨fun o' ho => h.ok o' (by omega), fun o' ho => h.closed o' (by omega), h.above⟩

lemma Inv.used_zero {g : Ram} {start : Prop} {m : Pmap} {o q : ℕ} {b : Bucket}
    (h : Inv g start m o) (ht : o < g.top) (hm : m.buckets o = some b) (hq : q < g.setsAt o)
    (hunset : m.bit (o + 1) q = false) : b.used q = 0 := by
  by_contra hc
  have := h.closed o le_rfl ht q hq (by rw [usedAt_eq hm]; omega)
  simp [hunset] at this

lemma Inv.congr {g : Ram} {start : Prop} {m m' : Pmap} {o : ℕ} (h : Inv g start m o)
    (hb : ∀ o', o ≤ o' → m'.buckets o' = m.buckets o') (hab : ∀ o', g.top < o' → m'.buckets o' = none) :
    Inv g start m' o := by
  refine ⟨fun o' ho ht => ?_, fun o' ho ht s hs hu => ?_, hab⟩
  · rw [hb o' ho]
    exact h.ok o' ho ht
  · rw [bit_congr (hb (o' + 1) (by omega))]
    rw [usedAt_congr (hb o' ho)] at hu
    exact h.closed o' ho ht s hs hu

lemma Inv.setBucket {g : Ram} {start : Prop} {m : Pmap} {o : ℕ} {b : Bucket}
    (h : Inv g start m (o + 1)) (ho : o ≤ g.top) (hb : OrderOk g o (start ∧ o = g.top) b)
    (hc : o < g.top → ∀ s < g.setsAt o, 0 < b.used s → m.bit (o + 1) s = true) :
    Inv g start (m.setBucket o b) o := by
  refine ⟨fun o' ho' ht => ?_, fun o' ho' ht s hs hu => ?_, fun o' ht => ?_⟩
  · by_cases he : o' = o
    · subst he
      exact ⟨b, by simp, hb⟩
    · simpa [he] using h.ok o' (by omega) ht
  · have hne : o' + 1 ≠ o := by omega
    rw [setBucket_bit, if_neg hne]
    rw [setBucket_usedAt] at hu
    by_cases he : o' = o
    · subst he
      rw [if_pos rfl] at hu
      exact hc ht s hs hu
    · rw [if_neg he] at hu
      exact h.closed o' (by omega) ht s hs hu
  · have hne : o' ≠ o := by omega
    simpa [hne] using h.above o' ht

end Kmi.Pmem
