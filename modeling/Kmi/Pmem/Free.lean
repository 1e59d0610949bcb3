import Kmi.Pmem.Invariant

/-! A free gives one page back, and the sets it empties on the way up, as long as
every set on the way is recognised as attached. -/

namespace Kmi.Pmem

open Kmi.Library.LinkedList Kmi.Mem

variable {g : Ram} {m : Pmap} {o : ℕ} {b : Bucket}

def SeesAttached (m : Pmap) : ℕ → ℕ → ℕ → Prop
  | 0, _, _ => True
  | fuel + 1, order, p => ∀ b, m.buckets order = some b →
    ¬ MissedAttached b (p / b.bits) ∧
      (b.used (p / b.bits) = 1 → SeesAttached m fuel (order + 1) (p / b.bits))

lemma SeesAttached.congr {m' : Pmap} {fuel p : ℕ} (h : SeesAttached m fuel o p)
    (hb : ∀ o', o ≤ o' → m'.buckets o' = m.buckets o') : SeesAttached m' fuel o p := by
  induction fuel generalizing o p with
  | zero => exact h
  | succ fuel ih =>
    intro b hm
    rw [hb o le_rfl] at hm
    obtain ⟨h₁, h₂⟩ := h b hm
    exact ⟨h₁, fun hu => ih (h₂ hu) fun o' ho => hb o' (by omega)⟩

structure Shrinks (m m' : Pmap) (o p : ℕ) : Prop where
  base : m'.base = m.base
  below : ∀ o' < o, m'.buckets o' = m.buckets o'
  bit : ∀ o', o ≤ o' → ∀ q, m.bit o' q = true → (o' = o → q ≠ p) →
    (o < o' → m.usedAt (o' - 1) q = 0) → m'.bit o' q = true
  empty : ∀ o', o ≤ o' → ∀ s, m.usedAt o' s = 0 → m'.usedAt o' s = 0

lemma freeAt_eq {fuel addr s i : ℕ} (hm : m.buckets o = some b)
    (hg : getBit m.base b addr = (s, i)) (hb : b.map s i = true) :
    freeAt (fuel + 1) m o addr =
      if (release b s i).used s = 0 then
        if b.size s = orderWidth (o + 1) then
          (freeAt fuel (m.setBucket o (release b s i)) (o + 1) (pageAddr m.base b s i)).map
            fun r => (true, r.2)
        else some (true, m.setBucket o (release b s i))
      else some (true, m.setBucket o (release b s i)) := by
  have hset : (getBit m.base b addr).1 = s := by rw [hg]
  have hbit : (getBit m.base b addr).2 = i := by rw [hg]
  simp only [freeAt, hm, hset, hbit, setUsed_map, hb, if_true, attachSet_used, setBit_used,
    detachSet_size, attachSet_size, setBit_size, setUsed_size, setUsed_used, release_used]
  by_cases hz : decr (b.used s) = 0
  · have hr : release b s i =
        detachSet (attachSet ((b.setUsed s (decr (b.used s))).setBit s i false) s) s := by
      simp [release, hz]
    simp only [Function.update_self, hz, if_true]
    rw [hz] at hr
    rw [← hr]
    simp [pageAddr]
  · have hr : release b s i = attachSet ((b.setUsed s (decr (b.used s))).setBit s i false) s := by
      simp [release, hz]
    simp only [Function.update_self, hz, if_false, hr]

lemma release_shrinks {p : ℕ} (hbk : OrderOk g o (False ∧ o = g.top) b) (ho : o ≤ g.top)
    (hm : m.buckets o = some b) (hp : p < g.pagesAt o) (hbit : m.bit o p = true) :
    Shrinks m (m.setBucket o (release b (p / g.bitsAt o) (p % g.bitsAt o))) o p := by
  obtain ⟨hs, hi⟩ := Ram.set_lt ho hp
  rw [hbk.bit_eq hm] at hbit
  have hpos := popcount_pos hi hbit
  have hle := popcount_le (b.map (p / g.bitsAt o)) (g.sizeAt o)
  have hlt := Ram.sizeAt_lt (g := g) (o := o)
  have hused := hbk.ok.used_eq _ hs
  have hdec := decr_eq (n := b.used (p / g.bitsAt o)) (by omega) (by omega)
  refine ⟨rfl, fun o' ho' => ?_, fun o' ho' q hq hne _ => ?_, fun o' ho' s hu => ?_⟩
  · have : o' ≠ o := by omega
    simp [this]
  · rw [setBucket_bit]
    split_ifs with he
    · subst he
      rw [hbk.bit_eq hm] at hq
      rw [release_bits, release_map, hbk.bits]
      by_cases h₁ : q / g.bitsAt o' = p / g.bitsAt o'
      · have h₂ : q % g.bitsAt o' ≠ p % g.bitsAt o' := by
          intro h₂
          refine hne rfl ?_
          rw [← Nat.div_add_mod q (g.bitsAt o'), ← Nat.div_add_mod p (g.bitsAt o'), h₁, h₂]
        rw [h₁] at hq ⊢
        simpa [h₂] using hq
      · simpa [h₁] using hq
    · exact hq
  · rw [setBucket_usedAt]
    split_ifs with he
    · subst he
      rw [usedAt_eq hm] at hu
      have hne : s ≠ p / g.bitsAt o' := by
        rintro rfl
        omega
      simpa [hne] using hu
    · exact hu

lemma Inv.of_climb {m' : Pmap} {s : ℕ} (h : Inv g False m o) (h' : Inv g False m' (o + 1))
    (hs : Shrinks m m' (o + 1) s) (hz : m.usedAt o s = 0) : Inv g False m' o := by
  have hb := hs.below o (by omega)
  refine ⟨fun o' ho' ht => ?_, fun o' ho' ht x hx hu => ?_, h'.above⟩
  · by_cases he : o' = o
    · subst he
      rw [hb]
      exact h.ok o' le_rfl ht
    · exact h'.ok o' (by omega) ht
  · by_cases he : o' = o
    · subst he
      rw [usedAt_congr hb] at hu
      refine hs.bit _ le_rfl x (h.closed o' le_rfl ht x hx hu) (fun _ hxs => ?_) (by omega)
      rw [hxs] at hu
      omega
    · exact h'.closed o' (by omega) ht x hx hu

lemma Shrinks.climb {m₁ m₂ : Pmap} {p s : ℕ} (h : Shrinks m m₁ o p) (h' : Shrinks m₁ m₂ (o + 1) s)
    (hu : 0 < m.usedAt o s) : Shrinks m m₂ o p := by
  have hb := h'.below o (by omega)
  refine ⟨h'.base.trans h.base, fun o' ho' => (h'.below o' (by omega)).trans (h.below o' ho'),
    fun o' ho' q hq hne hz => ?_, fun o' ho' x hx => ?_⟩
  · have hq' := h.bit o' ho' q hq hne hz
    by_cases he : o' = o
    · subst he
      rwa [bit_congr hb]
    · refine h'.bit o' (by omega) q hq' (fun ho hqs => ?_) fun hlt => ?_
      · subst ho hqs
        have := hz (by omega)
        simp only [Nat.add_sub_cancel] at this
        omega
      · exact h.empty _ (by omega) q (hz (by omega))
  · have hx' := h.empty o' ho' x hx
    by_cases he : o' = o
    · subst he
      rwa [usedAt_congr hb]
    · exact h'.empty o' (by omega) x hx'

lemma freeAt_spec (fuel : ℕ) {p addr : ℕ} (h : Inv g False m o) (ho : o ≤ g.top)
    (hfuel : g.top + 1 ≤ fuel + o) (hp : p < g.pagesAt o)
    (haddr : (addr - m.base) / orderSize o = p) (hbit : m.bit o p = true)
    (hsee : SeesAttached m fuel o p) :
    ∃ m', freeAt fuel m o addr = some (true, m') ∧ Inv g False m' o ∧ Shrinks m m' o p := by
  induction fuel generalizing m o p addr with
  | zero => omega
  | succ fuel ih =>
    obtain ⟨b, hm, hbk⟩ := h.ok o le_rfl ho
    obtain ⟨hs, hi⟩ := Ram.set_lt ho hp
    have hok : BucketOk (g.setsAt o) (g.sizeAt o) (fun _ => False) b := by simpa using hbk.ok
    have hmap : b.map (p / g.bitsAt o) (p % g.bitsAt o) = true := by rwa [← hbk.bit_eq hm]
    have hgb : getBit m.base b addr = (p / g.bitsAt o, p % g.bitsAt o) := by
      rw [hbk.getBit_eq, haddr]
    obtain ⟨hmiss, hclimb⟩ := hsee b hm
    rw [hbk.bits] at hmiss hclimb
    have hpos := popcount_pos hi hmap
    have hle := popcount_le (b.map (p / g.bitsAt o)) (g.sizeAt o)
    have hlt := Ram.sizeAt_lt (g := g) (o := o)
    have hused := hok.used_eq _ hs
    have hdec := decr_eq (n := b.used (p / g.bitsAt o)) (by omega) (by omega)
    have hrel := hok.release hlt hs hi hmap hmiss
    have hshr := release_shrinks hbk ho hm hp hbit
    rw [freeAt_eq hm hgb hmap]
    generalize hb' : release b (p / g.bitsAt o) (p % g.bitsAt o) = b' at hrel hshr
    have hused' : b'.used = Function.update b.used (p / g.bitsAt o) (b.used (p / g.bitsAt o) - 1) := by
      rw [← hb', release_used, hdec]
    have hinv₁ : Inv g False (m.setBucket o b') o := by
      refine h.succ.setBucket ho ⟨by simpa [← hb'] using hbk.bits,
        by simpa [← hb'] using hbk.pageSize, by simpa using hrel⟩ fun ht s hs' hu => ?_
      refine h.closed o le_rfl ht s hs' ?_
      rw [usedAt_eq hm]
      rw [hused', Function.update_apply] at hu
      split_ifs at hu with he
      · subst he
        omega
      · exact hu
    by_cases hz : b'.used (p / g.bitsAt o) = 0
    · by_cases ht : o < g.top
      · have hset : p / g.bitsAt o < g.pagesAt (o + 1) := by
          rwa [Ram.setsAt, if_pos ht] at hs
        have hbit₁ : (m.setBucket o b').bit (o + 1) (p / g.bitsAt o) = true := by
          rw [setBucket_bit, if_neg (by omega)]
          exact h.closed o le_rfl ht _ hs (by rw [usedAt_eq hm]; omega)
        have hone : b.used (p / g.bitsAt o) = 1 := by
          rw [hused', Function.update_self] at hz
          omega
        have haddr' : (pageAddr m.base b (p / g.bitsAt o) (p % g.bitsAt o) - m.base) /
            orderSize (o + 1) = p / g.bitsAt o := by
          have htop := g.top_le
          rw [hbk.pageAddr_eq, Nat.add_sub_cancel_left, Nat.div_add_mod', orderSize_succ (by omega),
            mul_comm p, Nat.mul_div_mul_left _ _ (orderSize_pos (by omega)), Ram.bitsAt_of_lt ht]
        have hsee' : SeesAttached (m.setBucket o b') fuel (o + 1) (p / g.bitsAt o) := by
          refine (hclimb hone).congr fun o' ho' => ?_
          have : o' ≠ o := by omega
          simp [this]
        obtain ⟨m', hfree, hinv', hshr'⟩ :=
          ih hinv₁.succ (by omega) (by omega) hset haddr' hbit₁ hsee'
        have hsize : b.size (p / g.bitsAt o) = orderWidth (o + 1) := by
          have htop := g.top_le
          rw [hok.size_eq _ hs, Ram.sizeAt, if_pos ht, orderWidth,
            if_pos (by simp only [maxOrder]; omega)]
        refine ⟨m', by rw [if_pos hz, if_pos hsize, hfree]; rfl, ?_, ?_⟩
        · exact hinv₁.of_climb hinv' hshr' (by rwa [setBucket_usedAt, if_pos rfl])
        · refine hshr.climb hshr' ?_
          rw [usedAt_eq hm]
          omega
      · have hsize : b.size (p / g.bitsAt o) ≠ orderWidth (o + 1) := by
          obtain rfl : o = g.top := by omega
          have h₁ := g.small
          have h₂ := g.pages_pos
          have h₃ := g.top_le
          rw [hok.size_eq _ hs, Ram.sizeAt, if_neg ht]
          by_cases hw : g.top + 1 ≤ maxOrder
          · rw [orderWidth, if_pos hw]
            simp only [maxOrder] at hw
            have := h₁ (by omega)
            omega
          · rw [orderWidth, if_neg hw]
            omega
        exact ⟨_, by rw [if_pos hz, if_neg hsize], hinv₁, hshr⟩
    · exact ⟨_, by rw [if_neg hz], hinv₁, hshr⟩

end Kmi.Pmem
