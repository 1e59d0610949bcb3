import Kmi.Pmem.Alloc

/-! The map right after `populate_pmap`, and pages marked used before the first
allocation. -/

namespace Kmi.Pmem

open Kmi.Library.LinkedList Kmi.Mem

variable {g : Ram} {m : Pmap} {o : ℕ} {b : Bucket}

lemma head_of_start (hbk : OrderOk g o (True ∧ o = g.top) b) {s : ℕ} (hs : s < g.setsAt o)
    (hz : b.used s = 0) (ho : o = g.top) : b.head = some s := by
  obtain ⟨xs, ⟨⟨hd, last, hseg⟩, -⟩, hmem⟩ := hbk.ok.listed
  have hone : g.setsAt o = 1 := if_neg (by omega)
  have hsx : s ∈ xs := (hmem s).mpr ⟨hs, by rw [hz]; exact Ram.sizeAt_pos, Or.inr ⟨trivial, ho⟩⟩
  cases xs with
  | nil => simp at hsx
  | cons x xs =>
    have hx := ((hmem x).mp (by simp)).1
    rw [hseg.1]
    congr 1
    omega

lemma setBucket_self (hm : m.buckets o = some b) : m.setBucket o b = m := by
  simp only [Pmap.setBucket]
  rw [← hm, Function.update_eq_self]

lemma fill_bit {s i p : ℕ} (h : m.buckets o = some b) (hp : m.bit o p = true) :
    (m.setBucket o (fill b s i)).bit o p = true := by
  rw [bit_eq h] at hp
  rw [setBucket_bit, if_pos rfl, fill_map, fill_bits]
  by_cases h₁ : p / b.bits = s <;> by_cases h₂ : p % b.bits = i <;> simp_all

lemma markAt_fresh (fuel : ℕ) {addr : ℕ} (hm : m.buckets o = some b)
    (hz : b.used (getBit m.base b addr).1 = 0) :
    markAt (fuel + 1) m o addr =
      let s := (getBit m.base b addr).1
      let i := (getBit m.base b addr).2
      let b' := attachSet (b.clearAll s) s
      (markAt fuel (m.setBucket o b') (o + 1) addr).bind fun r =>
        if b'.map s i then some (false, r.2) else some (true, r.2.setBucket o (fill b' s i)) := by
  simp only [markAt, hm, hz, if_true, Option.bind_eq_bind]
  cases markAt fuel (m.setBucket o (attachSet (b.clearAll (getBit m.base b addr).1)
    (getBit m.base b addr).1)) (o + 1) addr with
  | none => rfl
  | some r => rfl

lemma markAt_used (fuel : ℕ) {addr : ℕ} (hm : m.buckets o = some b)
    (hz : b.used (getBit m.base b addr).1 ≠ 0) :
    markAt (fuel + 1) m o addr =
      let s := (getBit m.base b addr).1
      let i := (getBit m.base b addr).2
      if b.map s i then some (false, m) else some (true, m.setBucket o (fill b s i)) := by
  simp only [markAt, hm, hz, if_false, Option.bind_eq_bind, setBucket_self hm, Option.bind_some]
  rfl

lemma markAt_spec (fuel addr : ℕ) (h : Inv g True m o) (ho : o ≤ g.top + 1)
    (hfuel : g.top + 2 ≤ fuel + o)
    (hp : o ≤ g.top → (addr - m.base) / orderSize o < g.pagesAt o) :
    ∃ c m', markAt fuel m o addr = some (c, m') ∧ Inv g True m' o ∧ Keeps m m' o ∧
      (o ≤ g.top → m'.bit o ((addr - m.base) / orderSize o) = true) := by
  induction fuel generalizing m o with
  | zero => omega
  | succ fuel ih =>
    by_cases hot : o ≤ g.top
    · obtain ⟨b, hm, hbk⟩ := h.ok o le_rfl hot
      obtain ⟨hs, hi⟩ := Ram.set_lt hot (hp hot)
      have hset : (getBit m.base b addr).1 = (addr - m.base) / orderSize o / g.bitsAt o := by
        rw [hbk.getBit_eq]
      have hbit : (getBit m.base b addr).2 = (addr - m.base) / orderSize o % g.bitsAt o := by
        rw [hbk.getBit_eq]
      generalize hpage : (addr - m.base) / orderSize o = p at hs hi hset hbit ⊢
      by_cases hz : b.used (p / g.bitsAt o) = 0
      · rw [markAt_fresh fuel hm (by rwa [hset])]
        simp only [hset, hbit, hbk.ok.clearAll_eq hs hz, attachSet_map]
        have hunset : b.map (p / g.bitsAt o) (p % g.bitsAt o) = false := by
          by_contra hc
          have := popcount_pos hi (by simpa using hc)
          have := hbk.ok.used_eq _ hs
          omega
        have hok₁ := hbk.ok.attachEmpty hs Ram.sizeAt_pos hz
          fun hf => head_of_start hbk hs hz hf.2
        have hab : ∀ o', o + 1 ≤ o' → (m.setBucket o (attachSet b (p / g.bitsAt o))).buckets o' =
            m.buckets o' := by
          intro o' ho'
          have : o' ≠ o := by omega
          simp [this]
        have hnext : o < g.top → (addr - m.base) / orderSize (o + 1) = p / g.bitsAt o := by
          intro ht
          have htop := g.top_le
          rw [orderSize_succ (by omega), ← Nat.div_div_eq_div_mul, hpage, Ram.bitsAt_of_lt ht]
        obtain ⟨c, m₂, hmark, hinv, hkeep, hup⟩ := ih (m := m.setBucket o (attachSet b _))
          (h.succ.congr hab fun o' ho' => (hab o' (by omega)).trans (h.above o' ho')) (by omega)
          (by omega) fun ht => by
            rw [setBucket_base, hnext (by omega)]
            rwa [Ram.setsAt, if_pos (by omega)] at hs
        rw [hmark, Option.bind_some, hunset]
        have hm₂ : m₂.buckets o = some (attachSet b (p / g.bitsAt o)) := by
          rw [hkeep.below o (by omega)]
          simp
        refine ⟨true, _, rfl, ?_, ⟨hkeep.base, fun o' ho' => ?_, fun o' ho' q hq => ?_⟩, fun _ => ?_⟩
        · refine hinv.setBucket hot ⟨by simpa using hbk.bits, by simpa using hbk.pageSize,
            hok₁.fill hs hi (by simpa using hunset) (by simp) fun x hx => by simp [hx]⟩
            fun ht x hx hu => ?_
          rw [fill_used, attachSet_used, Function.update_apply] at hu
          split_ifs at hu with he
          · rw [he, ← hnext ht]
            exact hup (by omega)
          · refine hkeep.bit _ le_rfl x ?_
            rw [bit_congr (hab (o + 1) le_rfl)]
            exact h.closed o le_rfl ht x hx (by rwa [usedAt_eq hm])
        · have : o' ≠ o := by omega
          simpa [this] using hkeep.below o' (by omega)
        · by_cases he : o' = o
          · subst he
            refine fill_bit hm₂ ?_
            rw [bit_eq hm] at hq
            rw [bit_eq hm₂]
            simpa using hq
          · rw [setBucket_bit, if_neg he]
            refine hkeep.bit o' (by omega) q ?_
            rwa [bit_congr (hab o' (by omega))]
        · rw [setBucket_bit, if_pos rfl, fill_bits, attachSet_bits, hbk.bits]
          simp
      · rw [markAt_used fuel hm (by rwa [hset])]
        simp only [hset, hbit]
        cases hb : b.map (p / g.bitsAt o) (p % g.bitsAt o) with
        | true =>
          exact ⟨false, m, rfl, h, ⟨rfl, fun _ _ => rfl, fun _ _ _ h => h⟩,
            fun _ => by rwa [hbk.bit_eq hm]⟩
        | false =>
          refine ⟨true, _, rfl, ?_, ⟨rfl, fun o' ho' => ?_, fun o' ho' q hq => ?_⟩, fun _ => ?_⟩
          · refine h.succ.setBucket hot ⟨by simpa using hbk.bits, by simpa using hbk.pageSize,
              hbk.ok.fill hs hi hb (Or.inl (by omega)) fun _ _ => Iff.rfl⟩ fun ht x hx hu => ?_
            refine h.closed o le_rfl ht x hx ?_
            rw [usedAt_eq hm]
            rw [fill_used, Function.update_apply] at hu
            split_ifs at hu with he
            · subst he
              omega
            · exact hu
          · have : o' ≠ o := by omega
            simp [this]
          · by_cases he : o' = o
            · subst he
              exact fill_bit hm hq
            · rwa [setBucket_bit, if_neg he]
          · rw [setBucket_bit, if_pos rfl, fill_bits, hbk.bits]
            simp
    · have hb := h.above o (by omega)
      exact ⟨false, m, by simp [markAt, hb], h, ⟨rfl, fun _ _ => rfl, fun _ _ _ h => h⟩,
        fun hc => (hot hc).elim⟩

end Kmi.Pmem
