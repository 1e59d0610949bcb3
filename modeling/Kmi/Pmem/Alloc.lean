import Kmi.Pmem.Invariant

/-! An allocation takes a page that was free and leaves every page in use as it is. -/

namespace Kmi.Pmem

open Kmi.Library.LinkedList Kmi.Mem

variable {g : Ram} {start : Prop} {m : Pmap} {o : ℕ} {b : Bucket}

structure Keeps (m m' : Pmap) (o : ℕ) : Prop where
  base : m'.base = m.base
  below : ∀ o' < o, m'.buckets o' = m.buckets o'
  bit : ∀ o', o ≤ o' → ∀ p, m.bit o' p = true → m'.bit o' p = true

structure Grows (m m' : Pmap) (o : ℕ) : Prop extends Keeps m m' o where
  empty : ∀ o', o ≤ o' → ∀ s, m.bit (o' + 1) s = true → m.usedAt o' s = 0 → m'.usedAt o' s = 0

lemma Grows.refl (m : Pmap) (o : ℕ) : Grows m m o :=
  ⟨⟨rfl, fun _ _ => rfl, fun _ _ _ h => h⟩, fun _ _ _ _ h => h⟩

lemma take_spec {fresh : ℕ → Prop} {s : ℕ} (h : Inv g False m (o + 1)) (ho : o ≤ g.top)
    (hm : m.buckets o = some b) (hbits : b.bits = g.bitsAt o) (hps : b.pageSize = orderSize o)
    (hok : BucketOk (g.setsAt o) (g.sizeAt o) fresh b) (hfresh : ∀ x, x ≠ s → ¬ fresh x)
    (hcov : o < g.top → ∀ x < g.setsAt o, 0 < b.used x ∨ x = s → m.bit (o + 1) x = true)
    (hs : s < g.setsAt o) (hlt : b.used s < g.sizeAt o) (hf : 0 < b.used s ∨ fresh s) :
    ∃ p < g.pagesAt o, pageAddr m.base b s (takePage b s).1 = m.base + p * orderSize o ∧
      m.bit o p = false ∧ p / g.bitsAt o = s ∧ (m.setBucket o (takePage b s).2).bit o p = true ∧
      Inv g False (m.setBucket o (takePage b s).2) o := by
  have hsize := hok.size_eq s hs
  rw [hok.used_eq s hs, ← hsize] at hlt
  obtain ⟨hi, hunset⟩ := findFirstUnset_spec hlt
  rw [takePage_eq]
  generalize findFirstUnset (b.map s) (b.size s) = i at hi hunset
  rw [hsize] at hi
  obtain ⟨hp, hdiv, hmod⟩ := Ram.page_lt ho hs hi
  refine ⟨s * g.bitsAt o + i, hp, ?_, ?_, hdiv, ?_, ?_⟩
  · rw [pageAddr, hbits, hps]
    ring
  · rw [bit_eq hm, hbits, hdiv, hmod]
    exact hunset
  · rw [setBucket_bit, if_pos rfl, fill_bits, hbits, hdiv, hmod]
    simp
  · refine h.setBucket ho ⟨by simpa using hbits, by simpa using hps, ?_⟩ fun ht x hx hu => ?_
    · refine hok.fill hs hi hunset hf fun x hx => ?_
      simpa using hfresh x hx
    · refine hcov ht x hx ?_
      by_cases he : x = s
      · exact Or.inr he
      · simp only [fill_used, Function.update_of_ne he] at hu
        exact Or.inl hu

lemma Grows.fill {m₀ : Pmap} {s i : ℕ} (h : Grows m₀ m o) (hm : m.buckets o = some b)
    (hs : 0 < b.used s ∨ m₀.bit (o + 1) s = false) : Grows m₀ (m.setBucket o (fill b s i)) o := by
  refine ⟨⟨h.base, fun o' ho => ?_, fun o' ho p hp => ?_⟩, fun o' ho x hx hu => ?_⟩
  · have : o' ≠ o := by omega
    simpa [this] using h.below o' ho
  · have hp' := h.bit o' ho p hp
    rw [setBucket_bit]
    split_ifs with he
    · subst he
      rw [bit_eq hm] at hp'
      simp only [fill_map, fill_bits]
      by_cases h₁ : p / b.bits = s <;> by_cases h₂ : p % b.bits = i <;> simp_all
    · exact hp'
  · have hu' := h.empty o' ho x hx hu
    rw [setBucket_usedAt]
    split_ifs with he
    · subst he
      rw [usedAt_eq hm] at hu'
      have hne : x ≠ s := by
        rintro rfl
        rcases hs with hs | hs
        · omega
        · simp [hs] at hx
      simpa [hne] using hu'
    · exact hu'

lemma Inv.of_above {m' : Pmap} (h : Inv g start m o) (ho : o ≤ g.top)
    (h' : Inv g start m' (o + 1)) (hg : Grows m m' (o + 1)) :
    Inv g start m' o ∧ Grows m m' o := by
  have hb := hg.below o (by omega)
  refine ⟨⟨fun o' ho' ht => ?_, fun o' ho' ht s hs hu => ?_, h'.above⟩,
    ⟨⟨hg.base, fun o' ho' => hg.below o' (by omega), fun o' ho' p hp => ?_⟩,
      fun o' ho' s hs hu => ?_⟩⟩
  · by_cases he : o' = o
    · subst he
      rw [hb]
      exact h.ok o' ho' ht
    · exact h'.ok o' (by omega) ht
  · by_cases he : o' = o
    · subst he
      rw [usedAt_congr hb] at hu
      exact hg.bit _ (by omega) _ (h.closed o' ho' ht s hs hu)
    · exact h'.closed o' (by omega) ht s hs hu
  · by_cases he : o' = o
    · subst he
      rwa [bit_congr hb]
    · exact hg.bit o' (by omega) p hp
  · by_cases he : o' = o
    · subst he
      rwa [usedAt_congr hb]
    · exact hg.empty o' (by omega) s hs hu

lemma carve_spec {m₁ : Pmap} {q : ℕ} (fuel : ℕ) (h : Inv g False m o) (ht : o < g.top)
    (hm : m.buckets o = some b) (hbk : OrderOk g o (False ∧ o = g.top) b) (hq : q < g.setsAt o)
    (h₁ : Inv g False m₁ (o + 1)) (hg : Grows m m₁ (o + 1)) (hunset : m.bit (o + 1) q = false)
    (hset : m₁.bit (o + 1) q = true) :
    ∃ a m', allocAt (fuel + 1) (m₁.setBucket o (carve b q)) o = some (a, m') ∧
      Inv g False m' o ∧ Grows m m' o ∧ ∃ p < g.pagesAt o, a = m.base + p * orderSize o ∧
        m.bit o p = false ∧ m'.bit o p = true := by
  have hok : BucketOk (g.setsAt o) (g.sizeAt o) (fun _ => False) b := by simpa using hbk.ok
  have hz : b.used q = 0 := h.used_zero ht hm hq hunset
  have hcarve := hok.carve_eq hq hz
  have hok' := hok.attachEmpty hq Ram.sizeAt_pos hz (by simp)
  rw [← hcarve] at hok'
  let m₂ := m₁.setBucket o (carve b q)
  have hm₂ : m₂.buckets o = some (carve b q) := by simp [m₂]
  have hab : ∀ o', o + 1 ≤ o' → m₂.buckets o' = m₁.buckets o' := by
    intro o' ho'
    have : o' ≠ o := by omega
    simp [m₂, this]
  have hinv₂ : Inv g False m₂ (o + 1) :=
    h₁.congr hab fun o' ho' => (hab o' (by omega)).trans (h₁.above o' ho')
  have hbit₂ : ∀ p, m₂.bit o p = m.bit o p := by
    intro p
    rw [bit_eq hm₂, bit_eq hm, hcarve, attachSet_bits, attachSet_map]
  have hbits : (carve b q).bits = g.bitsAt o := by rw [hcarve, attachSet_bits, hbk.bits]
  have hps : (carve b q).pageSize = orderSize o := by
    rw [hcarve, attachSet_pageSize, hbk.pageSize]
  have hused : (carve b q).used = b.used := by rw [hcarve, attachSet_used]
  obtain ⟨p, hp, ha, hbit, hdiv, hset', hinv⟩ := take_spec (s := q) hinv₂ ht.le hm₂ hbits hps hok'
    (by simp) (fun _ x hx hu => by
      rw [bit_congr (hab (o + 1) le_rfl)]
      rcases hu with hu | rfl
      · refine hg.bit _ le_rfl _ (h.closed o le_rfl ht x hx ?_)
        rwa [usedAt_eq hm, ← hused]
      · exact hset) hq (by rw [hused, hz]; exact Ram.sizeAt_pos) (by simp)
  have hg₂ : Grows m m₂ o := by
    refine ⟨⟨hg.base, fun o' ho' => ?_, fun o' ho' p hp => ?_⟩, fun o' ho' s hs hu => ?_⟩
    · have : o' ≠ o := by omega
      simpa [m₂, this] using hg.below o' (by omega)
    · by_cases he : o' = o
      · subst he
        rwa [hbit₂]
      · rw [bit_congr (hab o' (by omega))]
        exact hg.bit o' (by omega) p hp
    · by_cases he : o' = o
      · subst he
        rw [usedAt_eq hm] at hu
        rw [usedAt_eq hm₂, hused, hu]
      · rw [usedAt_congr (hab o' (by omega))]
        exact hg.empty o' (by omega) s hs hu
  refine ⟨pageAddr m₂.base (carve b q) q (takePage (carve b q) q).1,
    m₂.setBucket o (takePage (carve b q) q).2, ?_, hinv, ?_, p, hp, ?_, ?_, hset'⟩
  · have hhead := carve_head (b := b) (s := q)
    simp only [allocAt, hm₂, hhead, m₂]
  · exact hg₂.fill hm₂ (Or.inr hunset)
  · rw [ha, hg₂.base]
  · rw [← hbit₂]
    exact hbit

lemma allocAt_head {s : ℕ} (fuel : ℕ) (hm : m.buckets o = some b) (hhead : b.head = some s) :
    allocAt (fuel + 1) m o =
      some (pageAddr m.base b s (takePage b s).1, m.setBucket o (takePage b s).2) := by
  simp only [allocAt, hm, hhead]

lemma allocAt_failed {fuel : ℕ} {m₁ : Pmap} (hm : m.buckets o = some b) (hhead : b.head = none)
    (halloc : allocAt fuel m (o + 1) = some (0, m₁)) : allocAt (fuel + 1) m o = some (0, m₁) := by
  simp [allocAt, hm, hhead, halloc]

lemma allocAt_carve {fuel q : ℕ} {m₁ : Pmap} {fresh : Prop} (ht : o < g.top)
    (hm : m.buckets o = some b) (hbk : OrderOk g o fresh b) (hhead : b.head = none)
    (hq : q < g.setsAt o) (hne : m₁.base + q * orderSize (o + 1) ≠ 0)
    (halloc : allocAt fuel m (o + 1) = some (m₁.base + q * orderSize (o + 1), m₁)) :
    allocAt (fuel + 1) m o = allocAt fuel (m₁.setBucket o (carve b q)) o := by
  have htop := g.top_le
  have hset : (getBit m₁.base b (m₁.base + q * orderSize (o + 1))).1 = q := by
    rw [hbk.getBit_eq, Nat.add_sub_cancel_left, orderSize_succ (by omega), Ram.bitsAt_of_lt ht,
      ← mul_assoc, mul_comm q, mul_assoc, Nat.mul_div_cancel_left _ (orderSize_pos (by omega)),
      Nat.mul_div_cancel _ (by omega)]
  have hsize : b.size q = 512 := by rw [hbk.ok.size_eq q hq, Ram.sizeAt, if_pos ht]
  have hwidth : orderWidth (o + 1) = 512 := by
    rw [orderWidth, if_pos (by simp only [maxOrder]; omega)]
  rw [allocAt]
  simp only [hm, hhead, halloc, Option.bind_eq_bind, Option.bind_some, hne, if_false, hset, hsize,
    hwidth]
  simp

lemma allocAt_spec (fuel : ℕ) (h : Inv g False m o) (ho : o ≤ g.top + 1)
    (hfuel : g.top + 2 ≤ fuel + o) :
    ∃ a m', allocAt fuel m o = some (a, m') ∧ Inv g False m' o ∧ Grows m m' o ∧
      (a ≠ 0 → o ≤ g.top ∧ ∃ p < g.pagesAt o, a = m.base + p * orderSize o ∧
        m.bit o p = false ∧ m'.bit o p = true) := by
  induction fuel generalizing m o with
  | zero => omega
  | succ fuel ih =>
    by_cases hot : o ≤ g.top
    · obtain ⟨b, hm, hbk⟩ := h.ok o le_rfl hot
      obtain ⟨xs, hl, hmem⟩ := hbk.ok.listed
      cases hhead : b.head with
      | some s =>
        obtain ⟨⟨-, last, hseg⟩, -⟩ := hl
        rw [hhead] at hseg
        obtain ⟨hs, hlt, hpos⟩ := (hmem s).mp (mem_of_first hseg)
        have hpos' : 0 < b.used s := by simpa using hpos
        obtain ⟨p, hp, ha, hbit, -, hset, hinv⟩ := take_spec h.succ hot hm hbk.bits hbk.pageSize
          hbk.ok (by simp) (s := s) (fun ht x hx hu => by
            refine h.closed o le_rfl ht x hx ?_
            rw [usedAt_eq hm]
            rcases hu with hu | rfl
            · exact hu
            · exact hpos') hs hlt hpos
        refine ⟨_, _, allocAt_head fuel hm hhead, hinv, ?_, fun _ => ⟨hot, p, hp, ha, hbit, hset⟩⟩
        exact (Grows.refl m o).fill hm (Or.inl hpos')
      | none =>
        obtain ⟨a, m₁, halloc, hinv₁, hg₁, hpage⟩ := ih h.succ (by omega) (by omega)
        obtain ⟨hinv₂, hg₂⟩ := h.of_above hot hinv₁ hg₁
        by_cases ha : a = 0
        · subst ha
          exact ⟨0, m₁, allocAt_failed hm hhead halloc, hinv₂, hg₂, fun hc => (hc rfl).elim⟩
        · obtain ⟨ht, q, hq, rfl, hunset, hset⟩ := hpage ha
          have ht' : o < g.top := by omega
          have hqs : q < g.setsAt o := by rwa [Ram.setsAt, if_pos ht']
          obtain ⟨fuel, rfl⟩ := Nat.exists_eq_succ_of_ne_zero (by omega : fuel ≠ 0)
          obtain ⟨a, m', ha', hinv', hg', hp'⟩ :=
            carve_spec fuel h ht' hm hbk hqs hinv₁ hg₁ hunset hset
          rw [← hg₁.base] at ha halloc
          refine ⟨a, m', ?_, hinv', hg', fun _ => ⟨hot, hp'⟩⟩
          rw [allocAt_carve ht' hm hbk hhead hqs ha halloc, ha']
    · have hb := h.above o (by omega)
      exact ⟨0, m, by simp [allocAt, hb], h, Grows.refl m o, fun hc => (hc rfl).elim⟩

end Kmi.Pmem
