import Kmi.Pmem.Safety

/-! The map records no page but those that are allocated or marked. -/

namespace Kmi.Pmem

open Kmi.Library.LinkedList Kmi.Mem

variable {g : Ram} {m m' m₁ : Pmap} {o p q : ℕ} {b : Bucket}

structure Adds (m m' : Pmap) (o p : ℕ) : Prop where
  base : m'.base = m.base
  bit : ∀ o', o ≤ o' → ∀ q, m'.bit o' q = true →
    m.bit o' q = true ∨ o' = o ∧ q = p ∨ o < o' ∧ 0 < m'.usedAt (o' - 1) q
  used : ∀ o', o ≤ o' → ∀ s, m'.usedAt o' s = 0 → m.usedAt o' s = 0

lemma Adds.refl (m : Pmap) (o p : ℕ) : Adds m m o p := ⟨rfl, fun _ _ _ h => .inl h, fun _ _ _ h => h⟩

lemma Adds.climb {s : ℕ} (h : Adds m m₁ (o + 1) s) (hbase : m'.base = m₁.base)
    (hb : ∀ o', o + 1 ≤ o' → m'.buckets o' = m₁.buckets o')
    (hbit : ∀ q, m'.bit o q = true → m.bit o q = true ∨ q = p)
    (hused : ∀ s, m'.usedAt o s = 0 → m.usedAt o s = 0) (hs : 0 < m'.usedAt o s) : Adds m m' o p := by
  refine ⟨hbase.trans h.base, fun o' ho q hq => ?_, fun o' ho x hx => ?_⟩
  · obtain rfl | hlt := ho.eq_or_lt
    · exact (hbit q hq).imp_right fun he => .inl ⟨rfl, he⟩
    · rw [bit_congr (hb o' hlt)] at hq
      obtain hq | ⟨rfl, rfl⟩ | ⟨hlt', hq⟩ := h.bit o' hlt q hq
      · exact .inl hq
      · exact .inr (.inr ⟨hlt, hs⟩)
      · refine .inr (.inr ⟨hlt, ?_⟩)
        rwa [usedAt_congr (hb (o' - 1) (by omega))]
  · obtain rfl | hlt := ho.eq_or_lt
    · exact hused x hx
    · rw [usedAt_congr (hb o' hlt)] at hx
      exact h.used o' hlt x hx

lemma Adds.here (hbase : m'.base = m.base) (hb : ∀ o', o + 1 ≤ o' → m'.buckets o' = m.buckets o')
    (hbit : ∀ q, m'.bit o q = true → m.bit o q = true ∨ q = p)
    (hused : ∀ s, m'.usedAt o s = 0 → m.usedAt o s = 0) : Adds m m' o p := by
  refine ⟨hbase, fun o' ho q hq => ?_, fun o' ho x hx => ?_⟩
  · obtain rfl | hlt := ho.eq_or_lt
    · exact (hbit q hq).imp_right fun he => .inl ⟨rfl, he⟩
    · rw [bit_congr (hb o' hlt)] at hq
      exact .inl hq
  · obtain rfl | hlt := ho.eq_or_lt
    · exact hused x hx
    · rwa [usedAt_congr (hb o' hlt)] at hx

lemma fill_bit_only {s i : ℕ} (h : (m.setBucket o (fill b s i)).bit o q = true) :
    b.map (q / b.bits) (q % b.bits) = true ∨ q = s * b.bits + i := by
  rw [setBucket_bit, if_pos rfl, fill_bits, fill_map] at h
  by_cases hs : q / b.bits = s
  · by_cases hq : q % b.bits = i
    · right
      rw [← hs, ← hq, Nat.div_add_mod']
    · left
      rw [hs] at h ⊢
      rwa [Function.update_self, Function.update_of_ne hq] at h
  · left
    rwa [Function.update_of_ne hs] at h

lemma fill_used_only {s i x : ℕ} (h : (m.setBucket o (fill b s i)).usedAt o x = 0) : b.used x = 0 := by
  rw [setBucket_usedAt, if_pos rfl, fill_used] at h
  by_cases hx : x = s
  · subst hx
    rw [Function.update_self] at h
    omega
  · rwa [Function.update_of_ne hx] at h

lemma fill_used_self {s i : ℕ} : 0 < (m.setBucket o (fill b s i)).usedAt o s := by
  rw [setBucket_usedAt, if_pos rfl, fill_used, Function.update_self]
  exact Nat.succ_pos _

lemma takePage_index {sets size : ℕ} {fresh : ℕ → Prop} {s : ℕ} (hok : BucketOk sets size fresh b) (hs : s < sets)
    (hlt : b.used s < size) : ∃ i < size, takePage b s = (i, fill b s i) := by
  have hsize := hok.size_eq s hs
  rw [hok.used_eq s hs, ← hsize] at hlt
  obtain ⟨hi, -⟩ := findFirstUnset_spec hlt
  exact ⟨_, hi.trans_eq hsize, takePage_eq⟩

lemma allocAt_adds (fuel : ℕ) {a : ℕ} (h : Inv g False m o) (hbase : 0 < m.base) (ho : o ≤ g.top + 1)
    (hfuel : g.top + 2 ≤ fuel + o) (halloc : allocAt fuel m o = some (a, m')) :
    a = 0 ∧ m' = m ∧ (∀ o', o ≤ o' → ∀ b, m.buckets o' = some b → b.head = none) ∨
      ∃ p, a = m.base + p * orderSize o ∧ Adds m m' o p := by
  induction fuel generalizing m m' o a with
  | zero => omega
  | succ fuel ih =>
    by_cases hot : o ≤ g.top
    · obtain ⟨b, hm, hbk⟩ := h.ok o le_rfl hot
      obtain ⟨xs, hl, hmem⟩ := hbk.ok.listed
      cases hhead : b.head with
      | some s =>
        right
        obtain ⟨⟨-, last, hseg⟩, -⟩ := hl
        rw [hhead] at hseg
        obtain ⟨hs, hlt, -⟩ := (hmem s).mp (mem_of_first hseg)
        obtain ⟨i, hi, htake⟩ := takePage_index hbk.ok hs hlt
        rw [allocAt_head fuel hm hhead, htake] at halloc
        cases halloc
        refine ⟨s * g.bitsAt o + i, hbk.pageAddr_eq _ _ _, .here rfl (fun o' ho' => ?_) (fun q hq => ?_) fun x hx => ?_⟩
        · rw [setBucket_buckets, if_neg (by omega)]
        · rw [Pmem.bit_eq hm, ← hbk.bits]
          exact fill_bit_only hq
        · rw [usedAt_eq hm]
          exact fill_used_only hx
      | none =>
        obtain ⟨a₁, m₁, halloc₁, hinv₁, hg₁, hpage⟩ := allocAt_spec fuel h.succ (by omega) (by omega)
        obtain ⟨rfl, rfl, hnone⟩ | ⟨q, rfl, hadds⟩ := ih h.succ hbase (by omega) (by omega) halloc₁
        · rw [allocAt_failed hm hhead halloc₁] at halloc
          cases halloc
          refine .inl ⟨rfl, rfl, fun o' ho' b' hb' => ?_⟩
          obtain rfl | hlt := ho'.eq_or_lt
          · cases hm.symm.trans hb'
            exact hhead
          · exact hnone o' hlt b' hb'
        · right
          have hne : m.base + q * orderSize (o + 1) ≠ 0 := by omega
          obtain ⟨ht, q', hq', heq, hunset, -⟩ := hpage hne
          have htop := g.top_le
          obtain rfl : q = q' := Nat.eq_of_mul_eq_mul_right (orderSize_pos (by omega)) (Nat.add_left_cancel heq)
          have ht' : o < g.top := by omega
          have hqs : q < g.setsAt o := by rwa [Ram.setsAt, if_pos ht']
          have hok : BucketOk (g.setsAt o) (g.sizeAt o) (fun _ => False) b := by simpa using hbk.ok
          have hz : b.used q = 0 := h.used_zero ht' hm hqs hunset
          have hcarve := hok.carve_eq hqs hz
          have hok' := hok.attachEmpty hqs Ram.sizeAt_pos hz (by simp)
          rw [← hcarve] at hok'
          obtain ⟨i, hi, htake⟩ := takePage_index hok' hqs (by
            rw [hcarve, attachSet_used, hz]
            exact Ram.sizeAt_pos)
          have hbits : (carve b q).bits = g.bitsAt o := by rw [hcarve, attachSet_bits, hbk.bits]
          obtain ⟨fuel, rfl⟩ := Nat.exists_eq_succ_of_ne_zero (by omega : fuel ≠ 0)
          rw [← hg₁.base] at halloc₁ hne
          rw [allocAt_carve ht' hm hbk hhead hqs hne halloc₁,
            allocAt_head fuel (by simp : (m₁.setBucket o (carve b q)).buckets o = some (carve b q)) carve_head,
            htake] at halloc
          cases halloc
          refine ⟨q * g.bitsAt o + i, ?_, hadds.climb rfl (fun o' ho' => ?_) (fun r hr => ?_)
            (fun x hx => ?_) fill_used_self⟩
          · rw [setBucket_base, hg₁.base, pageAddr, hbits, hcarve, attachSet_pageSize, hbk.pageSize]
            ring
          · rw [setBucket_buckets, if_neg (by omega), setBucket_buckets, if_neg (by omega)]
          · have hr' := fill_bit_only hr
            rw [hbits] at hr'
            rwa [hbk.bit_eq hm, ← attachSet_map , ← hcarve]
          · have hx' := fill_used_only hx
            rwa [hcarve, attachSet_used, ← usedAt_eq hm] at hx'
    · have hb := h.above o (by omega)
      rw [allocAt, hb] at halloc
      cases halloc
      exact .inl ⟨rfl, rfl, fun o' ho' b hb' => by rw [h.above o' (by omega)] at hb'; cases hb'⟩

lemma markAt_adds (fuel addr : ℕ) {c : Bool} (h : Inv g True m o)
    (hp : o ≤ g.top → p = (addr - m.base) / orderSize o ∧ p < g.pagesAt o)
    (hmark : markAt fuel m o addr = some (c, m')) : Adds m m' o p := by
  induction fuel generalizing m m' o p c with
  | zero => cases hmark
  | succ fuel ih =>
    by_cases hot : o ≤ g.top
    · obtain ⟨b, hm, hbk⟩ := h.ok o le_rfl hot
      obtain ⟨hpage, hlt⟩ := hp hot
      obtain ⟨hs, hi⟩ := Ram.set_lt hot hlt
      have hset : (getBit m.base b addr).1 = p / g.bitsAt o := by rw [hbk.getBit_eq, hpage]
      have hbit : (getBit m.base b addr).2 = p % g.bitsAt o := by rw [hbk.getBit_eq, hpage]
      have hjoin : p / g.bitsAt o * g.bitsAt o + p % g.bitsAt o = p := Nat.div_add_mod' ..
      by_cases hz : b.used (p / g.bitsAt o) = 0
      · rw [markAt_fresh fuel hm (by rwa [hset])] at hmark
        simp only [hset, hbit, hbk.ok.clearAll_eq hs hz, attachSet_map] at hmark
        obtain ⟨⟨c₁, m₁⟩, hmark₁, hmark⟩ := Option.bind_eq_some_iff.1 hmark
        have hunset : b.map (p / g.bitsAt o) (p % g.bitsAt o) = false := by
          by_contra hc
          have := popcount_pos hi (by simpa using hc)
          have := hbk.ok.used_eq _ hs
          omega
        rw [if_neg (by rw [hunset]; exact Bool.false_ne_true)] at hmark
        cases hmark
        have hab : ∀ o', o + 1 ≤ o' → (m.setBucket o (attachSet b (p / g.bitsAt o))).buckets o' =
            m.buckets o' := fun o' ho' => by rw [setBucket_buckets, if_neg (by omega)]
        have hadds : Adds (m.setBucket o (attachSet b (p / g.bitsAt o))) m₁ (o + 1) (p / g.bitsAt o) := by
          refine ih (h.succ.congr hab fun o' ho' => (hab o' (by omega)).trans (h.above o' ho')) (fun ht => ?_) hmark₁
          have htop := g.top_le
          rw [setBucket_base, orderSize_succ (by omega), ← Nat.div_div_eq_div_mul, ← hpage,
            Ram.bitsAt_of_lt (by omega)]
          rw [Ram.setsAt, if_pos (by omega), Ram.bitsAt_of_lt (by omega)] at hs
          exact ⟨rfl, hs⟩
        have hadds' : Adds m m₁ (o + 1) (p / g.bitsAt o) := by
          refine ⟨hadds.base, fun o' ho' q hq => ?_, fun o' ho' x hx => ?_⟩
          · rw [← bit_congr (hab o' ho')]
            exact hadds.bit o' ho' q hq
          · rw [← usedAt_congr (hab o' ho')]
            exact hadds.used o' ho' x hx
        refine hadds'.climb rfl (fun o' ho' => ?_) (fun q hq => ?_) (fun x hx => ?_) fill_used_self
        · rw [setBucket_buckets, if_neg (by omega)]
        · have hq' := fill_bit_only hq
          rw [attachSet_bits, attachSet_map, hbk.bits, hjoin] at hq'
          rwa [hbk.bit_eq hm]
        · have hx' := fill_used_only hx
          rwa [attachSet_used, ← usedAt_eq hm] at hx'
      · rw [markAt_used fuel hm (by rwa [hset])] at hmark
        simp only [hset, hbit] at hmark
        split_ifs at hmark
        · cases hmark
          exact .refl m o p
        · cases hmark
          refine .here rfl (fun o' ho' => ?_) (fun q hq => ?_) fun x hx => ?_
          · rw [setBucket_buckets, if_neg (by omega)]
          · have hq' := fill_bit_only hq
            rw [hbk.bits, hjoin] at hq'
            rwa [hbk.bit_eq hm]
          · rw [usedAt_eq hm]
            exact fill_used_only hx
    · rw [markAt, h.above o (by omega)] at hmark
      cases hmark
      exact .refl m o p

structure Frees (g : Ram) (m m' : Pmap) (o p : ℕ) : Prop where
  base : m'.base = m.base
  bit : ∀ o', o ≤ o' → ∀ q, m'.bit o' q = true → m.bit o' q = true ∧ (o' = o → q ≠ p)
  used : ∀ o', o ≤ o' → o' < g.top → ∀ s, m'.usedAt o' s = 0 → m.usedAt o' s = 0 ∨ m'.bit (o' + 1) s = false

lemma release_bit_only {s i : ℕ} (h : (m.setBucket o (release b s i)).bit o q = true) :
    b.map (q / b.bits) (q % b.bits) = true ∧ ¬ (q / b.bits = s ∧ q % b.bits = i) := by
  rw [setBucket_bit, if_pos rfl, release_bits, release_map] at h
  by_cases hs : q / b.bits = s
  · rw [hs, Function.update_self] at h
    by_cases hq : q % b.bits = i
    · rw [hq, Function.update_self] at h
      cases h
    · rw [Function.update_of_ne hq] at h
      exact ⟨by rwa [hs], fun he => hq he.2⟩
  · rw [Function.update_of_ne hs] at h
    exact ⟨h, fun he => hs he.1⟩

lemma freeAt_below (fuel : ℕ) {addr : ℕ} {c : Bool} (hfree : freeAt fuel m o addr = some (c, m'))
    (o' : ℕ) (ho : o' < o) :
    m'.buckets o' = m.buckets o' := by
  induction fuel generalizing m m' o addr c with
  | zero => cases hfree
  | succ fuel ih =>
    rw [freeAt] at hfree
    split at hfree
    · cases hfree
      rfl
    · dsimp only at hfree
      split_ifs at hfree
      · obtain ⟨r, hr, heq⟩ := Option.map_eq_some_iff.1 hfree
        cases heq
        rw [ih hr (by omega), setBucket_buckets, if_neg (by omega)]
      · cases hfree
        rw [setBucket_buckets, if_neg (by omega)]
      · cases hfree
        rw [setBucket_buckets, if_neg (by omega)]

lemma freeAt_frees (fuel : ℕ) {addr : ℕ} {c : Bool} (h : Inv g False m o) (ho : o ≤ g.top) (hp : p < g.pagesAt o)
    (haddr : (addr - m.base) / orderSize o = p) (hbit : m.bit o p = true)
    (hfree : freeAt fuel m o addr = some (c, m')) : Frees g m m' o p := by
  induction fuel generalizing m m' o p addr c with
  | zero => cases hfree
  | succ fuel ih =>
    obtain ⟨b, hm, hbk⟩ := h.ok o le_rfl ho
    obtain ⟨hs, hi⟩ := Ram.set_lt ho hp
    have hmap : b.map (p / g.bitsAt o) (p % g.bitsAt o) = true := by rwa [← hbk.bit_eq hm]
    have hgb : getBit m.base b addr = (p / g.bitsAt o, p % g.bitsAt o) := by rw [hbk.getBit_eq, haddr]
    have hpos := popcount_pos hi hmap
    have hused := hbk.ok.used_eq _ hs
    obtain ⟨m₁, hm₁⟩ : ∃ m₁, m₁ = m.setBucket o (release b (p / g.bitsAt o) (p % g.bitsAt o)) := ⟨_, rfl⟩
    have hab : ∀ o', o + 1 ≤ o' → m₁.buckets o' = m.buckets o' := fun o' ho' => by
      rw [hm₁, setBucket_buckets, if_neg (by omega)]
    have hbit₁ : ∀ q, m₁.bit o q = true → m.bit o q = true ∧ q ≠ p := fun q hq => by
      rw [hm₁] at hq
      obtain ⟨hq', hne⟩ := release_bit_only hq
      rw [hbk.bits] at hq' hne
      refine ⟨by rwa [hbk.bit_eq hm], fun he => hne ?_⟩
      rw [he]
      exact ⟨rfl, rfl⟩
    have hused₁ : ∀ s, m₁.usedAt o s = 0 →
        m.usedAt o s = 0 ∨
          s = p / g.bitsAt o ∧ (release b (p / g.bitsAt o) (p % g.bitsAt o)).used (p / g.bitsAt o) = 0 := fun s hz => by
      rw [hm₁, setBucket_usedAt, if_pos rfl] at hz
      by_cases he : s = p / g.bitsAt o
      · exact .inr ⟨he, by rwa [he] at hz⟩
      · rw [release_used, Function.update_of_ne he] at hz
        exact .inl (by rwa [usedAt_eq hm])
    have hstay : (o < g.top → (release b (p / g.bitsAt o) (p % g.bitsAt o)).used (p / g.bitsAt o) ≠ 0) →
        Frees g m m₁ o p := fun hne => by
      refine ⟨by rw [hm₁]; rfl, fun o' ho' q hq => ?_, fun o' ho' ht s hz => ?_⟩
      · obtain rfl | hlt := ho'.eq_or_lt
        · exact ⟨(hbit₁ q hq).1, fun _ => (hbit₁ q hq).2⟩
        · rw [bit_congr (hab o' hlt)] at hq
          exact ⟨hq, fun he => absurd he (by omega)⟩
      · obtain rfl | hlt := ho'.eq_or_lt
        · exact .inl ((hused₁ s hz).resolve_right fun hr => hne ht hr.2)
        · rw [usedAt_congr (hab o' hlt)] at hz
          exact .inl hz
    rw [freeAt_eq hm hgb hmap, ← hm₁] at hfree
    split_ifs at hfree with hz hsize
    · -- the set is empty, and its page of the next order is freed as well
      obtain ⟨⟨c₁, m₂⟩, hfree₁, heq⟩ := Option.map_eq_some_iff.1 hfree
      cases heq
      have htop := g.top_le
      have ht : o < g.top := by
        by_contra hnot
        obtain rfl : o = g.top := by omega
        have hsmall := g.small
        have hpages := g.pages_pos
        rw [hbk.ok.size_eq _ hs, Ram.sizeAt, if_neg hnot] at hsize
        by_cases hw : g.top + 1 ≤ maxOrder
        · rw [orderWidth, if_pos hw] at hsize
          simp only [maxOrder] at hw
          have := hsmall (by omega)
          omega
        · rw [orderWidth, if_neg hw] at hsize
          omega
      have hset : p / g.bitsAt o < g.pagesAt (o + 1) := by rwa [Ram.setsAt, if_pos ht] at hs
      have haddr' : (pageAddr m.base b (p / g.bitsAt o) (p % g.bitsAt o) - m₁.base) / orderSize (o + 1) =
          p / g.bitsAt o := by
        rw [hm₁, setBucket_base, hbk.pageAddr_eq, Nat.add_sub_cancel_left, Nat.div_add_mod', orderSize_succ (by omega),
          mul_comm p, Nat.mul_div_mul_left _ _ (orderSize_pos (by omega)), Ram.bitsAt_of_lt ht]
      have hup : m₁.bit (o + 1) (p / g.bitsAt o) = true := by
        rw [bit_congr (hab (o + 1) le_rfl)]
        exact h.closed o le_rfl ht _ hs (by rw [usedAt_eq hm]; omega)
      have hfrees := ih (h.succ.congr hab fun o' ho' => (hab o' (by omega)).trans (h.above o' ho'))
        (by omega) hset haddr' hup hfree₁
      have hbelow : m₂.buckets o = m₁.buckets o := freeAt_below fuel hfree₁ o (by omega)
      refine ⟨hfrees.base.trans (by rw [hm₁]; rfl), fun o' ho' q hq => ?_, fun o' ho' ht' s hz' => ?_⟩
      · obtain rfl | hlt := ho'.eq_or_lt
        · rw [bit_congr hbelow] at hq
          exact ⟨(hbit₁ q hq).1, fun _ => (hbit₁ q hq).2⟩
        · refine ⟨?_, fun he => absurd he (by omega)⟩
          rw [← bit_congr (hab o' hlt)]
          exact (hfrees.bit o' hlt q hq).1
      · obtain rfl | hlt := ho'.eq_or_lt
        · rw [usedAt_congr hbelow] at hz'
          refine (hused₁ s hz').imp_right fun hr => ?_
          rw [hr.1, ← Bool.not_eq_true]
          exact fun hset => (hfrees.bit _ le_rfl _ hset).2 rfl rfl
        · rw [← usedAt_congr (hab o' hlt)]
          exact hfrees.used o' hlt ht' s hz'
    · cases hfree
      refine hstay fun ht => absurd ?_ hsize
      have htop := g.top_le
      rw [hbk.ok.size_eq _ hs, Ram.sizeAt, if_pos ht, orderWidth, if_pos (by simp only [maxOrder]; omega)]
    · cases hfree
      exact hstay fun _ => hz

end Kmi.Pmem
