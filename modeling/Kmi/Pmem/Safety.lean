import Kmi.Pmem.Free
import Kmi.Pmem.Start

/-! Runs of allocations and frees after some pages have been marked used. -/

namespace Kmi.Pmem

open Kmi.Library.LinkedList Kmi.Mem

def markAll (m : Pmap) (addrs : List ℕ) : Option Pmap :=
  addrs.foldlM (fun m addr => markUsed m 0 addr) m

/-- The map and the pages in use, as order and address, after a sequence of calls
in which every free names a page in use and meets the condition given. -/
inductive Run (cond : Pmap → ℕ → ℕ → Prop) (m₀ : Pmap) : Pmap → List (ℕ × ℕ) → Prop
  | start : Run cond m₀ m₀ []
  | alloc {m m' live order a} (h : Run cond m₀ m live)
      (ha : allocPage m order = some (a, m')) :
      Run cond m₀ m' (if a = 0 then live else (order, a) :: live)
  | free {m m' live order a} (h : Run cond m₀ m live) (hl : (order, a) ∈ live)
      (hc : cond m order a) (hf : freePage m order a = some m') :
      Run cond m₀ m' (live.erase (order, a))

def Apart (x y : ℕ × ℕ) : Prop :=
  x.2 + orderSize x.1 ≤ y.2 ∨ y.2 + orderSize y.1 ≤ x.2

def markedPage (base addr : ℕ) : ℕ × ℕ := (0, base + (addr - base) / orderSize 0 * orderSize 0)

variable {g : Ram} {m m' : Pmap} {o p : ℕ}

structure Held (g : Ram) (m : Pmap) (o p : ℕ) : Prop where
  le : o ≤ g.top
  lt : p < g.pagesAt o
  bit : m.bit o p = true
  whole : 0 < o → m.usedAt (o - 1) p = 0

lemma Inv.usedAt_pos (h : Inv g False m 0) (ho : o ≤ g.top) (hp : p < g.pagesAt o)
    (hb : m.bit o p = true) : 0 < m.usedAt o (p / g.bitsAt o) := by
  obtain ⟨b, hm, hbk⟩ := h.ok o (by omega) ho
  obtain ⟨hs, hi⟩ := Ram.set_lt ho hp
  rw [hbk.bit_eq hm] at hb
  rw [usedAt_eq hm, hbk.ok.used_eq _ hs]
  exact popcount_pos hi hb

lemma Inv.bit_up (h : Inv g False m 0) (k : ℕ) (ho : o + k ≤ g.top) (hp : p < g.pagesAt o)
    (hb : m.bit o p = true) :
    p / 512 ^ k < g.pagesAt (o + k) ∧ m.bit (o + k) (p / 512 ^ k) = true := by
  induction k with
  | zero => simpa using ⟨hp, hb⟩
  | succ k ih =>
    obtain ⟨hp', hb'⟩ := ih (by omega)
    have hs := (Ram.set_lt (by omega) hp').1
    have hu := h.usedAt_pos (by omega) hp' hb'
    have hdiv : p / 512 ^ (k + 1) = p / 512 ^ k / g.bitsAt (o + k) := by
      rw [Ram.bitsAt_of_lt (by omega), Nat.div_div_eq_div_mul, pow_succ]
    rw [hdiv]
    refine ⟨?_, h.closed (o + k) (by omega) (by omega) _ hs hu⟩
    rwa [Ram.setsAt, if_pos (by omega)] at hs

lemma orderSize_add {k : ℕ} (h : o + k ≤ 2) : orderSize (o + k) = 512 ^ k * orderSize o := by
  rw [orderSize_eq h, orderSize_eq (by omega), pow_add]
  ring

lemma apart_of_div {k q base : ℕ} (ho : o + k ≤ 2) (hne : p / 512 ^ k ≠ q) :
    Apart (o, base + p * orderSize o) (o + k, base + q * orderSize (o + k)) := by
  simp only [Apart, orderSize_add ho]
  have hk : 0 < 512 ^ k := by positivity
  rcases Nat.lt_or_gt_of_ne hne with hlt | hgt
  · left
    have : p + 1 ≤ q * 512 ^ k := (Nat.div_lt_iff_lt_mul hk).mp hlt
    calc base + p * orderSize o + orderSize o = base + (p + 1) * orderSize o := by ring
      _ ≤ base + q * 512 ^ k * orderSize o := by gcongr
      _ = base + q * (512 ^ k * orderSize o) := by ring
  · right
    have : (q + 1) * 512 ^ k ≤ p := (Nat.le_div_iff_mul_le hk).mp hgt
    calc base + q * (512 ^ k * orderSize o) + 512 ^ k * orderSize o
        = base + (q + 1) * 512 ^ k * orderSize o := by ring
      _ ≤ base + p * orderSize o := by gcongr

lemma Apart.symm {x y : ℕ × ℕ} (h : Apart x y) : Apart y x := Or.symm h

lemma Held.apart_of_le {k q : ℕ} (base : ℕ) (h : Inv g False m 0) (hp : Held g m o p)
    (hq : Held g m (o + k) q) (hne : (o, p) ≠ (o + k, q)) :
    Apart (o, base + p * orderSize o) (o + k, base + q * orderSize (o + k)) := by
  have htop := g.top_le
  have hle := hq.le
  refine apart_of_div (by omega) fun he => ?_
  cases k with
  | zero => exact hne (by simpa using he)
  | succ k =>
    obtain ⟨hlt, hb⟩ := h.bit_up k (by omega) hp.lt hp.bit
    have hu := h.usedAt_pos (by omega) hlt hb
    have hz := hq.whole (by omega)
    have hdiv : p / 512 ^ k / g.bitsAt (o + k) = q := by
      rw [Ram.bitsAt_of_lt (by omega), Nat.div_div_eq_div_mul, ← pow_succ, he]
    rw [hdiv] at hu
    rw [show o + (k + 1) - 1 = o + k by omega] at hz
    omega

lemma Held.apart {o' p' : ℕ} (base : ℕ) (h : Inv g False m 0) (hp : Held g m o p)
    (hq : Held g m o' p') (hne : (o, p) ≠ (o', p')) :
    Apart (o, base + p * orderSize o) (o', base + p' * orderSize o') := by
  rcases le_total o o' with hle | hle
  · obtain ⟨k, rfl⟩ := Nat.exists_eq_add_of_le hle
    exact hp.apart_of_le base h hq hne
  · obtain ⟨k, rfl⟩ := Nat.exists_eq_add_of_le hle
    exact (hq.apart_of_le base h hp (Ne.symm hne)).symm

lemma Inv.of_order {start : Prop} (h : Inv g start m 0) (h' : Inv g start m' o)
    (hb : ∀ o' < o, m'.buckets o' = m.buckets o')
    (hup : ∀ s, 0 < o → 0 < m.usedAt (o - 1) s → m.bit o s = true → m'.bit o s = true) :
    Inv g start m' 0 := by
  refine ⟨fun o' _ ht => ?_, fun o' _ ht s hs hu => ?_, h'.above⟩
  · by_cases hlt : o' < o
    · rw [hb o' hlt]
      exact h.ok o' (by omega) ht
    · exact h'.ok o' (by omega) ht
  · by_cases hlt : o' < o
    · rw [usedAt_congr (hb o' hlt)] at hu
      have hbit := h.closed o' (by omega) ht s hs hu
      by_cases he : o' + 1 = o
      · subst he
        exact hup s (by omega) (by simpa using hu) hbit
      · rwa [bit_congr (hb (o' + 1) (by omega))]
    · exact h'.closed o' (by omega) ht s hs hu

lemma Grows.held {q o' : ℕ} (h : Grows m m' o) (hq : Held g m o' q) : Held g m' o' q := by
  refine ⟨hq.le, hq.lt, ?_, fun hpos => ?_⟩
  · by_cases hlt : o' < o
    · rw [bit_congr (h.below o' hlt)]
      exact hq.bit
    · exact h.bit o' (by omega) q hq.bit
  · have hz := hq.whole hpos
    by_cases hlt : o' - 1 < o
    · rwa [usedAt_congr (h.below _ hlt)]
    · refine h.empty _ (by omega) q ?_ hz
      rw [show o' - 1 + 1 = o' by omega]
      exact hq.bit

lemma Inv.count {start : Prop} (h : Inv g start m o) (u : ℕ) :
    Inv g start { m with used := u } o :=
  h.congr (fun _ _ => rfl) h.above

lemma Held.count (h : Held g m o p) (u : ℕ) : Held g { m with used := u } o p :=
  ⟨h.le, h.lt, h.bit, h.whole⟩

lemma allocPage_spec (h : Inv g False m 0) (order : ℕ) :
    ∃ a m', allocPage m order = some (a, m') ∧ Inv g False m' 0 ∧ m'.base = m.base ∧
      (∀ o q, Held g m o q → Held g m' o q) ∧
      (a ≠ 0 → ∃ p, a = m.base + p * orderSize order ∧ Held g m' order p ∧ m.bit order p = false) := by
  by_cases ho : order ≤ g.top
  · have hall : Inv g False m order :=
      ⟨fun o' _ => h.ok o' (by omega), fun o' _ => h.closed o' (by omega), h.above⟩
    obtain ⟨a, m', halloc, hinv, hg, hpage⟩ := allocAt_spec depth hall (by omega) (by
      have := g.top_le
      simp only [depth, maxOrder]
      omega)
    have hinv' : Inv g False m' 0 := h.of_order hinv hg.below fun s _ _ hb => hg.bit _ le_rfl s hb
    refine ⟨a, _, by rw [allocPage, halloc]; rfl, ?_, ?_, fun o q hq => ?_, fun ha => ?_⟩
    · split
      · exact hinv'.count _
      · exact hinv'
    · split <;> exact hg.base
    · split
      · exact (hg.held hq).count _
      · exact hg.held hq
    · obtain ⟨-, p, hp, rfl, hunset, hset⟩ := hpage ha
      have hheld : Held g m' order p := by
        refine ⟨ho, hp, hset, fun hpos => ?_⟩
        rw [usedAt_congr (hg.below _ (by omega))]
        by_contra hc
        have := h.closed (order - 1) (by omega) (by omega) p (by
          rw [Ram.setsAt, if_pos (by omega), show order - 1 + 1 = order by omega]
          exact hp) (by omega)
        rw [show order - 1 + 1 = order by omega, hunset] at this
        cases this
      refine ⟨p, rfl, ?_, hunset⟩
      rw [if_pos ha]
      exact hheld.count _
  · have hb := h.above order (by omega)
    exact ⟨0, m, by simp [allocPage, allocAt, depth, hb], h, rfl, fun _ _ h => h,
      fun hc => (hc rfl).elim⟩

def FreeFindsSets (m : Pmap) (order addr : ℕ) : Prop :=
  SeesAttached m depth order ((addr - m.base) / orderSize order)

lemma freePage_spec (h : Inv g False m 0) (hp : Held g m o p)
    (hc : FreeFindsSets m o (m.base + p * orderSize o)) :
    ∃ m', freePage m o (m.base + p * orderSize o) = some m' ∧ Inv g False m' 0 ∧
      m'.base = m.base ∧ ∀ o' q, Held g m o' q → (o', q) ≠ (o, p) → Held g m' o' q := by
  have hle := hp.le
  have htop := g.top_le
  have hdiv : (m.base + p * orderSize o - m.base) / orderSize o = p := by
    rw [Nat.add_sub_cancel_left, Nat.mul_div_cancel _ (orderSize_pos (by omega))]
  have hall : Inv g False m o :=
    ⟨fun o' _ => h.ok o' (by omega), fun o' _ => h.closed o' (by omega), h.above⟩
  rw [FreeFindsSets, hdiv] at hc
  obtain ⟨m', hfree, hinv, hs⟩ := freeAt_spec depth hall hle (by
    simp only [depth, maxOrder]
    omega) hp.lt hdiv hp.bit hc
  have hinv' : Inv g False m' 0 := by
    refine h.of_order hinv hs.below fun s hpos hu hb => ?_
    refine hs.bit o le_rfl s hb (fun _ he => ?_) (by omega)
    have := hp.whole hpos
    rw [he] at hu
    omega
  refine ⟨{ m' with used := m'.used - orderSize o }, by rw [freePage, hfree]; rfl,
    hinv'.count _, hs.base, fun o' q hq hne => Held.count ⟨hq.le, hq.lt, ?_, fun hpos => ?_⟩ _⟩
  · by_cases hlt : o' < o
    · rw [bit_congr (hs.below o' hlt)]
      exact hq.bit
    · refine hs.bit o' (by omega) q hq.bit (fun he hqp => hne (by rw [he, hqp])) fun hlt' => ?_
      exact hq.whole (by omega)
  · have hz := hq.whole hpos
    by_cases hlt : o' - 1 < o
    · rwa [usedAt_congr (hs.below _ hlt)]
    · exact hs.empty _ (by omega) q hz

lemma basePage_lt {base addr : ℕ} (hlo : base ≤ addr) (hhi : addr < base + g.bytes) :
    (addr - base) / orderSize 0 < g.pagesAt 0 := by
  have hbytes : g.bytes = orderSize 0 * g.pagesAt 0 := by
    have htop := g.top_le
    have := orderSize_add (o := 0) (k := g.top) (by omega)
    rw [zero_add] at this
    rw [Ram.bytes, this, Ram.pagesAt]
    simp only [Nat.sub_zero]
    ring
  refine Nat.div_lt_of_lt_mul ?_
  omega

lemma markUsed_spec {addr : ℕ} (h : Inv g True m 0) (hlo : m.base ≤ addr)
    (hhi : addr < m.base + g.bytes) :
    ∃ m', markUsed m 0 addr = some m' ∧ Inv g True m' 0 ∧ m'.base = m.base ∧
      (∀ p, m.bit 0 p = true → m'.bit 0 p = true) ∧
      m'.bit 0 ((addr - m.base) / orderSize 0) = true := by
  have hpage := basePage_lt hlo hhi
  obtain ⟨c, m', hmark, hinv, hk, hbit⟩ := markAt_spec depth addr h (by omega) (by
    have := g.top_le
    simp only [depth, maxOrder]
    omega) fun _ => hpage
  refine ⟨_, by rw [markUsed, hmark]; rfl, ?_, ?_, fun p hp => ?_, ?_⟩
  · cases c
    · exact hinv
    · exact hinv.count _
  · cases c <;> exact hk.base
  · cases c <;> exact hk.bit 0 le_rfl p hp
  · cases c <;> exact hbit (Nat.zero_le _)

lemma markAll_spec {addrs : List ℕ} (h : Inv g True m 0)
    (hin : ∀ x ∈ addrs, m.base ≤ x ∧ x < m.base + g.bytes) :
    ∃ m', markAll m addrs = some m' ∧ Inv g True m' 0 ∧ m'.base = m.base ∧
      (∀ p, m.bit 0 p = true → m'.bit 0 p = true) ∧
      ∀ x ∈ addrs, m'.bit 0 ((x - m.base) / orderSize 0) = true := by
  induction addrs generalizing m with
  | nil => exact ⟨m, rfl, h, rfl, fun _ h => h, by simp⟩
  | cons a addrs ih =>
    obtain ⟨hlo, hhi⟩ := hin a (by simp)
    obtain ⟨m₁, hm₁, h₁, hbase₁, hbit₁, ha⟩ := markUsed_spec h hlo hhi
    obtain ⟨m₂, hm₂, h₂, hbase₂, hbit₂, hrest⟩ := ih h₁ fun x hx => by
      rw [hbase₁]
      exact hin x (by simp [hx])
    refine ⟨m₂, ?_, h₂, hbase₂.trans hbase₁, fun p hp => hbit₂ p (hbit₁ p hp), fun x hx => ?_⟩
    · simpa [markAll, hm₁] using hm₂
    · rcases List.mem_cons.mp hx with rfl | hx
      · exact hbit₂ _ ha
      · rw [← hbase₁]
        exact hrest x hx

lemma Inv.started (h : Inv g True m 0) (hp : p < g.pagesAt 0) (hb : m.bit 0 p = true) :
    Inv g False m 0 := by
  have hup : ∀ k, k ≤ g.top → ∃ q < g.pagesAt k, m.bit k q = true := by
    intro k
    induction k with
    | zero => exact fun _ => ⟨p, hp, hb⟩
    | succ k ih =>
      intro hk
      obtain ⟨q, hq, hbq⟩ := ih (by omega)
      obtain ⟨b, hm, hbk⟩ := h.ok k (by omega) (by omega)
      obtain ⟨hs, hi⟩ := Ram.set_lt (by omega) hq
      rw [hbk.bit_eq hm] at hbq
      refine ⟨q / g.bitsAt k, ?_, h.closed k (by omega) (by omega) _ hs ?_⟩
      · rwa [Ram.setsAt, if_pos (by omega)] at hs
      · rw [usedAt_eq hm, hbk.ok.used_eq _ hs]
        exact popcount_pos hi hbq
  refine ⟨fun o' _ ht => ?_, h.closed, h.above⟩
  obtain ⟨b, hm, hbk⟩ := h.ok o' (by omega) ht
  refine ⟨b, hm, hbk.bits, hbk.pageSize, hbk.ok.size_eq, hbk.ok.used_eq, ?_⟩
  obtain ⟨xs, hl, hmem⟩ := hbk.ok.listed
  refine ⟨xs, hl, fun s => ?_⟩
  rw [hmem]
  by_cases he : o' = g.top
  · subst he
    have hone : g.setsAt g.top = 1 := if_neg (by omega)
    obtain ⟨q, hq, hbq⟩ := hup g.top le_rfl
    obtain ⟨hs, hi⟩ := Ram.set_lt le_rfl hq
    rw [hbk.bit_eq hm] at hbq
    have hpos := popcount_pos hi hbq
    rw [← hbk.ok.used_eq _ hs] at hpos
    rw [hone] at hs ⊢
    rw [Nat.lt_one_iff.mp hs] at hpos
    constructor
    · rintro ⟨hs', hlt, -⟩
      obtain rfl : s = 0 := by omega
      exact ⟨hs', hlt, Or.inl hpos⟩
    · rintro ⟨hs', hlt, hu⟩
      obtain rfl : s = 0 := by omega
      exact ⟨hs', hlt, Or.inl hpos⟩
  · simp [he]

structure Owned (g : Ram) (m : Pmap) (live : List (ℕ × ℕ)) (marked : List ℕ) : Prop where
  inv : Inv g False m 0
  held : ∀ x ∈ live, ∃ p, x.2 = m.base + p * orderSize x.1 ∧ Held g m x.1 p
  nodup : live.Nodup
  kept : ∀ x ∈ marked, Held g m 0 ((x - m.base) / orderSize 0) ∧ markedPage m.base x ∉ live

lemma Held.size_pos (h : Held g m o p) : 0 < orderSize o := by
  have := g.top_le
  have := h.le
  exact orderSize_pos (by omega)

lemma Held.addr_inj {p' base : ℕ} (h : Held g m o p)
    (he : base + p * orderSize o = base + p' * orderSize o) : p = p' :=
  Nat.eq_of_mul_eq_mul_right h.size_pos (Nat.add_left_cancel he)

variable {live : List (ℕ × ℕ)} {marked : List ℕ}

lemma Owned.alloc (h : Owned g m live marked) (order : ℕ) :
    ∃ a m', allocPage m order = some (a, m') ∧ m'.base = m.base ∧
      Owned g m' (if a = 0 then live else (order, a) :: live) marked := by
  obtain ⟨a, m', halloc, hinv, hbase, hheld, hpage⟩ := allocPage_spec h.inv order
  refine ⟨a, m', halloc, hbase, ?_⟩
  have hlive : ∀ x ∈ live, ∃ p, x.2 = m'.base + p * orderSize x.1 ∧ Held g m' x.1 p := by
    intro x hx
    obtain ⟨p, hp, hh⟩ := h.held x hx
    exact ⟨p, by rw [hbase, hp], hheld _ _ hh⟩
  have hkept : ∀ x ∈ marked, Held g m' 0 ((x - m'.base) / orderSize 0) ∧
      markedPage m'.base x ∉ live := by
    intro x hx
    rw [hbase]
    exact ⟨hheld _ _ (h.kept x hx).1, (h.kept x hx).2⟩
  split_ifs with ha
  · exact ⟨hinv, hlive, h.nodup, hkept⟩
  · obtain ⟨p, rfl, hp, hunset⟩ := hpage ha
    have hfresh : ∀ q, Held g m order q → q ≠ p := by
      rintro q hq rfl
      simp [hq.bit] at hunset
    refine ⟨hinv, fun x hx => ?_, List.nodup_cons.mpr ⟨fun hmem => ?_, h.nodup⟩, fun x hx => ?_⟩
    · rcases List.mem_cons.mp hx with rfl | hx
      · exact ⟨p, by rw [hbase], hp⟩
      · exact hlive x hx
    · obtain ⟨q, hq, hh⟩ := h.held _ hmem
      exact hfresh q hh (hh.addr_inj hq.symm)
    · obtain ⟨hk, hnot⟩ := hkept x hx
      refine ⟨hk, fun hmem => ?_⟩
      rcases List.mem_cons.mp hmem with he | hmem
      · obtain ⟨rfl, he⟩ := Prod.mk.inj he
        rw [hbase] at he
        exact hfresh _ (h.kept x hx).1 ((h.kept x hx).1.addr_inj he)
      · exact hnot hmem

lemma Owned.free {x : ℕ × ℕ} (h : Owned g m live marked) (hx : x ∈ live)
    (hc : FreeFindsSets m x.1 x.2) :
    ∃ m', freePage m x.1 x.2 = some m' ∧ m'.base = m.base ∧ Owned g m' (live.erase x) marked := by
  obtain ⟨p, hp, hh⟩ := h.held x hx
  rw [hp] at hc
  obtain ⟨m', hfree, hinv, hbase, hheld⟩ := freePage_spec h.inv hh hc
  refine ⟨m', by rw [hp, hfree], hbase, hinv, fun y hy => ?_, h.nodup.erase x, fun y hy => ?_⟩
  · have hyx : y ≠ x := fun e => h.nodup.not_mem_erase (e ▸ hy)
    obtain ⟨q, hq, hhq⟩ := h.held y (List.mem_of_mem_erase hy)
    refine ⟨q, by rw [hbase, hq], hheld _ _ hhq fun he => hyx ?_⟩
    obtain ⟨h₁, h₂⟩ := Prod.mk.inj he
    exact Prod.ext h₁ (by rw [hq, hp, h₁, h₂])
  · obtain ⟨hk, hnot⟩ := h.kept y hy
    rw [hbase]
    refine ⟨hheld _ _ hk fun he => hnot ?_, fun hmem => hnot (List.mem_of_mem_erase hmem)⟩
    obtain ⟨h₁, h₂⟩ := Prod.mk.inj he
    have : markedPage m.base y = x := Prod.ext h₁ (by simp only [markedPage]; rw [hp, ← h₁, h₂])
    rwa [this]

lemma Run.owned {m₀ : Pmap} (h₀ : Owned g m₀ [] marked) (h : Run FreeFindsSets m₀ m live) :
    m.base = m₀.base ∧ Owned g m live marked := by
  induction h with
  | start => exact ⟨rfl, h₀⟩
  | @alloc m m' live order a _ ha ih =>
    obtain ⟨a', m'', ha', hbase, ho⟩ := ih.2.alloc order
    obtain ⟨rfl, rfl⟩ := Prod.mk.inj (Option.some.inj (ha.symm.trans ha'))
    exact ⟨hbase.trans ih.1, ho⟩
  | @free m m' live order a _ hl hc hf ih =>
    obtain ⟨m'', hf', hbase, ho⟩ := ih.2.free hl hc
    obtain rfl := Option.some.inj (hf.symm.trans hf')
    exact ⟨hbase.trans ih.1, ho⟩

end Kmi.Pmem
