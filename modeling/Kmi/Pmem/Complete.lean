import Kmi.Pmem.Exact
import Kmi.Pmem.Runs

/-! An allocation fails only where no page of its order is free, and no page gets lost. -/

namespace Kmi.Pmem

open Kmi.Library.LinkedList Kmi.Mem

variable {g : Ram} {m m' m₀ : Pmap} {o p q order a : ℕ} {live : List (ℕ × ℕ)} {marked : List ℕ}

lemma Adds.held {o' : ℕ} (h : Adds m m' o p) (hbelow : ∀ o' < o, m'.buckets o' = m.buckets o')
    (hq : Held g m' o' q) : Held g m o' q ∨ o' = o ∧ q = p := by
  have hwhole : 0 < o' → m.usedAt (o' - 1) q = 0 := fun hpos => by
    by_cases hlt : o' - 1 < o
    · rw [← usedAt_congr (hbelow _ hlt)]
      exact hq.whole hpos
    · exact h.used _ (by omega) q (hq.whole hpos)
  by_cases hlt : o' < o
  · exact .inl ⟨hq.le, hq.lt, by rw [← bit_congr (hbelow o' hlt)]; exact hq.bit, hwhole⟩
  · obtain hb | he | ⟨hlt', hu⟩ := h.bit o' (by omega) q hq.bit
    · exact .inl ⟨hq.le, hq.lt, hb, hwhole⟩
    · exact .inr he
    · have := hq.whole (by omega)
      omega

lemma Frees.held {o' : ℕ} (h : Frees g m m' o p) (hbelow : ∀ o' < o, m'.buckets o' = m.buckets o')
    (hq : Held g m' o' q) : Held g m o' q ∧ ¬ (o' = o ∧ q = p) := by
  have hwhole : 0 < o' → m.usedAt (o' - 1) q = 0 := fun hpos => by
    by_cases hlt : o' - 1 < o
    · rw [← usedAt_congr (hbelow _ hlt)]
      exact hq.whole hpos
    · have hle := hq.le
      refine (h.used _ (by omega) (by omega) q (hq.whole hpos)).resolve_right fun hb => ?_
      rw [Nat.sub_add_cancel hpos, hq.bit] at hb
      cases hb
  by_cases hlt : o' < o
  · refine ⟨⟨hq.le, hq.lt, ?_, hwhole⟩, by omega⟩
    rw [← bit_congr (hbelow o' hlt)]
    exact hq.bit
  · obtain ⟨hb, hne⟩ := h.bit o' (by omega) q hq.bit
    exact ⟨⟨hq.le, hq.lt, hb, hwhole⟩, fun he => hne he.1 he.2⟩

def Exact (g : Ram) (m : Pmap) (live : List (ℕ × ℕ)) (marked : List ℕ) : Prop :=
  ∀ o p, Held g m o p → (o, m.base + p * orderSize o) ∈ live ∨
    ∃ x ∈ marked, (o, m.base + p * orderSize o) = markedPage m.base x

lemma Held.uncount {u : ℕ} (h : Held g { m with used := u } o p) : Held g m o p := ⟨h.le, h.lt, h.bit, h.whole⟩

lemma Inv.from_order {start : Prop} (h : Inv g start m 0) (o : ℕ) : Inv g start m o :=
  ⟨fun o' _ => h.ok o' (Nat.zero_le _), fun o' _ => h.closed o' (Nat.zero_le _), h.above⟩

def ListsEmpty (m : Pmap) (o : ℕ) : Prop :=
  ∀ o', o ≤ o' → ∀ b, m.buckets o' = some b → b.head = none

lemma allocPage_adds (h : Inv g False m 0) (hbase : 0 < m.base) (halloc : allocPage m order = some (a, m')) :
    a = 0 ∧ m' = m ∧ ListsEmpty m order ∨
      ∃ p, a = m.base + p * orderSize order ∧ m'.base = m.base ∧
        ∀ o q, Held g m' o q → Held g m o q ∨ o = order ∧ q = p := by
  obtain ⟨⟨a', m₁⟩, halloc₁, heq⟩ := Option.bind_eq_some_iff.1 halloc
  cases heq
  by_cases ho : order ≤ g.top
  · have hfuel : g.top + 2 ≤ depth + order := by
      have := g.top_le
      simp only [depth, maxOrder]
      omega
    obtain ⟨a₂, m₂, halloc₂, -, hg, -⟩ := allocAt_spec depth (h.from_order order) (by omega) hfuel
    cases halloc₁.symm.trans halloc₂
    obtain ⟨rfl, rfl, hnone⟩ | ⟨p, rfl, hadds⟩ := allocAt_adds depth (h.from_order order) hbase (by omega) hfuel halloc₁
    · exact .inl ⟨rfl, if_neg (not_not.2 rfl), hnone⟩
    · refine .inr ⟨p, rfl, ?_, fun o q hq => hadds.held hg.below ?_⟩
      · rw [if_pos (by omega)]
        exact hg.base
      · rw [if_pos (by omega)] at hq
        exact hq.uncount
  · rw [depth, allocAt, h.above order (by omega)] at halloc₁
    cases halloc₁
    refine .inl ⟨rfl, rfl, fun o' ho' b hb => ?_⟩
    rw [h.above o' (by omega)] at hb
    cases hb

lemma Exact.alloc (hx : Exact g m live marked) (h : Inv g False m 0) (hbase : 0 < m.base)
    (halloc : allocPage m order = some (a, m')) : Exact g m' (if a = 0 then live else (order, a) :: live) marked := by
  intro o q hq
  obtain ⟨rfl, rfl, -⟩ | ⟨p, rfl, hbase', hheld⟩ := allocPage_adds h hbase halloc
  · rw [if_pos rfl]
    exact hx o q hq
  · rw [if_neg (by omega), hbase']
    obtain hold | ⟨rfl, rfl⟩ := hheld o q hq
    · exact (hx o q hold).imp_left fun hmem => List.mem_cons_of_mem _ hmem
    · exact .inl List.mem_cons_self

lemma Exact.free {x : ℕ × ℕ} (hx : Exact g m live marked) (h : Owned g m live marked) (hl : x ∈ live)
    (hfree : freePage m x.1 x.2 = some m') : Exact g m' (live.erase x) marked := by
  obtain ⟨p, hp, hh⟩ := h.held x hl
  obtain ⟨⟨c, m₁⟩, hfree₁, heq⟩ := Option.bind_eq_some_iff.1 hfree
  have hdiv : (x.2 - m.base) / orderSize x.1 = p := by
    rw [hp, Nat.add_sub_cancel_left, Nat.mul_div_cancel _ hh.size_pos]
  have hfrees := freeAt_frees depth (h.inv.from_order x.1) hh.le hh.lt hdiv hh.bit hfree₁
  have hm' : m'.base = m.base ∧ ∀ o q, Held g m' o q → Held g m₁ o q := by
    cases heq
    cases c
    · exact ⟨hfrees.base, fun _ _ hq => hq⟩
    · exact ⟨hfrees.base, fun _ _ hq => hq.uncount⟩
  intro o q hq
  obtain ⟨hold, hne⟩ := hfrees.held (freeAt_below depth hfree₁) (hm'.2 o q hq)
  rw [hm'.1]
  refine (hx o q hold).imp_left fun hmem => (List.mem_erase_of_ne fun he => hne ?_).2 hmem
  obtain ⟨rfl, he'⟩ : o = x.1 ∧ m.base + q * orderSize o = x.2 := Prod.mk.inj he
  exact ⟨rfl, hold.addr_inj (he'.trans hp)⟩

lemma Run.exact (h₀ : Owned g m₀ [] marked) (hx₀ : Exact g m₀ [] marked) (hbase : 0 < m₀.base)
    (h : Run FreeFindsSets m₀ m live) : Exact g m live marked := by
  induction h with
  | start => exact hx₀
  | @alloc m m' live order a hr ha ih =>
    obtain ⟨hb, ho⟩ := hr.owned h₀
    exact ih.alloc ho.inv (by omega) ha
  | free hr hl hc hf ih => exact ih.free (hr.owned h₀).2 hl hf

lemma markAll_exact {addrs : List ℕ} (h : Inv g True m 0) (hin : ∀ x ∈ addrs, m.base ≤ x ∧ x < m.base + g.bytes)
    (hx : Exact g m [] marked) (hmark : markAll m addrs = some m') : Exact g m' [] (marked ++ addrs) := by
  induction addrs generalizing m marked with
  | nil =>
    cases hmark
    rwa [List.append_nil]
  | cons x addrs ih =>
    obtain ⟨hlo, hhi⟩ := hin x List.mem_cons_self
    obtain ⟨m₁, hm₁, hinv₁, hbase₁, -, -⟩ := markUsed_spec h hlo hhi
    have hrest : markAll m₁ addrs = some m' := by
      simpa [markAll, hm₁] using hmark
    obtain ⟨⟨c, m₂⟩, hmark₂, heq⟩ := Option.bind_eq_some_iff.1 hm₁
    have hadds := markAt_adds depth x h (fun _ => ⟨rfl, basePage_lt hlo hhi⟩) hmark₂
    have hback : ∀ o q, Held g m₁ o q → Held g m₂ o q := by
      cases heq
      cases c
      · exact fun _ _ hq => hq
      · exact fun _ _ hq => hq.uncount
    rw [List.append_cons]
    refine ih hinv₁ (fun y hy => ?_) (fun o q hq => ?_) hrest
    · rw [hbase₁]
      exact hin y (List.mem_cons_of_mem _ hy)
    · rw [hbase₁]
      obtain hold | ⟨rfl, rfl⟩ := hadds.held (fun o' ho' => absurd ho' (Nat.not_lt_zero _)) (hback o q hq)
      · obtain hl | ⟨y, hy, he⟩ := hx o q hold
        · cases hl
        · exact .inr ⟨y, List.mem_append_left _ hy, he⟩
      · exact .inr ⟨x, List.mem_append_right _ List.mem_cons_self, rfl⟩

lemma bucket_map (p : BucketPlace) (first : Bool) : (p.bucket first).map = fun _ _ => false := by
  have hfold : ∀ (xs : List ℕ) (b : Bucket), (xs.foldl attachSet b).map = b.map := by
    intro xs
    induction xs with
    | nil => exact fun _ => rfl
    | cons x xs ih => exact fun b => by rw [List.foldl_cons, ih, attachSet_map]
  simp only [BucketPlace.bucket]
  split
  · rw [hfold]
  · rfl

lemma populatePmap_bit (ramBase ramSize start o p : ℕ) : (populatePmap ramBase ramSize start).bit o p = false := by
  rw [Pmap.bit]
  split
  · rfl
  · rename_i b hb
    obtain ⟨place, -, rfl⟩ := Option.map_eq_some_iff.1 hb
    rw [bucket_map]

lemma popcount_full {map : ℕ → Bool} {n i : ℕ} (h : n ≤ popcount map n) (hi : i < n) : map i = true := by
  by_contra hc
  have hset := popcount_set hi (by simpa using hc)
  have hle := popcount_le (Function.update map i true) n
  omega

lemma popcount_exists {map : ℕ → Bool} {n : ℕ} (h : 0 < popcount map n) : ∃ i < n, map i = true := by
  obtain ⟨i, hi⟩ := Finset.card_pos.1 h
  exact ⟨i, Finset.mem_range.1 (Finset.mem_filter.1 hi).1, (Finset.mem_filter.1 hi).2⟩

lemma Inv.used_up {b : Bucket} (h : Inv g False m 0) (ho : o ≤ g.top) (hm : m.buckets o = some b)
    (hhead : b.head = none)
    (hp : p < g.pagesAt o) (hu : 0 < m.usedAt o (p / g.bitsAt o)) : m.bit o p = true := by
  obtain ⟨b', hm', hbk⟩ := h.ok o (Nat.zero_le _) ho
  cases hm.symm.trans hm'
  obtain ⟨hs, hi⟩ := Ram.set_lt ho hp
  obtain ⟨xs, hl, hmem⟩ := hbk.ok.listed
  rw [usedAt_eq hm] at hu
  rw [hbk.bit_eq hm]
  refine popcount_full ?_ hi
  rw [← hbk.ok.used_eq _ hs]
  by_contra hlt
  have hmem' := (hmem (p / g.bitsAt o)).2 ⟨hs, by omega, .inl hu⟩
  obtain ⟨⟨-, last, hseg⟩, -⟩ := hl
  rw [hhead] at hseg
  cases xs with
  | nil => cases hmem'
  | cons x xs => cases hseg.1

lemma Inv.covered {x : ℕ} (h : Inv g False m 0) (hempty : ListsEmpty m order) (hx : Held g m 0 x) (k : ℕ)
    (ho : o + k = g.top) (horder : order ≤ o) (hp : p < g.pagesAt o) :
    m.bit o p = true ∨ ∃ i, o + i ≤ g.top ∧ Held g m (o + i) (p / 512 ^ i) := by
  induction k generalizing o p with
  | zero =>
    obtain rfl : o = g.top := ho
    left
    obtain ⟨b, hm, hbk⟩ := h.ok g.top (Nat.zero_le _) le_rfl
    obtain ⟨hq, hb⟩ := h.bit_up g.top (by omega) hx.lt hx.bit
    rw [Nat.zero_add] at hq hb
    have hone : g.setsAt g.top = 1 := if_neg (lt_irrefl _)
    have hs := (Ram.set_lt le_rfl hq).1
    have hs' := (Ram.set_lt le_rfl hp).1
    have hu := h.usedAt_pos le_rfl hq hb
    rw [hone, Nat.lt_one_iff] at hs hs'
    rw [hs] at hu
    exact h.used_up le_rfl hm (hempty g.top horder b hm) hp (by rwa [hs'])
  | succ k ih =>
    have ht : o < g.top := by omega
    have hs := (Ram.set_lt ht.le hp).1
    have hdiv : ∀ i, p / 512 ^ (i + 1) = p / g.bitsAt o / 512 ^ i := fun i => by
      rw [Ram.bitsAt_of_lt ht, Nat.div_div_eq_div_mul, pow_succ, Nat.mul_comm]
    rw [Ram.setsAt, if_pos ht] at hs
    have hup : ∀ i, Held g m (o + 1 + i) (p / g.bitsAt o / 512 ^ i) →
        ∃ i, o + i ≤ g.top ∧ Held g m (o + i) (p / 512 ^ i) := fun i hi => by
      refine ⟨i + 1, ?_, ?_⟩
      · have := hi.le
        omega
      · rw [hdiv, show o + (i + 1) = o + 1 + i by omega]
        exact hi
    obtain hb | ⟨i, -, hi⟩ := ih (by omega) (by omega) hs
    · by_cases hz : m.usedAt o (p / g.bitsAt o) = 0
      · exact .inr (hup 0 (by simpa using ⟨by omega, hs, hb, fun _ => hz⟩))
      · obtain ⟨b, hm, -⟩ := h.ok o (Nat.zero_le _) ht.le
        exact .inl (h.used_up ht.le hm (hempty o horder b hm) hp (Nat.pos_of_ne_zero hz))
    · exact .inr (hup i hi)

lemma Inv.held_below (h : Inv g False m 0) (ho : o ≤ g.top) (hp : p < g.pagesAt o) (hb : m.bit o p = true) :
    ∃ o' i q, o' + i = o ∧ q / 512 ^ i = p ∧ Held g m o' q := by
  induction o generalizing p with
  | zero => exact ⟨0, 0, p, rfl, by simp, Nat.zero_le _, hp, hb, fun hc => absurd hc (lt_irrefl _)⟩
  | succ o ih =>
    by_cases hz : m.usedAt o p = 0
    · exact ⟨o + 1, 0, p, rfl, by simp, ho, hp, hb, fun _ => hz⟩
    · have hlt : o < g.top := ho
      obtain ⟨b, hm, hbk⟩ := h.ok o (Nat.zero_le _) hlt.le
      have hs : p < g.setsAt o := by rwa [Ram.setsAt, if_pos hlt]
      rw [usedAt_eq hm, hbk.ok.used_eq p hs] at hz
      obtain ⟨i, hi, hset⟩ := popcount_exists (Nat.pos_of_ne_zero hz)
      obtain ⟨hq, hdiv, hmod⟩ := Ram.page_lt hlt.le hs hi
      obtain ⟨o', j, q, rfl, hqj, hheld⟩ := ih hlt.le hq (by rw [hbk.bit_eq hm, hdiv, hmod]; exact hset)
      refine ⟨o', j + 1, q, rfl, ?_, hheld⟩
      rw [pow_succ, ← Nat.div_div_eq_div_mul, hqj, ← Ram.bitsAt_of_lt hlt, hdiv]

lemma not_apart {i base : ℕ} (ho : o + i ≤ 2) (h : q / 512 ^ i = p) :
    ¬ Apart (o, base + q * orderSize o) (o + i, base + p * orderSize (o + i)) := by
  have hsize := orderSize_pos (o := o) (by omega)
  have hpow : 0 < 512 ^ i := by positivity
  have hlo : p * 512 ^ i ≤ q := h ▸ Nat.div_mul_le_self ..
  have hhi : q < (p + 1) * 512 ^ i := (Nat.div_lt_iff_lt_mul hpow).1 (by omega)
  rw [orderSize_add ho, ← mul_assoc]
  rintro (hc | hc)
  · have : (q + 1) * orderSize o ≤ p * 512 ^ i * orderSize o := by
      dsimp only at hc
      linarith
    have := Nat.le_of_mul_le_mul_right this hsize
    omega
  · have : (p + 1) * 512 ^ i * orderSize o ≤ q * orderSize o := by
      dsimp only at hc
      rw [orderSize_add ho] at hc
      linarith
    have := Nat.le_of_mul_le_mul_right this hsize
    omega

lemma Owned.meets (h : Owned g m live marked) (hx : Exact g m live marked) (hne : marked ≠ [])
    (hempty : ListsEmpty m order) (ho : order ≤ g.top) (hp : p < g.pagesAt order) :
    (∃ x ∈ live, ¬ Apart (order, m.base + p * orderSize order) x) ∨
      ∃ x ∈ marked, ¬ Apart (order, m.base + p * orderSize order) (markedPage m.base x) := by
  have htop := g.top_le
  obtain ⟨x, hx₀⟩ := List.exists_mem_of_ne_nil marked hne
  have hheld : ∀ o q, Held g m o q → ¬ Apart (order, m.base + p * orderSize order) (o, m.base + q * orderSize o) →
      (∃ x ∈ live, ¬ Apart (order, m.base + p * orderSize order) x) ∨
        ∃ x ∈ marked, ¬ Apart (order, m.base + p * orderSize order) (markedPage m.base x) := by
    intro o q hq hnot
    obtain hl | ⟨y, hy, he⟩ := hx o q hq
    · exact .inl ⟨_, hl, hnot⟩
    · exact .inr ⟨y, hy, by rwa [← he]⟩
  obtain hb | ⟨i, hi, hq⟩ := h.inv.covered hempty (h.kept x hx₀).1 (g.top - order) (by omega) le_rfl hp
  · obtain ⟨o', i, q, rfl, hq, hheld'⟩ := h.inv.held_below ho hp hb
    exact hheld o' q hheld' fun hap => not_apart (by omega) hq hap.symm
  · exact hheld _ _ hq (not_apart (by omega) rfl)

lemma Owned.apart {x : ℕ × ℕ} (h : Owned g m live marked) (hx : x ∈ live) {y : ℕ × ℕ} (hy : y ∈ live) (hne : x ≠ y) :
    Apart x y := by
  obtain ⟨p, hp, hheld⟩ := h.held x hx
  obtain ⟨q, hq, hheld'⟩ := h.held y hy
  have hap := hheld.apart m.base h.inv hheld' fun he => hne ?_
  · rwa [← hp, ← hq] at hap
  · obtain ⟨h₁, h₂⟩ := Prod.mk.inj he
    exact Prod.ext h₁ (by rw [hp, hq, h₁, h₂])

lemma Owned.apart_marked {x : ℕ × ℕ} {y : ℕ} (h : Owned g m live marked) (hx : x ∈ live) (hy : y ∈ marked) :
    Apart x (markedPage m.base y) := by
  obtain ⟨p, hp, hheld⟩ := h.held x hx
  obtain ⟨hkept, hnot⟩ := h.kept y hy
  have hap := hheld.apart m.base h.inv hkept fun he => hnot ?_
  · rwa [← hp] at hap
  · obtain ⟨h₁, h₂⟩ := Prod.mk.inj he
    rwa [show markedPage m.base y = x from Prod.ext h₁.symm (by rw [hp, h₂, h₁]; rfl)]

lemma Owned.inside {x : ℕ × ℕ} (h : Owned g m live marked) (hx : x ∈ live) :
    ∃ p, x.2 = m.base + p * orderSize x.1 ∧ x.2 + orderSize x.1 ≤ m.base + g.bytes := by
  obtain ⟨p, hp, hheld⟩ := h.held x hx
  exact ⟨p, hp, by rw [hp]; exact hheld.inside m.base⟩

structure Accounted (g : Ram) (ramBase : ℕ) (m : Pmap) (live : List (ℕ × ℕ)) (marked : List ℕ) : Prop where
  owned : Owned g m live marked
  exact : Exact g m live marked
  base : m.base = ramBase

lemma markAll_accounted {ramBase : ℕ} (start : ℕ) (hne : marked ≠ [])
    (hin : ∀ x ∈ marked, ramBase ≤ x ∧ x < ramBase + g.bytes) :
    ∃ m₀, markAll (populatePmap ramBase g.bytes start) marked = some m₀ ∧ Accounted g ramBase m₀ [] marked := by
  obtain ⟨m₀, hm₀, hbase, hown⟩ := markAll_owned start hne hin
  refine ⟨m₀, hm₀, hown, ?_, hbase⟩
  rw [← List.nil_append marked]
  refine markAll_exact (populatePmap_inv g ramBase start) hin (fun o p hp => ?_) hm₀
  have hb := hp.bit
  rw [populatePmap_bit] at hb
  cases hb

lemma Run.accounted {ramBase : ℕ} (h : Run FreeFindsSets m₀ m live) (h₀ : Accounted g ramBase m₀ [] marked)
    (hpos : 0 < ramBase) : Accounted g ramBase m live marked := by
  obtain ⟨hb, ho⟩ := h.owned h₀.owned
  exact ⟨ho, h.exact h₀.owned h₀.exact (by rwa [h₀.base]), hb.trans h₀.base⟩

def FreePage (ramBase ramSize : ℕ) (live : List (ℕ × ℕ)) (marked : List ℕ) (order p : ℕ) : Prop :=
  (p + 1) * orderSize order ≤ ramSize ∧ (∀ x ∈ live, Apart (order, ramBase + p * orderSize order) x) ∧
    ∀ x ∈ marked, Apart (order, ramBase + p * orderSize order) (markedPage ramBase x)

lemma Accounted.alloc_iff {ramBase : ℕ} (h : Accounted g ramBase m live marked) (hpos : 0 < ramBase) (hne : marked ≠ [])
    (ho : order ≤ maxOrder) (halloc : allocPage m order = some (a, m')) :
    a ≠ 0 ↔ ∃ p, FreePage ramBase g.bytes live marked order p := by
  obtain ⟨hown, hexact, rfl⟩ := h
  constructor
  · intro ha
    obtain ⟨a', m'', halloc', hbase', hown'⟩ := hown.alloc order
    cases halloc.symm.trans halloc'
    rw [if_neg ha] at hown'
    obtain ⟨p, hp, hle⟩ := hown'.inside List.mem_cons_self
    rw [hbase'] at hp hle
    dsimp only at hp hle
    refine ⟨p, ?_, fun x hx => ?_, fun x hx => ?_⟩
    · rw [Nat.succ_mul]
      omega
    · rw [← hp]
      refine hown'.apart List.mem_cons_self (List.mem_cons_of_mem _ hx) fun he => ?_
      rw [he] at hown'
      exact (List.nodup_cons.1 hown'.nodup).1 hx
    · rw [← hp, ← hbase']
      exact hown'.apart_marked List.mem_cons_self hx
  · rintro ⟨p, hle, hlive, hmarked⟩ rfl
    have hempty : ListsEmpty m order := by
      obtain ⟨-, -, hempty⟩ | ⟨q, hq, -⟩ := allocPage_adds hown.inv hpos halloc
      · exact hempty
      · omega
    by_cases htop : order ≤ g.top
    · have hp : p < g.pagesAt order := by
        rw [← Ram.bytes_div_of_le htop]
        exact (Nat.le_div_iff_mul_le (orderSize_pos ho)).2 hle
      obtain ⟨x, hx, hnot⟩ | ⟨x, hx, hnot⟩ := hown.meets hexact hne hempty htop hp
      · exact hnot (hlive x hx)
      · exact hnot (hmarked x hx)
    · have hzero : g.bytes / orderSize order = 0 := Ram.bytes_div_of_lt (by omega) ho
      have := (Nat.le_div_iff_mul_le (orderSize_pos ho)).2 hle
      omega

lemma Owned.length_le (h : Owned g m live marked) (hzero : ∀ x ∈ live, x.1 = 0) : live.length ≤ g.pagesAt 0 := by
  have hpage : ∀ x ∈ live, (x.2 - m.base) / orderSize 0 < g.pagesAt 0 ∧
      x = (0, m.base + (x.2 - m.base) / orderSize 0 * orderSize 0) := fun x hx => by
    obtain ⟨p, hp, hheld⟩ := h.held x hx
    have hsize := hheld.size_pos
    rw [hzero x hx] at hp hheld hsize
    rw [hp, Nat.add_sub_cancel_left, Nat.mul_div_cancel _ hsize]
    exact ⟨hheld.lt, Prod.ext (hzero x hx) hp⟩
  have hnodup : (live.map fun x => (x.2 - m.base) / orderSize 0).Nodup := by
    refine h.nodup.map_on fun x hx y hy he => ?_
    rw [(hpage x hx).2, (hpage y hy).2, he]
  have hsub : (live.map fun x => (x.2 - m.base) / orderSize 0) ⊆ List.range (g.pagesAt 0) := by
    intro p hp
    obtain ⟨x, hx, rfl⟩ := List.mem_map.1 hp
    exact List.mem_range.2 (hpage x hx).1
  have hle := (hnodup.subperm hsub).length_le
  rwa [List.length_map, List.length_range] at hle

lemma exhaust {ramBase : ℕ} (h₀ : Accounted g ramBase m₀ [] marked) (hpos : 0 < ramBase) :
    ∃ m live m', Run FreeFindsSets m₀ m live ∧ (∀ x ∈ live, x.1 = 0) ∧ allocPage m 0 = some (0, m') := by
  by_contra hnone
  have hgrow : ∀ n, ∃ m live, Run FreeFindsSets m₀ m live ∧ (∀ x ∈ live, x.1 = 0) ∧ live.length = n := by
    intro n
    induction n with
    | zero => exact ⟨m₀, [], .start, by simp, rfl⟩
    | succ n ih =>
      obtain ⟨m, live, hrun, hzero, rfl⟩ := ih
      obtain ⟨a, m', halloc, -, -⟩ := (hrun.accounted h₀ hpos).owned.alloc 0
      have ha : a ≠ 0 := fun ha => hnone ⟨m, live, m', hrun, hzero, by rw [halloc, ha]⟩
      have hrun' := hrun.alloc halloc
      rw [if_neg ha] at hrun'
      refine ⟨m', _, hrun', fun x hx => ?_, rfl⟩
      obtain rfl | hx := List.mem_cons.1 hx
      · rfl
      · exact hzero x hx
  obtain ⟨m, live, hrun, hzero, hlen⟩ := hgrow (g.pagesAt 0 + 1)
  have := (hrun.accounted h₀ hpos).owned.length_le hzero
  omega

lemma Accounted.handed_out_iff {ramBase : ℕ} (h₀ : Accounted g ramBase m₀ [] marked) (hpos : 0 < ramBase)
    (hne : marked ≠ []) : (∃ m live, Run FreeFindsSets m₀ m live ∧ (0, a) ∈ live) ↔
      ∃ p, a = ramBase + p * orderSize 0 ∧ FreePage ramBase g.bytes [] marked 0 p := by
  constructor
  · rintro ⟨m, live, hrun, hmem⟩
    obtain ⟨hown, -, rfl⟩ := hrun.accounted h₀ hpos
    obtain ⟨p, hp, hle⟩ := hown.inside hmem
    dsimp only at hp hle
    refine ⟨p, hp, ?_, by simp, fun x hx => ?_⟩
    · rw [Nat.succ_mul]
      omega
    · rw [← hp]
      exact hown.apart_marked hmem hx
  · rintro ⟨p, rfl, hle, -, hmarked⟩
    obtain ⟨m, live, m', hrun, hzero, hfail⟩ := exhaust h₀ hpos
    have hacc := hrun.accounted h₀ hpos
    refine ⟨m, live, hrun, ?_⟩
    have hfull := (hacc.alloc_iff hpos hne (Nat.zero_le _) hfail).not.1 (not_not.2 rfl)
    obtain ⟨x, hx, hnot⟩ : ∃ x ∈ live, ¬ Apart (0, ramBase + p * orderSize 0) x := by
      by_contra hc
      push Not at hc
      exact hfull ⟨p, hle, hc, hmarked⟩
    obtain ⟨q, hq, -⟩ := hacc.owned.inside hx
    rw [hacc.base, hzero x hx] at hq
    have hpq : p = q := by
      simp only [Apart, hzero x hx, hq, show orderSize 0 = 4096 from rfl] at hnot
      omega
    rwa [show (0, ramBase + p * orderSize 0) = x from Prod.ext (hzero x hx).symm (by rw [hq, hpq])]

/-- As long as every free recognises the sets it returns pages to, an allocation fails only where
every page of its order meets one that is allocated or marked. -/
theorem allocPage_succeeds_iff {ramBase ramSize start : ℕ} (hpos : orderSize 0 ≤ ramSize) (hlt : ramSize < 2 ^ 64)
    (hdvd : orderSize (topOrder ramSize) ∣ ramSize) (hfits : BitmapFits ramSize) (hbase : 0 < ramBase)
    (hne : marked ≠ []) (hin : ∀ x ∈ marked, ramBase ≤ x ∧ x < ramBase + ramSize) :
    MetadataDisjoint ramSize start ∧ ∃ m₀, markAll (populatePmap ramBase ramSize start) marked = some m₀ ∧
      ∀ m live, Run FreeFindsSets m₀ m live → ∀ order ≤ maxOrder, ∃ a m', allocPage m order = some (a, m') ∧
        (a ≠ 0 ↔ ∃ p, FreePage ramBase ramSize live marked order p) := by
  have hdisjoint : MetadataDisjoint ramSize start := metadataDisjoint_of_fits hlt hfits
  obtain ⟨g, -, rfl⟩ := exists_ram hpos hlt hdvd
  obtain ⟨m₀, hm₀, hacc⟩ := markAll_accounted start hne hin
  refine ⟨hdisjoint, m₀, hm₀, fun m live hrun order ho => ?_⟩
  have hacc' := hrun.accounted hacc hbase
  obtain ⟨a, m', halloc, -⟩ := hacc'.owned.alloc order
  exact ⟨a, m', halloc, hacc'.alloc_iff hbase hne ho halloc⟩

theorem allocPage_succeeds_iff_four_mib : MetadataDisjoint (2 ^ 22) (2 ^ 31) ∧
    ∃ m₀, markAll (populatePmap (2 ^ 31) (2 ^ 22) (2 ^ 31)) [2 ^ 31] = some m₀ ∧
      ∀ m live, Run FreeFindsSets m₀ m live → ∀ order ≤ maxOrder, ∃ a m', allocPage m order = some (a, m') ∧
        (a ≠ 0 ↔ ∃ p, FreePage (2 ^ 31) (2 ^ 22) live [2 ^ 31] order p) :=
  @allocPage_succeeds_iff [2 ^ 31] (2 ^ 31) (2 ^ 22) (2 ^ 31) (by decide) (by decide) (by decide) (.inl (by decide))
    (by decide) (by simp) (by simp)

end Kmi.Pmem
