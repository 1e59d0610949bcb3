import Kmi.Shared.Ledger

/-! The bytes behind the addresses: each byte that a process has in a region of its own is
there once, and a reference shows the bytes of the region that it refers to. -/

namespace Kmi.Shared

open Kmi.Mem Kmi.Regions Kmi.Uvmem

variable {v v' : View} {links links' : Finset Link} {p q page y : ℕ} {g g' : Region} {l : Link}
  {b : ℕ → Option ℕ} {pages pages' : List (ℕ × ℕ)}

def View.Own (v : View) (p y b : ℕ) : Prop :=
  ∃ page g, v.used p page = some g ∧ g.pid = 0 ∧ InRegion g y ∧ v.byte p y = some b

structure Tidy (v : View) (p : ℕ) : Prop where
  places : ∀ page g, v.used p page = some g → g.start = page ∧ g.start < g.stop
  apart : ∀ page page' g g', v.used p page = some g → v.used p page' = some g' → page ≠ page' →
    g.stop ≤ g'.start ∨ g'.stop ≤ g.start

structure Mapped (v : View) (links : Finset Link) : Prop where
  shows : ∀ l ∈ links, ∀ g, v.known l.user → v.used l.user l.page = some g →
    ∀ d < g.size * basePageSize,
      v.byte l.user (l.page * basePageSize + d) = v.byte l.owner (l.home * basePageSize + d)
  distinct : ∀ p q y y' b, v.known p → v.known q → v.Own p y b → v.Own q y' b → p = q ∧ y = y'

def View.Free (v : View) (pages : List (ℕ × ℕ)) : Prop :=
  ∀ f ∈ pages, ∀ p y b, v.known p → v.Own p y b → b < f.2 ∨ f.2 + orderSize f.1 ≤ b

structure SameUse (g g' : Region) : Prop where
  start : g.start = g'.start
  stop : g.stop = g'.stop
  pid : g.pid = g'.pid
  flags : g.flags = g'.flags

lemma SameUse.refl (g : Region) : SameUse g g := ⟨rfl, rfl, rfl, rfl⟩

lemma SameUse.inRegion (h : SameUse g g') (hy : InRegion g' y) : InRegion g y := by
  rw [InRegion, h.start, h.stop]
  exact hy

structure Fewer (v v' : View) : Prop where
  known : ∀ p, v'.known p → v.known p
  used : ∀ p page g', v'.known p → v'.used p page = some g' → ∃ g, v.used p page = some g ∧ SameUse g g'
  byte : ∀ p, v'.known p → v'.byte p = v.byte p

lemma Fewer.own {b : ℕ} (h : Fewer v v') (hp : v'.known p) (ho : v'.Own p y b) : v.Own p y b := by
  obtain ⟨page, g', hg', hpid, hy, hb⟩ := ho
  obtain ⟨g, hg, hs⟩ := h.used p page g' hp hg'
  rw [h.byte p hp] at hb
  exact ⟨page, g, hg, hs.pid.trans hpid, hs.inRegion hy, hb⟩

lemma Mapped.fewer (h : Mapped v links) (hf : Fewer v v') (hl : links' ⊆ links)
    (ho : ∀ l ∈ links', v'.known l.owner) : Mapped v' links' where
  shows l hmem g' hu hg' d hd := by
    obtain ⟨g, hg, hs⟩ := hf.used _ _ g' hu hg'
    rw [hf.byte _ hu, hf.byte _ (ho l hmem)]
    apply h.shows l (hl hmem) g (hf.known _ hu) hg d
    rwa [Region.size, hs.start, hs.stop]
  distinct p q y y' b hp hq hy hy' :=
    h.distinct p q y y' b (hf.known p hp) (hf.known q hq) (hf.own hp hy) (hf.own hq hy')

lemma View.Free.fewer (h : v.Free pages) (hf : Fewer v v') : v'.Free pages :=
  fun f hm p y b hp ho => h f hm p y b (hf.known p hp) (hf.own hp ho)

lemma View.Free.append (h : v.Free pages) (h' : v.Free pages') : v.Free (pages ++ pages') := by
  intro f hm
  obtain hm | hm := List.mem_append.1 hm
  · exact h f hm
  · exact h' f hm

lemma Tidy.elsewhere {page' : ℕ} (h : Tidy v p) (hg : v.used p page = some g) (hg' : v.used p page' = some g')
    (hne : page ≠ page') (hy : InRegion g y) : ¬ InRegion g' y := by
  intro hy'
  have hb := basePageSize_eq
  obtain hle | hle := h.apart page page' g g' hg hg' hne
  · have := Nat.mul_le_mul_right basePageSize hle
    have := hy.2
    have := hy'.1
    omega
  · have := Nat.mul_le_mul_right basePageSize hle
    have := hy.1
    have := hy'.2
    omega

lemma inRegion_offset {d : ℕ} (hs : g.start = page) (hd : d < g.size * basePageSize) :
    InRegion g (page * basePageSize + d) := by
  have hlt : page * basePageSize + d < g.stop * basePageSize := by
    rw [Region.size, Nat.sub_mul, hs] at hd
    omega
  exact ⟨by rw [hs]; omega, hlt⟩

lemma Linked.inRegion (hl : Linked v l g g') (hu : Tidy v l.user) (ho : Tidy v l.owner) {d : ℕ}
    (hd : d < g.size * basePageSize) : InRegion g (l.page * basePageSize + d) ∧
      InRegion g' (l.home * basePageSize + d) :=
  ⟨inRegion_offset (hu.places _ _ hl.reference).1 hd,
    inRegion_offset (ho.places _ _ hl.region).1 (hl.size ▸ hd)⟩

structure Within (v : View) (p : ℕ) (g : Region) (b : ℕ → Option ℕ) : Prop where
  rest : ∀ y, ¬ InRegion g y → b y = v.byte p y

lemma setByte_self : (v.setByte p b).byte p = b := if_pos rfl

lemma setByte_of_ne (hq : q ≠ p) : (v.setByte p b).byte q = v.byte q := if_neg hq

lemma Within.byte (hw : Within v p g b) (hy : q = p → ¬ InRegion g y) :
    (v.setByte p b).byte q y = v.byte q y := by
  by_cases hq : q = p
  · subst hq
    rw [setByte_self, hw.rest y (hy rfl)]
  · rw [setByte_of_ne hq]

section Change

variable (h : Mapped v links) (hl : ∀ l ∈ links, ∃ g g', Linked v l g g')
  (hk : ∀ l ∈ links, v.known l.owner) (ht : ∀ q, v.known q → Tidy v q)

include h hl hk ht

lemma Mapped.take (ht' : Tidy (v.setUsed p page (some g)) p)
    (hn : v.used p page = none) (hw : Within v p g b)
    (hfresh : ∀ y c, InRegion g y → b y = some c → ∀ q y', v.known q → ¬ v.Own q y' c)
    (honce : ∀ y y' c, InRegion g y → InRegion g y' → b y = some c → b y' = some c → y = y') :
    Mapped ((v.setUsed p page (some g)).setByte p b) links := by
  have hout : ∀ q page' g', v.used q page' = some g' → ∀ y, InRegion g' y → q = p → ¬ InRegion g y := by
    rintro q page' g' hg' y hy rfl
    have hne : page' ≠ page := by
      rintro rfl
      rw [hn] at hg'
      cases hg'
    apply ht'.elsewhere ((if_neg fun h => hne h.2).trans hg') (if_pos ⟨rfl, rfl⟩) hne hy
  have hown : ∀ q y c, ((v.setUsed p page (some g)).setByte p b).Own q y c →
      (q = p ∧ InRegion g y ∧ b y = some c) ∨ v.Own q y c := by
    rintro q y c ⟨page', g', hg', hpid', hy, hc⟩
    change (if q = p ∧ page' = page then some g else v.used q page') = some g' at hg'
    split_ifs at hg' with hq
    · obtain rfl := Option.some.inj hg'
      obtain ⟨rfl, -⟩ := hq
      exact .inl ⟨rfl, hy, (congrFun setByte_self y).symm.trans hc⟩
    · refine .inr ⟨page', g', hg', hpid', hy, ?_⟩
      rw [← hw.byte (hout q page' g' hg' y hy)]
      exact hc
  refine ⟨fun l hmem g₁ hu hg₁ d hd => ?_, fun q q' y y' c hq hq' ho ho' => ?_⟩
  · obtain ⟨g₂, g', hlink⟩ := hl l hmem
    have hnew : ¬ (l.user = p ∧ l.page = page) := by
      rintro ⟨rfl, rfl⟩
      rw [hlink.reference] at hn
      cases hn
    obtain rfl := Option.some.inj (hlink.reference.symm.trans ((if_neg hnew).symm.trans hg₁))
    obtain ⟨hin, hin'⟩ := hlink.inRegion (ht _ hu) (ht _ (hk l hmem)) hd
    have hthis : ((v.setUsed p page (some g)).setByte p b).byte l.user (l.page * basePageSize + d) =
        v.byte l.user (l.page * basePageSize + d) := hw.byte (hout _ _ _ hlink.reference _ hin)
    have hthat : ((v.setUsed p page (some g)).setByte p b).byte l.owner (l.home * basePageSize + d) =
        v.byte l.owner (l.home * basePageSize + d) := hw.byte (hout _ _ _ hlink.region _ hin')
    rw [hthis, hthat]
    exact h.shows l hmem g₂ hu hlink.reference d hd
  · obtain ⟨rfl, hy, hc⟩ | hold := hown q y c ho
    · obtain ⟨rfl, hy', hc'⟩ | hold' := hown q' y' c ho'
      · exact ⟨rfl, honce y y' c hy hy' hc hc'⟩
      · exact absurd hold' (hfresh y c hy hc q' y' hq')
    · obtain ⟨rfl, hy', hc'⟩ | hold' := hown q' y' c ho'
      · exact absurd hold (hfresh y' c hy' hc' q y hq)
      · exact h.distinct q q' y y' c hq hq' hold hold'

lemma Mapped.drop (hp : v.known p) (hg : v.used p page = some g) (hw : Within v p g b)
    (hno : ∀ l ∈ links, ¬ (l.user = p ∧ l.page = page) ∧ ¬ (l.owner = p ∧ l.home = page)) :
    Mapped ((v.setUsed p page none).setByte p b) links := by
  have hout : ∀ q page' g', ¬ (q = p ∧ page' = page) → v.used q page' = some g' → ∀ y, InRegion g' y →
      q = p → ¬ InRegion g y := by
    rintro q page' g' hne hg' y hy rfl
    exact (ht _ hp).elsewhere hg' hg (fun h => hne ⟨rfl, h⟩) hy
  have hown : ∀ q y c, ((v.setUsed p page none).setByte p b).Own q y c → v.Own q y c := by
    rintro q y c ⟨page', g', hg', hpid', hy, hc⟩
    change (if q = p ∧ page' = page then none else v.used q page') = some g' at hg'
    split_ifs at hg' with hq
    refine ⟨page', g', hg', hpid', hy, ?_⟩
    rw [← hw.byte (hout q page' g' hq hg' y hy)]
    exact hc
  refine ⟨fun l hmem g₁ hu hg₁ d hd => ?_, fun q q' y y' c hq hq' ho ho' => ?_⟩
  · obtain ⟨g₂, g', hlink⟩ := hl l hmem
    obtain ⟨hnu, hno⟩ := hno l hmem
    obtain rfl := Option.some.inj (hlink.reference.symm.trans ((if_neg hnu).symm.trans hg₁))
    obtain ⟨hin, hin'⟩ := hlink.inRegion (ht _ hu) (ht _ (hk l hmem)) hd
    have hthis : ((v.setUsed p page none).setByte p b).byte l.user (l.page * basePageSize + d) =
        v.byte l.user (l.page * basePageSize + d) := hw.byte (hout _ _ _ hnu hlink.reference _ hin)
    have hthat : ((v.setUsed p page none).setByte p b).byte l.owner (l.home * basePageSize + d) =
        v.byte l.owner (l.home * basePageSize + d) := hw.byte (hout _ _ _ hno hlink.region _ hin')
    rw [hthis, hthat]
    exact h.shows l hmem g₂ hu hlink.reference d hd
  · exact h.distinct q q' y y' c hq hq' (hown q y c ho) (hown q' y' c ho')

lemma Mapped.link (hu : v.known l.user) (ho : v.known l.owner)
    (hg' : v.used l.owner l.home = some g') (hpid : g.pid ≠ 0) (hsize : g.size = g'.size)
    (ht' : Tidy (v.setUsed l.user l.page (some g)) l.user) (hn : v.used l.user l.page = none)
    (hw : Within v l.user g b) (hshow : ∀ d < g.size * basePageSize,
      b (l.page * basePageSize + d) = v.byte l.owner (l.home * basePageSize + d)) :
    Mapped ((v.link l g g').setByte l.user b) (insert l links) := by
  have hused : ∀ q page', ((v.link l g g').setByte l.user b).used q page' =
      if q = l.owner ∧ page' = l.home then some { g' with refcount := g'.refcount + 1 }
      else if q = l.user ∧ page' = l.page then some g else v.used q page' := fun _ _ => rfl
  have hout : ∀ q page' g', v.used q page' = some g' → ∀ y, InRegion g' y → q = l.user →
      ¬ InRegion g y := by
    rintro q page' g' hg' y hy rfl
    have hne : page' ≠ l.page := by
      rintro rfl
      rw [hn] at hg'
      cases hg'
    apply ht'.elsewhere ((if_neg fun h => hne h.2).trans hg') (if_pos ⟨rfl, rfl⟩) hne hy
  have hbyte : ∀ q page' x, v.used q page' = some x → ∀ y, InRegion x y →
      ((v.link l g g').setByte l.user b).byte q y = v.byte q y :=
    fun q page' x hx y hy => hw.byte (hout q page' x hx y hy)
  have hown : ∀ q y c, ((v.link l g g').setByte l.user b).Own q y c → v.Own q y c := by
    rintro q y c ⟨page', g₁, hg₁, hpid₁, hy, hc⟩
    rw [hused] at hg₁
    split_ifs at hg₁ with h₁ h₂
    · obtain rfl := Option.some.inj hg₁
      obtain ⟨rfl, rfl⟩ := h₁
      rw [hbyte _ _ _ hg' y hy] at hc
      exact ⟨l.home, g', hg', hpid₁, hy, hc⟩
    · obtain rfl := Option.some.inj hg₁
      exact absurd hpid₁ hpid
    · rw [hbyte _ _ _ hg₁ y hy] at hc
      exact ⟨page', g₁, hg₁, hpid₁, hy, hc⟩
  have hplace : ¬ (l.user = l.owner ∧ l.page = l.home) := by
    rintro ⟨hu, hp⟩
    rw [hu, hp, hg'] at hn
    cases hn
  refine ⟨fun k hmem g₁ hku hg₁ d hd => ?_, fun q q' y y' c hq hq' hy hy' =>
    h.distinct q q' y y' c hq hq' (hown q y c hy) (hown q' y' c hy')⟩
  obtain rfl | hmem := Finset.mem_insert.1 hmem
  · obtain rfl := Option.some.inj (((if_neg hplace).trans (if_pos ⟨rfl, rfl⟩)).symm.trans hg₁)
    have hin' := inRegion_offset (ht _ ho |>.places _ _ hg').1 (hsize ▸ hd)
    rw [hbyte _ _ _ hg' _ hin', ← hshow d hd]
    exact congrFun setByte_self _
  · obtain ⟨g₂, g₃, hlink⟩ := hl k hmem
    have hsame : g₁.size = g₂.size := by
      rw [hused] at hg₁
      split_ifs at hg₁ with h₁ h₂
      · have hx := hlink.reference
        rw [h₁.1, h₁.2, hg'] at hx
        cases hx
        cases hg₁
        rfl
      · have hx := hlink.reference
        rw [h₂.1, h₂.2, hn] at hx
        cases hx
      · obtain rfl := Option.some.inj (hlink.reference.symm.trans hg₁)
        rfl
    rw [hsame] at hd
    obtain ⟨hin, hin'⟩ := hlink.inRegion (ht _ hku) (ht _ (hk k hmem)) hd
    rw [hbyte _ _ _ hlink.reference _ hin, hbyte _ _ _ hlink.region _ hin']
    exact h.shows k hmem g₂ hku hlink.reference d hd

end Change

end Kmi.Shared
