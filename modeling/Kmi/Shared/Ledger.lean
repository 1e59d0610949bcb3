import Kmi.Library.Degree
import Kmi.Shared.Model
import Kmi.Uvmem.Revoke

/-! What the counters of the processes and of their regions count: the references that
processes have to regions of each other. -/

namespace Kmi.Shared

open Kmi.Library.Degree Kmi.Mem Kmi.Regions Kmi.Uvmem

structure View where
  known : ℕ → Prop
  rid : ℕ → ℕ
  refcount : ℕ → ℤ
  holds : ℕ → ℕ
  used : ℕ → ℕ → Option Region
  byte : ℕ → ℕ → Option ℕ

structure Link where
  user : ℕ
  page : ℕ
  owner : ℕ
  home : ℕ
deriving DecidableEq

def Link.place (l : Link) : ℕ × ℕ := (l.owner, l.home)

structure Linked (v : View) (l : Link) (g g' : Region) : Prop where
  reference : v.used l.user l.page = some g
  region : v.used l.owner l.home = some g'
  pid : g.pid = l.owner
  address : g.refcount = l.home * basePageSize
  own : g'.pid = 0
  size : g.size = g'.size

def View.alive (v : View) (p : ℕ) : ℕ := if v.rid p = p then 1 else 0

/-- The counters are right, up to the references in `debt`, which are about to be given back,
and the regions in `gone`, which live processes are about to free. -/
structure Counted (v : View) (links : Finset Link) (debt : ℕ → ℕ) (gone : ℕ → ℕ → Prop) : Prop where
  pos : ∀ p, v.known p → p ≠ 0
  rids : ∀ p, v.known p → v.rid p = p ∨ v.rid p = 0
  owners : ∀ l ∈ links, v.known l.owner
  linked : ∀ l ∈ links, ∃ g g', Linked v l g g'
  complete : ∀ p page g, v.known p → v.used p page = some g → g.pid ≠ 0 → ¬ gone p page →
    ∃ l ∈ links, l.user = p ∧ l.page = page
  counts : ∀ p page g, v.known p → v.used p page = some g → g.pid = 0 →
    g.refcount = 1 + degree links Link.place (p, page)
  threads : ∀ p, v.known p →
    v.refcount p = v.alive p + v.holds p + degree links Link.owner p + debt p
  needed : ∀ p, v.known p → 0 < v.refcount p
  live : ∀ p page, v.known p → gone p page → v.rid p = p ∨ 0 < v.holds p

def owed (q p : ℕ) : ℕ := if p = q then 1 else 0

def View.setRefcount (v : View) (q : ℕ) (n : ℤ) : View :=
  { v with refcount := fun p => if p = q then n else v.refcount p }

def View.setUsed (v : View) (p page : ℕ) (g : Option Region) : View :=
  { v with used := fun p' page' => if p' = p ∧ page' = page then g else v.used p' page' }

def View.setByte (v : View) (p : ℕ) (b : ℕ → Option ℕ) : View :=
  { v with byte := fun p' => if p' = p then b else v.byte p' }

def View.forget (v : View) (q : ℕ) : View := { v with known := fun p => p ≠ q ∧ v.known p }

variable {v v' : View} {links links' : Finset Link} {debt : ℕ → ℕ} {gone gone' : ℕ → ℕ → Prop}
  {p q page : ℕ} {g g' : Region} {l l' : Link} {b : ℕ → Option ℕ} {n : ℕ}

lemma Linked.unique {h h' : Region} (hl : Linked v l g g') (hl' : Linked v l' h h')
    (hu : l.user = l'.user) (hp : l.page = l'.page) : l = l' := by
  have hg := hl.reference
  rw [hu, hp, hl'.reference] at hg
  obtain rfl := Option.some.inj hg
  have hhome := hl.address.symm.trans hl'.address
  rw [basePageSize_eq] at hhome
  have hpid := hl.pid.symm.trans hl'.pid
  cases l
  cases l'
  simp only at hu hp hhome hpid
  simp only [Link.mk.injEq]
  omega

lemma Counted.degree_zero (h : Counted v links debt gone) (hu : v.used p page = none) :
    degree links Link.place (p, page) = 0 := by
  apply degree_eq_zero.2
  intro l hl hplace
  obtain ⟨g, g', hlink⟩ := h.linked l hl
  have hregion := hlink.region
  rw [Link.place, Prod.mk.injEq] at hplace
  rw [hplace.1, hplace.2, hu] at hregion
  cases hregion

lemma Counted.owner_zero (h : Counted v links debt gone) (hq : ¬ v.known q) :
    degree links Link.owner q = 0 := by
  apply degree_eq_zero.2
  rintro l hl rfl
  exact hq (h.owners l hl)

lemma Counted.settle (h : Counted v links (owed q) gone) (hne : v.refcount q ≠ 1) :
    Counted (v.setRefcount q (v.refcount q - 1)) links (fun _ => 0) gone where
  pos := h.pos
  rids := h.rids
  owners := h.owners
  linked l hl := by
    obtain ⟨g, g', hlink⟩ := h.linked l hl
    exact ⟨g, g', hlink.reference, hlink.region, hlink.pid, hlink.address, hlink.own, hlink.size⟩
  complete := h.complete
  counts := h.counts
  threads p hp := by
    have hthreads := h.threads p hp
    change (if p = q then v.refcount q - 1 else v.refcount p) = v.alive p + v.holds p + _ + _
    obtain rfl | hpq := eq_or_ne p q
    · rw [if_pos rfl, hthreads, owed, if_pos rfl]
      simp
    · rw [if_neg hpq, hthreads, owed, if_neg hpq]
  needed p hp := by
    have hneeded := h.needed p hp
    change 0 < if p = q then v.refcount q - 1 else v.refcount p
    obtain rfl | hpq := eq_or_ne p q
    · rw [if_pos rfl]
      omega
    · rwa [if_neg hpq]
  live := h.live

lemma Counted.last (h : Counted v links (owed q) gone) (hq : v.known q) (hone : v.refcount q = 1) :
    v.rid q = 0 ∧ v.holds q = 0 ∧ ∀ l ∈ links, l.owner ≠ q := by
  have hthreads := h.threads q hq
  rw [hone, owed, if_pos rfl] at hthreads
  have hrid := h.rids q hq
  have halive : v.alive q = 0 := by omega
  rw [View.alive] at halive
  refine ⟨?_, by omega, degree_eq_zero.1 (by omega)⟩
  split_ifs at halive with hself
  exact hrid.resolve_left hself

lemma Counted.destroy (h : Counted v links (owed q) gone) (hq : v.known q) (hone : v.refcount q = 1) :
    Counted ((v.setRefcount q 0).forget q) links (fun _ => 0) gone := by
  obtain ⟨-, -, howner⟩ := h.last hq hone
  exact {
    pos := fun p hp => h.pos p hp.2
    rids := fun p hp => h.rids p hp.2
    owners := fun l hl => ⟨howner l hl, h.owners l hl⟩
    linked := fun l hl => by
      obtain ⟨g, g', hlink⟩ := h.linked l hl
      exact ⟨g, g', hlink.reference, hlink.region, hlink.pid, hlink.address, hlink.own, hlink.size⟩
    complete := fun p page g hp => h.complete p page g hp.2
    counts := fun p page g hp => h.counts p page g hp.2
    threads := fun p hp => by
      have hthreads := h.threads p hp.2
      rw [owed, if_neg hp.1] at hthreads
      change (if p = q then 0 else v.refcount p) = v.alive p + v.holds p + _ + _
      rw [if_neg hp.1, hthreads]
    needed := fun p hp => by
      change 0 < if p = q then 0 else v.refcount p
      rw [if_neg hp.1]
      exact h.needed p hp.2
    live := fun p page hp => h.live p page hp.2 }

lemma Counted.unlink (h : Counted v links (fun _ => 0) gone) (hl : l ∈ links) (hlink : Linked v l g g')
    (hgone : ∀ p page, gone p page → gone' p page) (hthis : v.known l.user → gone' l.user l.page)
    (hlive : ∀ p page, v.known p → gone' p page → v.rid p = p ∨ 0 < v.holds p) :
    1 < g'.refcount ∧ Counted (v.setUsed l.owner l.home (some { g' with refcount := g'.refcount - 1 }))
      (links.erase l) (owed l.owner) gone' := by
  have howner := h.owners l hl
  have hcount := h.counts _ _ _ howner hlink.region hlink.own
  have hpos := degree_pos hl (show l.place = (l.owner, l.home) from rfl)
  have hused : ∀ p page x, (v.setUsed l.owner l.home
      (some { g' with refcount := g'.refcount - 1 })).used p page = some x →
      (p = l.owner ∧ page = l.home ∧ x = { g' with refcount := g'.refcount - 1 }) ∨
        ¬ (p = l.owner ∧ page = l.home) ∧ v.used p page = some x := by
    intro p page x hx
    change (if p = l.owner ∧ page = l.home then _ else v.used p page) = some x at hx
    split_ifs at hx with hp
    · exact .inl ⟨hp.1, hp.2, (Option.some.inj hx).symm⟩
    · exact .inr ⟨hp, hx⟩
  refine ⟨by omega, h.pos, h.rids, fun k hk => h.owners k (Finset.mem_of_mem_erase hk), ?_, ?_, ?_, ?_,
    h.needed, hlive⟩
  · intro k hk
    obtain ⟨x, x', hkl⟩ := h.linked k (Finset.mem_of_mem_erase hk)
    -- a reference is no region of the process itself
    have hne : ¬ (k.user = l.owner ∧ k.page = l.home) := by
      rintro ⟨hu, hp⟩
      have hx := hkl.reference
      rw [hu, hp, hlink.region] at hx
      obtain rfl := Option.some.inj hx
      have hpid := hkl.pid
      rw [hlink.own] at hpid
      exact h.pos _ (h.owners k (Finset.mem_of_mem_erase hk)) hpid.symm
    by_cases hhome : k.owner = l.owner ∧ k.home = l.home
    · have hx' := hkl.region
      rw [hhome.1, hhome.2, hlink.region] at hx'
      obtain rfl := Option.some.inj hx'
      exact ⟨x, { g' with refcount := g'.refcount - 1 }, (if_neg hne).trans hkl.reference, if_pos hhome,
        hkl.pid, hkl.address, hkl.own, hkl.size⟩
    · exact ⟨x, x', (if_neg hne).trans hkl.reference, (if_neg hhome).trans hkl.region, hkl.pid,
        hkl.address, hkl.own, hkl.size⟩
  · intro p page x hp hx hpid hng
    obtain ⟨-, -, rfl⟩ | ⟨-, hx⟩ := hused p page x hx
    · exact absurd hlink.own hpid
    · obtain ⟨k, hk, rfl, rfl⟩ := h.complete p page x hp hx hpid fun hg => hng (hgone _ _ hg)
      refine ⟨k, Finset.mem_erase.2 ⟨?_, hk⟩, rfl, rfl⟩
      rintro rfl
      exact hng (hthis hp)
  · intro p page x hp hx hpid
    have herase := degree_erase hl Link.place (p, page)
    obtain ⟨rfl, rfl, rfl⟩ | ⟨hne, hx⟩ := hused p page x hx
    · rw [if_pos (show l.place = (l.owner, l.home) from rfl)] at herase
      dsimp only
      omega
    · have hplace : ¬ l.place = (p, page) := by
        rw [Link.place, Prod.mk.injEq]
        rintro ⟨rfl, rfl⟩
        exact hne ⟨rfl, rfl⟩
      rw [h.counts p page x hp hx hpid, herase, if_neg hplace]
      rfl
  · intro p hp
    have hthreads := h.threads p hp
    have herase := degree_erase hl Link.owner p
    change v.refcount p = v.alive p + v.holds p + _ + _
    rw [hthreads, herase, owed]
    simp only [eq_comm (a := l.owner)]
    push_cast
    ring

/-! Steps of a process. -/

lemma Linked.setUsed {x : Option Region} (hl : Linked v l g g') (hu : ¬ (l.user = p ∧ l.page = page))
    (ho : ¬ (l.owner = p ∧ l.home = page)) : Linked (v.setUsed p page x) l g g' :=
  ⟨(if_neg hu).trans hl.reference, (if_neg ho).trans hl.region, hl.pid, hl.address, hl.own, hl.size⟩

lemma Counted.take (h : Counted v links debt gone) (hn : v.used p page = none) (hpid : g.pid = 0)
    (hcount : g.refcount = 1) : Counted (v.setUsed p page (some g)) links debt gone where
  pos := h.pos
  rids := h.rids
  owners := h.owners
  linked l hl := by
    obtain ⟨x, x', hlink⟩ := h.linked l hl
    refine ⟨x, x', hlink.setUsed ?_ ?_⟩
    · rintro ⟨rfl, rfl⟩
      rw [hlink.reference] at hn
      cases hn
    · rintro ⟨rfl, rfl⟩
      rw [hlink.region] at hn
      cases hn
  complete p' page' x hp hx hpx := by
    change (if p' = p ∧ page' = page then _ else v.used p' page') = some x at hx
    split_ifs at hx
    · cases hx
      exact absurd hpid hpx
    · exact h.complete p' page' x hp hx hpx
  counts p' page' x hp hx hpx := by
    change (if p' = p ∧ page' = page then _ else v.used p' page') = some x at hx
    split_ifs at hx with hpp
    · cases hx
      rw [hpp.1, hpp.2, h.degree_zero hn, hcount]
    · exact h.counts p' page' x hp hx hpx
  threads := h.threads
  needed := h.needed
  live := h.live

lemma Counted.drop (h : Counted v links debt gone)
    (hl : ∀ l ∈ links, ¬ (l.user = p ∧ l.page = page) ∧ ¬ (l.owner = p ∧ l.home = page)) :
    Counted (v.setUsed p page none) links debt fun p' page' => gone p' page' ∧ ¬ (p' = p ∧ page' = page) where
  pos := h.pos
  rids := h.rids
  owners := h.owners
  linked l hmem := by
    obtain ⟨x, x', hlink⟩ := h.linked l hmem
    exact ⟨x, x', hlink.setUsed (hl l hmem).1 (hl l hmem).2⟩
  complete p' page' x hp hx hpx hng := by
    change (if p' = p ∧ page' = page then none else v.used p' page') = some x at hx
    split_ifs at hx with hpp
    exact h.complete p' page' x hp hx hpx fun hg => hng ⟨hg, hpp⟩
  counts p' page' x hp hx hpx := by
    change (if p' = p ∧ page' = page then none else v.used p' page') = some x at hx
    split_ifs at hx with hpp
    exact h.counts p' page' x hp hx hpx
  threads := h.threads
  needed := h.needed
  live p' page' hp hg := h.live p' page' hp hg.1

def View.link (v : View) (l : Link) (g g' : Region) : View :=
  ((v.setUsed l.user l.page (some g)).setUsed l.owner l.home
    (some { g' with refcount := g'.refcount + 1 })).setRefcount l.owner (v.refcount l.owner + 1)

lemma Counted.link (h : Counted v links debt gone) (hn : v.used l.user l.page = none)
    (hown : v.known l.owner) (hg' : v.used l.owner l.home = some g') (hpid' : g'.pid = 0)
    (hpid : g.pid = l.owner) (haddr : g.refcount = l.home * basePageSize) (hsize : g.size = g'.size) :
    l ∉ links ∧ Counted (v.link l g g') (insert l links) debt gone := by
  have hfresh : ∀ k ∈ links, ¬ (k.user = l.user ∧ k.page = l.page) := by
    rintro k hk ⟨hu, hp⟩
    obtain ⟨x, x', hlink⟩ := h.linked k hk
    have hx := hlink.reference
    rw [hu, hp, hn] at hx
    cases hx
  have hnot : l ∉ links := fun hl => hfresh l hl ⟨rfl, rfl⟩
  have hplace : ¬ (l.user = l.owner ∧ l.page = l.home) := by
    rintro ⟨hu, hp⟩
    rw [hu, hp, hg'] at hn
    cases hn
  have hused : ∀ p page, (v.link l g g').used p page = if p = l.owner ∧ page = l.home then
      some { g' with refcount := g'.refcount + 1 } else if p = l.user ∧ page = l.page then some g
      else v.used p page := fun _ _ => rfl
  refine ⟨hnot, h.pos, h.rids, ?_, ?_, ?_, ?_, ?_, ?_, h.live⟩
  · intro k hk
    obtain rfl | hk := Finset.mem_insert.1 hk
    · exact hown
    · exact h.owners k hk
  · intro k hk
    obtain rfl | hk := Finset.mem_insert.1 hk
    · refine ⟨g, { g' with refcount := g'.refcount + 1 }, ?_, ?_, hpid, haddr, hpid', hsize⟩
      · rw [hused, if_neg hplace, if_pos ⟨rfl, rfl⟩]
      · rw [hused, if_pos ⟨rfl, rfl⟩]
    · obtain ⟨x, x', hlink⟩ := h.linked k hk
      have hu : ¬ (k.user = l.owner ∧ k.page = l.home) := by
        rintro ⟨hu, hp⟩
        have hx := hlink.reference
        rw [hu, hp, hg'] at hx
        obtain rfl := Option.some.inj hx
        exact h.pos _ (h.owners k hk) (hlink.pid.symm.trans hpid')
      have ho : ¬ (k.owner = l.user ∧ k.home = l.page) := by
        rintro ⟨ho, hp⟩
        have hx := hlink.region
        rw [ho, hp, hn] at hx
        cases hx
      by_cases hhome : k.owner = l.owner ∧ k.home = l.home
      · have hx' := hlink.region
        rw [hhome.1, hhome.2, hg'] at hx'
        obtain rfl := Option.some.inj hx'
        refine ⟨x, { g' with refcount := g'.refcount + 1 }, ?_, ?_, hlink.pid, hlink.address, hpid',
          hlink.size⟩
        · rw [hused, if_neg hu, if_neg (hfresh k hk), hlink.reference]
        · rw [hused, if_pos hhome]
      · refine ⟨x, x', ?_, ?_, hlink.pid, hlink.address, hlink.own, hlink.size⟩
        · rw [hused, if_neg hu, if_neg (hfresh k hk), hlink.reference]
        · rw [hused, if_neg hhome, if_neg ho, hlink.region]
  · intro p page x hp hx hpx hng
    rw [hused] at hx
    split_ifs at hx with h₁ h₂
    · cases hx
      exact absurd hpid' hpx
    · exact ⟨l, Finset.mem_insert_self l links, h₂.1.symm, h₂.2.symm⟩
    · obtain ⟨k, hk, hu, hpk⟩ := h.complete p page x hp hx hpx hng
      exact ⟨k, Finset.mem_insert_of_mem hk, hu, hpk⟩
  · intro p page x hp hx hpx
    rw [degree_insert hnot]
    rw [hused] at hx
    split_ifs at hx with h₁ h₂
    · cases hx
      obtain ⟨rfl, rfl⟩ := h₁
      rw [if_pos (show l.place = (l.owner, l.home) from rfl)]
      have hcount := h.counts _ _ g' hown hg' hpid'
      dsimp only
      omega
    · cases hx
      exact absurd (hpid.symm.trans hpx) (h.pos _ hown)
    · rw [if_neg, h.counts p page x hp hx hpx]
      · rfl
      · rw [Link.place, Prod.mk.injEq]
        rintro ⟨rfl, rfl⟩
        exact h₁ ⟨rfl, rfl⟩
  · intro p hp
    have hthreads := h.threads p hp
    rw [degree_insert hnot]
    change (if p = l.owner then v.refcount l.owner + 1 else v.refcount p) = v.alive p + v.holds p + _ + _
    obtain rfl | hne := eq_or_ne p l.owner
    · rw [if_pos rfl, if_pos rfl, hthreads]
      push_cast
      ring
    · rw [if_neg hne, if_neg hne.symm, hthreads]
      rfl
  · intro p hp
    have hneeded := h.needed p hp
    change 0 < if p = l.owner then v.refcount l.owner + 1 else v.refcount p
    split_ifs with hpo
    · rw [hpo] at hneeded
      omega
    · exact hneeded

def View.setHolds (v : View) (p n : ℕ) : View :=
  { v with holds := fun q => if q = p then n else v.holds q }

lemma Counted.recount {debt' : ℕ → ℕ} (h : Counted v links debt gone) (hk : v'.known = v.known)
    (hu : v'.used = v.used) (hrid : ∀ p, v.known p → v'.rid p = v.rid p ∨ v'.rid p = 0)
    (ht : ∀ p, v.known p → v'.refcount p = v'.alive p + v'.holds p + degree links Link.owner p + debt' p)
    (hneed : ∀ p, v.known p → 0 < v'.refcount p)
    (hlive : ∀ p page, v.known p → gone p page → v'.rid p = p ∨ 0 < v'.holds p) :
    Counted v' links debt' gone where
  pos := hk ▸ h.pos
  rids p hp := by
    rw [hk] at hp
    obtain heq | hz := hrid p hp
    · rw [heq]
      exact h.rids p hp
    · exact .inr hz
  owners := hk ▸ h.owners
  linked l hl := by
    obtain ⟨g, g', hlink⟩ := h.linked l hl
    exact ⟨g, g', hu ▸ hlink.reference, hu ▸ hlink.region, hlink.pid, hlink.address, hlink.own, hlink.size⟩
  complete := by
    rw [hk, hu]
    exact h.complete
  counts := by
    rw [hk, hu]
    exact h.counts
  threads := hk ▸ ht
  needed := hk ▸ hneed
  live := hk ▸ hlive

def settled : ℕ → ℕ → Prop := fun _ _ => False

lemma Counted.hold (h : Counted v links (fun _ => 0) settled) :
    Counted ((v.setHolds p (v.holds p + 1)).setRefcount p (v.refcount p + 1)) links (fun _ => 0) settled := by
  refine h.recount rfl rfl (fun q _ => .inl rfl) (fun q hq => ?_) (fun q hq => ?_) fun _ _ _ => False.elim
  · have hthreads := h.threads q hq
    change (if q = p then v.refcount p + 1 else v.refcount q) =
      v.alive q + ((if q = p then v.holds p + 1 else v.holds q : ℕ) : ℤ) + _ + _
    split_ifs with hqp
    · subst hqp
      rw [hthreads]
      push_cast
      ring
    · exact hthreads
  · have hneeded := h.needed q hq
    change 0 < if q = p then v.refcount p + 1 else v.refcount q
    split_ifs with hqp
    · subst hqp
      omega
    · exact hneeded

lemma Counted.letGo (h : Counted v links (fun _ => 0) settled) (hpos : 0 < v.holds p) :
    Counted (v.setHolds p (v.holds p - 1)) links (owed p) settled := by
  refine h.recount rfl rfl (fun q _ => .inl rfl) (fun q hq => ?_) h.needed fun _ _ _ => False.elim
  have hthreads := h.threads q hq
  change v.refcount q = v.alive q + ((if q = p then v.holds p - 1 else v.holds q : ℕ) : ℤ) + _ + _
  rw [owed]
  split_ifs with hqp
  · subst hqp
    rw [hthreads]
    push_cast [Nat.sub_add_cancel hpos]
    omega
  · exact hthreads

lemma Counted.exit (h : Counted v links (fun _ => 0) settled) (hp : p ≠ 0) (hrid : v.rid p = p) :
    Counted { v with rid := fun q => if q = p then 0 else v.rid q } links (owed p) settled := by
  refine h.recount rfl rfl (fun q _ => ?_) (fun q hq => ?_) h.needed fun _ _ _ => False.elim
  · dsimp only
    split_ifs
    · exact .inr rfl
    · exact .inl rfl
  · have hthreads := h.threads q hq
    rw [hthreads, owed, View.alive, View.alive]
    dsimp only
    split_ifs with hqp h₁ h₂ <;> first | omega | simp_all

end Kmi.Shared
