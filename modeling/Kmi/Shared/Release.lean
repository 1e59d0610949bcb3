import Kmi.Shared.State

/-! Giving references back, down to the processes that nothing needs any more. -/

namespace Kmi.Shared

open Kmi.Library.Degree Kmi.Library.LinkedList Kmi.Mem Kmi.Vmem Kmi.Regions Kmi.Uvmem

variable {s s' s'' : System} {links links' links'' : Finset Link} {gone : ℕ → ℕ → Prop} {busy : ℕ → Prop}
  {debt : ℕ → ℕ} {p q t x page : ℕ} {g g' : Region} {l : Link} {pages pages' : List (ℕ × ℕ)}
  {xs ys zs : List ℕ} {m m' : Space}

def Returns {α : Type} (f : ℕ → Option α) (r : α) : Prop := ∃ n, ∀ fuel, n ≤ fuel → f fuel = some r

lemma Returns.intro {α : Type} {f g : ℕ → Option α} {r : α} (h : Returns f r)
    (hg : ∀ fuel, f fuel = some r → g (fuel + 1) = some r) : Returns g r := by
  obtain ⟨n, hn⟩ := h
  refine ⟨n + 1, fun fuel hle => ?_⟩
  obtain ⟨k, rfl⟩ : ∃ k, fuel = k + 1 := ⟨fuel - 1, by omega⟩
  exact hg k (hn k (by omega))

structure Good (s : System) (links : Finset Link) (debt : ℕ → ℕ) (gone : ℕ → ℕ → Prop) : Prop where
  healthy : ∀ p, s.known p → Healthy (s.tcb p).memory
  counted : Counted s.view links debt gone

structure Supported (s : System) (links : Finset Link) (P : ℕ → Prop) : Prop where
  known : ∀ p, P p → s.known p
  needed : ∀ p, P p → (s.tcb p).rid ≠ 0 ∨ 0 < s.holds p ∨ ∃ l ∈ links, l.owner = p ∧ P l.user

/-- Processes that nothing needed are gone, and their links with them. Apart from counts the
others are as they were. Those that are `busy` are unknown and about to be gone altogether. -/
structure Released (busy : ℕ → Prop) (s s' : System) (links links' : Finset Link)
    (pages : List (ℕ × ℕ)) : Prop where
  known : ∀ p, s'.known p → s.known p
  others : ∀ p, ¬ s.known p → ¬ busy p → s'.tcb p = s.tcb p
  regions : ∀ p, s'.known p → Recounted (s.regions p) (s'.regions p)
  vmem : ∀ p, s'.known p → s'.vmem p = s.vmem p
  rid : ∀ p, s'.known p → (s'.tcb p).rid = (s.tcb p).rid ∧ (s'.tcb p).shared = (s.tcb p).shared
  holds : s'.holds = s.holds
  supported : ∀ P, Supported s links P → ∀ p, P p → s'.known p
  subset : links' ⊆ links
  keeps : ∀ l ∈ links, ¬ busy l.user → s'.known l.user ∨ ¬ s.known l.user → l ∈ links'
  users : ∀ l ∈ links', s'.known l.user ∨ ¬ s.known l.user
  freed : s'.freed = s.freed ++ pages
  still : ∀ p, busy p → (s'.tcb p).refcount = (s.tcb p).refcount
  shrinks : ∀ p, busy p → ∀ y b, s'.view.Own p y b → s.view.Own p y b
  covers : ∀ f ∈ pages, ∀ b, f.2 ≤ b → b < f.2 + orderSize f.1 →
    ∃ p y, (s.known p ∨ busy p) ∧ s.view.Own p y b

lemma Released.fewer (h : Released busy s s' links links' pages)
    (hs : ∀ p, s.known p → Healthy (s.tcb p).memory) : Fewer s.view s'.view where
  known := h.known
  used p page g' hp hg' := by
    obtain ⟨xs, hx⟩ := (hs p (h.known p hp)).valid.region
    obtain ⟨g, hg, hsame, -⟩ := (h.regions p hp).usedAt hx hg'
    exact ⟨g, hg, hsame⟩
  byte p hp := by
    change byteAt (s'.vmem p) = byteAt (s.vmem p)
    rw [h.vmem p hp]

lemma Released.healthy (h : Released busy s s' links links' pages)
    (hs : ∀ p, s.known p → Healthy (s.tcb p).memory) (p : ℕ) (hp : s'.known p) :
    Healthy (s'.tcb p).memory := by
  have hv := h.vmem p hp
  have hh : Healthy ⟨s.regions p, s'.vmem p⟩ := by
    rw [hv]
    exact hs p (h.known p hp)
  exact hh.recounted (h.regions p hp)

lemma Released.trans {busy' : ℕ → Prop} (h : Released busy s s' links links' pages)
    (h' : Released busy' s' s'' links' links'' pages') (hs : ∀ p, s.known p → Healthy (s.tcb p).memory)
    (hb : ∀ p, busy' p → busy p) (hbusy : ∀ p, busy p → ¬ s.known p) :
    Released busy s s'' links links'' (pages ++ pages') where
  known p hp := h.known p (h'.known p hp)
  others p hp hnb := by
    rw [h'.others p (fun hp' => hp (h.known p hp')) (fun hb' => hnb (hb p hb')), h.others p hp hnb]
  regions p hp := (h.regions p (h'.known p hp)).trans (h'.regions p hp)
  vmem p hp := (h'.vmem p hp).trans (h.vmem p (h'.known p hp))
  rid p hp := by
    obtain ⟨hr, hc⟩ := h.rid p (h'.known p hp)
    obtain ⟨hr', hc'⟩ := h'.rid p hp
    exact ⟨hr'.trans hr, hc'.trans hc⟩
  holds := h'.holds.trans h.holds
  supported P hP p hp := by
    apply h'.supported P _ p hp
    refine ⟨h.supported P hP, fun q hq => ?_⟩
    rw [(h.rid q (h.supported P hP q hq)).1, h.holds]
    refine (hP.needed q hq).imp_right fun hq' => hq'.imp_right ?_
    rintro ⟨l, hl, ho, hu⟩
    exact ⟨l, h.keeps l hl (fun hb => hbusy _ hb (hP.known _ hu)) (.inl (h.supported P hP _ hu)), ho, hu⟩
  subset := h'.subset.trans h.subset
  keeps l hl hnb hk := by
    have hmem : l ∈ links' := h.keeps l hl hnb (hk.imp_left (h'.known _))
    apply h'.keeps l hmem (fun hb' => hnb (hb _ hb'))
    obtain hk | hk := hk
    · exact .inl hk
    · exact .inr fun hp => hk (h.known _ hp)
  users l hl := by
    obtain hk | hk := h'.users l hl
    · exact .inl hk
    · obtain hk' | hk' := h.users l (h'.subset hl)
      · exact absurd hk' hk
      · exact .inr hk'
  freed := by rw [h'.freed, h.freed, List.append_assoc]
  still p hp := by
    rw [← h.still p hp]
    by_cases hp' : busy' p
    · exact h'.still p hp'
    · rw [h'.others p (fun hk => hbusy p hp (h.known p hk)) hp']
  shrinks p hp y b ho := by
    by_cases hp' : busy' p
    · exact h.shrinks p hp y b (h'.shrinks p hp' y b ho)
    · apply h.shrinks p hp y b
      have heq : s''.tcb p = s'.tcb p := h'.others p (fun hk => hbusy p hp (h.known p hk)) hp'
      obtain ⟨page, g, hg, hpid, hy, hbyte⟩ := ho
      refine ⟨page, g, ?_, hpid, hy, ?_⟩
      · change usedAt (s'.tcb p).memory.region page = some g
        rw [← heq]
        exact hg
      · change byteAt (s'.tcb p).memory.vmem y = some b
        rw [← heq]
        exact hbyte
  covers f hf b hlo hhi := by
    obtain hf | hf := List.mem_append.1 hf
    · exact h.covers f hf b hlo hhi
    · obtain ⟨p, y, hp, ho⟩ := h'.covers f hf b hlo hhi
      by_cases hpb : busy p
      · exact ⟨p, y, .inr hpb, h.shrinks p hpb y b ho⟩
      · have hk : s'.known p := hp.resolve_right fun hb' => hpb (hb p hb')
        exact ⟨p, y, .inl (h.known p hk), (h.fewer hs).own hk ho⟩

lemma released_count (hk : s'.known = s.known) (hr : ∀ p, s.known p → Recounted (s.regions p) (s'.regions p))
    (ho : ∀ p, ¬ s.known p → s'.tcb p = s.tcb p) (hv : s'.vmem = s.vmem)
    (hrid : ∀ p, (s'.tcb p).rid = (s.tcb p).rid ∧ (s'.tcb p).shared = (s.tcb p).shared)
    (hh : s'.holds = s.holds) (hf : s'.freed = s.freed) (links : Finset Link) :
    Released (fun _ => False) s s' links links [] where
  known p hp := hk ▸ hp
  others p hp _ := ho p hp
  regions p hp := hr p (hk ▸ hp)
  vmem p _ := congrFun hv p
  rid p _ := hrid p
  holds := hh
  supported P hP p hp := hk ▸ hP.known p hp
  subset := Finset.Subset.refl links
  keeps _ hl _ _ := hl
  users l _ := by
    rw [hk]
    exact em _
  freed := by rw [hf, List.append_nil]
  still _ hp := hp.elim
  shrinks _ hp := hp.elim
  covers f hf := absurd hf List.not_mem_nil

lemma Released.weaken (h : Released (fun _ => False) s s' (links.erase l) links' pages) (hb : busy l.user)
    (hbusy : ∀ p, busy p → ¬ s.known p) : Released busy s s' links links' pages where
  known := h.known
  others p hp _ := h.others p hp id
  regions := h.regions
  vmem := h.vmem
  rid := h.rid
  holds := h.holds
  supported P hP p hp := by
    refine h.supported P ⟨hP.known, fun q hq => ?_⟩ p hp
    refine (hP.needed q hq).imp_right fun hq' => hq'.imp_right ?_
    rintro ⟨k, hk, ho, hu⟩
    refine ⟨k, Finset.mem_erase.2 ⟨?_, hk⟩, ho, hu⟩
    rintro rfl
    exact hbusy _ hb (hP.known _ hu)
  subset := h.subset.trans (Finset.erase_subset l links)
  keeps k hk hnb hkn := by
    apply h.keeps k (Finset.mem_erase.2 ⟨?_, hk⟩) id hkn
    rintro rfl
    exact hnb hb
  users := h.users
  freed := h.freed
  still p hp := by rw [h.others p (hbusy p hp) id]
  shrinks p hp y b ho := by
    have heq : s'.tcb p = s.tcb p := h.others p (hbusy p hp) id
    obtain ⟨page, g, hg, hpid, hy, hbyte⟩ := ho
    refine ⟨page, g, ?_, hpid, hy, ?_⟩
    · change usedAt (s.tcb p).memory.region page = some g
      rw [← heq]
      exact hg
    · change byteAt (s.tcb p).memory.vmem y = some b
      rw [← heq]
      exact hbyte
  covers f hf b hlo hhi := by
    obtain ⟨p, y, hp, ho⟩ := h.covers f hf b hlo hhi
    exact ⟨p, y, .inl (hp.resolve_right id), ho⟩

/-! A region of its own is unmapped. -/

lemma byteAt_unmaps {a e : ℕ} (hu : Unmaps m m' a e) (y : ℕ) :
    byteAt m' y = if a ≤ y ∧ y < e then none else byteAt m y := by
  rw [byteAt, byteAt]
  by_cases hy : y < 2 ^ 39
  · rw [if_pos hy, if_pos hy, physical, hu.stat y hy, physical]
    split_ifs <;> rfl
  · rw [if_neg hy, if_neg hy, ite_self]

lemma tiles_byte {a e b : ℕ} {ps : List (ℕ × ℕ)} {f : ℕ × ℕ} (h : Tiles m a e ps) (he : e ≤ 2 ^ 39)
    (hf : f ∈ ps) (hlo : f.2 ≤ b) (hhi : b < f.2 + orderSize f.1) :
    ∃ y, a ≤ y ∧ y < e ∧ byteAt m y = some b := by
  induction h with
  | nil => exact absurd hf List.not_mem_nil
  | @cons v e z ps hz hal ht ih =>
    have hle := ht.tiled.le
    have ho := statVpage_order_le hz
    have hpos := orderSize_pos ho
    obtain rfl | hf := List.mem_cons.1 hf
    · have hlo' : z.addr ≤ b := hlo
      have hhi' : b < z.addr + orderSize z.order := hhi
      have hin : v ≤ v + (b - z.addr) ∧ v + (b - z.addr) < v + orderSize z.order := by omega
      refine ⟨v + (b - z.addr), by omega, by omega, ?_⟩
      have hmod : (v + (b - z.addr)) % orderSize z.order = b - z.addr := by
        obtain ⟨k, hk⟩ := Nat.dvd_of_mod_eq_zero hal
        rw [hk, Nat.mul_add_mod, Nat.mod_eq_of_lt (by omega)]
      rw [byteAt, if_pos (by omega), physical, statVpage_page hz ((pageOf_eq_iff_mem ho hal).2 hin),
        Option.map_some, hmod]
      congr 1
      omega
    · obtain ⟨y, hy, hy', hb⟩ := ih he hf
      exact ⟨y, by omega, hy', hb⟩

lemma unmapRegion_own (hw : WellFormed m) (hlt : g.start ≤ g.stop) (hstop : g.stop ≤ Regions.page UVMEM_END)
    (ht : Tiled m (g.start * basePageSize) (g.stop * basePageSize)) :
    ∃ m' ps, unmapRegion m (g.start * basePageSize % 2 ^ 64)
        (sub64 (g.stop * basePageSize % 2 ^ 64) (g.start * basePageSize % 2 ^ 64)) = some (m', ps) ∧
      Tiles m (g.start * basePageSize) (g.stop * basePageSize) ps ∧
      Unmaps m m' (g.start * basePageSize) (g.stop * basePageSize) := by
  have hend := page_uvmemEnd
  have hb := basePageSize_eq
  obtain ⟨a, ha⟩ : ∃ a, g.start * basePageSize = a := ⟨_, rfl⟩
  obtain ⟨e, he⟩ : ∃ e, g.stop * basePageSize = e := ⟨_, rfl⟩
  rw [ha, he] at ht ⊢
  rw [hb] at ha he
  obtain ⟨ps, hps⟩ := ht.tiles
  have hlen := hps.length_le
  have hsize : sub64 (e % 2 ^ 64) (a % 2 ^ 64) = e - a := by
    rw [sub64]
    omega
  obtain ⟨m', heq, hu⟩ := @unmapPages_tiles m a e (e - a) (512 ^ 3 + 1) ps hps hw (by omega) (by omega)
    (.inl (by omega)) (by omega)
  refine ⟨m', ps, ?_, hps, hu⟩
  rw [hsize, Nat.mod_eq_of_lt (by omega : a < 2 ^ 64), unmapRegion_eq (by omega) (by omega) (by omega)
    (by omega), heq]

lemma freeMapping_own (hpid : ((s.regions t).region x).pid = 0)
    (hback : ((s.regions t).region x).flags &&& MR_NONBACKED = 0) (hw : WellFormed (s.vmem t))
    (hlt : ((s.regions t).region x).start ≤ ((s.regions t).region x).stop)
    (hstop : ((s.regions t).region x).stop ≤ Regions.page UVMEM_END)
    (ht : Tiled (s.vmem t) (((s.regions t).region x).start * basePageSize)
      (((s.regions t).region x).stop * basePageSize)) :
    ∃ m' ps, (∀ fuel, freeMapping (fuel + 1) s t x = some ((s.setVmem t m').freePages ps)) ∧
      Tiles (s.vmem t) (((s.regions t).region x).start * basePageSize)
        (((s.regions t).region x).stop * basePageSize) ps ∧
      Unmaps (s.vmem t) m' (((s.regions t).region x).start * basePageSize)
        (((s.regions t).region x).stop * basePageSize) := by
  obtain ⟨m', ps, heq, htiles, hu⟩ := unmapRegion_own hw hlt hstop ht
  refine ⟨m', ps, fun fuel => ?_, htiles, hu⟩
  have hzero : s.getTcb 0 = none := if_neg fun h => h.1 rfl
  simp only [freeMapping, hpid, hzero, hback, heq, Option.bind_eq_bind, Option.bind_some, ne_eq, not_true_eq_false,
    if_false]

def Releases (n : ℕ) : Prop :=
  ∀ s links q gone, links.card = n → Good s links (owed q) gone → Mapped s.view links → s.known q →
    ∃ s' links' pages, Returns (fun fuel => unreferenceThread fuel s q) s' ∧
      Good s' links' (fun _ => 0) gone ∧ Released (fun _ => False) s s' links links' pages ∧
      s'.view.Free pages

lemma setCount_tcb (s : System) (t x n p : ℕ) : ((s.setCount t x n).tcb p).rid = (s.tcb p).rid ∧
    ((s.setCount t x n).tcb p).shared = (s.tcb p).shared := by
  obtain ⟨hr, -, hc⟩ := setRegions_rid s t ((s.regions t).setRegion x
    { (s.regions t).region x with refcount := n }) p
  exact ⟨hr, hc⟩

lemma setCount_recounted {n : ℕ} (hpid : ((s.regions t).region x).pid = 0) (p : ℕ) :
    Recounted (s.regions p) ((s.setCount t x n).regions p) := by
  rw [System.setCount, setRegions_regions]
  split_ifs with hp
  · subst hp
    exact .step x n .refl hpid
  · exact .refl

lemma setRegions_tcb_of_ne {r : RegionMap} (hp : p ≠ t) : (s.setRegions t r).tcb p = s.tcb p := by
  rw [System.setRegions, setTcb_tcb, if_neg hp]

section Counts

variable {gone' : ℕ → ℕ → Prop} (h : Good s links (fun _ => 0) gone) (hm : Mapped s.view links) (hl : l ∈ links)
  (hgone : ∀ p page, gone p page → gone' p page) (hthis : s.known l.user → gone' l.user l.page)
  (hlive : ∀ p page, s.known p → gone' p page → (s.tcb p).rid = p ∨ 0 < s.holds p)

include h hm hl hgone hthis hlive

lemma unreferenceMem_released (hrel : Releases (links.erase l).card) :
    ∃ s' links' pages, Returns (fun fuel => unreferenceMem fuel s l.owner (l.home * basePageSize)) s' ∧
      Good s' links' (fun _ => 0) gone' ∧
      Released (fun _ => False) s s' (links.erase l) links' pages ∧ s'.view.Free pages := by
  obtain ⟨g, g', hlink⟩ := h.counted.linked l hl
  have hown := h.counted.owners l hl
  obtain ⟨hcount, hunlink⟩ := h.counted.unlink hl hlink hgone hthis hlive
  obtain ⟨xs, hp⟩ := (h.healthy _ hown).valid.region
  obtain ⟨x, hx, hfind, rfl, hu, hs⟩ := findRegion_eq hp hlink.region
  have hcount' : Released (fun _ => False) s
      (s.setCount l.owner x (((s.regions l.owner).region x).refcount - 1)) (links.erase l) (links.erase l) [] := by
    apply released_count
    · rfl
    · exact fun p _ => setCount_recounted hlink.own p
    · intro p hpk
      apply setRegions_tcb_of_ne
      rintro rfl
      exact hpk hown
    · funext p
      exact setRegions_vmem ..
    · exact setCount_tcb s _ _ _
    · rfl
    · rfl
  have hview := setCount_view hp hx hu (((s.regions l.owner).region x).refcount - 1)
  rw [hs] at hview
  rw [← hview] at hunlink
  have hgood : Good (s.setCount l.owner x (((s.regions l.owner).region x).refcount - 1)) (links.erase l)
      (owed l.owner) gone' := ⟨hcount'.healthy h.healthy, hunlink⟩
  have hmap := hm.fewer (hcount'.fewer h.healthy) (Finset.erase_subset l links) hunlink.owners
  obtain ⟨s', links', pages, hret, hgood', hrel', hfree⟩ := hrel _ _ l.owner gone' rfl hgood hmap hown
  refine ⟨s', links', pages, hret.intro fun fuel hfuel => ?_, hgood', ?_, hfree⟩
  · have hne : ((s.regions l.owner).region x).refcount - 1 ≠ 0 := by omega
    have hge : ¬ ((s.regions l.owner).region x).refcount < 1 := by omega
    simp only [unreferenceMem, hfind, Option.bind_eq_bind, Option.bind_some, if_neg hge, if_neg hne, hfuel]
  · exact hcount'.trans hrel' h.healthy (fun _ hp => hp) fun _ hp => hp.elim

lemma freeMapping_reference (hrel : Releases (links.erase l).card)
    (hx : s.view.used l.user l.page = some ((s.regions l.user).region x))
    (hback : ((s.regions l.user).region x).flags &&& MR_NONBACKED ≠ 0) :
    ∃ s' links' pages, Returns (fun fuel => freeMapping fuel s l.user x) s' ∧
      Good s' links' (fun _ => 0) gone' ∧
      Released (fun _ => False) s s' (links.erase l) links' pages ∧ s'.view.Free pages := by
  obtain ⟨g, g', hlink⟩ := h.counted.linked l hl
  obtain rfl := Option.some.inj (hlink.reference.symm.trans hx)
  obtain ⟨s', links', pages, hret, hgood, hreleased, hfree⟩ := unreferenceMem_released h hm hl hgone hthis hlive hrel
  refine ⟨s', links', pages, hret.intro fun fuel hfuel => ?_, hgood, hreleased, hfree⟩
  have howner : s.getTcb ((s.regions l.user).region x).pid = some l.owner := by
    rw [hlink.pid]
    exact if_pos (h.counted.owners l hl)
  simp only [freeMapping, howner, hlink.address, hfuel, Option.bind_eq_bind, Option.bind_some, if_pos hback]

end Counts

end Kmi.Shared
