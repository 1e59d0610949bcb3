import Kmi.Regions.Nodes
import Kmi.Uvmem.FixedMaps
import Kmi.Vmem.Destroy

/-! The end of a user memory, from `src/vmem.c`, for the process that owns it: its pages, its
regions and its tables are freed. -/

namespace Kmi.Uvmem

open Kmi.Mem Kmi.Vmem Kmi.Regions Kmi.Library.LinkedList

def purgeMapping (m : Space) (g : Region) (owner : Bool) (unref : Space → Space) :
    Option (Space × List (ℕ × ℕ)) :=
  let m := if g.pid ≠ 0 ∧ owner = true then unref m else m
  if g.flags &&& MR_NONBACKED ≠ 0 then some (m, [])
  else
    let start := g.start * basePageSize % 2 ^ 64
    let size := sub64 (g.stop * basePageSize % 2 ^ 64) start
    if g.pid ≠ 0 then (unmapFixedRegion m start size).map fun m => (m, [])
    else unmapRegion m start size

section Purge

-- whether the process of a shared region is still there, and what giving back its reference
-- does to these tables
variable (owner : ℕ → Bool) (unref : Region → Space → Space)

def purgeRegions (r : RegionMap) : ℕ → Option ℕ → Space → Option (Space × List (ℕ × ℕ))
  | _, none, m => some (m, [])
  | 0, some _, _ => none
  | fuel + 1, some x, m =>
    let g := r.region x
    if g.used then do
      let (m, freed) ← purgeMapping m g (owner g.pid) (unref g)
      let (m, rest) ← purgeRegions r fuel (r.list.next x) m
      some (m, freed ++ rest)
    else purgeRegions r fuel (r.list.next x) m

/-- The nodes and the tables as they are left, and the pages that are freed, each with its
order; `top` is that of the top-level table. -/
def destroyUvmem (top : ℕ) (u : UserVmem) : Option (UserVmem × List (ℕ × ℕ)) := do
  let first ← findFirstRegion u.region
  let (vmem, pages) ← purgeRegions owner unref u.region u.region.fuel first u.vmem
  let region ← destroyRegion u.region
  let tables ← destroyVmem vmem
  some (⟨region, vmem⟩, pages ++ tables.map (fun a => (0, a)) ++ [(0, top)])

end Purge

variable {m m' : Space} {r : RegionMap} {g : Region} {s c e v bytes fuel : ℕ} {xs ys zs : List ℕ}
  {level : ℕ → Option ℕ} {low : ℕ → Table} {ps : List (ℕ × ℕ)} {owner : ℕ → Bool} {unref : Region → Space → Space}

lemma freeMapping_eq (m : Space) (g : Region) (owner : Bool) (unref : Space → Space) :
    freeMapping m g owner unref = (purgeMapping m g owner unref).map Prod.fst := by
  rw [freeMapping, purgeMapping]
  dsimp only
  generalize (if g.pid ≠ 0 ∧ owner = true then unref m else m) = m₁
  split_ifs
  · rfl
  · rw [unmapFixedRegion]
    cases unmapRegion m₁ (g.start * basePageSize % 2 ^ 64) _ <;> rfl
  · rfl

structure Known (level : ℕ → Option ℕ) (low : ℕ → Table) (m : Space) : Prop where
  wf : WellFormed m
  levelled : Levelled (fun _ _ => True) (· < KERNEL_PAGE) level m
  hung : Hung (· < KERNEL_PAGE) level m
  frame : ∀ a, level a = none → m.low a = low a

lemma Known.unmapVpage (h : Known level low m) (hv : v < UVMEM_END) : Known level low (unmapVpage m v).1 := by
  have htop : vmToIndex v maxOrder < KERNEL_PAGE := (user_top hv).trans (by decide)
  have hr := unmapVpage_levelled h.levelled htop
  refine ⟨unmapVpage_wellFormed h.wf v, hr.levelled, unmapVpage_hung h.hung, fun a ha => ?_⟩
  rw [hr.frame a ha, h.frame a ha]

lemma Known.unmapPages (h : Known level low m) (hb : bytes % 4096 = 0) (he : v + bytes ≤ UVMEM_END)
    (hsmall : OnlyBasePages m v (v + bytes)) (hu : unmapPages fuel v bytes m = some (m', ps)) :
    Known level low m' := by
  induction fuel generalizing m v bytes ps with
  | zero => cases hu
  | succ fuel ih =>
    rw [Uvmem.unmapPages] at hu
    by_cases hz : bytes = 0
    · rw [if_pos hz] at hu
      cases hu
      exact h
    rw [if_neg hz] at hu
    cases hx : statVpage m v with
    | none =>
      rw [hx] at hu
      cases hu
      exact h
    | some x =>
      have hbase := hsmall v le_rfl (by omega) x hx
      have hend : UVMEM_END < 2 ^ 39 := by decide
      have hsub : sub64 bytes 4096 = bytes - 4096 := by
        rw [sub64]
        omega
      simp only [hx, hbase, show orderSize 0 = 4096 from rfl, hsub, Option.bind_eq_bind,
        Option.bind_eq_some_iff, Prod.exists, Nat.mod_eq_of_lt (show v + 4096 < 2 ^ 64 by omega)] at hu
      obtain ⟨m₁, freed, hu, heq⟩ := hu
      cases heq
      refine ih (h.unmapVpage (by omega)) (by omega) (by omega) (fun y hy hy' z hz => ?_) hu
      rw [unmapVpage_stat h.wf hx] at hz
      split_ifs at hz
      exact hsmall y (by omega) (by omega) z hz

structure Backed (m : Space) (g : Region) (ps : List (ℕ × ℕ)) : Prop where
  own : g.pid = 0
  backed : g.flags &&& MR_NONBACKED = 0
  small : OnlyBasePages m (g.start * 4096) (g.stop * 4096)
  pages : ∃ c ≤ g.stop * 4096, Tiles m (g.start * 4096) c ps ∧
    ∀ y, c ≤ y → y < g.stop * 4096 → statVpage m y = none

lemma Backed.congr (h : Backed m g ps)
    (hc : ∀ y, g.start * 4096 ≤ y → y < g.stop * 4096 → statVpage m' y = statVpage m y) :
    Backed m' g ps := by
  obtain ⟨c, hle, ht, hn⟩ := h.pages
  have hsc := ht.tiled.le
  refine ⟨h.own, h.backed, fun y hy hy' x hx => ?_, c, hle, ?_, fun y hy hy' => ?_⟩
  · rw [hc y hy hy'] at hx
    exact h.small y hy hy' x hx
  · exact ht.congr fun y hy hy' => hc y hy (by omega)
  · rw [hc y (by omega) hy', hn y hy hy']

lemma Backed.purge (hg : Backed m g ps) (h : Known level low m) (hle : g.start ≤ g.stop)
    (he : g.stop ≤ page UVMEM_END) (owner : Bool) (unref : Space → Space) :
    ∃ m', purgeMapping m g owner unref = some (m', ps) ∧ Known level low m' ∧
      ∀ y < 2 ^ 39, y < g.start * 4096 ∨ g.stop * 4096 ≤ y → statVpage m' y = statVpage m y := by
  obtain ⟨c, hc, ht, hn⟩ := hg.pages
  have hsmall := hg.small
  have hend := page_uvmemEnd_mul
  have hbig : UVMEM_END < 2 ^ 39 := by decide
  obtain ⟨s, hs⟩ : ∃ s, g.start * 4096 = s := ⟨_, rfl⟩
  obtain ⟨e, he'⟩ : ∃ e, g.stop * 4096 = e := ⟨_, rfl⟩
  rw [hs] at ht hsmall
  rw [he'] at hc hn hsmall
  have hsc := ht.tiled.le
  have hlen := ht.length_le
  have hsum : s + (e - s) = e := by omega
  obtain ⟨m', heq, hu⟩ := unmapPages_tiles ht h.wf (show s + (e - s) ≤ 2 ^ 39 by omega)
    (hsum.symm ▸ hc) (by
      rw [hsum]
      obtain rfl | hlt := eq_or_lt_of_le hc
      · exact .inl rfl
      · exact .inr (hn c le_rfl hlt)) (show ps.length < 512 ^ 3 + 1 by omega)
  refine ⟨m', ?_, ?_, fun y hy hout => ?_⟩
  · have hpid : ¬ (g.pid ≠ 0 ∧ owner = true) := fun hp => hp.1 hg.own
    have hsize : sub64 (e % 2 ^ 64) (s % 2 ^ 64) = e - s := by
      rw [sub64]
      omega
    rw [purgeMapping]
    dsimp only
    rw [if_neg hpid, if_neg (not_not.2 hg.backed), if_neg (not_not.2 hg.own), basePageSize_eq, hs, he',
      hsize, Nat.mod_eq_of_lt (show s < 2 ^ 64 by omega), unmapRegion_eq (by omega) (by omega) (by omega)
      (by omega), heq]
  · apply h.unmapPages (by omega) (by omega) _ heq
    rw [hsum]
    exact hsmall
  · rw [hu.stat y hy, if_neg (by omega)]

lemma purgeRegions_spec {pages : ℕ → List (ℕ × ℕ)} (hp : Partition r (ys ++ zs))
    (hstop : r.stop ≤ page UVMEM_END) (h : Known level low m)
    (hb : ∀ x ∈ zs, (r.region x).used = true → Backed m (r.region x) (pages x))
    (hfuel : zs.length ≤ fuel) :
    ∃ m' freed, purgeRegions owner unref r fuel zs.head? m = some (m', freed) ∧ Known level low m' ∧
      ∀ x ∈ zs, (r.region x).used = true → ∀ p ∈ pages x, p ∈ freed := by
  induction zs generalizing ys m fuel with
  | nil =>
    refine ⟨m, [], ?_, h, fun x hx => absurd hx List.not_mem_nil⟩
    cases fuel <;> rfl
  | cons x zs ih =>
    obtain ⟨fuel, rfl⟩ : ∃ k, fuel = k + 1 := ⟨fuel - 1, by simp at hfuel; omega⟩
    rw [List.length_cons] at hfuel
    obtain ⟨-, -, -, hnext, -⟩ := isList_append_cons_iff.1 hp.linked
    have hnext : r.list.next x = zs.head? := by simpa using hnext
    obtain ⟨i, -, -, -, hafter⟩ := covers_append.1 hp.covers
    have hx := (hp.covers.mem (x := x) (by simp)).2
    have hrest : Partition r (ys ++ [x] ++ zs) := by simpa using hp
    have hb' : ∀ y ∈ zs, (r.region y).used = true → Backed m (r.region y) (pages y) :=
      fun y hy => hb y (List.mem_cons_of_mem _ hy)
    rw [List.head?_cons, purgeRegions, hnext]
    dsimp only
    split_ifs with hu
    · obtain ⟨m₁, hpurge, h₁, hsame⟩ := (hb x (List.mem_cons_self ..) hu).purge h hx.1.le
        (hx.2.trans hstop) (owner (r.region x).pid) (unref (r.region x))
      obtain ⟨m', freed, heq, h', hfreed⟩ := ih hrest h₁ (fun y hy hyu => (hb' y hy hyu).congr
        fun z hz hz' => by
          have hend := page_uvmemEnd
          have hy := hafter.mem hy
          exact hsame z (by omega) (by omega)) (by omega : zs.length ≤ fuel)
      refine ⟨m', pages x ++ freed, ?_, h', fun y hy hyu p hm => ?_⟩
      · simp only [hpurge, heq, Option.bind_eq_bind, Option.bind_some]
      · obtain rfl | hy := List.mem_cons.1 hy
        · exact List.mem_append_left _ hm
        · exact List.mem_append_right _ (hfreed y hy hyu p hm)
    · obtain ⟨m', freed, heq, h', hfreed⟩ := ih hrest h hb' (by omega : zs.length ≤ fuel)
      refine ⟨m', freed, heq, h', fun y hy hyu p hm => ?_⟩
      obtain rfl | hy := List.mem_cons.1 hy
      · exact absurd hyu hu
      · exact hfreed y hy hyu p hm

lemma destroyUvmem_spec {m₀ : RegionMap} {u : UserVmem} {pages : ℕ → List (ℕ × ℕ)} (ho : Owns m₀ u.region xs)
    (hlt : u.region.start < u.region.stop) (hstop : u.region.stop = page UVMEM_END)
    (h : Known level low u.vmem)
    (hb : ∀ p g, usedAt u.region p = some g → Backed u.vmem g (pages p)) (top : ℕ) :
    ∃ u' freed, destroyUvmem owner unref top u = some (u', freed) ∧ SameNodes m₀ u'.region ∧
      (∀ a, level a = none → u'.vmem.low a = low a) ∧ (0, top) ∈ freed ∧
      (∀ a o, level a = some o → (0, a) ∈ freed) ∧
      ∀ p g, usedAt u.region p = some g → ∀ q ∈ pages p, q ∈ freed := by
  have hp := ho.whole
  have hend := page_uvmemEnd
  have hne : xs ≠ [] := by
    rintro rfl
    have : u.region.start = u.region.stop := hp.covers
    omega
  have hfirst := findFirstRegion_spec hp hne (by omega)
  have hcount := hp.count
  obtain ⟨vmem, pages', hpurge, hk, hpages⟩ := @purgeRegions_spec u.vmem u.region u.region.fuel []
    xs level low owner unref (fun x => pages (u.region.region x).start) hp hstop.le h
    (fun x hx hu => hb _ _ ((usedAt_eq_some hp).2 ⟨x, hx, rfl, hu, rfl⟩)) (by
      rw [RegionMap.fuel]
      omega)
  obtain ⟨region, hregion, hsame⟩ := ho.destroy
  obtain ⟨tables, htables, hall⟩ := hk.hung.destroyVmem hk.levelled
  refine ⟨⟨region, vmem⟩, pages' ++ tables.map (fun a => (0, a)) ++ [(0, top)], ?_, hsame, hk.frame, ?_,
    fun a o ha => ?_, fun p g hg q hq => ?_⟩
  · simp only [destroyUvmem, hfirst, hpurge, hregion, htables, Option.bind_eq_bind, Option.bind_some]
  · exact List.mem_append_right _ (List.mem_singleton_self _)
  · apply List.mem_append_left
    apply List.mem_append_right
    exact List.mem_map.2 ⟨a, hall a o ha, rfl⟩
  · obtain ⟨x, hx, rfl, hu, rfl⟩ := (usedAt_eq_some hp).1 hg
    apply List.mem_append_left
    apply List.mem_append_left
    exact hpages x hx hu q hq

end Kmi.Uvmem
