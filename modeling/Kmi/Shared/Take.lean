import Kmi.Shared.Clone
import Kmi.Shared.Release

/-! What a process gets: regions of its own, and references to those of others. -/

namespace Kmi.Shared

open Kmi.Mem Kmi.Vmem Kmi.Regions Kmi.Uvmem

variable {s : System} {c t p y order fuel flags start bytes size v : ℕ} {m m' r : RegionMap} {g : Region}
  {space space' : Space} {u : UserVmem} {pre post : Option ℕ} {answers : List Answer} {ps : List (ℕ × ℕ)}
  {vmflags : Flags}

lemma tryTakes_order {k : Take} (hk : k ∈ tryTakes space flags order start size answers) :
    k.order = order := by
  unfold tryTakes at hk
  split_ifs at hk
  · cases hk
  · cases hk
  · cases answers with
    | nil => cases hk
    | cons a rest =>
      dsimp only at hk
      split_ifs at hk
      · cases hk
      · rw [List.mem_singleton.1 hk]

lemma takes_order {k : Take} (hk : k ∈ takes flags fuel order start size answers space) :
    k.order ≤ order := by
  induction fuel generalizing order start size answers space with
  | zero => cases hk
  | succ fuel ih =>
    rw [takes] at hk
    by_cases hz : size = 0
    · rw [if_pos hz] at hk
      cases hk
    rw [if_neg hz] at hk
    generalize tryPage space flags order start size answers = r at hk
    obtain ⟨space', answers', mapped⟩ := r
    obtain hk | hk := List.mem_append.1 hk
    · exact (tryTakes_order hk).le
    · split_ifs at hk
      · exact ih hk
      · cases hk
      · exact (ih hk).trans (Nat.sub_le order 1)

def granted (space : Space) (v size order : ℕ) (flags : Flags) (answers : List Answer) : List (ℕ × ℕ) :=
  mappedPages (regionTakes space v size order flags.toNat answers)

lemma granted_order {f : ℕ × ℕ} (hf : f ∈ granted space v size order vmflags answers) : f.1 ≤ order := by
  obtain ⟨k, hk, -, ho, -⟩ := mem_mappedPages hf
  rw [regionTakes] at hk
  rw [← ho]
  exact takes_order hk

structure Granted (u u' : UserVmem) (g : Region) (ps : List (ℕ × ℕ)) : Prop where
  region : ∀ p, usedAt u'.region p = if p = g.start then some g else usedAt u.region p
  tiles : Tiles u'.vmem (g.start * basePageSize) (g.stop * basePageSize) ps
  rest : ∀ y, ¬ InRegion g y → byteAt u'.vmem y = byteAt u.vmem y
  stat : ∀ y < 2 ^ 39, ¬ InRegion g y → statVpage u'.vmem y = statVpage u.vmem y

structure Refused (u u' : UserVmem) : Prop where
  region : ∀ p, usedAt u'.region p = usedAt u.region p
  byte : byteAt u'.vmem = byteAt u.vmem
  stat : ∀ y < 2 ^ 39, statVpage u'.vmem y = statVpage u.vmem y

lemma byteAt_congr (h : statVpage space' y = statVpage space y) : byteAt space' y = byteAt space y := by
  rw [byteAt, byteAt, physical, physical, h]

lemma byteAt_of_stat (h : ∀ y < 2 ^ 39, statVpage space' y = statVpage space y) :
    byteAt space' = byteAt space := by
  funext y
  by_cases hy : y < 2 ^ 39
  · exact byteAt_congr (h y hy)
  · rw [byteAt, byteAt, if_neg hy, if_neg hy]

lemma not_inRegion (hy : ¬ InRegion g y) : y < g.start * basePageSize ∨ g.stop * basePageSize ≤ y := by
  rw [InRegion] at hy
  omega

lemma mapUvmem_granted (ho : order ≤ maxOrder) (hu : Valid ⟨m, space⟩) (hg : NewUsed m m' g)
    (hlt : g.start < g.stop) (hf : PageFlags vmflags.toNat)
    (hn : Untranslated space g.start g.size) (ha : FreshAnswers space answers) :
    ∃ u' v freed, mapUvmem order ⟨m', space⟩ (g.start * basePageSize) (g.size * basePageSize) vmflags answers =
        some (u', v, freed) ∧ Valid u' ∧
      (v = g.start * basePageSize ∧ freed = [] ∧ Granted ⟨m, space⟩ u' g
          (granted space (g.start * basePageSize) (g.size * basePageSize) order vmflags answers) ∨
        errCode v = true ∧ Refused ⟨m, space⟩ u' ∧
          freed = granted space (g.start * basePageSize) (g.size * basePageSize) order vmflags answers) := by
  obtain ⟨xs, hp⟩ := hg.whole
  have hstop : m.stop = page UVMEM_END := hu.stop
  have hend := page_uvmemEnd
  have hbounds := hg.bounds
  have hb := basePageSize_eq
  obtain ⟨a, ha'⟩ : ∃ a, g.start * basePageSize = a := ⟨_, rfl⟩
  obtain ⟨n, hn'⟩ : ∃ n, g.size * basePageSize = n := ⟨_, rfl⟩
  have hgs : g.size = g.stop - g.start := rfl
  have hstop' : g.stop * basePageSize = a + n := by
    rw [← ha', ← hn', ← add_mul]
    congr 1
    omega
  have hal : a % 4096 = 0 := by
    rw [← ha', hb]
    omega
  have hnal : n % 4096 = 0 := by
    rw [← hn', hb]
    omega
  have hle : a + n ≤ UVMEM_END := by
    rw [← hstop', hb]
    have := page_uvmemEnd_mul
    omega
  rw [UVMEM_END] at hle
  have hn : ∀ y, a ≤ y → y < a + n → statVpage space y = none := by rwa [Untranslated, add_mul, ha', hn'] at hn
  have hrs : regionStart a = a := by
    rw [regionStart]
    omega
  have hre : regionEnd a n = a + n := by
    rw [regionEnd]
    omega
  have herr : errCode a = false := by
    rw [errCode, hb, decide_eq_false_iff_not]
    omega
  obtain ⟨space', ret, e, hmap, hl, hc, hret⟩ := @mapRegion_takes space a n vmflags.toNat order answers hf ho
    hu.tables (by omega) (fun y hy hy' x hx => by
      rw [hn y (hrs ▸ hy) (hre ▸ hy')] at hx
      cases hx) ha
  rw [hrs] at hl
  rw [hre] at hc hret
  have hout : ∀ y, ¬ InRegion g y → y < a ∨ a + n ≤ y := by
    intro y hy
    have := not_inRegion hy
    omega
  rw [ha', hn']
  have hgranted : granted space a n order vmflags answers =
      mappedPages (regionTakes space a n order vmflags.toNat answers) := rfl
  rw [← hgranted] at hl
  generalize granted space a n order vmflags answers = ps at hl ⊢
  simp only [mapUvmem, herr, Bool.false_eq_true, if_false, hmap, Option.bind_eq_bind, Option.bind_some]
  obtain ⟨rfl, rfl⟩ | rfl := hret
  · refine ⟨⟨m', space'⟩, a, [], rfl, ⟨⟨xs, hp⟩, hg.start.trans hu.start, hg.stop.trans hu.stop, hl.wf⟩,
      .inl ⟨rfl, rfl, hg.used, ?_, ?_, ?_⟩⟩
    · rw [ha', hstop']
      exact hl.tiles
    · intro y hy
      by_cases hlt : y < 2 ^ 39
      · exact byteAt_congr (hl.rest y hlt (hout y hy))
      · rw [byteAt, byteAt, if_neg hlt, if_neg hlt]
    · intro y hlt hy
      exact hl.rest y hlt (hout y hy)
  · have hlen := hl.tiles.length_le
    have hse := hl.tiles.tiled.le
    obtain ⟨space'', hunmap, hum⟩ := @unmapPages_tiles space' a e n (512 ^ 3 + 1) ps hl.tiles hl.wf (by omega) hc (by
        obtain rfl | hlt := eq_or_lt_of_le hc
        · exact .inl rfl
        · right
          rw [hl.rest e (by omega) (.inr le_rfl), hn e hse hlt]) (by omega)
    have hused := hg.used g.start
    rw [if_pos rfl] at hused
    obtain ⟨m'', xs', hfree, hp', hs', he', huse⟩ := freeRegion_usedAt hp hused
    rw [ha'] at hfree
    have hunmap' : unmapRegion space' a n = some (space'', ps) := by
      rw [unmapRegion_eq (by omega) hal hnal (by omega), hunmap]
    rw [if_pos (by decide), hunmap', Option.bind_some, hfree, Option.bind_some]
    have hstat : ∀ y < 2 ^ 39, statVpage space'' y = statVpage space y := by
      intro y hy
      rw [hum.stat y hy]
      split_ifs with hin
      · rw [hn y hin.1 (by omega)]
      · exact hl.rest y hy (by omega)
    refine ⟨_, _, _, rfl, ⟨⟨xs', hp'⟩, (hs'.trans hg.start).trans hu.start,
      (he'.trans hg.stop).trans hu.stop, hum.wf⟩, .inr ⟨by decide, ⟨fun p => ?_, byteAt_of_stat hstat, hstat⟩, rfl⟩⟩
    rw [huse]
    split_ifs with hps
    · rw [hps]
      exact hg.free.symm
    · rw [hg.used, if_neg hps]

section Healthy

variable {u' : UserVmem} (hu : Healthy u)

include hu

lemma Granted.healthy (h : Granted u u' g ps) (hv : Valid u') (hpid : g.pid = 0)
    (hback : g.flags &&& MR_NONBACKED = 0) (hsmall : g.flags &&& MR_SHARED ≠ 0 → ∀ f ∈ ps, f.1 = 0) :
    Healthy u' := by
  obtain ⟨xs, hp⟩ := hv.region
  have hend := page_uvmemEnd
  have hb := basePageSize_eq
  have hcases : ∀ page g', usedAt u'.region page = some g' → g' = g ∨
      usedAt u.region page = some g' ∧
        ∀ y, g'.start * basePageSize ≤ y → y < g'.stop * basePageSize → statVpage u'.vmem y = statVpage u.vmem y := by
    intro page g' hg'
    by_cases hpage : page = g.start
    · rw [h.region, if_pos hpage] at hg'
      exact .inl (Option.some.inj hg').symm
    · right
      have hg : usedAt u'.region g.start = some g := by rw [h.region, if_pos rfl]
      have hapart := usedAt_apart hp hg' hg hpage
      have hstop := (usedAt_range hp hg').2.2.2
      have hve := hv.stop
      rw [h.region, if_neg hpage] at hg'
      refine ⟨hg', fun y hy hy' => h.stat y (by rw [hb] at hy'; omega) ?_⟩
      rw [InRegion, hb]
      rw [hb] at hy hy'
      omega
  refine ⟨hv, fun page g' hg' hpid' => ?_, fun page g' hg' hpid' hs' => ?_, fun page g' hg' hpid' => ?_⟩
  · obtain rfl | ⟨hold, hstat⟩ := hcases page g' hg'
    · exact ⟨hback, h.tiles.tiled⟩
    · obtain ⟨hb', ht⟩ := hu.backed page g' hold hpid'
      exact ⟨hb', ht.congr hstat⟩
  · obtain rfl | ⟨hold, hstat⟩ := hcases page g' hg'
    · intro y hy hy' x hx
      obtain ⟨z, hz, -, hmem⟩ := h.tiles.page_mem hy hy'
      obtain rfl := Option.some.inj (hx.symm.trans hz)
      exact hsmall hs' _ hmem
    · intro y hy hy' x hx
      rw [hstat y hy hy'] at hx
      exact hu.small page g' hold hpid' hs' y hy hy' x hx
  · obtain rfl | ⟨hold, -⟩ := hcases page g' hg'
    · exact absurd hpid hpid'
    · exact hu.foreign page g' hold hpid'

lemma Refused.healthy (h : Refused u u') (hv : Valid u') : Healthy u' := by
  obtain ⟨xs, hp⟩ := hv.region
  have hend := page_uvmemEnd
  have hb := basePageSize_eq
  have hstat : ∀ page g', usedAt u'.region page = some g' →
      ∀ y, g'.start * basePageSize ≤ y → y < g'.stop * basePageSize → statVpage u'.vmem y = statVpage u.vmem y := by
    intro page g' hg' y _ hy'
    have hstop := (usedAt_range hp hg').2.2.2
    have hve := hv.stop
    apply h.stat
    rw [hb] at hy'
    omega
  refine ⟨hv, fun page g' hg' hpid' => ?_, fun page g' hg' hpid' hs' => ?_, fun page g' hg' hpid' => ?_⟩
  · obtain ⟨hb', ht⟩ := hu.backed page g' (h.region page ▸ hg') hpid'
    exact ⟨hb', ht.congr (hstat page g' hg')⟩
  · intro y hy hy' x hx
    rw [hstat page g' hg' y hy hy'] at hx
    exact hu.small page g' (h.region page ▸ hg') hpid' hs' y hy hy' x hx
  · exact hu.foreign page g' (h.region page ▸ hg') hpid'

end Healthy

structure Sound (s : System) (links : Finset Link) : Prop where
  good : Good s links (fun _ => 0) settled
  mapped : Mapped s.view links
  users : ∀ l ∈ links, s.known l.user

def SideBySide (ps : List (ℕ × ℕ)) : Prop :=
  ps.Pairwise fun a b => a.2 + orderSize a.1 ≤ b.2 ∨ b.2 + orderSize b.1 ≤ a.2

lemma setMemory_tcb (s : System) (t : ℕ) (u : UserVmem) (p : ℕ) :
    (s.setMemory t u).tcb p = if p = t then { s.tcb t with memory := u } else s.tcb p := setTcb_tcb ..

lemma setMemory_memory (s : System) (t : ℕ) (u : UserVmem) (p : ℕ) :
    ((s.setMemory t u).tcb p).memory = if p = t then u else (s.tcb p).memory := by
  rw [setMemory_tcb]
  split_ifs <;> rfl

lemma setMemory_rid (s : System) (t : ℕ) (u : UserVmem) (p : ℕ) :
    ((s.setMemory t u).tcb p).rid = (s.tcb p).rid ∧ ((s.setMemory t u).tcb p).refcount = (s.tcb p).refcount := by
  rw [setMemory_tcb]
  split_ifs with h
  · subst h
    exact ⟨rfl, rfl⟩
  · exact ⟨rfl, rfl⟩

lemma view_setMemory (s : System) (t : ℕ) (u : UserVmem) : (s.setMemory t u).view =
    { s.view with
      used := fun p => if p = t then usedAt u.region else s.view.used p
      byte := fun p => if p = t then byteAt u.vmem else s.view.byte p } := by
  have hused : ∀ p, usedAt ((s.setMemory t u).regions p) = if p = t then usedAt u.region else usedAt (s.regions p) := by
    intro p
    rw [System.regions, setMemory_memory]
    split_ifs <;> rfl
  have hbyte : ∀ p, byteAt ((s.setMemory t u).vmem p) = if p = t then byteAt u.vmem else byteAt (s.vmem p) := by
    intro p
    rw [System.vmem, setMemory_memory]
    split_ifs <;> rfl
  simp only [System.view, setMemory_rid, hused, hbyte]
  rfl

lemma view_granted (h : Granted (s.tcb c).memory u g ps) : (s.setMemory c u).view =
    (s.view.setUsed c g.start (some g)).setByte c (byteAt u.vmem) := by
  have hused : (fun p => if p = c then usedAt u.region else s.view.used p) =
      fun p' page' => if p' = c ∧ page' = g.start then some g else s.view.used p' page' := by
    funext p page
    by_cases hp : p = c
    · subst hp
      simp only [if_true, h.region, true_and]
      rfl
    · simp only [hp, false_and, if_false]
  rw [view_setMemory, hused]
  rfl

lemma view_refused (h : Refused (s.tcb c).memory u) : (s.setMemory c u).view = s.view := by
  have hused : (fun p => if p = c then usedAt u.region else s.view.used p) = s.view.used := by
    funext p page
    split_ifs with hp
    · subst hp
      exact h.region page
    · rfl
  have hbyte : (fun p => if p = c then byteAt u.vmem else s.view.byte p) = s.view.byte := by
    funext p
    split_ifs with hp
    · subst hp
      exact h.byte
    · rfl
  rw [view_setMemory, hused, hbyte]

lemma setMemory_healthy (hs : ∀ p, s.known p → Healthy (s.tcb p).memory) (hu : Healthy u) (p : ℕ)
    (hp : s.known p) : Healthy ((s.setMemory c u).tcb p).memory := by
  rw [setMemory_memory]
  split_ifs
  · exact hu
  · exact hs p hp

lemma physical_of_byteAt {b : ℕ} (h : byteAt space y = some b) : y < 2 ^ 39 ∧ physical space y = some b := by
  rw [byteAt] at h
  split_ifs at h with hy
  exact ⟨hy, h⟩

lemma tiles_mem {a e b : ℕ} (h : Tiles space a e ps) (hy : a ≤ y) (hy' : y < e) (hb : byteAt space y = some b) :
    ∃ f ∈ ps, f.2 ≤ b ∧ b < f.2 + orderSize f.1 := by
  obtain ⟨-, hb⟩ := physical_of_byteAt hb
  obtain ⟨x, hx, ho, hmem⟩ := h.page_mem hy hy'
  rw [physical, hx, Option.map_some] at hb
  have hlt := Nat.mod_lt y (orderSize_pos ho)
  have heq := Option.some.inj hb
  refine ⟨_, hmem, ?_, ?_⟩
  · dsimp only
    omega
  · dsimp only
    omega

section System

variable {links : Finset Link} {u' : UserVmem} (h : Sound s links) (hc : s.known c)

include h hc

lemma Sound.refuse (hr : Refused (s.tcb c).memory u') (hv : Valid u') : Sound (s.setMemory c u') links := by
  have hview := view_refused hr
  refine ⟨⟨setMemory_healthy h.good.healthy (hr.healthy (h.good.healthy c hc) hv), ?_⟩, ?_, h.users⟩
  · rw [hview]
    exact h.good.counted
  · rw [hview]
    exact h.mapped

lemma Sound.grant (hg : Granted (s.tcb c).memory u' g ps) (hv : Valid u')
    (hnone : usedAt (s.regions c) g.start = none) (hpid : g.pid = 0) (hcount : g.refcount = 1)
    (hback : g.flags &&& MR_NONBACKED = 0) (hsmall : g.flags &&& MR_SHARED ≠ 0 → ∀ f ∈ ps, f.1 = 0)
    (hside : SideBySide ps) (hfree : s.view.Free ps) : Sound (s.setMemory c u') links := by
  have hhealthy : ∀ p, s.known p → Healthy ((s.setMemory c u').tcb p).memory :=
    setMemory_healthy h.good.healthy (hg.healthy (h.good.healthy c hc) hv hpid hback hsmall)
  have hview := view_granted hg
  have htidy := fun q hq => (h.good.healthy q hq).tidy
  have htidy' : Tidy (s.view.setUsed c g.start (some g)) c := by
    have ht := (hhealthy c hc).tidy
    rw [hview] at ht
    exact ⟨ht.places, ht.apart⟩
  refine ⟨⟨hhealthy, ?_⟩, ?_, h.users⟩
  · rw [hview]
    have htake := h.good.counted.take hnone hpid hcount
    exact htake.recount rfl rfl (fun _ _ => .inl rfl) htake.threads htake.needed htake.live
  · rw [hview]
    apply h.mapped.take h.good.counted.linked h.good.counted.owners htidy htidy' hnone ⟨fun y hy => hg.rest y hy⟩
    · intro y b hy hb q y' hq ho
      obtain ⟨f, hf, hlo, hhi⟩ := tiles_mem hg.tiles hy.1 hy.2 hb
      have := hfree f hf q y' b hq ho
      omega
    · intro y y' b hy hy' hb hb'
      obtain ⟨-, hb⟩ := physical_of_byteAt hb
      obtain ⟨-, hb'⟩ := physical_of_byteAt hb'
      exact hg.tiles.distinct hside hy.1 hy.2 hy'.1 hy'.2 (hb.trans hb'.symm)

end System

end Kmi.Shared
