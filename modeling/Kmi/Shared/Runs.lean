import Kmi.Shared.Calls

/-! The system over whole runs. -/

namespace Kmi.Shared

open Kmi.Library.Degree Kmi.Mem Kmi.Vmem Kmi.Regions Kmi.Uvmem

variable {s s' s'' : System} {links links' : Finset Link} {c d o p q x first home page : ℕ} {g g' : Region}
  {call : Call} {r : ℕ × ℕ} {ok : Call → Prop}

def Full (m : RegionMap) (size : ℕ) : Prop := ∃ align, findFreeRegion m (pagesOf size) = some (none, align)

def Orderly (s : System) : Call → Prop
  | .create tid _ m node kvmem low => tid ≠ 0 ∧ ¬ s.known tid ∧ m.freeRegions = none ∧ m.usedRegions = none ∧
      m.taken node = false ∧ KernelTable kvmem low
  | .reqMem c pre post size flags answers => ∃ first, FoundAt (s.regions c) size first ∧
      Asking s c first pre post size flags maxOrder answers
  | .reqFixmem c pre post fixed size flags answers =>
      RangeFree (s.regions c) (Regions.page fixed) (pagesOf size) ∧
      Asking s c (Regions.page fixed) pre post size flags maxOrder answers
  | .reqSharedmem c pre post size flags answers => ∃ first, FoundAt (s.regions c) size first ∧
      Asking s c first pre post size flags 0 answers
  | .refSharedmem c pre post tid addr flags answers => s.known c ∧ (s.tcb c).rid = c ∧
      ∀ g', usedAt (s.regions c) (Regions.page addr) = some g' → g'.flags &&& MR_SHARED ≠ 0 →
        s.known tid → s.zombie tid = false → Full (s.regions tid) (g'.size * basePageSize) ∨
          ∃ first ≠ 0, Sharing s tid c (Regions.page addr) first g' pre post (uvflags flags).toNat answers
  | .freeMem c _ => s.known c ∧ ((s.tcb c).rid = c ∨ 0 < s.holds c)
  | .reference p => s.known p
  | .unreference p => s.known p ∧ 0 < s.holds p
  | .exit p => s.known p ∧ (s.tcb p).rid = p

def Call.frees : Call → ℕ → Prop
  | .freeMem c _ => (· = c)
  | _ => fun _ => False

def Results (s : System) (c : Call) (s' : System) (r : ℕ × ℕ) : Prop := Returns (fun fuel => step fuel s c) (s', r)

def Runs (ok : Call → Prop) : System → System → Prop :=
  Relation.ReflTransGen fun s s' => ∃ c r, ok c ∧ Orderly s c ∧ Results s c s' r

def Reached (s : System) : Prop := ∃ s₀, (∀ p, s₀.tcbs p = false) ∧ Runs (fun _ => True) s₀ s

def System.References (s : System) (r : ℕ × ℕ) (o home : ℕ) : Prop :=
  s.known r.1 ∧ ∃ g, usedAt (s.regions r.1) r.2 = some g ∧ g.pid ≠ 0 ∧ g.pid = o ∧ g.refcount = home * basePageSize

lemma Returns.unique {α : Type} {f : ℕ → Option α} {a b : α} (ha : Returns f a) (hb : Returns f b) : a = b := by
  obtain ⟨n, hn⟩ := ha
  obtain ⟨m, hm⟩ := hb
  have h := hn (n + m) (by omega)
  rw [hm (n + m) (by omega)] at h
  exact (Option.some.inj h).symm

lemma Returns.const {α : Type} {f : ℕ → Option α} {a : α} (h : ∀ fuel, f fuel = some a) : Returns f a :=
  ⟨0, fun fuel _ => h fuel⟩

lemma findUsed_some {m : RegionMap} {xs : List ℕ} {start : ℕ} (hp : Partition m xs)
    (hg : usedAt m (Regions.page start) = some g) : ∃ x ∈ xs, findUsedRegion m start = some (some x) ∧
      m.region x = g ∧ (m.region x).used = true ∧ (m.region x).start = Regions.page start := by
  obtain ⟨x, hx, rfl, hu, hs⟩ := (usedAt_eq_some hp).1 hg
  obtain ⟨found, hfound, hmem⟩ := findUsedRegion_spec hp start
  obtain rfl := (hmem x).2 ⟨⟨hx, hu⟩, hs⟩
  exact ⟨x, hx, hfound, rfl, hu, hs⟩

section Step

variable (h : Sound s links)

include h

lemma freeMem_own {start : ℕ} (hc : s.known c) (hg : usedAt (s.regions c) (Regions.page start) = some g)
    (hpid : g.pid = 0) (hcount : ¬ 1 < g.refcount) :
    ∃ s' ps, Results s (.freeMem c start) s' (statusVm OK, 0) ∧ Stepped (· = c) s s' links links ∧
      s'.freed = s.freed ++ ps ∧ Tiles (s.vmem c) (g.start * basePageSize) (g.stop * basePageSize) ps ∧
      (∀ p page, ¬ (p = c ∧ page = g.start) → s'.view.used p page = s.view.used p page) ∧
      ∀ p y, (p = c → ¬ InRegion g y) → s'.view.byte p y = s.view.byte p y := by
  obtain ⟨xs, hp⟩ : ∃ xs, Partition (s.regions c) xs := (h.good.healthy c hc).valid.region
  obtain ⟨x, hx, hfound, rfl, hu, -⟩ := findUsed_some hp hg
  obtain ⟨s₁, s₂, r, ps, hmap, hfree, hs₂, hstep, hrest⟩ := h.freeOwn hc hp hx hu hpid hcount
  refine ⟨s₂, ps, ⟨1, fun fuel hle => ?_⟩, hstep, hrest⟩
  obtain ⟨k, rfl⟩ : ∃ k, fuel = k + 1 := ⟨fuel - 1, by omega⟩
  have hkept : ¬ (((s.regions c).region x).pid = 0 ∧ ((s.regions c).region x).refcount > 1) :=
    fun hc => hcount hc.2
  simp only [step, freeUvmem, hfound, if_neg hkept, hmap k, hfree, hs₂, Option.bind_eq_bind, Option.bind_some]

lemma freeMem_reference {start : ℕ} (hc : s.known c) (hg : usedAt (s.regions c) (Regions.page start) = some g)
    (hpid : g.pid ≠ 0) (hlive : (s.tcb c).rid = c ∨ 0 < s.holds c) :
    ∃ s' links', Results s (.freeMem c start) s' (statusVm OK, 0) ∧ Stepped (· = c) s s' links links' ∧
      links' ⊆ links ∧ (∀ l ∈ links', (l.user, l.page) ≠ (c, Regions.page start)) ∧
      s'.view.used c (Regions.page start) = none ∧
      ∀ p, s.known p → (s.tcb p).rid = p ∨ 0 < s.holds p → s'.known p ∧ s'.vmem p = s.vmem p ∧
        ∀ page g', ¬ (p = c ∧ page = Regions.page start) → s.view.used p page = some g' →
          ∃ k, s'.view.used p page = some k ∧ SameUse g' k := by
  obtain ⟨xs, hp⟩ : ∃ xs, Partition (s.regions c) xs := (h.good.healthy c hc).valid.region
  obtain ⟨x, hx, hfound, rfl, hu, hstart⟩ := findUsed_some hp hg
  obtain ⟨s₁, s₂, r, links₂, _, ⟨n, hn⟩, hfree, rfl, hstep, -, -, hview, l, hl, hplace, hrel⟩ :=
    h.freeReference hc hp hx hu hpid hlive
  rw [hstart] at hview hplace
  refine ⟨_, links₂, ⟨n, fun fuel hle => ?_⟩, hstep, hrel.subset.trans (Finset.erase_subset l links), ?_, ?_, ?_⟩
  · have hmap : freeMapping fuel s c x = some s₁ := hn fuel hle
    have hkept : ¬ (((s.regions c).region x).pid = 0 ∧ ((s.regions c).region x).refcount > 1) := fun hc => hpid hc.1
    simp only [step, freeUvmem, hfound, if_neg hkept, hmap, hfree, Option.bind_eq_bind, Option.bind_some]
  · intro k hk hkplace
    obtain ⟨hne, hkl⟩ := Finset.mem_erase.1 (hrel.subset hk)
    obtain ⟨_, _, hlink⟩ := h.good.counted.linked l hl
    obtain ⟨_, _, hlink'⟩ := h.good.counted.linked k hkl
    obtain ⟨hku, hkp⟩ := Prod.mk.inj (hkplace.trans hplace.symm)
    exact hne (hlink'.unique hlink hku hkp)
  · rw [hview]
    exact if_pos ⟨rfl, rfl⟩
  · intro p hk hneed
    have hknown : s₁.known p := by
      apply hrel.supported (· = p) _ p rfl
      refine ⟨?_, ?_⟩
      · rintro q rfl
        exact hk
      · rintro q rfl
        obtain hself | hheld := hneed
        · left
          rw [hself]
          exact hk.1
        · exact .inr (.inl hheld)
    refine ⟨hknown, (setRegions_vmem ..).trans (hrel.vmem p hknown), fun page g' hne hg' => ?_⟩
    obtain ⟨ys, hpp⟩ : ∃ ys, Partition (s.regions p) ys := (h.good.healthy p hk).valid.region
    obtain ⟨z, hz, rfl, huz, hzs⟩ := (usedAt_eq_some hpp).1 hg'
    obtain ⟨hsame, -⟩ := (hrel.regions p hknown).region z
    refine ⟨(s₁.regions p).region z, ?_, hsame⟩
    rw [hview]
    refine (if_neg hne).trans ?_
    exact (usedAt_eq_some ((hrel.regions p hknown).partition hpp)).2
      ⟨z, hz, rfl, hsame.used ▸ huz, hsame.start.symm.trans hzs⟩

lemma freeMem_stepped (hc : s.known c) (hlive : (s.tcb c).rid = c ∨ 0 < s.holds c) (start : ℕ) :
    ∃ s' links' r, Results s (.freeMem c start) s' r ∧ Stepped (· = c) s s' links links' := by
  have hnothing : Stepped (· = c) s s links links := .quiet h rfl (fun _ hp => hp) (Finset.Subset.refl links)
  obtain ⟨xs, hp⟩ : ∃ xs, Partition (s.regions c) xs := (h.good.healthy c hc).valid.region
  obtain ⟨found, hfound, hmem⟩ := findUsedRegion_spec hp start
  cases found with
  | none =>
    refine ⟨s, links, (statusVm ERR_NF, 0), .const fun fuel => ?_, hnothing⟩
    simp only [step, freeUvmem, hfound, Option.bind_eq_bind, Option.bind_some]
  | some x =>
    obtain ⟨⟨hx, hu⟩, hs⟩ := (hmem x).1 rfl
    have hg : usedAt (s.regions c) (Regions.page start) = some ((s.regions c).region x) :=
      (usedAt_eq_some hp).2 ⟨x, hx, rfl, hu, hs⟩
    by_cases hkept : ((s.regions c).region x).pid = 0 ∧ ((s.regions c).region x).refcount > 1
    · refine ⟨s, links, (statusVm ERR_INVAL, 0), .const fun fuel => ?_, hnothing⟩
      simp only [step, freeUvmem, hfound, if_pos hkept, Option.bind_eq_bind, Option.bind_some]
    · by_cases hpid : ((s.regions c).region x).pid = 0
      · obtain ⟨s', _, hres, hstep, -⟩ := freeMem_own h hc hg hpid fun hn => hkept ⟨hpid, hn⟩
        exact ⟨s', links, _, hres, hstep⟩
      · obtain ⟨s', links', hres, hstep, -⟩ := freeMem_reference h hc hg hpid hlive
        exact ⟨s', links', _, hres, hstep⟩

lemma letGo_good (hpos : 0 < s.holds p) : Good (letGo s p) links (owed p) settled ∧ Mapped (letGo s p).view links := by
  refine ⟨⟨h.good.healthy, ?_⟩, ?_⟩
  · rw [view_letGo]
    exact h.good.counted.letGo hpos
  · rw [view_letGo]
    exact ⟨h.mapped.shows, h.mapped.distinct⟩

lemma endThread_good (hp : s.known p) (hrid : (s.tcb p).rid = p) :
    Good (endThread s p) links (owed p) settled ∧ Mapped (endThread s p).view links := by
  refine ⟨⟨fun q hq => ?_, ?_⟩, ?_⟩
  · rw [endThread_memory]
    exact h.good.healthy q hq
  · rw [view_endThread]
    exact h.good.counted.exit hp.1 hrid
  · rw [view_endThread]
    exact ⟨h.mapped.shows, h.mapped.distinct⟩

lemma unreference_stepped (hp : s.known p) (hpos : 0 < s.holds p) :
    ∃ s' links', Results s (.unreference p) s' (statusVm OK, 0) ∧ Stepped (fun _ => False) s s' links links' ∧
      ∀ q, s'.known q ↔ ∃ P, Supported (letGo s p) links P ∧ P q := by
  obtain ⟨hgood, hmap⟩ := letGo_good h hpos
  obtain ⟨s', links', hret, hstep, hknown⟩ := hgood.unreference hmap h.users hp
  refine ⟨s', links', ?_, ⟨hstep.sound, hstep.freed, hstep.closed⟩, hknown⟩
  obtain ⟨n, hn⟩ := hret
  refine ⟨n, fun fuel hle => ?_⟩
  have hrun : unreferenceThread fuel (letGo s p) p = some s' := hn fuel hle
  simp only [step, hrun, Option.bind_eq_bind, Option.bind_some]

lemma exit_stepped (hp : s.known p) (hrid : (s.tcb p).rid = p) (hinit : p ≠ 1) :
    ∃ s' links', Results s (.exit p) s' (statusVm OK, 0) ∧ Stepped (fun _ => False) s s' links links' ∧
      ∀ q, s'.known q ↔ ∃ P, Supported (endThread s p) links P ∧ P q := by
  obtain ⟨hgood, hmap⟩ := endThread_good h hp hrid
  obtain ⟨s', links', hret, hstep, hknown⟩ := hgood.unreference hmap h.users hp
  refine ⟨s', links', ?_, ⟨hstep.sound, hstep.freed, hstep.closed⟩, hknown⟩
  obtain ⟨n, hn⟩ := hret
  refine ⟨n, fun fuel hle => ?_⟩
  have hrun : unreferenceThread fuel (endThread s p) p = some s' := hn fuel hle
  simp only [step, if_neg hinit, hrun, Option.bind_eq_bind, Option.bind_some]

section Refer

variable {pre post : Option ℕ} {tid addr flags : ℕ} {answers : List Pages}

lemma refSharedmem_stepped (hcap : (s.tcb c).shared = true) (hz : s.zombie tid = false) (hfirst : first ≠ 0)
    (hr : Sharing s tid c (Regions.page addr) first g' pre post (uvflags flags).toNat answers) :
    ∃ s' r, Results s (.refSharedmem c pre post tid addr flags answers) s' r ∧
      (∀ p, s'.known p ↔ s.known p) ∧ s'.freed = s.freed ∧
      (r = (statusVm OK, first * basePageSize) ∧ Sound s' (insert ⟨tid, first, c, Regions.page addr⟩ links) ∨
        errCode r.1 = true ∧ r.2 = 0 ∧ Sound s' links ∧ s'.view = s.view) := by
  obtain ⟨x, hfound, hx, s', v, hclone, hknown, hfreed, hcase⟩ := hr.sound h hfirst
  have hfound' : findUsedRegion (s.regions c) addr = some (some x) := by
    rw [findUsedRegion, page_mul] at hfound
    exact hfound
  have htcb : s.getTcb tid = some tid := if_pos hr.user
  have hshared := hr.shared
  rw [← hx] at hshared
  refine ⟨s', returnVm v, .const fun fuel => ?_, hknown, hfreed, ?_⟩
  · simp only [step, hcap, Bool.true_eq_false, if_false, htcb, hz, Bool.false_eq_true, refSharedUvmem, hfound',
      if_neg hshared, hclone, Option.bind_eq_bind, Option.bind_some]
  · obtain ⟨rfl, hs⟩ | ⟨hcode, hs⟩ := hcase
    · have hv : errCode (first * basePageSize) = false := by
        obtain ⟨_, _, hlink⟩ := hs.good.counted.linked _ (Finset.mem_insert_self ..)
        have hk := (hknown tid).2 hr.user
        obtain ⟨xs, hp⟩ : ∃ xs, Partition (s'.regions tid) xs := (hs.good.healthy tid hk).valid.region
        have hle := (usedAt_range hp hlink.reference).2.2
        have hstop : (s'.regions tid).stop = _ := (hs.good.healthy tid hk).valid.stop
        have hend := page_uvmemEnd
        rw [errCode, decide_eq_false_iff_not, basePageSize_eq]
        dsimp only at hle
        omega
      rw [returnVm, hv]
      exact .inl ⟨rfl, hs⟩
    · rw [returnVm, hcode]
      exact .inr ⟨hcode, rfl, hs⟩

omit h in
lemma refSharedmem_full (hcap : (s.tcb c).shared = true) (htid : s.known tid) (hz : s.zombie tid = false)
    (hc : ∃ xs, Partition (s.regions c) xs) (hg : usedAt (s.regions c) (Regions.page addr) = some g')
    (hstop : g'.stop ≤ Regions.page UVMEM_END) (hshared : g'.flags &&& MR_SHARED ≠ 0)
    (hfull : Full (s.regions tid) (g'.size * basePageSize)) :
    Results s (.refSharedmem c pre post tid addr flags answers) s (statusVm OK, 0) := by
  obtain ⟨xs, hp⟩ := hc
  obtain ⟨x, -, hfound, rfl, -, hstart⟩ := findUsed_some hp hg
  obtain ⟨align, hfull⟩ := hfull
  have htcb : s.getTcb tid = some tid := if_pos htid
  have hlt := (usedAt_range hp hg).2.2.1
  have hend := page_uvmemEnd
  have hb := basePageSize_eq
  have hsize : sub64 (((s.regions c).region x).stop * basePageSize % 2 ^ 64)
      (((s.regions c).region x).start * basePageSize % 2 ^ 64) = ((s.regions c).region x).size * basePageSize := by
    rw [sub64, Region.size, hb]
    omega
  have hself : s.setRegions tid (s.regions tid) = s := by
    rw [System.setRegions, System.setTcb]
    exact congrArg (fun tcb => { s with tcb := tcb }) (Function.update_eq_self ..)
  have hpages : Regions.page (alignUp (((s.regions c).region x).size * basePageSize) basePageSize) =
      pagesOf (((s.regions c).region x).size * basePageSize) := page_alignUp _
  apply Returns.const
  intro fuel
  simp only [step, hcap, Bool.true_eq_false, if_false, htcb, hz, Bool.false_eq_true, refSharedUvmem, hfound,
    if_neg hshared, cloneSharedRegion, allocSharedRegion, hsize, hpages, hfull, hself, if_true,
    Option.bind_eq_bind, Option.bind_some]
  rfl

lemma refSharedmem_all (ho : Orderly s (.refSharedmem c pre post tid addr flags answers)) :
    ∃ s' links' r, Results s (.refSharedmem c pre post tid addr flags answers) s' r ∧
      Stepped (fun _ => False) s s' links links' := by
  obtain ⟨hc, -, hshare⟩ := ho
  have hquiet : Stepped (fun _ => False) s s links links := .quiet h rfl (fun _ hp => hp) (Finset.Subset.refl links)
  by_cases hcap : (s.tcb c).shared = true
  swap
  · refine ⟨s, links, (statusVm ERR_PERM, 0), .const fun fuel => ?_, hquiet⟩
    simp only [step, Bool.not_eq_true _ ▸ hcap, if_true]
  by_cases htid : s.known tid
  swap
  · refine ⟨s, links, (statusVm ERR_INVAL, 0), .const fun fuel => ?_, hquiet⟩
    simp only [step, hcap, Bool.true_eq_false, if_false, System.getTcb, if_neg htid]
  have htcb : s.getTcb tid = some tid := if_pos htid
  cases hz : s.zombie tid with
  | true =>
    refine ⟨s, links, (statusVm ERR_INVAL, 0), .const fun fuel => ?_, hquiet⟩
    simp only [step, hcap, Bool.true_eq_false, if_false, htcb, hz, if_true]
  | false =>
    obtain ⟨xs, hp⟩ : ∃ xs, Partition (s.regions c) xs := (h.good.healthy c hc).valid.region
    obtain ⟨found, hfound, hmem⟩ := findUsedRegion_spec hp addr
    cases found with
    | none =>
      refine ⟨s, links, returnVm (statusVm ERR_NF), .const fun fuel => ?_, hquiet⟩
      simp only [step, hcap, Bool.true_eq_false, if_false, htcb, hz, Bool.false_eq_true, refSharedUvmem, hfound,
        Option.bind_eq_bind, Option.bind_some]
    | some x =>
      by_cases hflag : ((s.regions c).region x).flags &&& MR_SHARED = 0
      · refine ⟨s, links, returnVm (statusVm ERR_INVAL), .const fun fuel => ?_, hquiet⟩
        simp only [step, hcap, Bool.true_eq_false, if_false, htcb, hz, Bool.false_eq_true, refSharedUvmem, hfound,
          if_pos hflag, Option.bind_eq_bind, Option.bind_some]
      · obtain ⟨⟨hx, hu⟩, hs⟩ := (hmem x).1 rfl
        have hused := used_of_mem hp hx hu
        rw [hs] at hused
        obtain hfull | ⟨first, hfirst, hsharing⟩ := hshare _ hused hflag htid hz
        · have hstop := (usedAt_range hp hused).2.2.2
          rw [show (s.regions c).stop = _ from (h.good.healthy c hc).valid.stop] at hstop
          exact ⟨s, links, _, refSharedmem_full hcap htid hz ⟨xs, hp⟩ hused hstop hflag hfull, hquiet⟩
        obtain ⟨s', r, hres, hknown, hfreed, hcase⟩ := refSharedmem_stepped h hcap hz hfirst hsharing
        obtain ⟨-, hs'⟩ | ⟨-, -, hs', -⟩ := hcase
        · exact ⟨s', _, r, hres, .quiet hs' hfreed (fun p hp => (hknown p).2 hp) (Finset.subset_insert ..)⟩
        · exact ⟨s', _, r, hres, .quiet hs' hfreed (fun p hp => (hknown p).2 hp) (Finset.Subset.refl links)⟩

end Refer

lemma call_stepped (ho : Orderly s call) :
    ∃ s' links' r, Results s call s' r ∧ Stepped call.frees s s' links links' := by
  cases call with
  | create tid shared m node kvmem low =>
    obtain ⟨hz, hk, hf, hu, ht, hkt⟩ := ho
    obtain ⟨r, hr⟩ := @initRegion_some node m 0 UVMEM_END 65536 hf hu ht
    obtain ⟨hp, hstart, hstop⟩ := initRegion_partition hf hu (by decide) hr
    have hn := initRegion_usedAt hu hr
    have hv : Valid ⟨r, ⟨createVmem kvmem, low⟩⟩ :=
      ⟨⟨_, hp⟩, hstart.trans (by rw [Regions.page, Nat.zero_div]), hstop.trans (by
        rw [Regions.page, Nat.zero_div, Nat.zero_add]), createVmem_wellFormed hkt⟩
    refine ⟨createProc s tid shared r ⟨createVmem kvmem, low⟩, links, (statusVm OK, tid), .const fun fuel => ?_,
      .quiet (h.create hk hz hv hn) rfl (fun p hp => ?_)
      (Finset.Subset.refl links)⟩
    · simp only [step, hr, Option.bind_eq_bind, Option.bind_some]
    · exact (createProc_known ..).2 (.inr hp)
  | reqMem c pre post size flags answers =>
    obtain ⟨first, hfound, ha⟩ := ho
    obtain ⟨m', g, halloc, hs, hg, hnew⟩ := @Valid.allocShared (s.tcb c).memory size (0 ||| uvflags flags) pre post
      (h.good.healthy c ha.known).valid ha.request 0 first hfound
    obtain ⟨u, v, freed, hmap, hsound, hfree⟩ := ha.sound h le_rfl hg hs hnew (.inl rfl)
    refine ⟨_, links, returnVm v, .const fun fuel => ?_, Stepped.allocated hsound hfree⟩
    have hproc : s.isProc c = true := decide_eq_true ha.alive
    have hmap' : mapUvmem maxOrder ⟨m', (s.tcb c).memory.vmem⟩ (first * basePageSize) (pagesOf size * basePageSize)
      (uvflags flags) answers = some (u, v, freed) := hmap
    simp only [step, hproc, Bool.true_eq_false, if_false, allocUvmem, allocRegion, halloc, hmap',
      Option.bind_eq_bind, Option.bind_some]
  | reqFixmem c pre post fixed size flags answers =>
    obtain ⟨hfree, ha⟩ := ho
    obtain ⟨m', g, halloc, hs, hg, hnew⟩ := @Valid.allocSharedFixed (s.tcb c).memory size (uvflags flags) pre post
      (h.good.healthy c ha.known).valid ha.request 0 fixed hfree
    have hg' := hg
    rw [← zero_or_uvflags] at hg'
    obtain ⟨u, v, freed, hmap, hsound, hfree⟩ := ha.sound h le_rfl hg' hs hnew (.inl rfl)
    refine ⟨_, links, returnVm v, .const fun fuel => ?_, Stepped.allocated hsound hfree⟩
    have hproc : s.isProc c = true := decide_eq_true ha.alive
    have hmap' : mapUvmem maxOrder ⟨m', (s.tcb c).memory.vmem⟩ (Regions.page fixed * basePageSize)
      (pagesOf size * basePageSize) (uvflags flags) answers = some (u, v, freed) := hmap
    simp only [step, hproc, Bool.true_eq_false, if_false, allocFixedUvmem, allocFixedRegion, halloc, hmap',
      Option.bind_eq_bind, Option.bind_some]
  | reqSharedmem c pre post size flags answers =>
    obtain ⟨first, hfound, ha⟩ := ho
    by_cases hcap : (s.tcb c).shared = true
    swap
    · refine ⟨s, links, (statusVm ERR_PERM, 0), .const fun fuel => ?_,
        .quiet h rfl (fun _ hp => hp) (Finset.Subset.refl links)⟩
      simp only [step, Bool.not_eq_true _ ▸ hcap, if_true]
    obtain ⟨m', g, halloc, hs, hg, hnew⟩ := @Valid.allocShared (s.tcb c).memory size (MR_SHARED ||| uvflags flags) pre
      post (h.good.healthy c ha.known).valid ha.request 0 first hfound
    obtain ⟨u, v, freed, hmap, hsound, hfree⟩ := ha.sound h (Nat.zero_le _) hg hs hnew (.inr ⟨rfl, rfl⟩)
    refine ⟨_, links, returnVm v, .const fun fuel => ?_, Stepped.allocated hsound hfree⟩
    have hproc : s.isProc c = true := decide_eq_true ha.alive
    have hmap' : mapUvmem 0 ⟨m', (s.tcb c).memory.vmem⟩ (first * basePageSize) (pagesOf size * basePageSize)
      (uvflags flags) answers = some (u, v, freed) := hmap
    simp only [step, hcap, hproc, Bool.true_eq_false, if_false, allocUvmem, allocRegion, halloc, hmap',
      Option.bind_eq_bind, Option.bind_some]
  | refSharedmem c pre post tid addr flags answers => exact refSharedmem_all h ho
  | freeMem c start => exact freeMem_stepped h ho.1 ho.2 start
  | reference p =>
    exact ⟨hold s p, links, (statusVm OK, 0), .const fun _ => rfl,
      .quiet (h.hold p) rfl (fun _ hp => hp) (Finset.Subset.refl links)⟩
  | unreference p =>
    obtain ⟨s', links', hres, hstep, -⟩ := unreference_stepped h ho.1 ho.2
    exact ⟨s', links', _, hres, hstep⟩
  | exit p =>
    by_cases hinit : p = 1
    · refine ⟨s, links, (statusVm ERR_INVAL, 0), .const fun fuel => ?_,
        .quiet h rfl (fun _ hp => hp) (Finset.Subset.refl links)⟩
      simp only [step, if_pos hinit]
    · obtain ⟨s', links', hres, hstep, -⟩ := exit_stepped h ho.1 ho.2 hinit
      exact ⟨s', links', _, hres, hstep⟩

end Step

/-! What holds in every state that is reached. -/

lemma Runs.closed {P : ℕ → Prop} (hs : Sound s links) (hP : Closed s links P)
    (hrun : Runs (fun c => ∀ p, c.frees p → ¬ P p) s s') : ∃ links', Sound s' links' ∧ Closed s' links' P := by
  induction hrun with
  | refl => exact ⟨links, hs, hP⟩
  | tail _ hstep ih =>
    obtain ⟨links₁, hs₁, hP₁⟩ := ih
    obtain ⟨call, r, hok, ho, hres⟩ := hstep
    obtain ⟨s₂, links₂, r₂, hres₂, hstepped⟩ := call_stepped hs₁ ho
    obtain ⟨rfl, -⟩ := Prod.mk.inj (hres₂.unique hres)
    exact ⟨links₂, hstepped.sound, hstepped.closed P hP₁ hok⟩

lemma sound_of_unknown (h : ∀ p, s.tcbs p = false) : Sound s ∅ := by
  have hk : ∀ p, ¬ s.known p := by
    rintro p ⟨-, hp⟩
    rw [h p] at hp
    cases hp
  refine ⟨⟨fun p hp => absurd hp (hk p), ⟨fun p hp => absurd hp (hk p), fun p hp => absurd hp (hk p), ?_, ?_,
    fun p _ _ hp => absurd hp (hk p), fun p _ _ hp => absurd hp (hk p), fun p hp => absurd hp (hk p),
    fun p hp => absurd hp (hk p), fun p _ hp => absurd hp (hk p)⟩⟩, ⟨?_, fun p _ _ _ _ hp => absurd hp (hk p)⟩, ?_⟩
  all_goals exact fun l hl => absurd hl (Finset.notMem_empty l)

lemma Reached.sound (h : Reached s) : ∃ links, Sound s links := by
  obtain ⟨s₀, hs₀, hrun⟩ := h
  have hrun' : Runs (fun c => ∀ p, c.frees p → ¬ False) s₀ s := by
    refine Relation.ReflTransGen.mono ?_ _ _ hrun
    rintro s s' ⟨c, r, -, h⟩
    exact ⟨c, r, fun _ _ => id, h⟩
  obtain ⟨links, hs, -⟩ := Runs.closed (sound_of_unknown hs₀) (fun p hp => hp.elim) hrun'
  exact ⟨links, hs⟩

lemma Reached.next (h : Reached s) (ho : Orderly s call) (hr : Results s call s' r) : Reached s' := by
  obtain ⟨s₀, hs₀, hrun⟩ := h
  exact ⟨s₀, hs₀, hrun.tail ⟨call, r, trivial, ho, hr⟩⟩

section Links

variable (h : Sound s links)

include h

lemma Sound.references_iff {e : ℕ × ℕ} : s.References e o home ↔
    ∃ l ∈ links, l.place = (o, home) ∧ (l.user, l.page) = e := by
  constructor
  · rintro ⟨hk, g, hg, hne, hpid, haddr⟩
    obtain ⟨l, hl, hu, hp⟩ := h.good.counted.complete e.1 e.2 g hk hg hne id
    obtain ⟨_, _, hlink⟩ := h.good.counted.linked l hl
    have hg' := hlink.reference
    rw [hu, hp] at hg'
    obtain rfl := Option.some.inj (hg'.symm.trans hg)
    have hhome := hlink.address.symm.trans haddr
    rw [basePageSize_eq] at hhome
    refine ⟨l, hl, Prod.ext (hlink.pid.symm.trans hpid) ?_, Prod.ext hu hp⟩
    change l.home = home
    omega
  · rintro ⟨l, hl, hplace, rfl⟩
    obtain ⟨rfl, rfl⟩ := Prod.mk.inj hplace
    obtain ⟨g, _, hlink⟩ := h.good.counted.linked l hl
    refine ⟨h.users l hl, g, hlink.reference, ?_, hlink.pid, hlink.address⟩
    rw [hlink.pid]
    exact h.good.counted.pos _ (h.good.counted.owners l hl)

lemma Sound.places_inj : Set.InjOn (fun l : Link => (l.user, l.page)) links := by
  intro l hl l' hl' heq
  obtain ⟨_, _, hlink⟩ := h.good.counted.linked l hl
  obtain ⟨_, _, hlink'⟩ := h.good.counted.linked l' hl'
  obtain ⟨hu, hp⟩ := Prod.mk.inj heq
  exact hlink.unique hlink' hu hp

lemma Sound.region_count (hp : s.known p) (hg : usedAt (s.regions p) page = some g) (hown : g.pid = 0) :
    g.refcount = 1 + Set.ncard {e | s.References e p page} := by
  rw [h.good.counted.counts p page g hp hg hown]
  congr 1
  exact degree_eq_ncard h.places_inj fun e => h.references_iff

lemma Sound.owner_iff {e : ℕ × ℕ} : (∃ home, s.References e o home) ↔
    ∃ l ∈ links, l.owner = o ∧ (l.user, l.page) = e := by
  constructor
  · rintro ⟨home, hr⟩
    obtain ⟨l, hl, hplace, he⟩ := h.references_iff.1 hr
    exact ⟨l, hl, (Prod.mk.inj hplace).1, he⟩
  · rintro ⟨l, hl, rfl, he⟩
    exact ⟨l.home, h.references_iff.2 ⟨l, hl, rfl, he⟩⟩

lemma Sound.closed_iff {P : ℕ → Prop} : Closed s links P ↔
    ∀ p, P p → s.known p ∧ ∃ e home, P e.1 ∧ s.References e p home := by
  refine forall₂_congr fun p _ => and_congr_right fun _ => ⟨?_, ?_⟩
  · rintro ⟨l, hl, rfl, hu⟩
    exact ⟨(l.user, l.page), l.home, hu, h.references_iff.2 ⟨l, hl, rfl, rfl⟩⟩
  · rintro ⟨e, home, he, hr⟩
    obtain ⟨l, hl, hplace, rfl⟩ := h.references_iff.1 hr
    exact ⟨l, hl, (Prod.mk.inj hplace).1, he⟩

end Links

end Kmi.Shared
