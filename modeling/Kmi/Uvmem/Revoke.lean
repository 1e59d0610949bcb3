import Kmi.Uvmem.Runs

/-! What freeing a region leaves of it in the page tables of the process and its threads. -/

namespace Kmi.Uvmem

open Kmi.Mem Kmi.Vmem Kmi.Regions

variable {p p' : Process} {g : Region} {va r : ℕ} {owner : Bool} {unref : Space → Space}

def InRegion (g : Region) (y : ℕ) : Prop :=
  g.start * basePageSize ≤ y ∧ y < g.stop * basePageSize

structure Revoked (p : Process) (g : Region) : Prop where
  proc : ∀ y, InRegion g y → statVpage p.memory.vmem y = none
  rpc : ∀ tid rpc, p.threads tid = some rpc → ∀ y, InRegion g y →
    statVpage ⟨rpc, p.memory.vmem.low⟩ y = none

/-- The region is private, backed by memory and mapped by whole pages, and what the threads
have of it they have through tables of the process. -/
structure Revocable (p : Process) (g : Region) : Prop where
  pid : g.pid = 0
  backed : g.flags &&& MR_NONBACKED = 0
  tiled : Tiled p.memory.vmem (g.start * basePageSize) (g.stop * basePageSize)
  threads : ∀ tid rpc, p.threads tid = some rpc → ∀ y, InRegion g y →
    unused (rpc (vmToIndex y maxOrder)) = true ∨
      rpc (vmToIndex y maxOrder) = p.memory.vmem.root (vmToIndex y maxOrder) ∧
        isLeaf (p.memory.vmem.root (vmToIndex y maxOrder)) = false

def FreesRevocable (p : Process) (e : Event) : Prop :=
  Orderly p e ∧ ∀ va owner unref, e = .free va owner unref →
    ∀ g, usedAt p.memory.region (page va) = some g → Revocable p g

lemma freeMapping_private {m : Space} (hw : WellFormed m) (hpid : g.pid = 0)
    (hback : g.flags &&& MR_NONBACKED = 0) (hlt : g.start ≤ g.stop) (hstop : g.stop ≤ page UVMEM_END)
    (ht : Tiled m (g.start * basePageSize) (g.stop * basePageSize)) :
    ∃ m', freeMapping m g owner unref = some m' ∧
      Unmaps m m' (g.start * basePageSize) (g.stop * basePageSize) := by
  have hend := page_uvmemEnd
  have hb := basePageSize_eq
  obtain ⟨s, hs⟩ : ∃ s, g.start * basePageSize = s := ⟨_, rfl⟩
  obtain ⟨e, he⟩ : ∃ e, g.stop * basePageSize = e := ⟨_, rfl⟩
  rw [hs, he] at ht ⊢
  rw [hb] at hs he
  have h₁ : s % 2 ^ 64 = s := Nat.mod_eq_of_lt (by omega)
  have h₂ : e % 2 ^ 64 = e := Nat.mod_eq_of_lt (by omega)
  have h₃ : sub64 e s = e - s := by
    rw [sub64]
    omega
  obtain ⟨m', freed, hunmap, hu⟩ := @unmapRegion_spec m s (e - s) e ht hw (by omega) (by omega) (by omega)
    (by omega) (.inl (by omega))
  refine ⟨m', ?_, hu⟩
  rw [← hb] at hs he
  simp only [freeMapping, hpid, hback, hs, he, h₁, h₂, h₃, ne_eq, not_true_eq_false, false_and,
    if_false, hunmap, Option.map_some]

lemma Revocable.revoked {m : RegionMap} {space : Space} (hr : Revocable p g)
    (hu : Unmaps p.memory.vmem space (g.start * basePageSize) (g.stop * basePageSize))
    (hstop : g.stop ≤ page UVMEM_END) : Revoked { p with memory := ⟨m, space⟩ } g := by
  have hend : page UVMEM_END * basePageSize = UVMEM_END := page_uvmemEnd_mul
  have hlt : ∀ y, InRegion g y → y < UVMEM_END := by
    intro y hy
    have := Nat.mul_le_mul_right basePageSize hstop
    have := hy.2
    omega
  have hproc : ∀ y, InRegion g y → statVpage space y = none := by
    intro y hy
    have := hlt y hy
    rw [UVMEM_END] at this
    rw [hu.stat y (by omega)]
    exact if_pos hy
  refine ⟨hproc, fun tid rpc ht y hy => ?_⟩
  cases hused : unused (rpc (vmToIndex y maxOrder)) with
  | true =>
    rw [← Option.not_isSome_iff_eq_none, Option.isSome_iff_exists]
    rintro ⟨x, hx⟩
    have := statVpage_used hx
    rw [hused] at this
    cases this
  | false =>
    obtain hfree | ⟨heq, hleaf⟩ := hr.threads tid rpc ht y hy
    · rw [hused] at hfree
      cases hfree
    · rw [heq] at hused
      have hroot := hu.branches _ hused hleaf
      rw [← hproc y hy]
      exact statVpage_congr (heq.trans hroot.symm)

theorem run_free_revokes (h : RunsWith FreesRevocable p)
    (hc : FreesRevocable p (.free va owner unref)) :
    (∃ p' r, step p (.free va owner unref) = some (p', r)) ∧
      ∀ p', step p (.free va owner unref) = some (p', statusVm OK) →
        ∃ g, usedAt p.memory.region (page va) = some g ∧ Revoked p' g := by
  have hu := h.valid fun _ _ hc => hc.1
  obtain ⟨xs, hp⟩ := hu.region
  obtain ⟨found, hfound, hmem⟩ := findUsedRegion_spec hp va
  cases found with
  | none =>
    have hfree : freeUvmem p.memory va owner unref = some (p.memory, ERR_NF) := by
      simp only [freeUvmem, hfound, Option.bind_eq_bind, Option.bind_some]
    simp only [step, hfree, Option.bind_eq_bind, Option.bind_some]
    have hne : statusVm ERR_NF ≠ statusVm OK := by decide
    exact ⟨⟨_, _, rfl⟩, fun p' hs => absurd (congrArg Prod.snd (Option.some.inj hs)) hne⟩
  | some x =>
    obtain ⟨⟨hx, hxu⟩, hxs⟩ := (hmem x).1 rfl
    have hused : usedAt p.memory.region (page va) = some (p.memory.region.region x) :=
      (usedAt_eq_some hp).2 ⟨x, hx, rfl, hxu, hxs⟩
    have hr := hc.2 va owner unref rfl _ hused
    obtain ⟨hms, hlt, hme⟩ := hp.covers.mem hx
    obtain ⟨m', hfree, hd⟩ := freeKnownRegion_freed hp hx hxu
    obtain ⟨space, hmap, hum⟩ := @freeMapping_private (p.memory.region.region x) owner unref p.memory.vmem
      hu.tables hr.pid hr.backed hlt.le (hu.stop ▸ hme) hr.tiled
    by_cases hcount : (p.memory.region.region x).pid = 0 ∧ (p.memory.region.region x).refcount > 1
    · have heq : freeUvmem p.memory va owner unref = some (p.memory, ERR_INVAL) := by
        simp only [freeUvmem, hfound, if_pos hcount, Option.bind_eq_bind, Option.bind_some]
      simp only [step, heq, Option.bind_eq_bind, Option.bind_some]
      have hne : statusVm ERR_INVAL ≠ statusVm OK := by decide
      exact ⟨⟨_, _, rfl⟩, fun p' hs => absurd (congrArg Prod.snd (Option.some.inj hs)) hne⟩
    · have heq : freeUvmem p.memory va owner unref = some (⟨m', space⟩, OK) := by
        simp only [freeUvmem, hfound, if_neg hcount, hmap, hfree, Option.bind_eq_bind, Option.bind_some]
      simp only [step, heq, Option.bind_eq_bind, Option.bind_some]
      refine ⟨⟨_, _, rfl⟩, fun p' hs => ⟨_, hused, ?_⟩⟩
      cases hs
      exact hr.revoked hum (hu.stop ▸ hme)

def twoSizes : List Answer :=
  [⟨0xffffffc080200000, [0xffffffc080001000]⟩, ⟨0xffffffc080002000, [0xffffffc080003000]⟩]

def mapTwoSizes : Event := .allocFixed (some 2) (some 3) (2 ^ 30) (2 ^ 21 + 4096) 0x17 twoSizes

def twoPageProcess : Process := ((step freshProcess mapTwoSizes).map Prod.fst).getD freshProcess

lemma twoPageProcess_threads (tid : ℕ) : twoPageProcess.threads tid = none := by
  rw [twoPageProcess, mapTwoSizes, step]
  cases allocFixedUvmem freshProcess.memory (some 2) (some 3) (2 ^ 30) (2 ^ 21 + 4096) 0x17 twoSizes <;> rfl

def guestRpc : Table := cloneUvmem twoPageProcess.memory.vmem.root (createVmem 0)

def visited : Process :=
  { twoPageProcess with threads := Function.update twoPageProcess.threads 7 (some guestRpc) }

lemma visited_thread {tid : ℕ} {rpc : Table} (h : visited.threads tid = some rpc) : rpc = guestRpc := by
  change Function.update twoPageProcess.threads 7 (some guestRpc) tid = some rpc at h
  by_cases htid : tid = 7
  · rw [htid, Function.update_self] at h
    exact (Option.some.inj h).symm
  · rw [Function.update_of_ne htid, twoPageProcess_threads] at h
    cases h

lemma visited_runs : RunsWith FreesRevocable visited := by
  have h : (step freshProcess mapTwoSizes).isSome = true := by decide +kernel
  obtain ⟨⟨p', r⟩, h⟩ := Option.isSome_iff_exists.1 h
  have hs : step freshProcess mapTwoSizes = some (twoPageProcess, r) := by
    rw [twoPageProcess, h]
    rfl
  have hfresh : FreshAnswers freshProcess.memory.vmem twoSizes :=
    ⟨by decide, createVmem_fresh (fun _ => rfl) (by decide) (by decide) (by decide)⟩
  have horderly : Orderly freshProcess mapTwoSizes := freshProcess_orderly (by decide) (by decide) (by decide)
  have hrun := RunsWith.step mapTwoSizes (freshProcess_runs FreesRevocable) hfresh
    ⟨horderly, fun _ _ _ h => by cases h⟩ hs
  exact RunsWith.step (.enter 7 (createVmem 0)) hrun trivial ⟨trivial, fun _ _ _ h => by cases h⟩ rfl

lemma visited_revocable {g : Region} (hg : usedAt visited.memory.region (page (2 ^ 30)) = some g) :
    Revocable visited g := by
  have hregion : (usedAt visited.memory.region (page (2 ^ 30))).map (fun g => (g.start, g.stop, g.pid, g.flags)) =
      some (2 ^ 18, 2 ^ 18 + 513, 0, 0x117) := by
    decide +kernel
  rw [hg, Option.map_some, Option.some.injEq] at hregion
  simp only [Prod.mk.injEq] at hregion
  obtain ⟨hstart, hstop, hpid, hflags⟩ := hregion
  have hlarge : statVpage visited.memory.vmem (2 ^ 30) = some ⟨0xffffffc080200000, 1, 0xd7⟩ := by
    decide +kernel
  have hbase : statVpage visited.memory.vmem (2 ^ 30 + 2 ^ 21) = some ⟨0xffffffc080002000, 0, 0xd7⟩ := by
    decide +kernel
  refine ⟨hpid, by rw [hflags]; decide, ?_, fun tid rpc ht y hy => ?_⟩
  · rw [hstart, hstop]
    exact .cons hlarge (by decide) (.cons hbase (by decide) (.nil _))
  · have hidx : vmToIndex y maxOrder = 1 := by
      have hb : basePageSize = 4096 := by decide
      have hlo := hy.1
      have hhi := hy.2
      rw [hstart, hb] at hlo
      rw [hstop, hb] at hhi
      rw [vmToIndex, Nat.shiftRight_eq_div_pow, show 2 ^ orderShift maxOrder = 2 ^ 30 by decide]
      omega
    have hsame : guestRpc 1 = visited.memory.vmem.root 1 := by decide +kernel
    have hinner : isLeaf (visited.memory.vmem.root 1) = false := by decide +kernel
    rw [hidx, visited_thread ht]
    exact .inr ⟨hsame, hinner⟩

theorem run_free_revokes_visited :
    visited.threads 7 = some guestRpc ∧ (statVpage ⟨guestRpc, visited.memory.vmem.low⟩ (2 ^ 30)).isSome = true ∧
      ∃ p', step visited (.free (2 ^ 30) false id) = some (p', statusVm OK) ∧
        ∃ g, usedAt visited.memory.region (page (2 ^ 30)) = some g ∧ Revoked p' g := by
  have hc : FreesRevocable visited (.free (2 ^ 30) false id) := by
    refine ⟨trivial, fun va owner unref h g hg => ?_⟩
    cases h
    exact visited_revocable hg
  obtain ⟨⟨p', r', hfree⟩, hrev⟩ := run_free_revokes visited_runs hc
  have hr : (step visited (.free (2 ^ 30) false id)).map Prod.snd = some 0 := by
    decide +kernel
  rw [hfree] at hr
  obtain rfl := Option.some.inj hr
  have hguest : Function.update twoPageProcess.threads 7 (some guestRpc) 7 = some guestRpc := Function.update_self ..
  exact ⟨hguest, by decide +kernel, p', hfree, hrev p' hfree⟩

def gigabyteProcess : Process := ((step freshProcess secondGigabyte).map Prod.fst).getD freshProcess

def visitorRpc : Table := cloneUvmem gigabyteProcess.memory.vmem.root (createVmem 0)

lemma gigabyteProcess_step : ∃ r, step freshProcess secondGigabyte = some (gigabyteProcess, r) := by
  have h : (step freshProcess secondGigabyte).isSome = true := by decide +kernel
  obtain ⟨⟨p', r⟩, h⟩ := Option.isSome_iff_exists.1 h
  exact ⟨r, by rw [gigabyteProcess, h]; rfl⟩

lemma gigabyteProcess_used {g : Region}
    (h : usedAt gigabyteProcess.memory.region (page (2 ^ 30)) = some g) :
    g.start = 2 ^ 18 ∧ g.stop = 2 ^ 19 ∧ g.pid = 0 ∧ g.flags = 0x117 := by
  have hg : (usedAt gigabyteProcess.memory.region (page (2 ^ 30))).map
      (fun g => (g.start, g.stop, g.pid, g.flags)) = some (2 ^ 18, 2 ^ 19, 0, 0x117) := by
    decide +kernel
  rw [h] at hg
  simpa using hg

lemma statVpage_topLeaf {root : Table} {low : ℕ → Table} {v : ℕ}
    (h : isLeaf (root (vmToIndex v maxOrder)) = true) : ∃ x, statVpage ⟨root, low⟩ v = some x := by
  have hstops : stops (root (vmToIndex v maxOrder)) = true := by rw [stops, h, Bool.or_true]
  have hstat : statVpage ⟨root, low⟩ v = entryStat (root (vmToIndex v maxOrder)) maxOrder := by
    rw [statVpage_eq]
    exact statFrom_stops hstops
  rw [hstat, entryStat, isLeaf_used h]
  exact ⟨_, rfl⟩

theorem large_page_survives_free :
    ∃ p p', RunsWith (fun _ _ => True) p ∧ step p (.free (2 ^ 30) false id) = some (p', statusVm OK) ∧
      ∀ g, usedAt p.memory.region (page (2 ^ 30)) = some g → ¬ Revoked p' g := by
  obtain ⟨r, hs⟩ := gigabyteProcess_step
  have hrun := RunsWith.step (.enter 7 (createVmem 0)) (RunsWith.step secondGigabyte
    (freshProcess_runs fun _ _ => True) (gigabyte_fresh _) trivial hs) trivial trivial rfl
  have hfree : (freeUvmem gigabyteProcess.memory (2 ^ 30) false id).map Prod.snd = some OK := by
    decide +kernel
  rw [Option.map_eq_some_iff] at hfree
  obtain ⟨⟨u, status⟩, hfree, rfl⟩ := hfree
  refine ⟨_, ⟨u, Function.update gigabyteProcess.threads 7 (some visitorRpc)⟩, hrun, ?_, fun g hg hr => ?_⟩
  · simp only [step, hfree, Option.bind_eq_bind, Option.bind_some]
    rfl
  · obtain ⟨hstart, hstop, -⟩ := gigabyteProcess_used hg
    have hrpc : Function.update gigabyteProcess.threads 7 (some visitorRpc) 7 = some visitorRpc :=
      Function.update_self ..
    have hnone := hr.rpc 7 visitorRpc hrpc (2 ^ 30)
      ⟨by rw [hstart]; decide, by rw [hstop]; decide⟩
    have hleaf : isLeaf (visitorRpc (vmToIndex (2 ^ 30) maxOrder)) = true := by decide +kernel
    obtain ⟨x, hx⟩ := @statVpage_topLeaf _ u.vmem.low _ hleaf
    exact absurd (hnone.symm.trans hx) (by simp)

end Kmi.Uvmem
