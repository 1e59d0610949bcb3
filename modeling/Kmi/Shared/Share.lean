import Kmi.Shared.Cascade
import Kmi.Shared.Take

/-! A reference to a region of another process, or of the process itself. -/

namespace Kmi.Shared

open Kmi.Mem Kmi.Vmem Kmi.Regions Kmi.Uvmem

variable {s : System} {links : Finset Link} {d o p t x n home first flags size : ℕ} {m m' r r' : RegionMap}
  {g g' : Region} {space space' : Space} {u u' : UserVmem} {pre post : Option ℕ} {answers : List Pages} {xs : List ℕ}

lemma system_ext {s s' : System} (ht : s.tcbs = s'.tcbs) (hc : ∀ p, s.tcb p = s'.tcb p) (hh : s.holds = s'.holds)
    (hf : s.freed = s'.freed) : s = s' := by
  cases s
  cases s'
  obtain rfl := funext hc
  cases ht
  cases hh
  cases hf
  rfl

lemma setRegions_eq (s : System) (t : ℕ) (r : RegionMap) : s.setRegions t r = s.setMemory t ⟨r, s.vmem t⟩ := rfl

lemma setMemory_setVmem (s : System) (t : ℕ) (u : UserVmem) (m : Space) :
    (s.setMemory t u).setVmem t m = s.setMemory t ⟨u.region, m⟩ := by
  refine system_ext rfl (fun p => ?_) rfl rfl
  rw [System.setVmem, setTcb_tcb, setMemory_tcb, setMemory_tcb, setMemory_tcb, if_pos rfl]
  split_ifs <;> rfl

lemma setMemory_setRegions (s : System) (t : ℕ) (u : UserVmem) (r : RegionMap) :
    (s.setMemory t u).setRegions t r = s.setMemory t ⟨r, u.vmem⟩ := by
  refine system_ext rfl (fun p => ?_) rfl rfl
  rw [System.setRegions, setTcb_tcb, setMemory_tcb, setMemory_tcb, setMemory_tcb, if_pos rfl]
  split_ifs <;> rfl

lemma setMemory_regions (s : System) (t : ℕ) (u : UserVmem) (p : ℕ) :
    (s.setMemory t u).regions p = if p = t then u.region else s.regions p := by
  rw [System.regions, setMemory_memory]
  split_ifs <;> rfl

lemma setMemory_vmem (s : System) (t : ℕ) (u : UserVmem) (p : ℕ) :
    (s.setMemory t u).vmem p = if p = t then u.vmem else s.vmem p := by
  rw [System.vmem, setMemory_memory]
  split_ifs <;> rfl

lemma Healthy.base (h : Healthy u) {page : ℕ} (hg : usedAt u.region page = some g) (hpid : g.pid = 0)
    (hs : g.flags &&& MR_SHARED ≠ 0) : BaseMapped u.vmem (g.start * basePageSize) (g.stop * basePageSize) := by
  intro y hy hy'
  obtain ⟨x, hx⟩ := (h.backed page g hg hpid).2.translated hy hy'
  exact ⟨x, hx, h.small page g hg hpid hs y hy hy' x hx⟩

lemma Healthy.clone (h : Healthy u) (hn : NewUsed u.region r g) (hpid : g.pid ≠ 0)
    (hback : g.flags &&& MR_NONBACKED ≠ 0) (hw : WellFormed space')
    (hstat : ∀ y < 2 ^ 39, ¬ InRegion g y → statVpage space' y = statVpage u.vmem y) : Healthy ⟨r, space'⟩ := by
  obtain ⟨xs, hp⟩ := hn.whole
  have hend := page_uvmemEnd
  have hb := basePageSize_eq
  have hv : Valid ⟨r, space'⟩ := ⟨⟨xs, hp⟩, hn.start.trans h.valid.start, hn.stop.trans h.valid.stop, hw⟩
  have hcases : ∀ page g', usedAt r page = some g' → g' = g ∨ usedAt u.region page = some g' ∧
      ∀ y, g'.start * basePageSize ≤ y → y < g'.stop * basePageSize → statVpage space' y = statVpage u.vmem y := by
    intro page g' hg'
    by_cases hpage : page = g.start
    · rw [hn.used, if_pos hpage] at hg'
      exact .inl (Option.some.inj hg').symm
    · right
      have hapart := usedAt_apart hp hg' hn.self hpage
      have hstop := (usedAt_range hp hg').2.2.2
      have hve : r.stop = _ := hv.stop
      rw [hn.used, if_neg hpage] at hg'
      refine ⟨hg', fun y hy hy' => hstat y (by rw [hb] at hy'; omega) ?_⟩
      rw [InRegion, hb]
      rw [hb] at hy hy'
      omega
  refine ⟨hv, fun page g' hg' hpid' => ?_, fun page g' hg' hpid' hs' => ?_, fun page g' hg' hpid' => ?_⟩
  · obtain rfl | ⟨hold, hsame⟩ := hcases page g' hg'
    · exact absurd hpid' hpid
    · obtain ⟨hb', ht⟩ := h.backed page g' hold hpid'
      exact ⟨hb', ht.congr hsame⟩
  · obtain rfl | ⟨hold, hsame⟩ := hcases page g' hg'
    · exact absurd hpid' hpid
    · intro y hy hy' x hx
      rw [hsame y hy hy'] at hx
      exact h.small page g' hold hpid' hs' y hy hy' x hx
  · obtain rfl | ⟨hold, -⟩ := hcases page g' hg'
    · exact hback
    · exact h.foreign page g' hold hpid'

lemma view_setMemory_new {page : ℕ} {g : Option Region}
    (hu : ∀ p, usedAt u.region p = if p = page then g else usedAt (s.regions t) p) :
    (s.setMemory t u).view = (s.view.setUsed t page g).setByte t (byteAt u.vmem) := by
  have hused : (fun p => if p = t then usedAt u.region else s.view.used p) =
      fun p' page' => if p' = t ∧ page' = page then g else s.view.used p' page' := by
    funext p page
    by_cases hp : p = t
    · subst hp
      simp only [if_true, hu, true_and]
      rfl
    · simp only [hp, false_and, if_false]
  rw [view_setMemory, hused]
  rfl

lemma setUsed_setUsed (v : View) (p page : ℕ) (a b : Option Region) :
    (v.setUsed p page a).setUsed p page b = v.setUsed p page b := by
  have hused : (fun p' page' => if p' = p ∧ page' = page then b else
      if p' = p ∧ page' = page then a else v.used p' page') =
      fun p' page' => if p' = p ∧ page' = page then b else v.used p' page' := by
    funext p' page'
    split_ifs <;> rfl
  rw [View.setUsed, View.setUsed, View.setUsed, hused]

lemma referenceMem_link (hd : Healthy (s.tcb d).memory) (ho : Healthy (s.tcb o).memory)
    (hg : s.view.used d first = some g) (hg' : s.view.used o home = some g') (hpid : g.pid = (s.tcb o).rid)
    (hne : ¬ (d = o ∧ first = home)) :
    ∃ s', referenceMem s d o (first * basePageSize) (home * basePageSize) = some s' ∧
      s'.view = ((s.view.setUsed d first (some { g with refcount := home * basePageSize })).setUsed o home
        (some { g' with refcount := g'.refcount + 1 })).setRefcount o ((s.tcb o).refcount + 1) ∧
      (∀ p, s.known p → Healthy (s.tcb p).memory → Healthy (s'.tcb p).memory) ∧
      (∀ p, s'.known p ↔ s.known p) ∧ s'.freed = s.freed ∧
      ∀ p, (s'.tcb p).rid = (s.tcb p).rid ∧ (s'.tcb p).shared = (s.tcb p).shared := by
  obtain ⟨xs, hpd⟩ := hd.valid.region
  obtain ⟨ys, hpo⟩ := ho.valid.region
  obtain ⟨dst, hdst, hfindd, hregd, hud, hsd⟩ := findRegion_eq hpd hg
  obtain ⟨src, hsrc, hfindo, hrego, huo, hso⟩ := findRegion_eq hpo hg'
  have hpid' : ((s.regions d).region dst).pid = (s.tcb o).rid := by rw [hregd, hpid]
  have hview₁ := setCount_view hpd hdst hud (home * basePageSize)
  rw [hregd, hsd] at hview₁
  -- the region of the owner is another one, also where both are in one map
  have hregions : ∀ p, (s.setCount d dst (home * basePageSize)).regions p = if p = d
      then (s.regions d).setRegion dst { (s.regions d).region dst with refcount := home * basePageSize }
      else s.regions p := fun p => setRegions_regions ..
  have hpo₁ : Partition ((s.setCount d dst (home * basePageSize)).regions o) ys := by
    rw [hregions]
    split_ifs with hod
    · subst hod
      exact Partition.setRegion hpo rfl rfl rfl
    · exact hpo
  have hrego₁ : ((s.setCount d dst (home * basePageSize)).regions o).region src = g' := by
    rw [hregions]
    split_ifs with hod
    · subst hod
      rw [setRegion_region, if_neg, hrego]
      rintro rfl
      apply hne
      rw [hregd] at hrego
      rw [← hsd, ← hso, hrego]
      exact ⟨rfl, rfl⟩
    · exact hrego
  have huo₁ : (((s.setCount d dst (home * basePageSize)).regions o).region src).used = true := by
    rw [hrego₁, ← hrego]
    exact huo
  have hview₂ := setCount_view hpo₁ hsrc huo₁ (g'.refcount + 1)
  rw [hrego₁, hso, hview₁] at hview₂
  obtain ⟨s₁, hs₁⟩ : ∃ s₁, s.setCount d dst (home * basePageSize) = s₁ := ⟨_, rfl⟩
  rw [hs₁] at hview₁ hview₂ hrego₁
  have hrefcount : ((s₁.setCount o src (g'.refcount + 1)).tcb o).refcount = (s.tcb o).refcount := by
    rw [← hs₁]
    exact (setRegions_rid ..).2.1.trans (setRegions_rid ..).2.1
  have hhealthy : ∀ (s : System) t x n p, Healthy (s.tcb p).memory → Healthy ((s.setCount t x n).tcb p).memory := by
    intro s t x n p hp
    rw [System.setCount, setRegions_eq, setMemory_memory]
    split_ifs with hpt
    · subst hpt
      exact Healthy.setCount hp x n
    · exact hp
  refine ⟨referenceThread (s₁.setCount o src (g'.refcount + 1)) o, ?_, ?_, ?_, ?_, ?_, ?_⟩
  · simp only [referenceMem, hfindo, hfindd, Option.bind_eq_bind, Option.bind_some, hpid', ne_eq,
      not_true_eq_false, if_false, hs₁, hrego₁]
  · rw [referenceThread, view_setRefcount, hview₂, hrefcount]
  · intro p _ hp
    rw [referenceThread, setRefcount_memory, ← hs₁]
    apply hhealthy
    apply hhealthy
    exact hp
  · intro p
    rw [← hs₁]
    rfl
  · rw [← hs₁]
    rfl
  · intro p
    have htcb : ∀ (s : System) (n : ℤ), ((s.setRefcount o n).tcb p).rid = (s.tcb p).rid ∧
        ((s.setRefcount o n).tcb p).shared = (s.tcb p).shared := by
      intro s n
      rw [setRefcount_tcb]
      split_ifs with hpo
      · rw [hpo]
        exact ⟨rfl, rfl⟩
      · exact ⟨rfl, rfl⟩
    obtain ⟨h₁, h₁'⟩ := htcb (s₁.setCount o src (g'.refcount + 1))
      (((s₁.setCount o src (g'.refcount + 1)).tcb o).refcount + 1)
    obtain ⟨h₂, h₂'⟩ := setCount_tcb s₁ o src (g'.refcount + 1) p
    obtain ⟨h₃, h₃'⟩ := setCount_tcb s d dst (home * basePageSize) p
    rw [hs₁] at h₃ h₃'
    exact ⟨h₁.trans (h₂.trans h₃), h₁'.trans (h₂'.trans h₃')⟩

lemma nonbacked_or (f : Flags) : (MR_NONBACKED ||| f) ||| MR_USED = MR_NONBACKED ||| (f ||| MR_USED) :=
  BitVec.or_assoc ..

lemma or_and_self (a f : Flags) : (a ||| f) &&& a = a := by
  ext i hi
  simp only [BitVec.getElem_and, BitVec.getElem_or]
  cases a[i] <;> simp

lemma Tidy.congr {v v' : View} (h : Tidy v p) (hu : ∀ page g, v'.used p page = some g →
    ∃ g', v.used p page = some g' ∧ g'.start = g.start ∧ g'.stop = g.stop) : Tidy v' p := by
  refine ⟨fun page g hg => ?_, fun page page' g g' hg hg' hne => ?_⟩
  · obtain ⟨k, hk, hs, he⟩ := hu page g hg
    rw [← hs, ← he]
    exact h.places page k hk
  · obtain ⟨k, hk, hs, he⟩ := hu page g hg
    obtain ⟨k', hk', hs', he'⟩ := hu page' g' hg'
    rw [← hs, ← he, ← hs', ← he']
    exact h.apart page page' k k' hk hk' hne

lemma unmapFixedRegion_prefix {a n c : ℕ} (hm : BaseMapped space a c) (hw : WellFormed space) (ha : a % 4096 = 0)
    (hc : c % 4096 = 0) (hn : n % 4096 = 0) (hle : a ≤ c) (hce : c ≤ a + n) (he : a + n ≤ 2 ^ 39)
    (hnone : c < a + n → statVpage space c = none) :
    ∃ space', unmapFixedRegion space a n = some space' ∧ Unmaps space space' a c := by
  obtain ⟨ps, hps⟩ := (tiled_of_base hm ha hc hle).tiles
  have hlen := hps.length_le
  have hend : c = a + n ∨ statVpage space c = none := by
    obtain rfl | hlt := eq_or_lt_of_le hce
    · exact .inl rfl
    · exact .inr (hnone hlt)
  obtain ⟨space', hunmap, hum⟩ := @unmapPages_tiles space a c n (512 ^ 3 + 1) ps hps hw he hce hend (by omega)
  refine ⟨space', ?_, hum⟩
  rw [unmapFixedRegion, unmapRegion_eq (by omega) ha hn (by omega), hunmap]
  rfl

structure Sharing (s : System) (d o home first : ℕ) (g' : Region) (pre post : Option ℕ) (flags : ℕ)
    (answers : List Pages) : Prop where
  user : s.known d
  owner : s.known o
  alive : (s.tcb o).rid = o
  region : s.view.used o home = some g'
  own : g'.pid = 0
  shared : g'.flags &&& MR_SHARED ≠ 0
  slots : ∃ a b, pre = some a ∧ post = some b ∧ (s.regions d).taken a = false ∧ (s.regions d).taken b = false ∧ b ≠ a
  found : FoundAt (s.regions d) (g'.size * basePageSize) first
  untranslated : Untranslated (s.vmem d) first g'.size
  flags : PageFlags flags
  pages : FreshPages (s.vmem d) answers.flatten

section Reference

variable (h : Sound s links) (hr : Sharing s d o home first g' pre post flags answers)

include h hr

lemma Sharing.clone (hfirst : first ≠ 0) {x : ℕ} (hx : (s.regions o).region x = g') :
    ∃ m m' g ret c, NewUsed (s.regions d) m g ∧ g.start = first ∧ g.size = g'.size ∧ g.pid = o ∧
      g.flags = (MR_NONBACKED ||| g'.flags) ||| MR_USED ∧
      Clones flags (s.vmem o) (s.vmem d) m' (home * basePageSize) (first * basePageSize) c ∧
      first * basePageSize ≤ c ∧ c ≤ g.stop * basePageSize ∧ c % 4096 = 0 ∧
      BaseMapped (s.vmem o) (home * basePageSize) (g'.stop * basePageSize) ∧
      (ret = OK ∧ c = g.stop * basePageSize ∨ ret ≠ OK ∧ errCode (statusVm ret) = true) ∧
      cloneSharedRegion s d o x pre post flags answers =
        if ret = OK then (referenceMem (s.setMemory d ⟨m, m'⟩) d o (first * basePageSize)
          (home * basePageSize)).map fun s => (s, first * basePageSize)
        else (freeRegion m (first * basePageSize)).bind fun r =>
          (unmapFixedRegion m' (first * basePageSize) (g'.size * basePageSize)).map fun u =>
            (s.setMemory d ⟨r.1, u⟩, statusVm ret) := by
  have hd := h.good.healthy d hr.user
  have ho := h.good.healthy o hr.owner
  have hend := page_uvmemEnd
  have hb := basePageSize_eq
  obtain ⟨xs, hp⟩ : ∃ xs, Partition (s.regions o) xs := ho.valid.region
  obtain ⟨hstart, -, hlt, hstop⟩ := usedAt_range hp hr.region
  rw [show (s.regions o).stop = _ from ho.valid.stop] at hstop
  have hsize : g'.size = g'.stop - g'.start := rfl
  have hrequest : Request (s.regions d) pre post (g'.size * basePageSize) :=
    ⟨by rw [hb]; omega, by rw [hb]; omega, hr.slots⟩
  obtain ⟨m, g, halloc, hgs, hgiven, hnew⟩ := @Valid.allocShared (s.tcb d).memory (g'.size * basePageSize)
    (MR_NONBACKED ||| g'.flags) pre post hd.valid hrequest o first hr.found
  obtain ⟨-, hgsize, -⟩ := given_size hrequest hgiven
  have hpages : pagesOf (g'.size * basePageSize) = g'.size := by
    rw [pagesOf_eq hrequest.wraps, hb]
    omega
  rw [hpages] at hgsize halloc
  have hgsize' : g.size = g.stop - g.start := rfl
  have hbounds := hnew.bounds.2
  rw [show (s.tcb d).memory.region.stop = _ from hd.valid.stop] at hbounds
  have hbase := ho.base hr.region hr.own hr.shared
  rw [hstart] at hbase
  have hlen : home * basePageSize + g'.size * basePageSize = g'.stop * basePageSize := by
    rw [hb]
    omega
  have hlen' : first * basePageSize + g'.size * basePageSize = g.stop * basePageSize := by
    rw [hb]
    omega
  obtain ⟨m', ret, c, hclone, hclones, hle, hce, hcal, hret⟩ := @cloneRegion_spec s.vmem d o flags
    (home * basePageSize) (first * basePageSize) (g'.size * basePageSize) answers hr.flags hd.valid.tables
    (by rw [hb]; omega) (by rw [hb]; omega) (by rw [hb]; omega) (by rw [hb]; omega) (by rw [hb]; omega)
    (by rw [hlen]; exact hbase) (fun y hy hy' => hr.untranslated y hy (by rw [add_mul]; exact hy')) hr.pages
  rw [hlen'] at hce hret
  refine ⟨m, m', g, ret, c, hnew, hgs, hgsize, hgiven.pid, hgiven.flags, hclones, hle, hce, hcal, hbase, hret, ?_⟩
  have hmod : home * basePageSize % 2 ^ 64 = home * basePageSize := Nat.mod_eq_of_lt (by rw [hb]; omega)
  have hsub : sub64 (g'.stop * basePageSize % 2 ^ 64) (home * basePageSize) = g'.size * basePageSize := by
    rw [sub64, hb]
    omega
  have hv : first * basePageSize ≠ 0 := by
    rw [hb]
    omega
  have hvmem : (s.setRegions d m).vmem = s.vmem := by
    funext p
    exact setRegions_vmem ..
  have hmemory : (s.setRegions d m).setVmem d m' = s.setMemory d ⟨m, m'⟩ := by
    rw [setRegions_eq, setMemory_setVmem]
  have halloc' : allocSharedRegion (s.regions d) pre post (g'.size * basePageSize) (MR_NONBACKED ||| g'.flags) o =
      some (m, first * basePageSize, g'.size * basePageSize) := halloc
  simp only [cloneSharedRegion, hx, hstart, hmod, hsub, hr.alive, halloc', Option.bind_eq_bind, Option.bind_some,
    if_neg hv, hvmem, hclone, Function.update_self, hmemory]
  split_ifs
  · cases referenceMem (s.setMemory d ⟨m, m'⟩) d o (first * basePageSize) (home * basePageSize) <;> rfl
  · rw [setMemory_regions, if_pos rfl, setMemory_vmem, if_pos rfl]
    cases freeRegion m (first * basePageSize) with
    | none => rfl
    | some r =>
      cases unmapFixedRegion m' (first * basePageSize) (g'.size * basePageSize) with
      | none => rfl
      | some u =>
        simp only [Option.bind_some, Option.map_some, setMemory_setRegions, setMemory_setVmem]

lemma Sharing.sound (hfirst : first ≠ 0) :
    ∃ x, findUsedRegion (s.regions o) (home * basePageSize) = some (some x) ∧ (s.regions o).region x = g' ∧
      ∃ s' v, cloneSharedRegion s d o x pre post flags answers = some (s', v) ∧
        (∀ p, s'.known p ↔ s.known p) ∧ s'.freed = s.freed ∧
        (v = first * basePageSize ∧ Sound s' (insert ⟨d, first, o, home⟩ links) ∨
          errCode v = true ∧ Sound s' links ∧ s'.view = s.view) := by
  have hd := h.good.healthy d hr.user
  have ho := h.good.healthy o hr.owner
  have hend := page_uvmemEnd
  have hb := basePageSize_eq
  obtain ⟨xs, hp⟩ : ∃ xs, Partition (s.regions o) xs := ho.valid.region
  obtain ⟨x, hx, rfl, hu, hs⟩ := (usedAt_eq_some hp).1 hr.region
  obtain ⟨found, hfound, hmem⟩ := findUsedRegion_spec hp (home * basePageSize)
  obtain rfl := (hmem x).2 ⟨⟨hx, hu⟩, by rw [page_mul, hs]⟩
  refine ⟨x, hfound, rfl, ?_⟩
  obtain ⟨m, m', g, ret, c, hnew, rfl, hsize, hpid, hflags, hclones, hle, hce, hcal, hbase, hret, heq⟩ :=
    hr.clone h hfirst rfl
  have hbounds := hnew.bounds.2
  rw [show (s.regions d).stop = _ from hd.valid.stop] at hbounds
  rw [heq]
  have hsize' : g.size = g.stop - g.start := rfl
  have hgsize : ((s.regions o).region x).size = ((s.regions o).region x).stop - home := by rw [Region.size, hs]
  obtain ⟨-, -, hxlt, hxstop⟩ := usedAt_range hp hr.region
  rw [show (s.regions o).stop = _ from ho.valid.stop] at hxstop
  by_cases hok : ret = OK
  · obtain ⟨-, rfl⟩ := hret.resolve_right fun hne => hne.1 hok
    rw [if_pos hok]
    have hw : ∀ y, ¬ InRegion g y → byteAt m' y = byteAt (s.vmem d) y := fun y hy => hclones.rest hy
    have hhealthy : Healthy ⟨m, m'⟩ := by
      refine hd.clone hnew (by rw [hpid]; exact h.good.counted.pos o hr.owner) ?_ hclones.wf fun y hy hin => ?_
      · rw [hflags, nonbacked_or, or_and_self]
        decide
      · exact (hclones.stat y hy).trans (if_neg hin)
    have hview : (s.setMemory d ⟨m, m'⟩).view = (s.view.setUsed d g.start (some g)).setByte d (byteAt m') :=
      view_setMemory_new hnew.used
    have hknown := setMemory_healthy (c := d) h.good.healthy hhealthy
    have hself : (s.setMemory d ⟨m, m'⟩).view.used d g.start = some g := by
      rw [hview]
      exact if_pos ⟨rfl, rfl⟩
    have hne : ¬ (d = o ∧ g.start = home) := by
      rintro ⟨rfl, rfl⟩
      have hfree : s.view.used d g.start = none := hnew.free
      rw [hr.region] at hfree
      cases hfree
    have hregion : (s.setMemory d ⟨m, m'⟩).view.used o home = some ((s.regions o).region x) := by
      rw [hview]
      exact (if_neg fun he => hne ⟨he.1.symm, he.2.symm⟩).trans hr.region
    have hrid : ((s.setMemory d ⟨m, m'⟩).tcb o).rid = o := (setMemory_rid ..).1.trans hr.alive
    obtain ⟨s', hs', hview', hhealthy', hknown', hfreed, htcb⟩ :=
      referenceMem_link (hknown d hr.user) (hknown o hr.owner)
      hself hregion (hpid.trans hrid.symm) hne
    refine ⟨s', g.start * basePageSize, by rw [hs']; rfl, hknown', hfreed, .inl ⟨rfl, ?_⟩⟩
    have hcount : ((s.setMemory d ⟨m, m'⟩).tcb o).refcount = (s.tcb o).refcount := (setMemory_rid ..).2
    -- what the new link does to the counters, and the new bytes
    have hfinal : s'.view = (s.view.link ⟨d, g.start, o, home⟩ { g with refcount := home * basePageSize }
        ((s.regions o).region x)).setByte d (byteAt m') := by
      have htwice := setUsed_setUsed s.view d g.start (some g) (some { g with refcount := home * basePageSize })
      rw [hview', hview, hcount, View.link]
      dsimp only
      rw [← htwice]
      rfl
    obtain ⟨-, hcounted⟩ := @Counted.link s.view links (fun _ => 0) settled { g with refcount := home * basePageSize }
      ((s.regions o).region x) ⟨d, g.start, o, home⟩ h.good.counted hnew.free hr.owner hr.region hr.own hpid rfl hsize
    refine ⟨⟨fun p hp => hhealthy' p ((hknown' p).1 hp) (hknown p ((hknown' p).1 hp)), ?_⟩, ?_, fun l hl => ?_⟩
    · rw [hfinal]
      exact hcounted.setByte d _
    · rw [hfinal]
      have htidy := fun q hq => (h.good.healthy q hq).tidy
      have htidy' : Tidy (s.view.setUsed d g.start (some { g with refcount := home * basePageSize })) d := by
        have ht := (hknown d hr.user).tidy
        rw [hview] at ht
        apply ht.congr
        intro page k hk
        change (if d = d ∧ page = g.start then _ else s.view.used d page) = some k at hk
        split_ifs at hk with hpage
        · cases hk
          exact ⟨g, if_pos hpage, rfl, rfl⟩
        · exact ⟨k, (if_neg hpage).trans hk, rfl, rfl⟩
      refine @Mapped.link s.view links { g with refcount := home * basePageSize } ((s.regions o).region x)
        ⟨d, g.start, o, home⟩ (byteAt m') h.mapped h.good.counted.linked h.good.counted.owners htidy hr.user hr.owner
        hr.region (by rw [hpid]; exact h.good.counted.pos o hr.owner) hsize htidy' hnew.free ⟨hw⟩ fun y hy => ?_
      have hy : y < g.size * basePageSize := hy
      have hbase' : BaseMapped (s.vmem o) (home * basePageSize)
          (home * basePageSize + (g.stop * basePageSize - g.start * basePageSize)) := by
        convert hbase using 1
        rw [hb]
        omega
      rw [hb] at hy
      have hbyte := @Clones.byte flags _ _ (g.start * basePageSize + y) _ _ _ _ hclones (by rw [hb]; omega)
        (by rw [hb]; omega) hbase' (by rw [hb]; omega) (by rw [hb]; omega) (by rw [hb]; omega) (by rw [hb]; omega)
      rw [hbyte, Nat.add_sub_cancel_left]
      rfl
    · obtain rfl | hl := Finset.mem_insert.1 hl
      · exact (hknown' d).2 hr.user
      · exact (hknown' _).2 (h.users l hl)
  · obtain ⟨-, hcode⟩ := hret.resolve_left fun he => hok he.1
    rw [if_neg hok]
    obtain ⟨ys, hp'⟩ := hnew.whole
    obtain ⟨r, zs, hfree, hpr, hrs, hre, hused⟩ := freeRegion_usedAt hp' hnew.self
    have hmapped : BaseMapped m' (g.start * basePageSize) c := by
      intro y hy hy'
      obtain ⟨z, hz, -⟩ := hbase (home * basePageSize + (y - g.start * basePageSize)) (by omega) (by
        rw [hb] at hy hce ⊢
        omega)
      refine ⟨_, (hclones.stat y (by rw [hb] at hce; omega)).trans (if_pos ⟨hy, hy'⟩) |>.trans (by rw [hz]; rfl), rfl⟩
    have hlen : g.start * basePageSize + ((s.regions o).region x).size * basePageSize = g.stop * basePageSize := by
      rw [hb]
      omega
    have hnone : ∀ y, g.start * basePageSize ≤ y → y < g.stop * basePageSize → statVpage (s.vmem d) y = none := by
      intro y hy hy'
      apply hr.untranslated y hy
      rw [add_mul, hlen]
      exact hy'
    obtain ⟨m'', hunmap, hum⟩ := unmapFixedRegion_prefix hmapped hclones.wf (by rw [hb]; omega) hcal
      (by rw [hb]; omega) hle (hlen ▸ hce) (by rw [hlen, hb]; omega) fun hlt => by
        rw [hlen, hb] at hlt
        rw [hclones.stat c (by omega), if_neg (by omega), hnone c hle (by rw [hb]; exact hlt)]
    refine ⟨s.setMemory d ⟨r, m''⟩, statusVm ret, by rw [hfree, Option.bind_some, hunmap]; rfl, fun _ => Iff.rfl, rfl,
      .inr ⟨hcode, ?_⟩⟩
    have hstat : ∀ y < 2 ^ 39, statVpage m'' y = statVpage (s.vmem d) y := by
      intro y hy
      rw [hum.stat y hy]
      split_ifs with hin
      · exact (hnone y hin.1 (by omega)).symm
      · exact (hclones.stat y hy).trans (if_neg hin)
    have hrefused : Refused (s.tcb d).memory ⟨r, m''⟩ := by
      refine ⟨fun p => ?_, byteAt_of_stat hstat, hstat⟩
      rw [hused]
      split_ifs with hpage
      · rw [hpage]
        exact hnew.free.symm
      · exact (hnew.used p).trans (if_neg hpage)
    exact ⟨h.refuse hr.user hrefused ⟨⟨zs, hpr⟩, (hrs.trans hnew.start).trans hd.valid.start,
      (hre.trans hnew.stop).trans hd.valid.stop, hum.wf⟩, view_refused hrefused⟩

end Reference

end Kmi.Shared
