import Kmi.Shared.Share

/-! The calls, one by one: each keeps the system sound, and the pages that it frees are nobody's. -/

namespace Kmi.Shared

open Kmi.Library.Degree Kmi.Mem Kmi.Vmem Kmi.Regions Kmi.Uvmem

variable {s s' : System} {links links' : Finset Link} {c p q x first home page order size tid flags : ℕ}
  {m m' r : RegionMap} {g g' : Region} {space space' : Space} {u : UserVmem} {pre post : Option ℕ}
  {pages : List (ℕ × ℕ)} {xs : List ℕ} {l : Link} {extra : Flags} {v : View}

def Closed (s : System) (links : Finset Link) (P : ℕ → Prop) : Prop :=
  ∀ p, P p → s.known p ∧ ∃ l ∈ links, l.owner = p ∧ P l.user

structure Stepped (frees : ℕ → Prop) (s s' : System) (links links' : Finset Link) : Prop where
  sound : Sound s' links'
  freed : ∃ pages, s'.freed = s.freed ++ pages ∧ s'.view.Free pages
  closed : ∀ P, Closed s links P → (∀ p, frees p → ¬ P p) → Closed s' links' P

lemma Closed.mono {P : ℕ → Prop} (h : Closed s links P) (hk : ∀ p, s.known p → s'.known p) (hl : links ⊆ links') :
    Closed s' links' P := by
  intro p hp
  obtain ⟨hkp, l, hmem, ho, hu⟩ := h p hp
  exact ⟨hk p hkp, l, hl hmem, ho, hu⟩

lemma Stepped.quiet {frees : ℕ → Prop} (hs : Sound s' links') (hf : s'.freed = s.freed)
    (hk : ∀ p, s.known p → s'.known p) (hl : links ⊆ links') : Stepped frees s s' links links' where
  sound := hs
  freed := ⟨[], by rw [hf, List.append_nil], fun f hf => absurd hf List.not_mem_nil⟩
  closed _ hP _ := hP.mono hk hl

lemma Released.closed {P : ℕ → Prop} (h : Released (fun _ => False) s s' links links' pages)
    (hP : Closed s links P) : Closed s' links' P := by
  have hknown : ∀ p, P p → s'.known p := by
    apply h.supported P
    exact ⟨fun p hp => (hP p hp).1, fun p hp => .inr (.inr (hP p hp).2)⟩
  intro p hp
  obtain ⟨-, l, hl, ho, hu⟩ := hP p hp
  exact ⟨hknown p hp, l, h.keeps l hl id (.inl (hknown _ hu)), ho, hu⟩

lemma Sound.freePages (h : Sound s links) (ps : List (ℕ × ℕ)) : Sound (s.freePages ps) links :=
  ⟨⟨h.good.healthy, h.good.counted⟩, h.mapped, h.users⟩

/-! A new process. -/

lemma usedAt_unused (h : m.usedRegions = none) (p : ℕ) : usedAt m p = none := by
  rw [usedAt, h, findUsed]

lemma initRegion_usedAt {start arenaSize reserved : ℕ} {status : ℤ} (hu : m.usedRegions = none)
    (h : initRegion m (some x) start arenaSize reserved = some (r, status)) (p : ℕ) : usedAt r p = none := by
  apply usedAt_unused
  rw [initRegion_eq (initRegion_free h), Option.bind_eq_some_iff] at h
  obtain ⟨r', hi, hr⟩ := h
  cases hr
  simp only [insertFreeRegion, Option.bind_eq_bind, Option.bind_eq_some_iff, Prod.exists] at hi
  obtain ⟨root, heap, -, hi⟩ := hi
  cases hi
  exact hu

lemma initRegion_some {start arenaSize reserved : ℕ} (hf : m.freeRegions = none) (hu : m.usedRegions = none)
    (ht : m.taken x = false) : ∃ r, initRegion m (some x) start arenaSize reserved = some (r, OK) := by
  obtain ⟨root, heap, -, hi, -⟩ := (@initNode_trees m x start arenaSize reserved hf hu).insertFree (x := x) (by simp)
    (by simp) (by simp) (by simp [RegionMap.fuel])
  rw [initRegion_eq ht, hi]
  exact ⟨_, rfl⟩

lemma createProc_known (s : System) (tid : ℕ) (shared : Bool) (r : RegionMap) (m : Space) (p : ℕ) :
    (createProc s tid shared r m).known p ↔ (p = tid ∧ p ≠ 0) ∨ s.known p := by
  change p ≠ 0 ∧ Function.update s.tcbs tid true p = true ↔ _
  rw [Function.update_apply, System.known]
  split_ifs with hp
  · simp [hp]
    tauto
  · simp [hp]

lemma createProc_tcb (s : System) (tid : ℕ) (shared : Bool) (r : RegionMap) (m : Space) (p : ℕ) :
    (createProc s tid shared r m).tcb p = if p = tid then ⟨tid, 1, shared, ⟨r, m⟩⟩ else s.tcb p :=
  Function.update_apply ..

section Create

variable {shared : Bool} (h : Sound s links) (hk : ¬ s.known tid) (hz : tid ≠ 0)

include h hk hz

lemma Sound.create (hv : Valid ⟨r, space⟩) (hn : ∀ p, usedAt r p = none) :
    Sound (createProc s tid shared r space) links := by
  have hself : (createProc s tid shared r space).tcb tid = ⟨tid, 1, shared, ⟨r, space⟩⟩ := by
    rw [createProc_tcb, if_pos rfl]
  have hne : ∀ p, s.known p → p ≠ tid := by
    rintro p hp rfl
    exact hk hp
  have hother : ∀ p, s.known p → (createProc s tid shared r space).tcb p = s.tcb p := fun p hp => by
    rw [createProc_tcb, if_neg (hne p hp)]
  have hused : ∀ p, s.known p → (createProc s tid shared r space).view.used p = s.view.used p := fun p hp => by
    change usedAt ((createProc s tid shared r space).tcb p).memory.region = _
    rw [hother p hp]
    rfl
  have hbyte : ∀ p, s.known p → (createProc s tid shared r space).view.byte p = s.view.byte p := fun p hp => by
    change byteAt ((createProc s tid shared r space).tcb p).memory.vmem = _
    rw [hother p hp]
    rfl
  have hholds : ∀ p, s.known p → (createProc s tid shared r space).holds p = s.holds p :=
    fun p hp => Function.update_of_ne (hne p hp) ..
  have hnone : ∀ page, (createProc s tid shared r space).view.used tid page = none := by
    intro page
    change usedAt ((createProc s tid shared r space).tcb tid).memory.region page = none
    rw [hself]
    exact hn page
  have hcases : ∀ p, (createProc s tid shared r space).known p → p = tid ∨ s.known p :=
    fun p hp => ((createProc_known s tid shared r space p).1 hp).imp_left And.left
  have hkeep : ∀ p, s.known p → (createProc s tid shared r space).known p :=
    fun p hp => (createProc_known s tid shared r space p).2 (.inr hp)
  have hnobody : degree links Link.owner tid = 0 := h.good.counted.owner_zero hk
  refine ⟨⟨fun p hp => ?_, ⟨?_, ?_, ?_, ?_, ?_, ?_, ?_, ?_, ?_⟩⟩, ⟨?_, ?_⟩, fun l hl => hkeep _ (h.users l hl)⟩
  · obtain rfl | hp := hcases p hp
    · rw [hself]
      refine ⟨hv, fun page g hg => ?_, fun page g hg => ?_, fun page g hg => ?_⟩
      all_goals
        rw [hn] at hg
        cases hg
    · rw [hother p hp]
      exact h.good.healthy p hp
  · intro p hp
    exact hp.1
  · intro p hp
    obtain rfl | hp := hcases p hp
    · exact .inl (congrArg Tcb.rid hself)
    · change ((createProc s tid shared r space).tcb p).rid = p ∨ ((createProc s tid shared r space).tcb p).rid = 0
      rw [hother p hp]
      exact h.good.counted.rids p hp
  · intro l hl
    exact hkeep _ (h.good.counted.owners l hl)
  · intro l hl
    obtain ⟨g, g', hlink⟩ := h.good.counted.linked l hl
    refine ⟨g, g', ?_, ?_, hlink.pid, hlink.address, hlink.own, hlink.size⟩
    · rw [hused _ (h.users l hl)]
      exact hlink.reference
    · rw [hused _ (h.good.counted.owners l hl)]
      exact hlink.region
  · intro p page g hp hg hpid
    obtain rfl | hp := hcases p hp
    · rw [hnone] at hg
      cases hg
    · rw [hused p hp] at hg
      exact h.good.counted.complete p page g hp hg hpid
  · intro p page g hp hg hpid
    obtain rfl | hp := hcases p hp
    · rw [hnone] at hg
      cases hg
    · rw [hused p hp] at hg
      exact h.good.counted.counts p page g hp hg hpid
  · intro p hp
    change ((createProc s tid shared r space).tcb p).refcount =
      (if ((createProc s tid shared r space).tcb p).rid = p then 1 else 0 : ℕ) +
        (createProc s tid shared r space).holds p + _ + _
    obtain rfl | hp := hcases p hp
    · have hzero : (createProc s p shared r space).holds p = 0 := Function.update_self ..
      rw [hself, if_pos rfl, hzero, hnobody]
      rfl
    · rw [hother p hp, hholds p hp]
      exact h.good.counted.threads p hp
  · intro p hp
    change 0 < ((createProc s tid shared r space).tcb p).refcount
    obtain rfl | hp := hcases p hp
    · rw [hself]
      exact one_pos
    · rw [hother p hp]
      exact h.good.counted.needed p hp
  · exact fun p page _ => False.elim
  · intro l hl g hu hg
    have hul := h.users l hl
    rw [hused _ hul] at hg
    rw [hbyte _ hul, hbyte _ (h.good.counted.owners l hl)]
    exact h.mapped.shows l hl g hul hg
  · intro p q y y' b hp hq ho ho'
    have hold : ∀ p y, (createProc s tid shared r space).known p →
        (createProc s tid shared r space).view.Own p y b → s.known p ∧ s.view.Own p y b := by
      rintro p y hp ⟨page, g, hg, hpid, hin, hb⟩
      obtain rfl | hp := hcases p hp
      · rw [hnone] at hg
        cases hg
      · rw [hused p hp] at hg
        rw [hbyte p hp] at hb
        exact ⟨hp, page, g, hg, hpid, hin, hb⟩
    obtain ⟨hp, ho⟩ := hold p y hp ho
    obtain ⟨hq, ho'⟩ := hold q y' hq ho'
    exact h.mapped.distinct p q y y' b hp hq ho ho'

end Create

/-! Memory of its own. -/

lemma uvflags_toNat (flags : ℕ) : (uvflags flags).toNat = sanitizeUvflags flags := by
  have hlt := (sanitizeUvflags_pageFlags flags).1
  rw [uvflags, BitVec.toNat_ofNat, Nat.mod_eq_of_lt (by omega)]

lemma uvflags_bits (flags : ℕ) : (uvflags flags ||| MR_USED) &&& MR_NONBACKED = 0 ∧
    (uvflags flags ||| MR_USED) &&& MR_SHARED = 0 ∧
    (MR_SHARED ||| uvflags flags ||| MR_USED) &&& MR_NONBACKED = 0 := by
  have h : ∀ f < 15, (BitVec.ofNat 64 (f ||| VM_V ||| VM_U) ||| MR_USED) &&& MR_NONBACKED = 0 ∧
      (BitVec.ofNat 64 (f ||| VM_V ||| VM_U) ||| MR_USED) &&& MR_SHARED = 0 ∧
      (MR_SHARED ||| BitVec.ofNat 64 (f ||| VM_V ||| VM_U) ||| MR_USED) &&& MR_NONBACKED = 0 := by
    decide
  exact h _ (Nat.lt_succ_of_le Nat.and_le_right)

structure Asking (s : System) (c first : ℕ) (pre post : Option ℕ) (size flags order : ℕ)
    (answers : List Answer) : Prop where
  known : s.known c
  alive : (s.tcb c).rid = c
  request : Request (s.regions c) pre post size
  untranslated : Untranslated (s.vmem c) first (pagesOf size)
  fresh : FreshAnswers (s.vmem c) answers
  side : SideBySide (granted (s.vmem c) (first * basePageSize) (pagesOf size * basePageSize) order
    (uvflags flags) answers)
  free : s.view.Free (granted (s.vmem c) (first * basePageSize) (pagesOf size * basePageSize) order
    (uvflags flags) answers)

lemma zero_or_uvflags (flags : ℕ) : (0 : Flags) ||| uvflags flags = uvflags flags := BitVec.zero_or

lemma Asking.sound {answers : List Answer} (h : Sound s links) (ha : Asking s c first pre post size flags order answers)
    (ho : order ≤ maxOrder) (hg : Given g size (extra ||| uvflags flags) 0) (hs : g.start = first)
    (hnew : NewUsed (s.regions c) m' g)
    (hextra : extra = 0 ∨ extra = MR_SHARED ∧ order = 0) :
    ∃ u v freed, mapUvmem order ⟨m', s.vmem c⟩ (first * basePageSize) (pagesOf size * basePageSize) (uvflags flags)
        answers = some (u, v, freed) ∧ Sound (s.setMemory c u) links ∧ (s.setMemory c u).view.Free freed := by
  obtain ⟨hlt, hsize, -⟩ := given_size ha.request hg
  obtain ⟨hback, hown, hshared⟩ := uvflags_bits flags
  have hpid := hg.pid
  have hun := ha.untranslated
  rw [← hs, ← hsize] at hun ⊢
  obtain ⟨u, v, freed, heq, hv, ⟨-, rfl, hgr⟩ | ⟨-, hrefused, hfreed⟩⟩ := mapUvmem_granted ho
    (h.good.healthy c ha.known).valid hnew hlt (uvflags_toNat flags ▸ sanitizeUvflags_pageFlags flags) hun ha.fresh
  · refine ⟨u, v, [], heq, ?_, fun f hf => absurd hf List.not_mem_nil⟩
    have hside := ha.side
    have hfree := ha.free
    rw [← hs, ← hsize] at hside hfree
    apply h.grant ha.known hgr hv hnew.free hpid (hg.refcount rfl) _ _ hside hfree
    · rw [hg.flags]
      obtain rfl | ⟨rfl, -⟩ := hextra
      · rw [zero_or_uvflags]
        exact hback
      · exact hshared
    · intro hsh f hf
      obtain rfl | ⟨rfl, rfl⟩ := hextra
      · rw [hg.flags, zero_or_uvflags] at hsh
        exact absurd hown hsh
      · exact Nat.le_zero.1 (granted_order hf)
  · refine ⟨u, v, freed, heq, h.refuse ha.known hrefused hv, ?_⟩
    have hfree := ha.free
    rw [← hs, ← hsize] at hfree
    rw [view_refused hrefused, hfreed]
    exact hfree

lemma Stepped.allocated {frees : ℕ → Prop} (hs : Sound (s.setMemory c u) links)
    (hf : (s.setMemory c u).view.Free pages) :
    Stepped frees s ((s.setMemory c u).freePages pages) links links where
  sound := hs.freePages pages
  freed := ⟨pages, rfl, hf⟩
  closed _ hP _ := hP.mono (fun _ hp => hp) (Finset.Subset.refl links)

/-! Memory that is given back. -/

lemma Healthy.free (h : Healthy ⟨m, space⟩) (hg : usedAt m page = some g) (hv : Valid ⟨r, space'⟩)
    (hu : ∀ p, usedAt r p = if p = page then none else usedAt m p)
    (hstat : ∀ y < 2 ^ 39, ¬ InRegion g y → statVpage space' y = statVpage space y) : Healthy ⟨r, space'⟩ := by
  obtain ⟨xs, hp⟩ := h.valid.region
  have hend := page_uvmemEnd
  have hb := basePageSize_eq
  have hstop : m.stop = _ := h.valid.stop
  have hold : ∀ p g', usedAt r p = some g' → usedAt m p = some g' ∧
      ∀ y, g'.start * basePageSize ≤ y → y < g'.stop * basePageSize → statVpage space' y = statVpage space y := by
    intro p g' hg'
    rw [hu] at hg'
    split_ifs at hg' with hpage
    refine ⟨hg', fun y hy hy' => ?_⟩
    have hapart := usedAt_apart hp hg' hg hpage
    have hle : g'.stop ≤ m.stop := (usedAt_range hp hg').2.2.2
    rw [hb] at hy hy'
    apply hstat y (by omega)
    rw [InRegion, hb]
    omega
  refine ⟨hv, fun p g' hg' hpid => ?_, fun p g' hg' hpid hs => ?_, fun p g' hg' => h.foreign p g' (hold p g' hg').1⟩
  · obtain ⟨hg', hsame⟩ := hold p g' hg'
    obtain ⟨hback, ht⟩ := h.backed p g' hg' hpid
    exact ⟨hback, ht.congr hsame⟩
  · obtain ⟨hg', hsame⟩ := hold p g' hg'
    intro y hy hy' x hx
    rw [hsame y hy hy'] at hx
    exact h.small p g' hg' hpid hs y hy hy' x hx

lemma freeKnownRegion_valid (h : Valid ⟨m, space⟩) (hw : WellFormed space') (hp : Partition m xs) (hx : x ∈ xs)
    (hu : (m.region x).used = true) : ∃ r, freeKnownRegion m x = some r ∧ Valid ⟨r, space'⟩ ∧
      ∀ p, usedAt r p = if p = (m.region x).start then none else usedAt m p := by
  obtain ⟨r, heq, hf⟩ := freeKnownRegion_freed hp hx hu
  obtain ⟨ys, hpr⟩ := hf.partition
  exact ⟨r, heq, ⟨⟨ys, hpr⟩, hf.start.trans h.start, hf.stop.trans h.stop, hw⟩, hf.usedAt hp hx hu⟩

section Free

variable (h : Sound s links) (hc : s.known c) (hp : Partition (s.regions c) xs) (hx : x ∈ xs)
  (hu : ((s.regions c).region x).used = true)

include h hc hp hx hu

lemma Sound.freeOwn (hpid : ((s.regions c).region x).pid = 0) (hcount : ¬ 1 < ((s.regions c).region x).refcount) :
    ∃ s' s'' r ps, (∀ fuel, freeMapping (fuel + 1) s c x = some s') ∧ freeKnownRegion (s'.regions c) x = some r ∧
      s'.setRegions c r = s'' ∧ Stepped (· = c) s s'' links links ∧ s''.freed = s.freed ++ ps ∧
      Tiles (s.vmem c) (((s.regions c).region x).start * basePageSize)
        (((s.regions c).region x).stop * basePageSize) ps ∧
      (∀ p page, ¬ (p = c ∧ page = ((s.regions c).region x).start) → s''.view.used p page = s.view.used p page) ∧
      ∀ p y, (p = c → ¬ InRegion ((s.regions c).region x) y) → s''.view.byte p y = s.view.byte p y := by
  have hh := h.good.healthy c hc
  have hend := page_uvmemEnd
  have hb := basePageSize_eq
  have hused := used_of_mem hp hx hu
  obtain ⟨hback, ht⟩ := hh.backed _ _ hused hpid
  obtain ⟨-, hlt, hle⟩ := hp.covers.mem hx
  have hstop : ((s.regions c).region x).stop ≤ Regions.page UVMEM_END := hle.trans hh.valid.stop.le
  obtain ⟨m', ps, heq, htiles, hum⟩ := freeMapping_own hpid hback hh.valid.tables hlt.le hstop ht
  obtain ⟨r, hfree, hv, husedr⟩ := @freeKnownRegion_valid x (s.regions c) (s.vmem c) m' xs hh.valid hum.wf hp hx hu
  have hregions : ((s.setVmem c m').freePages ps).regions c = s.regions c := setVmem_regions ..
  have hfinal : ((s.setVmem c m').freePages ps).setRegions c r = (s.setMemory c ⟨r, m'⟩).freePages ps := by
    refine system_ext rfl (fun p => ?_) rfl rfl
    change ((s.setVmem c m').setRegions c r).tcb p = _
    rw [System.setRegions, setTcb_tcb]
    change _ = (s.setMemory c ⟨r, m'⟩).tcb p
    rw [System.setVmem, setTcb_tcb, setTcb_tcb, setMemory_tcb, if_pos rfl]
    split_ifs <;> rfl
  have hview : (s.setMemory c ⟨r, m'⟩).view =
      (s.view.setUsed c ((s.regions c).region x).start none).setByte c (byteAt m') := view_setMemory_new husedr
  have hno : ∀ l ∈ links, ¬ (l.user = c ∧ l.page = ((s.regions c).region x).start) ∧
      ¬ (l.owner = c ∧ l.home = ((s.regions c).region x).start) := by
    intro l hl
    obtain ⟨k, k', hlink⟩ := h.good.counted.linked l hl
    constructor
    · rintro ⟨rfl, hpage⟩
      have hk := hlink.reference
      rw [hpage, hused] at hk
      obtain rfl := Option.some.inj hk
      exact h.good.counted.pos _ (h.good.counted.owners l hl) (hlink.pid.symm.trans hpid)
    · rintro ⟨rfl, hhome⟩
      have hcounts := h.good.counted.counts _ _ _ hc hused hpid
      have hpos := degree_pos hl (show l.place = (l.owner, ((s.regions l.owner).region x).start) from
        Prod.ext rfl hhome)
      omega
  have hw : Within s.view c ((s.regions c).region x) (byteAt m') := by
    refine ⟨fun y hy => ?_⟩
    exact (byteAt_unmaps hum y).trans (if_neg hy)
  have htidy := fun q hq => (h.good.healthy q hq).tidy
  have hhealthy : ∀ p, s.known p → Healthy ((s.setMemory c ⟨r, m'⟩).tcb p).memory := by
    apply setMemory_healthy h.good.healthy
    apply Healthy.free hh hused hv husedr
    intro y hy hin
    exact (hum.stat y hy).trans (if_neg hin)
  refine ⟨_, _, r, ps, heq, hregions ▸ hfree, hfinal, ?_, rfl, htiles, fun p page hp => ?_, fun p y hy => ?_⟩
  rotate_left
  · rw [view_freePages, hview]
    exact if_neg hp
  · rw [view_freePages, hview]
    exact hw.byte hy
  apply Stepped.allocated
  · refine ⟨⟨hhealthy, ?_⟩, ?_, h.users⟩
    · rw [hview]
      have hdrop := (h.good.counted.drop hno).setByte c (byteAt m')
      have hgone : (fun p page => settled p page ∧ ¬ (p = c ∧ page = ((s.regions c).region x).start)) = settled := by
        funext p page
        simp [settled]
      rw [hgone] at hdrop
      exact hdrop
    · rw [hview]
      exact h.mapped.drop h.good.counted.linked h.good.counted.owners htidy hc hused hw hno
  · -- the pages were those of the region, and no other address has a byte of them
    intro f hf p y b hpk ho
    by_contra hin
    obtain ⟨y', hy', hy'', hbyte⟩ : ∃ y', ((s.regions c).region x).start * basePageSize ≤ y' ∧
        y' < ((s.regions c).region x).stop * basePageSize ∧ byteAt (s.vmem c) y' = some b :=
      tiles_byte htiles (by rw [hb]; omega) hf (by omega) (by omega)
    have hold : s.view.Own p y b ∧ (p = c → ¬ InRegion ((s.regions c).region x) y) := by
      obtain ⟨page, g, hg, hgp, hy, hbp⟩ := ho
      rw [hview] at hg hbp
      change (if p = c ∧ page = ((s.regions c).region x).start then none else s.view.used p page) = some g at hg
      split_ifs at hg with hpage
      have hout : p = c → ¬ InRegion ((s.regions c).region x) y := by
        rintro rfl
        exact (htidy p hpk).elsewhere hg hused (fun he => hpage ⟨rfl, he⟩) hy
      refine ⟨⟨page, g, hg, hgp, hy, ?_⟩, hout⟩
      rw [← hw.byte hout]
      exact hbp
    obtain ⟨rfl, rfl⟩ := h.mapped.distinct p c y y' b hpk hc hold.1 ⟨_, _, hused, hpid, ⟨hy', hy''⟩, hbyte⟩
    exact hold.2 rfl ⟨hy', hy''⟩

lemma Sound.freeReference (hpid : ((s.regions c).region x).pid ≠ 0) (hlive : (s.tcb c).rid = c ∨ 0 < s.holds c) :
    ∃ s' s'' r links'' pages, Returns (fun fuel => freeMapping fuel s c x) s' ∧
      freeKnownRegion (s'.regions c) x = some r ∧ s'.setRegions c r = s'' ∧
      Stepped (· = c) s s'' links links'' ∧ s''.known c ∧ s''.vmem c = s.vmem c ∧
      s''.view = s'.view.setUsed c ((s.regions c).region x).start none ∧
      ∃ l ∈ links, (l.user, l.page) = (c, ((s.regions c).region x).start) ∧
        Released (fun _ => False) s s' (links.erase l) links'' pages := by
  have hh := h.good.healthy c hc
  have hused := used_of_mem hp hx hu
  obtain ⟨l, hl, rfl, hpage⟩ := h.good.counted.complete c _ _ hc hused hpid id
  have hback := hh.foreign _ _ hused hpid
  obtain ⟨s', links', pages, hret, hgood, hrel, hfree⟩ := @freeMapping_reference s links settled x l
    (fun p page => p = l.user ∧ page = l.page) h.good h.mapped hl (fun _ _ => False.elim) (fun _ => ⟨rfl, rfl⟩)
    (by
      rintro p page - ⟨rfl, -⟩
      exact hlive) (releases _) (hpage ▸ hused) hback
  have hstill : s'.known l.user := by
    apply hrel.supported (· = l.user) _ l.user rfl
    refine ⟨?_, ?_⟩
    · rintro p rfl
      exact hc
    · rintro p rfl
      obtain hself | hheld := hlive
      · left
        rw [hself]
        exact hc.1
      · exact .inr (.inl hheld)
  have hh' := hgood.healthy l.user hstill
  have hrec := hrel.regions l.user hstill
  have hp' := hrec.partition hp
  obtain ⟨hsame, hforeign⟩ := hrec.region x
  have heq : (s'.regions l.user).region x = (s.regions l.user).region x := hforeign hpid
  obtain ⟨r, hknown, hv, husedr⟩ := @freeKnownRegion_valid x (s'.regions l.user) (s'.vmem l.user) (s'.vmem l.user) xs
    hh'.valid hh'.valid.tables hp' hx (hsame.used ▸ hu)
  rw [heq, ← hpage] at husedr
  have hview : (s'.setRegions l.user r).view = s'.view.setUsed l.user l.page none := view_setUsed husedr
  have hused' : s'.view.used l.user l.page = some ((s.regions l.user).region x) := by
    have hmem := used_of_mem hp' hx (hsame.used ▸ hu)
    rw [heq, ← hpage] at hmem
    exact hmem
  have hno : ∀ k ∈ links', ¬ (k.user = l.user ∧ k.page = l.page) ∧ ¬ (k.owner = l.user ∧ k.home = l.page) := by
    intro k hk
    obtain ⟨hne, hkl⟩ := Finset.mem_erase.1 (hrel.subset hk)
    constructor
    · rintro ⟨hku, hkp⟩
      obtain ⟨_, _, hlk⟩ := h.good.counted.linked k hkl
      obtain ⟨_, _, hll⟩ := h.good.counted.linked l hl
      exact hne (hlk.unique hll hku hkp)
    · rintro ⟨hko, hkh⟩
      obtain ⟨_, g', hlk⟩ := hgood.counted.linked k hk
      have hregion := hlk.region
      rw [hko, hkh, hused'] at hregion
      obtain rfl := Option.some.inj hregion
      exact hpid hlk.own
  have hfewer : Fewer s.view s'.view := hrel.fewer h.good.healthy
  have hfewer' : Fewer s'.view (s'.view.setUsed l.user l.page none) := by
    refine ⟨fun p hp => hp, fun p page g _ hg => ?_, fun p _ => rfl⟩
    change (if p = l.user ∧ page = l.page then none else s'.view.used p page) = some g at hg
    split_ifs at hg
    exact ⟨g, hg, .refl g⟩
  have hmap : Mapped s'.view links' :=
    h.mapped.fewer hfewer (hrel.subset.trans (Finset.erase_subset l links)) hgood.counted.owners
  refine ⟨s', _, r, links', pages, hret, hknown, rfl, ⟨⟨⟨fun p hp => ?_, ?_⟩, ?_, fun k hk => ?_⟩, ?_, ?_⟩, hstill, ?_,
    hpage ▸ hview, l, hl, Prod.ext rfl hpage, hrel⟩
  · rw [setRegions_eq, setMemory_memory]
    split_ifs with hpl
    · apply Healthy.free hh' hused' hv husedr
      exact fun y _ _ => rfl
    · exact hgood.healthy p hp
  · rw [hview]
    have hdrop := hgood.counted.drop hno
    have hgone : (fun p page => (p = l.user ∧ page = l.page) ∧ ¬ (p = l.user ∧ page = l.page)) = settled := by
      funext p page
      simp [settled]
    rw [hgone] at hdrop
    exact hdrop
  · rw [hview]
    exact hmap.fewer hfewer' (Finset.Subset.refl links') hgood.counted.owners
  · have hkl := Finset.mem_of_mem_erase (hrel.subset hk)
    exact (hrel.users k hk).resolve_right fun hn => hn (h.users k hkl)
  · refine ⟨pages, hrel.freed, ?_⟩
    rw [hview]
    exact hfree.fewer hfewer'
  · intro P hP hnot
    have hclosed : Closed s (links.erase l) P := by
      intro p hp
      obtain ⟨hk, k, hkl, ho, hku⟩ := hP p hp
      refine ⟨hk, k, Finset.mem_erase.2 ⟨?_, hkl⟩, ho, hku⟩
      rintro rfl
      exact hnot _ rfl hku
    exact hrel.closed hclosed
  · rw [setRegions_vmem, hrel.vmem l.user hstill]

end Free

/-! References to a process, of threads and of calls. -/

lemma view_hold (s : System) (p : ℕ) : (hold s p).view =
    (s.view.setHolds p (s.holds p + 1)).setRefcount p ((s.tcb p).refcount + 1) := by
  have hholds : Function.update s.holds p (s.holds p + 1) = fun q => if q = p then s.holds p + 1 else s.holds q := by
    funext q
    rw [Function.update_apply]
  rw [hold, referenceThread, view_setRefcount, System.view, View.setHolds, hholds]
  rfl

lemma view_letGo (s : System) (p : ℕ) : (letGo s p).view = s.view.setHolds p (s.holds p - 1) := by
  have hholds : Function.update s.holds p (s.holds p - 1) = fun q => if q = p then s.holds p - 1 else s.holds q := by
    funext q
    rw [Function.update_apply]
  rw [letGo, System.view, View.setHolds, hholds]
  rfl

lemma endThread_tcb (s : System) (p q : ℕ) :
    (endThread s p).tcb q = if q = p then { s.tcb p with rid := 0 } else s.tcb q := setTcb_tcb ..

lemma endThread_memory (s : System) (p q : ℕ) : ((endThread s p).tcb q).memory = (s.tcb q).memory := by
  rw [endThread_tcb]
  split_ifs with hq
  · rw [hq]
  · rfl

lemma view_endThread (s : System) (p : ℕ) :
    (endThread s p).view = { s.view with rid := fun q => if q = p then 0 else s.view.rid q } := by
  have hrid : ∀ q, ((endThread s p).tcb q).rid = if q = p then 0 else (s.tcb q).rid := by
    intro q
    rw [endThread_tcb]
    split_ifs <;> rfl
  have hcount : ∀ q, ((endThread s p).tcb q).refcount = (s.tcb q).refcount := by
    intro q
    rw [endThread_tcb]
    split_ifs with hq
    · rw [hq]
    · rfl
  simp only [System.view, System.regions, System.vmem, hrid, hcount, endThread_memory]
  rfl

lemma Sound.hold (h : Sound s links) (p : ℕ) : Sound (hold s p) links := by
  have hmemory : ∀ q, ((Shared.hold s p).tcb q).memory = (s.tcb q).memory := fun q => setRefcount_memory ..
  refine ⟨⟨fun q hq => ?_, ?_⟩, ?_, h.users⟩
  · rw [hmemory]
    exact h.good.healthy q hq
  · rw [view_hold]
    exact h.good.counted.hold
  · rw [view_hold]
    exact ⟨h.mapped.shows, h.mapped.distinct⟩

lemma Good.unreference (h : Good s links (owed p) settled) (hm : Mapped s.view links)
    (hu : ∀ l ∈ links, s.known l.user) (hp : s.known p) :
    ∃ s' links', Returns (fun fuel => unreferenceThread fuel s p) s' ∧
      Stepped (fun _ => False) s s' links links' ∧
      ∀ q, s'.known q ↔ ∃ P, Supported s links P ∧ P q := by
  obtain ⟨s', links', pages, hret, hgood, hrel, hfree⟩ := releases _ s links p settled rfl h hm hp
  have husers : ∀ l ∈ links', s'.known l.user :=
    fun l hl => (hrel.users l hl).resolve_right fun hn => hn (hu l (hrel.subset hl))
  refine ⟨s', links', hret, ⟨⟨hgood, ?_, husers⟩, ⟨pages, hrel.freed, hfree⟩, fun P hP _ => hrel.closed hP⟩,
    fun q => ⟨fun hq => ⟨s'.known, ⟨hrel.known, fun q hq => ?_⟩, hq⟩, ?_⟩⟩
  · exact hm.fewer (hrel.fewer h.healthy) hrel.subset hgood.counted.owners
  · have hthreads := hgood.counted.threads q hq
    have hneeded := hgood.counted.needed q hq
    obtain ⟨hrid, -⟩ := hrel.rid q hq
    have hholds : s'.view.holds q = s.holds q := congrFun hrel.holds q
    by_cases hzero : degree links' Link.owner q = 0
    · by_cases hheld : s.holds q = 0
      · left
        intro hdead
        have halive : s'.view.alive q = 0 := by
          rw [View.alive, if_neg]
          intro hself
          change (s'.tcb q).rid = q at hself
          rw [hrid, hdead] at hself
          exact hq.1 hself.symm
        rw [hthreads, halive, hholds, hheld, hzero] at hneeded
        exact absurd hneeded (by decide)
      · exact .inr (.inl (Nat.pos_of_ne_zero hheld))
    · rw [degree_eq_zero] at hzero
      push Not at hzero
      obtain ⟨l, hl, ho⟩ := hzero
      exact .inr (.inr ⟨l, hrel.subset hl, ho, husers l hl⟩)
  · rintro ⟨P, hP, hq⟩
    exact hrel.supported P hP q hq

end Kmi.Shared
