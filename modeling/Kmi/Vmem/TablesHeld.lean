import Kmi.Vmem.Freed

/-! Over the runs whose steps are careful the tables that the threads run on stay handed
out. An `exec` frees the tables of the process it runs in, and it does not synchronise the
thread that calls it. -/

namespace Kmi.Vmem

open Kmi.Mem

variable {E : ℕ → Prop} {s s' : System} {x x' : Machine} {e : MachineEvent} {t t' : Tcb} {tid pid : ℕ}
  {m new : Space} {owner owner' : ℕ → Option Holder} {proc : Table} {low : ℕ → Table}
  {level : ℕ → Option ℕ} {tables : List (ℕ × ℕ)} {image : Image}

lemma handOut_nil (owner : ℕ → Option Holder) (h : Holder) : handOut owner h [] = owner := by
  funext a
  rw [handOut, if_neg (by simp)]

lemma Sound.page {c : PageCall} (h : Sound (fun _ => False) x.sys x.owner) (hp : x.Proper (.call (.page pid c)))
    (hc : x.Careful (.call (.page pid c))) (hs : x.call (.page pid c) = some x') :
    Sound (fun _ => False) x'.sys x'.owner := by
  simp only [Machine.call, Vmem.step, Option.bind_eq_bind, Option.bind_eq_some_iff] at hs
  obtain ⟨t, ht, proc, hproc, sys, ⟨t', ht', proc', hproc', hsys⟩, hs⟩ := hs
  cases hsys
  cases hs
  obtain rfl := Option.some.inj (ht.symm.trans ht')
  obtain rfl := Option.some.inj (hproc.symm.trans hproc')
  have hold : procOf x.sys.tcbs pid = some proc := by
    rw [procOf, ht]
    exact hproc
  have hheld := h.proc pid proc hold
  have hused : ∀ (u : Tcb) (i : ℕ), isBranch (u.rpc i) = true → proc i = u.rpc i → stops (proc i) = false :=
    fun u i hb he => isBranch_stops (by rwa [he])
  cases c with
  | map paddr vaddr flags order pages =>
    obtain ⟨hv, ho, hV, hpages⟩ := hp
    obtain ⟨hm, hspare⟩ := hheld.mapVpage ((user_top hv).trans (by decide)) ho hpages hV (hc proc hold)
    refine h.setProc ht hproc hm hspare fun uid u _ _ _ i _ hb he => ?_
    have hs := hused u i hb he
    rw [stops, Bool.or_eq_false_iff] at hs
    rw [← he]
    exact mapVpage_keeps ⟨proc, x.sys.low⟩ paddr vaddr flags order pages i hs.1
  | unmap vaddr =>
    obtain ⟨hm, hspare⟩ := hheld.unmapVpage ((user_top hp).trans (by decide))
    rw [PageCall.tables, handOut_nil]
    refine h.setProc ht hproc hm hspare fun uid u _ _ _ i _ hb he => ?_
    have hs := hused u i hb he
    rw [stops, Bool.or_eq_false_iff] at hs
    rw [← he]
    exact unmapVpage_root hs.1 fun _ => hs.2

structure Takes (owner owner' : ℕ → Option Holder) (low low' : ℕ → Table) : Prop where
  owned : ∀ a, owner a ≠ none → owner' a = owner a
  same : ∀ a, owner a ≠ none → low' a = low a

lemma Takes.spares (h : Takes owner owner' s.low low) (holder : Holder) :
    Spares holder owner owner' s.low low := by
  intro g _ a ha
  have hne : owner a ≠ none := by
    rw [ha]
    exact Option.some_ne_none g
  exact ⟨(h.owned a hne).trans ha, h.same a hne⟩

structure Built (owner : ℕ → Option Holder) (low : ℕ → Table) (tables : List (ℕ × ℕ)) (new : Space) : Prop where
  fresh : ∀ a ∈ tables.map Prod.fst, owner a = none
  levelled : Levelled (fun _ _ => True) (· < KERNEL_PAGE) (addLevels (fun _ => none) tables) new
  frame : ∀ a, owner a ≠ none → new.low a = low a

lemma Built.of_level {a o : ℕ} (h : Built owner low tables new)
    (ha : addLevels (fun _ => none) tables a = some o) : a ∈ tables.map Prod.fst ∧ owner a = none := by
  have hm := (addLevels_cases ha).resolve_left fun h => by cases h
  exact ⟨hm, h.fresh a hm⟩

lemma Built.not_level {a : ℕ} (h : Built owner low tables new) (ha : owner a ≠ none) :
    a ∉ tables.map Prod.fst ∧ addLevels (fun _ => none) tables a = none := by
  have hm : a ∉ tables.map Prod.fst := fun hm => ha (h.fresh a hm)
  exact ⟨hm, addLevels_none rfl hm⟩

lemma Built.holds {holder : Holder} {R : ℕ → Prop} (h : Built owner low tables new)
    (hh : Holds owner holder R ⟨proc, low⟩) : Holds owner holder R ⟨proc, new.low⟩ := by
  refine hh.frame fun a ha => ⟨ha, h.frame a ?_⟩
  rw [ha]
  exact Option.some_ne_none holder

lemma mapSections_built {kvmem : ℕ} {image : Image} (hi : image.UserOnly)
    (hp : NewPages owner (image.sections.flatMap Mapping.pages)) :
    Built owner low (sectionTables ⟨createVmem kvmem, low⟩ image.sections)
      (mapSections ⟨createVmem kvmem, low⟩ image.sections).1 := by
  have hfresh : ∀ a ∈ (sectionTables ⟨createVmem kvmem, low⟩ image.sections).map Prod.fst, owner a = none := by
    intro a ha
    obtain ⟨hm, hne⟩ := sectionTables_mem ha
    exact hp.fresh a hm hne
  have hr := mapSections_levelled (createVmem_levelled kvmem low) (createVmem_small kvmem low) hi.sections
    (@NewPages.newTables _ owner (.proc 0) _ hp fun _ _ h => by cases h)
  refine ⟨hfresh, hr.levelled, fun a ha => ?_⟩
  apply hr.frame
  exact addLevels_none rfl fun hm => ha (hfresh a hm)

lemma Built.abandon {vaddrs freed : List ℕ} {holder : Holder} (h : Built owner low tables new)
    (hv : ∀ v ∈ vaddrs, v < UVMEM_END) (hd : destroyVmem (unmapAll new vaddrs) = some freed) :
    Takes owner (giveBack (handOut owner holder tables) freed) low (unmapAll new vaddrs).low := by
  have hr := unmapAll_levelled h.levelled fun v hm => (user_top (hv v hm)).trans (by decide)
  refine ⟨fun a ha => ?_, fun a ha => ?_⟩
  · obtain ⟨hm, hl⟩ := h.not_level ha
    have hf : a ∉ freed := by
      intro hf
      obtain ⟨o, ho⟩ := hr.levelled.destroyEntries (fun _ _ hi => hi) hd hf
      rw [hl] at ho
      cases ho
    rw [giveBack, if_neg hf, handOut, if_neg hm]
  · rw [hr.frame a (h.not_level ha).2, h.frame a ha]

lemma Built.replace {vaddrs freed : List ℕ} (h : Built owner low tables new)
    (hh : Holds owner (.proc pid) (· < KERNEL_PAGE) ⟨proc, low⟩) (hv : ∀ v ∈ vaddrs, v < UVMEM_END)
    (hd : destroyVmem (unmapAll ⟨proc, new.low⟩ vaddrs) = some freed) :
    Holds (giveBack (handOut owner (.proc pid) tables) freed) (.proc pid) (· < KERNEL_PAGE)
        ⟨new.root, (unmapAll ⟨proc, new.low⟩ vaddrs).low⟩ ∧
      Spares (.proc pid) owner (giveBack (handOut owner (.proc pid) tables) freed) low
        (unmapAll ⟨proc, new.low⟩ vaddrs).low := by
  obtain ⟨level, hl, hold⟩ := h.holds hh
  have hr := unmapAll_levelled hold fun v hm => (user_top (hv v hm)).trans (by decide)
  have hfreed : ∀ a ∈ freed, owner a = some (.proc pid) := by
    intro a ha
    obtain ⟨o, ho⟩ := hr.levelled.destroyEntries (fun _ _ hi => hi) hd ha
    exact hl a o ho
  -- the two memories have no table in common
  have hother : ∀ a, owner a ≠ some (.proc pid) → level a = none := by
    intro a ha
    cases hla : level a with
    | none => rfl
    | some o => exact absurd (hl a o hla) ha
  refine ⟨⟨addLevels (fun _ => none) tables, fun a o ha => ?_, h.levelled.root, fun a o ha i => ?_⟩,
    fun g hg a ha => ?_⟩
  · obtain ⟨hm, hnone⟩ := h.of_level ha
    have hf : a ∉ freed := by
      intro hf
      rw [hfreed a hf] at hnone
      cases hnone
    rw [giveBack, if_neg hf, handOut, if_pos hm]
  · obtain ⟨-, hnone⟩ := h.of_level ha
    change Entry _ _ o ((unmapAll ⟨proc, new.low⟩ vaddrs).low a i)
    rw [hr.frame a (hother a (by rw [hnone]; exact (Option.some_ne_none _).symm))]
    exact h.levelled.low a o ha i
  · have hne : owner a ≠ some (.proc pid) := by
      rw [ha]
      exact fun heq => hg (Option.some.inj heq)
    have hsome : owner a ≠ none := by
      rw [ha]
      exact Option.some_ne_none _
    have hf : a ∉ freed := fun hf => hne (hfreed a hf)
    rw [giveBack, if_neg hf, handOut, if_neg (h.not_level hsome).1, hr.frame a (hother a hne)]
    exact ⟨ha, h.frame a hsome⟩

lemma Sound.exec {image : Image} (h : Sound (fun _ => False) x.sys x.owner) (ht : x.sys.tcbs pid = some t)
    (hproc : t.proc = some proc) (hi : image.UserOnly)
    (hp : NewPages x.owner (image.sections.flatMap Mapping.pages))
    (hc : image.loads x.sys.kvmem x.sys.low = true → ∀ tid, ¬ Uses x.sys tid pid)
    (hs : x.exec pid t proc image = some x') : Sound (fun _ => False) x'.sys x'.owner := by
  have hold : procOf x.sys.tcbs pid = some proc := by
    rw [procOf, ht]
    exact hproc
  have hheld := h.proc pid proc hold
  have hbuilt := @mapSections_built x.owner x.sys.low x.sys.kvmem image hi hp
  rw [Machine.exec] at hs
  split_ifs at hs with hl
  · simp only [Option.bind_eq_bind, Option.bind_eq_some_iff, Option.some.injEq] at hs
    obtain ⟨freed, hfreed, rfl⟩ := hs
    obtain ⟨hm, hspare⟩ := hbuilt.replace hheld hi.mapped hfreed
    rw [mapExec, if_pos hl]
    refine h.setProc ht hproc hm hspare fun uid u hu hz _ i hcs hb he => ?_
    exact absurd ⟨u, proc, i, hu, hz, hold, hcs, by rwa [he], he.symm⟩ (hc hl uid)
  · simp only [Option.bind_eq_bind, Option.bind_eq_some_iff, Option.some.injEq] at hs
    obtain ⟨freed, hfreed, rfl⟩ := hs
    have htakes := @Built.abandon _ _ _ _ image.mapped freed (.proc pid) hbuilt hi.mapped hfreed
    rw [mapExec, if_neg hl]
    refine h.setProc ht hproc ?_ (htakes.spares _) fun uid u _ _ _ i _ _ he => he
    exact hheld.frame fun a ha => by
      have hne : x.owner a ≠ none := by
        rw [ha]
        exact Option.some_ne_none _
      exact ⟨(htakes.owned a hne).trans ha, htakes.same a hne⟩

lemma Sound.insert (h : Sound E s owner) (hnew : s.tcbs t.tid = none) (hz : ∀ i < CSTACK_PAGE, t.rpc i = 0)
    (hs : Spares (.stack t.tid) owner owner' s.low low)
    (hstack : Holds owner' (.stack t.tid) (· < KERNEL_PAGE) ⟨t.rpc, low⟩)
    (hproc : ∀ proc, t.proc = some proc → Holds owner' (.proc t.tid) (· < KERNEL_PAGE) ⟨proc, low⟩) :
    Sound E { s with low := low, tcbs := Function.update s.tcbs t.tid (some t) } owner' := by
  have hcases : ∀ uid u, Function.update s.tcbs t.tid (some t) uid = some u →
      uid = t.tid ∧ u = t ∨ s.tcbs uid = some u := by
    intro uid u hu
    obtain rfl | hne := eq_or_ne uid t.tid
    · rw [Function.update_self] at hu
      cases hu
      exact .inl ⟨rfl, rfl⟩
    · rw [Function.update_of_ne hne] at hu
      exact .inr hu
  have hpid : ∀ pid proc, procOf s.tcbs pid = some proc →
      pid ≠ t.tid ∧ procOf (Function.update s.tcbs t.tid (some t)) pid = some proc := by
    intro pid proc hp
    have hne : pid ≠ t.tid := by
      rintro rfl
      rw [procOf, hnew] at hp
      cases hp
    exact ⟨hne, (procOf_update_ne hne _).trans hp⟩
  refine ⟨fun uid u hu => ?_, fun uid u hu => ?_, fun uid u hu hzu hE i hi hb => ?_,
    fun pid proc hp => ?_, fun uid u hu hzu => ?_⟩
  · obtain ⟨rfl, rfl⟩ | hu := hcases uid u hu
    · rfl
    · exact h.tid uid u hu
  · obtain ⟨rfl, rfl⟩ | hu := hcases uid u hu
    · exact fun i j _ hj _ => hz j hj
    · exact h.closed uid u hu
  · obtain ⟨rfl, rfl⟩ | hu := hcases uid u hu
    · rw [hz i hi] at hb
      cases hb
    · obtain ⟨pid, proc, hp, he⟩ := h.rpc uid u hu hzu hE i hi hb
      exact ⟨pid, proc, (hpid pid proc hp).2, he⟩
  · obtain rfl | hne := eq_or_ne pid t.tid
    · change procOf (Function.update s.tcbs t.tid (some t)) t.tid = some proc at hp
      rw [procOf, Function.update_self] at hp
      exact hproc proc hp
    · have hold := (procOf_update_ne hne (some t)).symm.trans hp
      exact (h.proc pid proc hold).spared (fun heq => by cases heq) hs
  · obtain ⟨rfl, rfl⟩ | hu := hcases uid u hu
    · obtain ⟨level, hl, hlev⟩ := hstack
      exact ⟨level, hl, fun i hi => hlev.root i hi.2, hlev.low⟩
    · have hne : uid ≠ t.tid := by
        rintro rfl
        rw [hnew] at hu
        cases hu
      exact (h.stack uid u hu hzu).spared (fun heq => hne (Holder.stack.inj heq)) hs

lemma createVmem_holds (owner : ℕ → Option Holder) (holder : Holder) (kvmem : ℕ) (low : ℕ → Table) :
    Holds owner holder (· < KERNEL_PAGE) ⟨createVmem kvmem, low⟩ :=
  ⟨fun _ => none, fun _ _ h => (by cases h), createVmem_levelled kvmem low⟩

lemma Sound.createThread {rid page : ℕ} {proc : Option Table} {pages : Pages} (h : Sound E s owner)
    (hnew : s.tcbs tid = none) (hp : NewPages owner pages)
    (hproc : ∀ root, proc = some root → root = createVmem s.kvmem)
    (hs : createThread s tid rid page proc pages = some s') :
    Sound E s' (handOut owner (.stack tid)
      (mapTables RPC_STACK_BASE maxOrder maxOrder none pages ⟨createVmem s.kvmem, s.low⟩)) := by
  simp only [Vmem.createThread, Option.bind_eq_bind, Option.bind_eq_some_iff] at hs
  obtain ⟨m, hm, parent, hparent, hs⟩ := hs
  cases hs
  obtain ⟨hstack, hspare⟩ := @setupRpcStack_holds m _ _ _ _ page tid hp hm
  have hz : ∀ i < CSTACK_PAGE, m.root i = 0 := by
    intro i hi
    rw [setupRpcStack_root hm hi]
    exact createVmem_user s.kvmem hi
  have hin := @Sound.insert E s ⟨tid, rid, rid, rid, false, proc, m.root, [], false⟩ owner _ m.low h hnew hz
    hspare hstack fun root hr => by
      rw [hproc root hr]
      exact createVmem_holds _ _ _ _
  exact hin.setTcb_recloned (Function.update_self ..) id ⟨rfl, rfl, parent, hparent, rfl⟩

lemma Sound.call {e : Event} (h : Sound (fun _ => False) x.sys x.owner) (hp : x.Proper (.call e))
    (hc : x.Careful (.call e)) (hs : x.call e = some x') : Sound (fun _ => False) x'.sys x'.owner := by
  cases e with
  | ipc tid c pid room =>
    simp only [Machine.call, Vmem.step, Option.bind_eq_bind, Option.bind_eq_some_iff] at hs
    obtain ⟨t, ht, sys, ⟨t₀, ht₀, t', ht', hsys⟩, hs⟩ := hs
    cases hsys
    obtain rfl := Option.some.inj (ht.symm.trans ht₀)
    have hsound : zombie t = false → Sound (fun _ => False) (x.sys.setTcb tid t') x.owner := by
      intro hz
      obtain rfl | hr := doIpc_cases h.tid ht'
      · exact h.setTcb_same ht rfl rfl rfl id
      · exact h.setTcb_recloned ht (fun _ => hz) hr
    split_ifs at hs with hz
    · cases hs
      exact hsound (Bool.not_eq_true _ ▸ hz)
    · cases hs
      exact hsound (Bool.not_eq_true _ ▸ hz)
  | resp tid =>
    simp only [Machine.call, Option.bind_eq_bind, Option.bind_eq_some_iff] at hs
    obtain ⟨t, ht, hs⟩ := hs
    split_ifs at hs with hz hrpc
    · simp only [Option.bind_eq_some_iff] at hs
      obtain ⟨x₁, hx₁, t', ht', hs⟩ := hs
      cases hs
      have hz : zombie t = false := Bool.not_eq_true _ ▸ hz
      have hdrop := h.unreferenceThread (fun hone uid _ => hc t ht hone uid) hx₁
      have ht₁ := hdrop.alive tid t ht hz
      simp only [leaveRpc, Option.bind_eq_bind, Option.bind_eq_some_iff] at ht'
      obtain ⟨⟨ctx, rest, orphaned⟩, -, ht'⟩ := ht'
      cases ht'
      exact hdrop.sound.setTcb_same ht₁ rfl rfl rfl fun _ => hz
    · cases hs
      exact h
  | fault tid =>
    simp only [Machine.call, Vmem.step, Option.bind_eq_bind, Option.bind_eq_some_iff] at hs
    obtain ⟨sys, ⟨t, ht, t', ht', hsys⟩, hs⟩ := hs
    cases hsys
    split_ifs at hs with ha
    cases hs
    rw [alive, ht, Bool.not_eq_true'] at ha
    exact h.setTcb_recloned ht (fun _ => ha) (handlePagefault_recloned ht')
  | swap tid =>
    simp only [Machine.call, Vmem.step, Option.bind_eq_bind, Option.bind_eq_some_iff] at hs
    obtain ⟨t, ht, sys, ⟨t₀, ht₀, t', ht', hsys⟩, hs⟩ := hs
    cases hsys
    obtain rfl := Option.some.inj (ht.symm.trans ht₀)
    have hsound : zombie t = false → Sound (fun _ => False) (x.sys.setTcb tid t') x.owner := by
      intro hz
      obtain rfl | hr := swap_cases ht'
      · exact h.setTcb_same ht rfl rfl rfl id
      · exact h.setTcb_recloned ht (fun _ => hz) hr
    split_ifs at hs with hz
    · cases hs
      exact hsound (Bool.not_eq_true _ ▸ hz)
    · cases hs
      exact hsound (Bool.not_eq_true _ ▸ hz)
  | detach tid =>
    simp only [Machine.call, Vmem.step, Option.bind_eq_bind, Option.bind_eq_some_iff] at hs
    obtain ⟨sys, ⟨t, ht, hsys⟩, hs⟩ := hs
    cases hsys
    cases hs
    exact h.setTcb_same ht rfl rfl rfl id
  | page pid c => exact h.page hp hc hs
  | exec pid image =>
    simp only [Machine.call, Option.bind_eq_bind, Option.bind_eq_some_iff] at hs
    obtain ⟨t, ht, proc, hproc, hs⟩ := hs
    split_ifs at hs with hok
    · rw [Bool.and_eq_true, decide_eq_true_eq] at hok
      exact h.exec ht hproc hp.1 hp.2 (fun hl => hc hl hok.2) hs
    · cases hs
      exact h
  | create tid new page pages =>
    simp only [Machine.call, Vmem.step, Option.bind_eq_bind, Option.bind_eq_some_iff] at hs
    obtain ⟨t, ht, sys, ⟨t₀, ht₀, r, hr, hsys⟩, hs⟩ := hs
    split_ifs at hsys with hnew
    split_ifs at hs
    cases hs
    exact h.createThread (Option.isNone_iff_eq_none.1 hnew) hp (fun root hroot => by cases hroot) hsys
  | createProc new page pages =>
    simp only [Machine.call, Vmem.step, Option.bind_eq_bind, Option.bind_eq_some_iff] at hs
    obtain ⟨sys, hsys, hs⟩ := hs
    split_ifs at hsys with hnew
    cases hs
    exact h.createThread (Option.isNone_iff_eq_none.1 hnew) hp
      (fun root hroot => (Option.some.inj hroot).symm) hsys

lemma Sound.step (h : Sound (fun _ => False) x.sys x.owner) (hp : x.Proper e) (hc : x.Careful e)
    (hs : x.step e = some x') : Sound (fun _ => False) x'.sys x'.owner := by
  cases e with
  | call e => exact h.call hp hc hs
  | exit tid =>
    simp only [Machine.step, Option.bind_eq_bind, Option.bind_eq_some_iff] at hs
    obtain ⟨t, ht, hs⟩ := hs
    split_ifs at hs with hz
    exact h.destroyThread ht (Bool.not_eq_true _ ▸ hz) (hc t ht) hs
  | share pid =>
    rw [Machine.step] at hs
    split_ifs at hs
    cases hs
    exact h
  | unshare pid => exact (h.unreferenceThread (fun hone uid _ => hc hone uid) hs).sound

lemma Machine.RunsWith.sound (h : Machine.RunsWith Machine.Careful x) :
    Sound (fun _ => False) x.sys x.owner := by
  induction h with
  | init kvmem low =>
    refine ⟨fun tid t ht => ?_, fun tid t ht => ?_, fun tid t ht => ?_, fun pid proc hp => ?_,
      fun tid t ht => ?_⟩
    · cases ht
    · cases ht
    · cases ht
    · cases hp
    · cases ht
  | step e _ hp hc hs ih => exact ih.step hp hc hs

theorem run_tablesHeld (h : Machine.RunsWith Machine.Careful x) : TablesHeld x :=
  h.sound.tablesHeld

lemma Sound.exec_uses {uid : ℕ} (h : Sound (fun _ => False) x.sys x.owner) (hi : image.UserOnly)
    (hp : NewPages x.owner (image.sections.flatMap Mapping.pages))
    (hl : image.loads x.sys.kvmem x.sys.low = true) (ht : x.sys.tcbs pid = some t) (hown : isProc t = true)
    (hone : x.refcount pid = 1) (hu : Uses x.sys uid pid) :
    ∃ x', x.step (.call (.exec pid image)) = some x' ∧ ¬ TablesHeld x' := by
  obtain ⟨u, proc, i, hu, hz, hold, hcs, hb, he⟩ := hu
  have hproc : t.proc = some proc := by
    rw [procOf, ht] at hold
    exact hold
  have hbuilt := @mapSections_built x.owner x.sys.low x.sys.kvmem image hi hp
  generalize hnew : (mapSections ⟨createVmem x.sys.kvmem, x.sys.low⟩ image.sections).1 = new at hbuilt
  obtain ⟨level, -, hlev⟩ := hbuilt.holds (h.proc pid proc hold)
  have hr := unmapAll_levelled hlev fun v hm => (user_top (hi.mapped v hm)).trans (by decide)
  obtain ⟨freed, hfreed, hmem⟩ := hr.levelled.frees fun _ (_ : 0 ≤ _) hi => hi
  have hroot := @unmapAll_root ⟨proc, new.low⟩ i image.mapped (isBranch_stops hb)
  have hgone : pteAddr (u.rpc i) ∈ freed := by
    rw [he, ← show (unmapAll ⟨proc, new.low⟩ image.mapped).root i = proc i from hroot]
    exact hmem i (Nat.zero_le i) (hcs.trans (by decide)) (by rw [hroot]; exact hb)
  refine ⟨{ x with
    sys := x.sys.setProc pid t (mapExec x.sys.kvmem ⟨proc, x.sys.low⟩ image)
    owner := giveBack (handOut x.owner (.proc pid)
      (sectionTables ⟨createVmem x.sys.kvmem, x.sys.low⟩ image.sections)) freed }, ?_, fun hheld => ?_⟩
  · rw [Machine.step, Machine.call, ht]
    simp only [Option.bind_eq_bind, Option.bind_some, hproc, hown, hone, decide_true, Bool.and_true, if_true]
    rw [Machine.exec, hnew, if_pos hl]
    change (destroyEntries _ 0).bind _ = _
    rw [hfreed]
    rfl
  · have hlater : ∃ u', (x.sys.setProc pid t (mapExec x.sys.kvmem ⟨proc, x.sys.low⟩ image)).tcbs uid = some u' ∧
        zombie u' = false ∧ u'.rpc = u.rpc := by
      rw [setProc_tcbs]
      obtain rfl | hne := eq_or_ne uid pid
      · obtain rfl := Option.some.inj (ht.symm.trans hu)
        exact ⟨_, Function.update_self .., hz, rfl⟩
      · exact ⟨u, by rw [Function.update_of_ne hne]; exact hu, hz, rfl⟩
    obtain ⟨u', hu', hz', hrpc⟩ := hlater
    refine hheld uid u' hu' hz' i hcs (by rw [hrpc, he]; exact hb) ?_
    rw [hrpc]
    exact if_pos hgone

lemma Machine.RunsWith.anyhow (h : Machine.RunsWith Machine.Careful x) :
    Machine.RunsWith (fun _ _ => True) x := by
  induction h with
  | init kvmem low => exact .init kvmem low
  | step e _ hp _ hs ih => exact .step e ih hp trivial hs

lemma run_map_oneTable {kvmem a : ℕ} (paddr flags : ℕ) (ha : a ≠ 0) (hp : ProperPages [a]) :
    (PageCall.run ⟨createVmem kvmem, low⟩ (.map paddr 0x200000 flags 1 [a])).root =
      Function.update (createVmem kvmem) 0 (toPte (pa a) VM_V) := by
  obtain ⟨h, -⟩ | ⟨c, rest, hc, -, hwalk⟩ :=
    @mapWalk_unused ⟨createVmem kvmem, low⟩ 0x200000 [a] 0 maxOrder none rfl hp
  · exact absurd h ha
  cases hc
  have hz := @linked_leaf_new ⟨createVmem kvmem, low⟩ a (vmToIndex 0x200000 maxOrder) none (by simp)
    (vmToIndex 0x200000 1)
  rw [PageCall.run, mapVpage, show maxOrder - 1 = 0 + 1 from rfl, hwalk]
  dsimp only [mapWalk]
  rw [hz, if_pos unused_zero]
  rfl

lemma step_page {c : PageCall} (ht : x.sys.tcbs pid = some t) (hproc : t.proc = some proc) :
    x.step (.call (.page pid c)) = some { x with
      sys := x.sys.setProc pid t (c.run ⟨proc, x.sys.low⟩)
      owner := handOut x.owner (.proc pid) (c.tables ⟨proc, x.sys.low⟩) } := by
  rw [Machine.step, Machine.call, Vmem.step, ht]
  simp only [Option.bind_eq_bind, Option.bind_some, hproc]

lemma step_fault (ht : x.sys.tcbs tid = some t) (hz : zombie t = false)
    (hp : procOf x.sys.tcbs t.pid = some proc) :
    x.step (.call (.fault tid)) = some { x with
      sys := x.sys.setTcb tid { t with rpc := cloneUvmem proc t.rpc } } := by
  rw [Machine.step, Machine.call, Vmem.step, ht, alive, ht]
  simp only [Option.bind_eq_bind, Option.bind_some, handlePagefault, hp, hz, Bool.not_false, if_true]

lemma firstFault_runs : ∃ x t, Machine.RunsWith Machine.Careful x ∧ x.sys.tcbs 1 = some t ∧
    isProc t = true ∧ x.refcount 1 = 1 ∧ Uses x.sys 1 1 := by
  obtain ⟨low, hcreate⟩ := @step_createProc (initTcbs 0 fun _ _ => 0) 0x1000 0x2000 1 0x200000 rfl
    ⟨by decide, by decide⟩ (by decide) (by decide)
  have h₁ : Machine.RunsWith Machine.Careful ⟨⟨0, low, Function.update (fun _ => none) 1
      (some (freshTcb 0 1 0x1000))⟩, Function.update (fun _ => 0) 1 1, handOut (fun _ => none) (.stack 1)
        (mapTables RPC_STACK_BASE maxOrder maxOrder none [0x1000, 0x2000] ⟨createVmem 0, fun _ _ => 0⟩)⟩ := by
    refine .step (.call (.createProc 1 0x200000 [0x1000, 0x2000])) (.init 0 fun _ _ => 0) ?_ trivial ?_
    · exact ⟨by decide, by decide, fun _ _ _ => rfl⟩
    · simp only [Machine.step, Machine.call, initMachine, hcreate]
      rfl
  have hroot := @run_map_oneTable low 0 0x5000 0x200000 0x17 (by decide) ⟨by decide, by decide⟩
  have h₂ := h₁.step (.call (.page 1 (.map 0x200000 0x200000 0x17 1 [0x5000]))) (by
      refine ⟨by decide, by decide, by decide, by decide, by decide, fun p hp _ => ?_⟩
      obtain rfl := List.mem_singleton.1 hp
      dsimp only
      rw [handOut, if_neg]
      exact fun hm => absurd (mapTables_mem hm).1 (by decide)) (by
      intro proc hproc y hy
      cases hproc
      have hu := statVpage_used hy
      cases hu) (step_page rfl rfl)
  generalize PageCall.run ⟨createVmem 0, low⟩ (.map 0x200000 0x200000 0x17 1 [0x5000]) = m at h₂ hroot
  have h₃ := h₂.step (.call (.fault 1)) trivial trivial (step_fault rfl rfl rfl)
  refine ⟨_, _, h₃, rfl, rfl, rfl, _, m.root, 0, rfl, rfl, rfl, by decide, ?_, ?_⟩
  · rw [hroot]
    decide +kernel
  · change cloneUvmem m.root (freshTcb 0 1 0x1000).rpc 0 = m.root 0
    rw [hroot]
    decide +kernel

theorem run_tablesHeld_firstFault : ∃ x, Machine.RunsWith Machine.Careful x ∧ Uses x.sys 1 1 ∧ TablesHeld x := by
  obtain ⟨x, t, h, -, -, -, hu⟩ := firstFault_runs
  exact ⟨x, h, hu, run_tablesHeld h⟩

theorem exec_leaves_freed_table : ∃ x, Machine.RunsWith (fun _ _ => True) x ∧ ¬ TablesHeld x := by
  obtain ⟨x, t, h, ht, hown, hone, hu⟩ := firstFault_runs
  have hi : Image.UserOnly ⟨[], true, [0x200000]⟩ := by
    refine ⟨fun y hy => (by cases hy), fun v hv => ?_⟩
    obtain rfl := List.mem_singleton.1 hv
    decide
  have hp : NewPages x.owner [] := ⟨fun p hp => (by cases hp), by decide, fun p hp => (by cases hp)⟩
  obtain ⟨x', hs, hfreed⟩ := h.sound.exec_uses hi hp rfl ht hown hone hu
  exact ⟨x', .step (.call (.exec 1 ⟨[], true, [0x200000]⟩)) h.anyhow ⟨hi, hp⟩ trivial hs, hfreed⟩

end Kmi.Vmem
