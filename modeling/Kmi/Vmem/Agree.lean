import Kmi.Vmem.Graves

/-! The table a thread runs on agrees with the table of the process it is in. -/

namespace Kmi.Vmem

open Kmi.Mem

variable {s s' : System} {t t' : Tcb} {tcbs tcbs' : ℕ → Option Tcb} {tid pid : ℕ}

def Agrees (s : System) : Prop :=
  ∀ tid t, s.tcbs tid = some t → ∀ v < UVMEM_END, ∀ x, statVpage ⟨t.rpc, s.low⟩ v = some x →
    ∃ proc, procOf s.tcbs t.pid = some proc ∧ statVpage ⟨proc, s.low⟩ v = some x

def NoUser (b : Table) : Prop := ∀ i < CSTACK_PAGE, unused (b i) = true

def InStep (s : System) : Event → Prop
  | .resp tid => ∀ t, s.tcbs tid = some t → ∀ x, unwind s.tcbs t.rehomed t.frames = some x →
      x.1.pid = t.pid ∨ NoUser t.rpc
  | .exec pid image => image.loads s.kvmem s.low = true →
      ∀ tid t, s.tcbs tid = some t → t.pid = pid → NoUser t.rpc
  | .page pid (.unmap vaddr) => ∀ proc, procOf s.tcbs pid = some proc →
      isLeaf (proc (vmToIndex vaddr maxOrder)) = true →
      ∀ tid t, s.tcbs tid = some t → t.pid = pid → unused (t.rpc (vmToIndex vaddr maxOrder)) = true
  | _ => True

inductive RunsWith (cond : System → Event → Prop) : System → Prop
  | init (kvmem : ℕ) (low : ℕ → Table) : RunsWith cond (initTcbs kvmem low)
  | step {s s' : System} (e : Event) : RunsWith cond s → cond s e → step s e = some s' →
      RunsWith cond s'

structure Follows (tcbs : ℕ → Option Tcb) (t : Tcb) : Prop where
  closed : Closed t.rpc
  entry : ∀ i < CSTACK_PAGE, unused (t.rpc i) = false →
    ∃ proc, procOf tcbs t.pid = some proc ∧ proc i = t.rpc i

structure Synced (tcbs : ℕ → Option Tcb) : Prop where
  tid : ∀ tid t, tcbs tid = some t → t.tid = tid
  follows : ∀ tid t, tcbs tid = some t → Follows tcbs t

lemma Follows.congr (h : Follows tcbs t)
    (hp : ∀ i < CSTACK_PAGE, unused (t.rpc i) = false → ∀ proc, procOf tcbs t.pid = some proc →
      proc i = t.rpc i → ∃ proc', procOf tcbs' t.pid = some proc' ∧ proc' i = t.rpc i) :
    Follows tcbs' t := by
  refine ⟨h.closed, fun i hi hu => ?_⟩
  obtain ⟨proc, hproc, he⟩ := h.entry i hi hu
  exact hp i hi hu proc hproc he

lemma Follows.of_noUser (hc : Closed t.rpc) (hn : NoUser t.rpc) : Follows tcbs t := by
  refine ⟨hc, fun i hi hu => ?_⟩
  rw [hn i hi] at hu
  cases hu

lemma procOf_update_ne (hne : pid ≠ tid) (t : Option Tcb) :
    procOf (Function.update tcbs tid t) pid = procOf tcbs pid := by
  simp [procOf, Function.update_of_ne hne]

lemma procOf_update (ht : tcbs tid = some t) (hp : t'.proc = t.proc) (pid : ℕ) :
    procOf (Function.update tcbs tid (some t')) pid = procOf tcbs pid := by
  obtain rfl | hne := eq_or_ne pid tid
  · simp [procOf, ht, hp]
  · exact procOf_update_ne hne _

lemma Synced.setTcb (h : Synced tcbs) (ht : tcbs tid = some t) (htid : t'.tid = t.tid)
    (hp : t'.proc = t.proc) (hf : Follows tcbs t') :
    Synced (Function.update tcbs tid (some t')) := by
  refine ⟨fun uid u hu => ?_, fun uid u hu => ?_⟩
  · obtain rfl | hne := eq_or_ne uid tid
    · rw [Function.update_self] at hu
      cases hu
      exact htid.trans (h.tid uid t ht)
    · rw [Function.update_of_ne hne] at hu
      exact h.tid uid u hu
  · have hfu : Follows tcbs u := by
      obtain rfl | hne := eq_or_ne uid tid
      · rw [Function.update_self] at hu
        cases hu
        exact hf
      · rw [Function.update_of_ne hne] at hu
        exact h.follows uid u hu
    apply hfu.congr
    intro i _ _ proc hproc he
    rw [procOf_update ht hp]
    exact ⟨proc, hproc, he⟩

structure Recloned (tcbs : ℕ → Option Tcb) (t t' : Tcb) : Prop where
  tid : t'.tid = t.tid
  proc : t'.proc = t.proc
  rpc : ∃ proc, procOf tcbs t'.pid = some proc ∧ t'.rpc = cloneUvmem proc t.rpc

lemma Recloned.follows (h : Recloned tcbs t t') (ht : Follows tcbs t) : Follows tcbs t' := by
  obtain ⟨proc, hp, hr⟩ := h.rpc
  refine ⟨?_, fun i hi hu => ⟨proc, hp, ?_⟩⟩
  · rw [hr]
    exact cloneUvmem_closed proc ht.closed
  · rw [hr] at hu ⊢
    exact (cloneUvmem_used proc ht.closed hi hu).symm

lemma Synced.setTcb_recloned (h : Synced tcbs) (ht : tcbs tid = some t) (hr : Recloned tcbs t t') :
    Synced (Function.update tcbs tid (some t')) :=
  h.setTcb ht hr.tid hr.proc (hr.follows (h.follows tid t ht))

lemma enterRpc_recloned {r : Tcb} {flags : Rpc.IpcFlags} (hr : procOf tcbs r.rid = r.proc)
    (h : enterRpc t r flags = some t') : Recloned tcbs t t' := by
  simp only [enterRpc, Option.bind_eq_bind, Option.bind_eq_some_iff] at h
  obtain ⟨proc, hproc, h⟩ := h
  split at h
  · split at h
    · cases h
    · cases h
      exact ⟨rfl, rfl, proc, hr.trans hproc, rfl⟩
  · cases h
    exact ⟨rfl, rfl, proc, hr.trans hproc, rfl⟩

lemma doIpc_cases {flags : Rpc.IpcFlags} {room : Bool} (htid : ∀ tid t, tcbs tid = some t → t.tid = tid)
    (h : doIpc tcbs t pid room flags = some t') : t' = t ∨ Recloned tcbs t t' := by
  rw [doIpc] at h
  split_ifs at h
  · cases h
    exact .inl rfl
  · cases hr : tcbs pid with
    | none =>
      rw [hr] at h
      cases h
      exact .inl rfl
    | some r =>
      rw [hr] at h
      dsimp only at h
      split_ifs at h with hok
      · have hrid : r.rid = pid := by
          simp only [isProc, Bool.and_eq_true, decide_eq_true_eq] at hok
          rw [hok.1.1, htid pid r hr]
        apply Or.inr
        apply enterRpc_recloned _ h
        rw [hrid, procOf, hr]
        rfl
      · cases h
        exact .inl rfl

lemma handlePagefault_recloned (h : handlePagefault tcbs t = some t') : Recloned tcbs t t' := by
  simp only [handlePagefault, Option.bind_eq_bind, Option.bind_eq_some_iff] at h
  obtain ⟨proc, hproc, h⟩ := h
  cases h
  exact ⟨rfl, rfl, proc, hproc, rfl⟩

lemma unorphanize_recloned (h : unorphanize tcbs t = some t') : Recloned tcbs t t' := by
  simp only [unorphanize, Option.bind_eq_bind, Option.bind_eq_some_iff] at h
  obtain ⟨proc, hproc, h⟩ := h
  cases h
  exact ⟨rfl, rfl, proc, hproc, rfl⟩

lemma swap_cases (h : swap tcbs t = some t') : t' = t ∨ Recloned tcbs t t' := by
  rw [swap] at h
  split_ifs at h
  · exact .inr (unorphanize_recloned h)
  · cases h
    exact .inl rfl

lemma ipcResp_cases (h : ipcResp tcbs t = some t') :
    t' = t ∨ ∃ ctx rest orphaned, unwind tcbs t.rehomed t.frames = some (ctx, rest, orphaned) ∧
      t'.tid = t.tid ∧ t'.proc = t.proc ∧ t'.rpc = t.rpc ∧ t'.pid = ctx.pid := by
  rw [ipcResp] at h
  split_ifs at h
  · simp only [leaveRpc, Option.bind_eq_bind, Option.bind_eq_some_iff] at h
    obtain ⟨⟨ctx, rest, orphaned⟩, hu, h⟩ := h
    cases h
    exact .inr ⟨ctx, rest, orphaned, hu, rfl, rfl, rfl, rfl⟩
  · cases h
    exact .inl rfl

lemma Synced.setProc {proc : Table} (h : Synced tcbs) (ht : tcbs pid = some t)
    (hproc : t.proc = some proc) {root : Table}
    (hk : ∀ uid u, tcbs uid = some u → u.pid = pid → ∀ i < CSTACK_PAGE, unused (u.rpc i) = false →
      proc i = u.rpc i → root i = u.rpc i) :
    Synced (Function.update tcbs pid (some { t with proc := some root })) := by
  have hold : procOf tcbs pid = some proc := by
    rw [procOf, ht]
    exact hproc
  have hnew : procOf (Function.update tcbs pid (some { t with proc := some root })) pid =
      some root := by
    simp [procOf]
  have hcongr : ∀ uid u, tcbs uid = some u →
      Follows (Function.update tcbs pid (some { t with proc := some root })) u := by
    intro uid u hu
    apply (h.follows uid u hu).congr
    intro i hi hused proc' hproc' he
    obtain hup | hne := eq_or_ne u.pid pid
    · rw [hup] at hproc' ⊢
      obtain rfl := Option.some.inj (hproc'.symm.trans hold)
      exact ⟨root, hnew, hk uid u hu hup i hi hused he⟩
    · rw [procOf_update_ne hne]
      exact ⟨proc', hproc', he⟩
  refine ⟨fun uid u hu => ?_, fun uid u hu => ?_⟩
  · obtain rfl | hne := eq_or_ne uid pid
    · rw [Function.update_self] at hu
      cases hu
      exact h.tid uid t ht
    · rw [Function.update_of_ne hne] at hu
      exact h.tid uid u hu
  · obtain rfl | hne := eq_or_ne uid pid
    · rw [Function.update_self] at hu
      cases hu
      have := hcongr uid t ht
      exact ⟨this.closed, this.entry⟩
    · rw [Function.update_of_ne hne] at hu
      exact hcongr uid u hu

lemma vmToIndex_rpcStackBase : vmToIndex RPC_STACK_BASE maxOrder = CSTACK_PAGE := by
  decide

lemma setupRpcStack_root {m m' : Space} {page i : ℕ} {pages : Pages}
    (h : setupRpcStack m page pages = some m') (hi : i < CSTACK_PAGE) : m'.root i = m.root i := by
  have hroot := @mapVpage_root_of_ne m i RPC_STACK_BASE page rpcStackFlags pages
    vmToIndex_rpcStackBase.ge hi
  rw [setupRpcStack] at h
  cases hm : mapVpage m page RPC_STACK_BASE rpcStackFlags 0 pages with
  | mk m₁ res =>
    rw [hm] at h hroot
    dsimp only at h
    split_ifs at h
    split at h
    · cases h
      exact hroot
    · cases h

lemma Synced.insert (h : Synced tcbs) (hnew : tcbs t.tid = none) (hz : ∀ i < CSTACK_PAGE, t.rpc i = 0) :
    Synced (Function.update tcbs t.tid (some t)) := by
  refine ⟨fun uid u hu => ?_, fun uid u hu => ?_⟩
  · obtain rfl | hne := eq_or_ne uid t.tid
    · rw [Function.update_self] at hu
      cases hu
      rfl
    · rw [Function.update_of_ne hne] at hu
      exact h.tid uid u hu
  · obtain rfl | hne := eq_or_ne uid t.tid
    · rw [Function.update_self] at hu
      cases hu
      apply Follows.of_noUser
      · exact fun i j _ hj _ => hz j hj
      · intro i hi
        rw [hz i hi]
        rfl
    · rw [Function.update_of_ne hne] at hu
      apply (h.follows uid u hu).congr
      intro i _ _ proc hproc he
      have hpid : u.pid ≠ t.tid := by
        intro heq
        rw [procOf, heq, hnew] at hproc
        cases hproc
      rw [procOf_update_ne hpid]
      exact ⟨proc, hproc, he⟩

lemma Synced.createThread {rid page : ℕ} {proc : Option Table} {pages : Pages} (hs : Synced s.tcbs)
    (hnew : s.tcbs tid = none) (h : createThread s tid rid page proc pages = some s') :
    Synced s'.tcbs := by
  simp only [Vmem.createThread, Option.bind_eq_bind, Option.bind_eq_some_iff] at h
  obtain ⟨m, hm, parent, hparent, h⟩ := h
  cases h
  have hz : ∀ i < CSTACK_PAGE, m.root i = 0 := by
    intro i hi
    rw [setupRpcStack_root hm hi]
    exact createVmem_user s.kvmem hi
  have hin := hs.insert (t := ⟨tid, rid, rid, rid, false, proc, m.root, [], false⟩) hnew hz
  exact hin.setTcb_recloned (Function.update_self ..) ⟨rfl, rfl, parent, hparent, rfl⟩

lemma Synced.page {c : PageCall} (hs : Synced s.tcbs) (hin : InStep s (.page pid c))
    (h : step s (.page pid c) = some s') : Synced s'.tcbs := by
  simp only [step, Option.bind_eq_bind, Option.bind_eq_some_iff] at h
  obtain ⟨t, ht, proc, hproc, h⟩ := h
  cases h
  apply hs.setProc ht hproc
  intro uid u hu hup i hi hused he
  have hold : unused (proc i) = false := by rwa [he]
  rw [← he]
  cases c with
  | map paddr vaddr flags order pages => exact mapVpage_keeps _ _ _ _ _ _ i hold
  | unmap vaddr =>
    apply unmapVpage_root hold
    rintro rfl
    -- a leaf of the top-level table must not be in the thread's table any more
    by_contra hl
    have hgone := hin proc (by rw [procOf, ht]; exact hproc) (Bool.not_eq_false _ ▸ hl) uid u hu hup
    rw [hgone] at hused
    cases hused

lemma Synced.step {e : Event} (hs : Synced s.tcbs) (hin : InStep s e) (h : step s e = some s') :
    Synced s'.tcbs := by
  cases e with
  | ipc tid c pid room =>
    simp only [Vmem.step, Option.bind_eq_bind, Option.bind_eq_some_iff] at h
    obtain ⟨t, ht, t', ht', h⟩ := h
    cases h
    obtain rfl | hr := doIpc_cases hs.tid ht'
    · exact hs.setTcb ht rfl rfl (hs.follows tid _ ht)
    · exact hs.setTcb_recloned ht hr
  | resp tid =>
    simp only [Vmem.step, Option.bind_eq_bind, Option.bind_eq_some_iff] at h
    obtain ⟨t, ht, t', ht', h⟩ := h
    cases h
    have hf := hs.follows tid t ht
    obtain rfl | ⟨ctx, rest, orphaned, hu, htid, hproc, hrpc, hpid⟩ := ipcResp_cases ht'
    · exact hs.setTcb ht rfl rfl hf
    · apply hs.setTcb ht htid hproc
      obtain hsame | hno := hin t ht _ hu
      · refine ⟨by rw [hrpc]; exact hf.closed, ?_⟩
        rw [hrpc, hpid, hsame]
        exact hf.entry
      · apply Follows.of_noUser
        · rw [hrpc]
          exact hf.closed
        · rw [hrpc]
          exact hno
  | fault tid =>
    simp only [Vmem.step, Option.bind_eq_bind, Option.bind_eq_some_iff] at h
    obtain ⟨t, ht, t', ht', h⟩ := h
    cases h
    exact hs.setTcb_recloned ht (handlePagefault_recloned ht')
  | swap tid =>
    simp only [Vmem.step, Option.bind_eq_bind, Option.bind_eq_some_iff] at h
    obtain ⟨t, ht, t', ht', h⟩ := h
    cases h
    obtain rfl | hr := swap_cases ht'
    · exact hs.setTcb ht rfl rfl (hs.follows tid _ ht)
    · exact hs.setTcb_recloned ht hr
  | detach tid =>
    simp only [Vmem.step, Option.bind_eq_bind, Option.bind_eq_some_iff] at h
    obtain ⟨t, ht, h⟩ := h
    cases h
    have hf := hs.follows tid t ht
    exact hs.setTcb ht rfl rfl ⟨hf.closed, hf.entry⟩
  | page pid c => exact hs.page hin h
  | exec pid image =>
    simp only [Vmem.step, Option.bind_eq_bind, Option.bind_eq_some_iff] at h
    obtain ⟨t, ht, proc, hproc, h⟩ := h
    split_ifs at h
    · cases h
      apply hs.setProc ht hproc
      intro uid u hu hup i hi hused he
      rw [mapExec]
      split_ifs with hl
      · have := hin hl uid u hu hup i hi
        rw [this] at hused
        cases hused
      · exact he
    · cases h
      exact hs
  | create tid new page pages =>
    simp only [Vmem.step, Option.bind_eq_bind, Option.bind_eq_some_iff] at h
    obtain ⟨t, ht, e, he, h⟩ := h
    split_ifs at h with hnew
    exact hs.createThread (Option.isNone_iff_eq_none.1 hnew) h
  | createProc new page pages =>
    rw [Vmem.step] at h
    split_ifs at h with hnew
    exact hs.createThread (Option.isNone_iff_eq_none.1 hnew) h

lemma RunsWith.synced (h : RunsWith InStep s) : Synced s.tcbs := by
  induction h with
  | init kvmem low =>
    refine ⟨fun tid t ht => ?_, fun tid t ht => ?_⟩
    · cases ht
    · cases ht
  | step e _ hin hs ih => exact ih.step hin hs

theorem run_agrees (h : RunsWith InStep s) : Agrees s := by
  intro tid t ht v hv x hx
  have hused := statVpage_used hx
  obtain ⟨proc, hproc, he⟩ := (h.synced.follows tid t ht).entry _ (vmToIndex_lt hv) hused
  refine ⟨proc, hproc, ?_⟩
  rw [statVpage_congr he]
  exact hx

section Visit

variable {m : Space} {a a' : ℕ}

lemma setupRpcStack_eq (page : ℕ) (hz : m.root CSTACK_PAGE = 0) (hp : ProperPages [a, a']) (ha : a ≠ 0)
    (ha' : a' ≠ 0) : ∃ low, setupRpcStack m page [a, a'] =
      some ⟨Function.update m.root CSTACK_PAGE (toPte (pa a) VM_V), low⟩ := by
  have hne : some a ≠ some a' := by
    rintro ⟨rfl⟩
    have hnd := hp.nodup
    simp [ha] at hnd
  have hu : unused (m.leaf none (vmToIndex RPC_STACK_BASE maxOrder)) = true := by
    rw [vmToIndex_rpcStackBase, Space.leaf, hz]
    rfl
  obtain ⟨h, -⟩ | ⟨c, rest, hc, -, hwalk⟩ := @mapWalk_unused m RPC_STACK_BASE [a, a'] 1 maxOrder none hu hp
  · exact absurd h ha
  cases hc
  have hz₁ := @linked_leaf_new m a (vmToIndex RPC_STACK_BASE maxOrder) none (by simp)
    (vmToIndex RPC_STACK_BASE 1)
  obtain ⟨h, -⟩ | ⟨c, rest, hc, -, hwalk'⟩ :=
    @mapWalk_unused (linked m none (vmToIndex RPC_STACK_BASE maxOrder) a) RPC_STACK_BASE [a'] 0 1
      (some a) (by rw [hz₁]; rfl) hp.tail
  · exact absurd h ha'
  cases hc
  have hz₂ := @linked_leaf_new (linked m none (vmToIndex RPC_STACK_BASE maxOrder) a) a'
    (vmToIndex RPC_STACK_BASE 1) (some a) hne (vmToIndex RPC_STACK_BASE 0)
  have hwalk₂ := hwalk.trans hwalk'
  generalize hm₂ : linked (linked m none (vmToIndex RPC_STACK_BASE maxOrder) a) (some a)
    (vmToIndex RPC_STACK_BASE 1) a' = m₂ at hwalk₂ hz₂
  have hroot : m₂.root = Function.update m.root CSTACK_PAGE (toPte (pa a) VM_V) := by
    rw [← hm₂, ← vmToIndex_rpcStackBase]
    rfl
  have hlow : m₂.leaf (some a) (vmToIndex RPC_STACK_BASE 1) = toPte (pa a') VM_V := by
    rw [← hm₂, linked_leaf hne hne, if_pos ⟨rfl, rfl⟩]
  obtain ⟨-, hentry⟩ := @page_entry rpcStackFlags (by decide) (by decide)
  obtain ⟨hused, hleaf, -⟩ := hentry (pa page)
  generalize hpte : toPte (pa page) (vpFlags (rpcStackFlags ||| (VM_A ||| VM_D))) = pte at hused hleaf
  have hmap : mapVpage m page RPC_STACK_BASE rpcStackFlags 0 [a, a'] =
      (m₂.setLeaf (some a') (vmToIndex RPC_STACK_BASE 0) pte, OK) := by
    rw [mapVpage, show maxOrder - 0 = 1 + 1 from rfl, hwalk₂, ← hpte]
    dsimp only [mapWalk]
    rw [hz₂, if_pos unused_zero, vmToIndex_rpcStackBase, addGraves, if_pos le_rfl]
  have hfind : findVmem (m₂.setLeaf (some a') (vmToIndex RPC_STACK_BASE 0) pte) RPC_STACK_BASE maxOrder none =
      some (some a', vmToIndex RPC_STACK_BASE 0, 0) := by
    have hk : ∀ b i, b ≠ some a' → (m₂.setLeaf (some a') (vmToIndex RPC_STACK_BASE 0) pte).leaf b i =
        m₂.leaf b i := by
      intro b i hb
      rw [leaf_setLeaf, if_neg]
      exact fun h => hb h.1
    have h₁ : Walks (m₂.setLeaf (some a') (vmToIndex RPC_STACK_BASE 0) pte) RPC_STACK_BASE 1 (some a) := by
      apply Walks.top.branch _ (hp.aligned a (by simp)).1 (hp.aligned a (by simp)).2
      rw [hk _ _ (by simp), Space.leaf, hroot,
        show vmToIndex RPC_STACK_BASE (1 + 1) = CSTACK_PAGE from vmToIndex_rpcStackBase, Function.update_self]
    have h₀ := h₁.branch ((hk _ _ hne).trans hlow) (hp.aligned a' (by simp)).1 (hp.aligned a' (by simp)).2
    have he : (m₂.setLeaf (some a') (vmToIndex RPC_STACK_BASE 0) pte).leaf (some a')
        (vmToIndex RPC_STACK_BASE 0) = pte := by
      rw [leaf_setLeaf, if_pos ⟨rfl, rfl⟩]
    rw [h₀.findVmem, findVmem, if_neg (by rw [he, hused]; decide), if_pos (by rw [he]; exact hleaf)]
  rw [setupRpcStack, hmap]
  dsimp only
  rw [if_pos rfl, hfind]
  exact ⟨_, congrArg some (by rw [← hroot]; rfl)⟩

def freshTcb (kvmem tid a : ℕ) : Tcb :=
  ⟨tid, tid, tid, tid, false, some (createVmem kvmem),
    cloneUvmem (createVmem kvmem) (Function.update (createVmem kvmem) CSTACK_PAGE (toPte (pa a) VM_V)),
    [], false⟩

lemma step_createProc {new : ℕ} (page : ℕ) (hnew : s.tcbs new = none) (hp : ProperPages [a, a'])
    (ha : a ≠ 0) (ha' : a' ≠ 0) :
    ∃ low, step s (.createProc new page [a, a']) =
      some ⟨s.kvmem, low, Function.update s.tcbs new (some (freshTcb s.kvmem new a))⟩ := by
  obtain ⟨low, hm⟩ := @setupRpcStack_eq ⟨createVmem s.kvmem, s.low⟩ a a' page rfl hp ha ha'
  refine ⟨low, ?_⟩
  rw [step, hnew, Option.isNone_none, if_pos rfl, createThread, hm]
  simp only [Option.bind_eq_bind, Option.bind_some, procOf, Function.update_self, Function.update_idem]
  rfl

def twoTcbs : ℕ → Option Tcb :=
  Function.update (Function.update (fun _ => none) 1 (some (freshTcb 0 1 0x1000))) 2
    (some (freshTcb 0 2 0x3000))

lemma twoTcbs_runs (cond : System → Event → Prop) (hc : ∀ s new page pages, cond s (.createProc new page pages)) :
    ∃ low, RunsWith cond ⟨0, low, twoTcbs⟩ := by
  obtain ⟨low, h₁⟩ := @step_createProc (initTcbs 0 fun _ _ => 0) 0x1000 0x2000 1 0x200000 rfl
    ⟨by decide, by decide⟩ (by decide) (by decide)
  obtain ⟨low', h₂⟩ := @step_createProc
    ⟨0, low, Function.update (fun _ => none) 1 (some (freshTcb 0 1 0x1000))⟩ 0x3000 0x4000 2 0x400000 rfl
    ⟨by decide, by decide⟩ (by decide) (by decide)
  exact ⟨low', .step _ (.step _ (.init 0 fun _ _ => 0) (hc ..) h₁) (hc ..) h₂⟩

lemma statVpage_of_root {root : Table} {low : ℕ → Table} {v : ℕ}
    (h : stops (root (vmToIndex v maxOrder)) = true) :
    statVpage ⟨root, low⟩ v = entryStat (root (vmToIndex v maxOrder)) maxOrder := by
  rw [statVpage_eq]
  exact statFrom_stops h

def pageRoot : Table := (PageCall.run ⟨createVmem 0, fun _ _ => 0⟩ (.map 0x80000000 0x40000000 0x17 2 [])).root

def visitRoot : Table := cloneUvmem pageRoot (freshTcb 0 1 0x1000).rpc

lemma statVpage_visitRoot (low : ℕ → Table) :
    statVpage ⟨visitRoot, low⟩ 0x40000000 = some ⟨0x80000000, 2, 0xd7⟩ := by
  rw [statVpage_of_root (by decide +kernel)]
  decide +kernel

lemma visit_runs (cond : System → Event → Prop) (hc : ∀ s new page pages, cond s (.createProc new page pages))
    (hm : ∀ s paddr vaddr flags order pages, cond s (.page 2 (.map paddr vaddr flags order pages)))
    (hi : ∀ s tid c pid room, cond s (.ipc tid c pid room)) :
    ∃ low, RunsWith cond ⟨0, low, Function.update (Function.update twoTcbs 2
      (some { freshTcb 0 2 0x3000 with proc := some pageRoot })) 1
      (some ⟨1, 2, 1, 1, false, some (createVmem 0), visitRoot, [⟨1, 1⟩], false⟩)⟩ := by
  obtain ⟨low, h⟩ := twoTcbs_runs cond hc
  exact ⟨_, .step (.ipc 1 .req 2 true) (.step (.page 2 (.map 0x80000000 0x40000000 0x17 2 [])) h
    (hm ..) rfl) (hi ..) rfl⟩

theorem run_agrees_visit :
    ∃ s t, RunsWith InStep s ∧ s.tcbs 1 = some t ∧ t.pid = 2 ∧
      statVpage ⟨t.rpc, s.low⟩ 0x40000000 = some ⟨0x80000000, 2, 0xd7⟩ ∧ Agrees s := by
  obtain ⟨low, h⟩ := visit_runs InStep (fun _ _ _ _ => trivial) (fun _ _ _ _ _ _ => trivial)
    (fun _ _ _ _ _ => trivial)
  exact ⟨_, _, h, rfl, rfl, statVpage_visitRoot low, run_agrees h⟩

theorem response_keeps_callee_page :
    ∃ s, RunsWith (fun _ _ => True) s ∧ ¬ Agrees s := by
  obtain ⟨low, h⟩ := visit_runs (fun _ _ => True) (fun _ _ _ _ => trivial) (fun _ _ _ _ _ _ => trivial)
    (fun _ _ _ _ _ => trivial)
  refine ⟨_, .step (.resp 1) h trivial rfl, fun hag => ?_⟩
  obtain ⟨proc, hp, hx⟩ := hag 1 _ rfl 0x40000000 (by decide) _ (statVpage_visitRoot low)
  cases hp
  rw [statVpage_of_root (by decide +kernel)] at hx
  cases hx
end Visit

end Kmi.Vmem
