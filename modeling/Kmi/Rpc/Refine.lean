import Kmi.Rpc.Reach

/-! The RPC stack behaves as a stack of activations. -/

namespace Kmi.Rpc

variable {t t' : Thread} {s : CallStack} {procs : Procs}

@[simp]
lemma getRegs_setRegs (t : Thread) (r : Regs) : getRegs (setRegs t r) = r := by
  simp [getRegs, setRegs, regsPage]

namespace Represents

lemma inRpc_eq (h : Represents t s) : isRpc t = s.inRpc := by
  obtain ⟨k, hl⟩ := h.layout
  have := hl.isRpc_iff
  cases hs : s.suspended <;> simp_all [CallStack.inRpc]

lemma flags_eq (h : Represents t s) (c : Call) :
    c.flags t = ⟨!s.pushes c, s.forwards c, false⟩ := by
  cases c <;> simp [Call.flags, CallStack.pushes, CallStack.forwards, h.inRpc_eq]

lemma caller_eq (h : Represents t s) (c : Call) :
    (if s.forwards c then t.eid else t.pid) = s.caller c := by
  rw [CallStack.caller, h.eid, h.pid]

lemma answer (h : Represents t s) (a : SysRet) : Represents (setRetFast t a) (s.answer a) where
  pid := h.pid
  eid := h.eid
  exec := h.exec
  rpcStack := h.rpcStack
  regs := h.regs
  saved := by rw [setRetFast, getRegs_setRegs, h.saved]; rfl
  orphan := h.orphan
  idx_pos := h.idx_pos
  layout := h.layout.imp fun _ hl => hl.setRegs _

lemma fail (h : Represents t s) (status : ℤ) : Represents (setArgs1 t status) (s.fail status) := by
  rw [setArgs1, CallStack.fail, h.saved]
  exact h.answer _

lemma userRun (h : Represents t s) (exec : ℤ) (regs : Regs) (page : ℤ → StackPage) :
    Represents (userRun t exec regs page)
      { s with current := { s.current with exec := exec, saved := regs } } where
  pid := h.pid
  eid := h.eid
  exec := rfl
  rpcStack := h.rpcStack
  regs := h.regs
  saved := getRegs_setRegs _ _
  orphan := h.orphan
  idx_pos := h.idx_pos
  layout := by
    obtain ⟨k, hl⟩ := h.layout
    exact ⟨k, hl.userRun exec regs page⟩

lemma handlePagefault (h : Represents t s) {addr : ℤ} (hne : pageOf addr ≠ 0) :
    ∃ t', handlePagefault t addr = some t' ∧ Represents t' s := by
  unfold Rpc.handlePagefault
  split_ifs with hin
  · -- the page of the address is below the cursor and all pages up to it are made accessible
    have hb : rpcStackBase % basePageSize = 0 := by decide
    simp only [inRpcStack, Bool.and_eq_true, decide_eq_true_eq] at hin
    simp only [basePageSize] at hb hin
    have halign : (addr - addr % basePageSize) % basePageSize = 0 := by
      simp only [basePageSize]
      omega
    have hp : pageOf (addr - addr % basePageSize) = pageOf addr := by
      simp only [pageOf, basePageSize]
      omega
    have hpos : 0 < pageOf addr := by
      simp only [pageOf, basePageSize] at hne ⊢
      omega
    have hlt : pageOf addr < t.rpcIdx := by
      simp only [pageOf, basePageSize]
      omega
    rw [growRpc, hp, if_pos ⟨halign, hlt.le⟩]
    obtain ⟨k, hl⟩ := h.layout
    refine ⟨_, rfl, ⟨h.pid, h.eid, h.exec, h.rpcStack, h.regs, h.saved, h.orphan, hpos, k, ?_⟩⟩
    exact hl.grow hpos.le hlt rfl
  · exact ⟨t, rfl, h⟩

lemma push (h : Represents t s) (r : Proc) (c : Call) (d0 d1 d2 d3 : ℤ)
    (henough : enoughRpcStack t = true) :
    ∃ t', enterRpc t r ⟨s.caller c, t.tid, d0, d1, d2, d3⟩ ⟨false, s.forwards c, false⟩ = some t' ∧
      t'.tid = t.tid ∧ Represents t' (s.push (s.callee t.width t.tid t'.rpcStack r c d0 d1 d2 d3)) := by
  obtain ⟨k, hl⟩ := h.layout
  obtain ⟨user, x, hc⟩ := hl.clearDown_exists h.idx_pos
  have hroom := two_lt_of_enoughRpcStack henough
  refine ⟨_, enterRpc_push r _ _ _ hc, rfl, ⟨rfl, h.caller_eq c, rfl, rfl, rfl, ?_, h.orphan, ?_, ?_⟩⟩
  · simp [getRegs, regsPage, CallStack.push, CallStack.callee]
  · change 0 < t.rpcIdx - 2
    omega
  · refine ⟨t.rpcIdx - 1, hl.push hroom.le hc ?_ rfl rfl rfl rfl rfl ?_ ?_⟩
    · rw [h.pid, h.eid, h.exec, h.rpcStack, h.regs, h.saved]
    · simp
    · exact fun i hi => Function.update_of_ne hi _ _

lemma replace (h : Represents t s) (hs : s.suspended ≠ []) (r : Proc) (c : Call)
    (d0 d1 d2 d3 : ℤ) :
    ∃ t', enterRpc t r ⟨s.caller c, t.tid, d0, d1, d2, d3⟩ ⟨true, s.forwards c, false⟩ = some t' ∧
      t'.tid = t.tid ∧
      Represents t' (s.replace (s.callee t.width t.tid s.current.rpcStack r c d0 d1 d2 d3)) := by
  obtain ⟨k, hl⟩ := h.layout
  obtain ⟨user, x, hc⟩ := hl.clearDown_exists h.idx_pos
  have hk : s.current.rpcStack = top k := h.rpcStack.symm.trans hl.rpcStack
  refine ⟨_, enterRpc_replace r _ _ hl.rpcStack (hl.isRpc_iff.2 hs) hc, rfl,
    ⟨rfl, h.caller_eq c, rfl, h.rpcStack, ?_, ?_, h.orphan, ?_, ?_⟩⟩
  · simp [CallStack.replace, CallStack.callee, hk]
  · simp [getRegs, regsPage, CallStack.replace, CallStack.callee, hk]
  · obtain ⟨-, hlt, -⟩ := hl.cursor_of_inRpc hs
    have := hl.frames.le
    obtain ⟨-, -, hlow, -⟩ := clearDown_spec hc (by omega)
    have := (hlow (by omega)).1
    change 0 < x + 1
    omega
  · refine ⟨k, hl.replace hs hc rfl rfl hl.regs.symm rfl rfl ?_ ?_⟩
    · simp
    · exact fun i hi => Function.update_of_ne hi _ _

lemma ipc (h : Represents t s) (c : Call) (pid d0 d1 d2 d3 : ℤ) :
    ∃ t', sysIpc procs t c pid d0 d1 d2 d3 = some t' ∧ t'.tid = t.tid ∧
      Represents t' (s.step t.width procs t.tid (enoughRpcStack t) t'.rpcStack (.ipc c pid d0 d1 d2 d3)) := by
  simp only [sysIpc, doIpc, h.flags_eq, Bool.not_not, CallStack.step, h.caller_eq]
  by_cases hroom : (s.pushes c && !enoughRpcStack t) = true
  · simp only [hroom, if_true]
    exact ⟨_, rfl, rfl, h.fail _⟩
  simp only [hroom, Bool.false_eq_true, if_false]
  cases hr : procs pid with
  | none => exact ⟨_, rfl, rfl, h.fail _⟩
  | some r =>
    simp only
    by_cases hok : (isProc r && !zombie r) = true
    · rw [if_pos hok]
      simp only [hok, Bool.not_true, Bool.false_eq_true, if_false]
      by_cases hp : s.pushes c = true
      · simp only [hp, Bool.not_true, if_true]
        apply h.push
        simpa [hp] using hroom
      · simp only [Bool.not_eq_true] at hp
        simp only [hp, Bool.not_false, Bool.false_eq_true, if_false]
        apply h.replace
        intro hnil
        cases c <;> simp [CallStack.pushes, CallStack.inRpc, hnil] at hp
    · rw [if_neg hok]
      simp only [hok, Bool.not_false, if_true]
      exact ⟨_, rfl, rfl, h.fail _⟩

lemma resp (h : Represents t s) (halive : ∀ a ∈ s.suspended, usable procs a.pid = true)
    (d0 d1 d2 d3 : ℤ) :
    ∃ t', sysIpcResp procs t d0 d1 d2 d3 = some t' ∧ t'.tid = t.tid ∧
      Represents t' (s.pop d0 d1 d2 d3) := by
  obtain ⟨⟨cpid, ceid, cexec, crpcStack, cregs, csaved⟩, stack⟩ := s
  rw [sysIpcResp, h.inRpc_eq]
  cases stack with
  | nil => exact ⟨_, rfl, rfl, h.fail _⟩
  | cons a rest =>
    obtain ⟨k, hl⟩ := h.layout
    obtain ⟨-, hctx, k', hs, hregs, hsaved, hlt, hgap, hrest⟩ := hl.frames
    have hidx := hl.idx_le
    have hk := hl.frames.le
    have hpos := h.idx_pos
    obtain ⟨⟨user, y⟩, hc⟩ := @clearUp_exists t.user t.rpcIdx 513 hpos.le (by omega)
      (by push_cast; omega)
    rw [hs] at hctx
    have heq := leaveRpc_pop ⟨OK, t.pid, d0, d1, d2, d3⟩ hl.rpcStack h.orphan
      (halive a (List.mem_cons_self ..)) hctx hc
    refine ⟨_, heq, rfl, ⟨rfl, rfl, rfl, hs.symm, hregs.symm, ?_, h.orphan, ?_, k', ?_⟩⟩
    · have hpid : t.pid = cpid := h.pid
      simp [getRegs, regsPage, hsaved, hpid, CallStack.pop, CallStack.answer]
    · change 0 < k' - 1
      omega
    · refine hl.pop (List.cons_ne_nil _ _) (hrest.congr (fun i _ hi => hi) ?_ ?_) hlt hgap hc
        rfl rfl rfl rfl rfl
      · intro i _ _
        by_cases he : i = k' <;> simp [he]
      · intro i hi _
        have : i ≠ k' := by omega
        simp [this]

lemma root (hf : Fresh t) (ho : t.orphan = false) : Represents t (CallStack.root t) where
  pid := rfl
  eid := rfl
  exec := rfl
  rpcStack := rfl
  regs := rfl
  saved := rfl
  orphan := ho
  idx_pos := by
    rw [hf.rpcIdx]
    decide
  layout := ⟨511, .root hf⟩

end Represents

inductive Implements : Thread → CallStack → List (Procs × Event) → Prop
  | nil {t : Thread} {s : CallStack} : Represents t s → Implements t s []
  | cons {t t' : Thread} {s : CallStack} {procs : Procs} {e : Event}
      {run : List (Procs × Event)} : Represents t s → step procs t e = some t' →
      Implements t' (s.step t.width procs t.tid (enoughRpcStack t) t'.rpcStack e) run →
      Implements t s ((procs, e) :: run)

def visited : Thread → List (Procs × Event) → List ℤ
  | t, [] => [t.pid]
  | t, (procs, e) :: run =>
    t.pid :: match step procs t e with
      | none => []
      | some t' => visited t' run

def AllAlive (t : Thread) (run : List (Procs × Event)) : Prop :=
  ∀ p ∈ visited t run, ∀ e ∈ run, usable e.1 p = true

lemma pid_mem_visited (t : Thread) (run : List (Procs × Event)) : t.pid ∈ visited t run := by
  cases run with
  | nil => exact List.mem_singleton_self _
  | cons e run => exact List.mem_cons_self ..

def NoFaultInPageZero (run : List (Procs × Event)) : Prop :=
  ∀ procs addr, (procs, Event.fault addr) ∈ run → pageOf addr ≠ 0

def CallStack.Within (V : ℤ → Prop) (s : CallStack) : Prop :=
  V s.current.pid ∧ ∀ a ∈ s.suspended, V a.pid

lemma CallStack.Within.step {V : ℤ → Prop} (h : s.Within V) {tid : ℤ} {enough : Bool} {rpcStack : ℤ} {e : Event}
    (hcur : V (s.step w procs tid enough rpcStack e).current.pid) :
    (s.step w procs tid enough rpcStack e).Within V := by
  refine ⟨hcur, ?_⟩
  cases e with
  | user exec regs page => exact h.2
  | fault addr => exact h.2
  | ipc c pid d0 d1 d2 d3 =>
    simp only [CallStack.step]
    by_cases hroom : (s.pushes c && !enough) = true
    · rw [if_pos hroom]
      exact h.2
    rw [if_neg hroom]
    cases hr : procs pid with
    | none => exact h.2
    | some r =>
      simp only
      split_ifs with hok hp
      · exact h.2
      · exact List.forall_mem_cons.2 h
      · exact h.2
  | resp d0 d1 d2 d3 =>
    obtain ⟨cur, stack⟩ := s
    cases stack with
    | nil => exact h.2
    | cons a rest => exact (List.forall_mem_cons.1 h.2).2

lemma Represents.step (h : Represents t s) {e : Event}
    (halive : ∀ a ∈ s.suspended, usable procs a.pid = true)
    (hfault : ∀ addr, e = .fault addr → pageOf addr ≠ 0) :
    ∃ t', step procs t e = some t' ∧
      Represents t' (s.step t.width procs t.tid (enoughRpcStack t) t'.rpcStack e) := by
  cases e with
  | user exec regs page => exact ⟨_, rfl, h.userRun exec regs page⟩
  | fault addr => exact h.handlePagefault (hfault addr rfl)
  | ipc c pid d0 d1 d2 d3 =>
    obtain ⟨t', hs, -, hr⟩ := @Represents.ipc t s procs h c pid d0 d1 d2 d3
    exact ⟨t', hs, hr⟩
  | resp d0 d1 d2 d3 =>
    obtain ⟨t', hs, -, hr⟩ := h.resp halive d0 d1 d2 d3
    exact ⟨t', hs, hr⟩

lemma Represents.implements {V : ℤ → Prop} {run : List (Procs × Event)} (h : Represents t s)
    (hw : s.Within V) (hV : ∀ e ∈ run, ∀ p, V p → usable e.1 p = true) (hvisited : ∀ p ∈ visited t run, V p)
    (hfault : NoFaultInPageZero run) : Implements t s run := by
  induction run generalizing t s with
  | nil => exact .nil h
  | cons pe run ih =>
    obtain ⟨procs, e⟩ := pe
    obtain ⟨t', hs, hr⟩ := @Represents.step t s procs h e
      (fun a ha => hV _ (List.mem_cons_self ..) _ (hw.2 a ha))
      (fun addr he => hfault procs addr (he ▸ List.mem_cons_self ..))
    have hrest : ∀ p ∈ visited t' run, V p := by
      intro p hp
      apply hvisited
      rw [visited, hs]
      exact List.mem_cons_of_mem _ hp
    refine .cons h hs (ih hr ?_ ?_ hrest ?_)
    · apply hw.step
      rw [← hr.pid]
      exact hrest _ (pid_mem_visited t' run)
    · exact fun e he => hV e (List.mem_cons_of_mem _ he)
    · exact fun procs addr he => hfault procs addr (List.mem_cons_of_mem _ he)

theorem rpcStack_implements_callStack (t : Thread) (run : List (Procs × Event)) (hf : Fresh t)
    (ho : t.orphan = false) (ha : AllAlive t run) (hz : NoFaultInPageZero run) :
    Implements t (CallStack.root t) run := by
  apply @Represents.implements t (CallStack.root t) (· ∈ visited t run) run (Represents.root hf ho)
  · exact ⟨pid_mem_visited t run, by simp [CallStack.root]⟩
  · exact fun e he p hp => ha p hp e he
  · exact fun p hp => hp
  · exact hz

def initThread : Thread where
  width := .w64
  exec := 4096
  regs := rpcStackTop - sizeofCallCtx .w64
  rpcStack := rpcStackTop
  rpcIdx := rpcPages - 1
  eid := 1
  pid := 1
  tid := 1
  orphan := false
  user := fun _ => false
  page := fun _ => ⟨⟨0, 0, 0, 0, false⟩, ⟨⟨0, 0, 0, 0, 0, 0⟩, 0⟩⟩

def twoProcs : Procs := fun pid => if pid = 1 ∨ pid = 2 then some ⟨pid, pid, 8192, false⟩ else none

lemma initThread_fresh : Fresh initThread := ⟨rfl, rfl, rfl, fun _ => rfl⟩

def twoCalls : List (Procs × Event) :=
  [(twoProcs, .fault (rpcStackTop - 5000)), (twoProcs, .ipc .req 2 1 2 3 4), (twoProcs, .ipc .kick 1 5 6 7 8),
    (twoProcs, .resp 9 10 11 12)]

theorem rpcStack_implements_callStack_two : Implements initThread (CallStack.root initThread) twoCalls := by
  apply rpcStack_implements_callStack initThread _ initThread_fresh rfl
  · have hpids : visited initThread twoCalls = [1, 1, 2, 1, 1] := by decide +kernel
    intro p hp e he
    have hprocs : e.1 = twoProcs := by
      fin_cases he <;> rfl
    rw [hpids] at hp
    rw [hprocs]
    fin_cases hp <;> decide
  · intro procs addr hmem
    have : procs = twoProcs ∧ addr = rpcStackTop - 5000 := by
      simpa [twoCalls] using hmem
    rw [this.2]
    decide

end Kmi.Rpc
