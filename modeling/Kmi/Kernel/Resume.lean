import Kmi.Kernel.Exit
import Kmi.Rpc.Resume

/-! Where `sys_ipc_resp` takes a thread when processes on its stack may be gone. -/

namespace Kmi.Kernel

open Library.Prog
open Rpc (Activation Away usable isRpc)

variable {k k' k₁ : State} {c pid : ℤ} {t r : ℕ} {frames : List Activation} {b : Activation}

def givenBack (k : State) (pid : ℤ) : State :=
  match k.getTcb pid with
  | none => k
  | some a =>
    if (k.tcb a).refcount = 1 then { k with tcbs := Function.update k.tcbs (k.tcb a).thread.tid none } else k

structure SameRun (k k' : State) : Prop where
  tcb : ∀ a, ∃ n, k'.tcb a = { k.tcb a with refcount := n }
  tp : k'.tp = k.tp
  cpuTcb : k'.cpuTcb = k.cpuTcb
  ipi : k'.ipi = k.ipi
  size : k'.rpcStackSize = k.rpcStackSize

lemma unreference_table (a : ℕ) : Ends (unreferenceThread (some a))
    (fun _ k' => k'.cpuTcb = k.cpuTcb ∧ k'.rpcStackSize = k.rpcStackSize ∧ k'.tcbs =
      if (k.tcb a).refcount = 1 then Function.update k.tcbs (k.tcb a).thread.tid none else k.tcbs)
    (fun _ _ => True) k := by
  let k₁ := k.setTcb a { k.tcb a with refcount := (k.tcb a).refcount - 1 }
  have hone : (k₁.tcb a).refcount = (k.tcb a).refcount - 1 := by simp [k₁, State.setTcb]
  have htid : (k₁.tcb a).thread.tid = (k.tcb a).thread.tid := by simp [k₁, State.setTcb]
  simp only [unreferenceThread, ends_bind, ends_modifyTcb, ends_get]
  change Ends (onlyIf ((k₁.tcb a).refcount = 0) (destroyThreadData a)) _ _ k₁
  simp only [ends_assert]
  unfold onlyIf
  split
  · rename_i hz
    obtain ⟨nodes, hnodes⟩ := freeAll_freeNode (k₁.tcb a).region.toList
      { k₁ with
        indices := k₁.indices ++ [(k₁.tcb a).thread.tid]
        tcbs := Function.update k₁.tcbs (k₁.tcb a).thread.tid none }
    have hlast : (k.tcb a).refcount = 1 := by omega
    simp only [destroyThreadData, writeTcbs, ends_bind, ends_get, ends_assert, ends_modify, implies_true, true_and,
      ends_iff_of_ok hnodes, ends_iff_of_ok (freeAll_freePage _ _), freeStack]
    intro _ _ _
    rw [if_pos hlast, ← htid]
    exact ⟨rfl, rfl, rfl⟩
  · rename_i hz
    have hlast : ¬(k.tcb a).refcount = 1 := by omega
    simp only [ends_pure, implies_true, true_and]
    intro _
    rw [if_neg hlast]
    exact ⟨rfl, rfl, rfl⟩

lemma unreference_decides (k : State) (pid : ℤ) : Ends (unreferenceThread (k.getTcb pid))
    (fun _ k' => (∀ a, k.getTcb pid = some a → Held k a) ∧ SameRun k k' ∧ k'.tcbs = (givenBack k pid).tcbs)
    (fun _ _ => ¬∀ a, k.getTcb pid = some a → Held k a) k := by
  cases ha : k.getTcb pid with
  | none => exact ⟨nofun, ⟨fun _ => ⟨_, rfl⟩, rfl, rfl, rfl, rfl⟩, by simp only [givenBack, ha]⟩
  | some a =>
    simp only [Option.some.injEq, forall_eq']
    refine ((unreferenceThread_decides k a).and (unreference_table a)).mono ?_ fun _ _ h => h.1.1
    rintro _ k' ⟨⟨hheld, hd⟩, hcpu, hsize, htcbs⟩
    refine ⟨hheld, ⟨fun x => ⟨_, hd.tcb x⟩, hd.tp, hcpu, hd.ipi, hsize⟩, ?_⟩
    simp only [htcbs, givenBack, ha]
    split_ifs <;> rfl

def NotifiedIn (k : State) (c : ℤ) (t : ℕ) (b : Activation) : Prop :=
  (k.tcb t).notifyFlags ≠ 0 ∧ ∃ r, (givenBack k (k.tcb t).thread.pid).getTcb (k.tcb t).notifyId = some r ∧
    unavailable (k.tcb r) = false ∧
    (isSet (k.tcb t).notifyFlags (NOTIFY_IRQ ||| NOTIFY_TIMER) || Rpc.rpcStackEmpty b.rpcStack) = true ∧
    (if r = t then Rpc.rpcStackBase ≤ b.rpcStack - 3 * Rpc.basePageSize - k.rpcStackSize
      else Rpc.enoughRpcStackFor k.rpcStackSize (k.tcb r).thread = true) ∧
    (k.running r && k.tp c ≠ some r) = false

structure GoesOn (x : Rpc.Thread) (b : Activation) : Prop where
  pid : x.pid = b.pid
  eid : x.eid = b.eid
  exec : x.exec = b.exec
  rpcStack : x.rpcStack = b.rpcStack

structure Rehomed (k : State) (t : ℕ) : Prop where
  rid : (k.tcb t).rid = 1
  pid : (k.tcb t).thread.pid = 1
  eid : (k.tcb t).thread.eid = 1
  rpcStack : (k.tcb t).thread.rpcStack = Rpc.rpcStackBase + Rpc.basePageSize * 2 ^ 21
  exec : ∃ init, k.getTcb 1 = some init ∧ (k.tcb t).thread.exec = (k.tcb init).callback

def ResumesAlive (procs : Rpc.Procs) (c : ℤ) (t : ℕ) (frames : List Activation) (k : State) : Prop :=
  k.tp c = some t ∧
    ((∃ b, frames.find? (fun a => usable procs a.pid) = some b ∧ GoesOn (k.tcb t).thread b) ∨
      ((∀ a ∈ frames, usable procs a.pid = false) ∧ Rehomed k t))

def outcome (x : K Unit) (k : State) : Option State :=
  match x k with
  | .ok _ k' => some k'
  | .error .user k' => some k'
  | .error _ _ => none

lemma ends_of_outcome {x : K Unit} {P : State → Prop} (h : outcome x k = some k')
    (hx : Ends x (fun _ k' => P k') (fun e k' => e = .user → P k') k) : P k' := by
  unfold outcome at h
  unfold Ends at hx
  cases hr : x k with
  | ok _ k'' =>
    rw [hr] at h hx
    exact Option.some.inj h ▸ hx
  | error e k'' =>
    rw [hr] at h hx
    cases e with
    | user => exact Option.some.inj h ▸ hx rfl
    | _ => cases h

lemma outcome_of_ends {x : K Unit} {P : State → Prop}
    (hx : Ends x (fun _ k' => P k') (fun e k' => e = .user ∧ P k') k) :
    ∃ k', outcome x k = some k' ∧ P k' := by
  unfold outcome
  unfold Ends at hx
  cases hr : x k with
  | ok _ k' =>
    rw [hr] at hx
    exact ⟨k', rfl, hx⟩
  | error e k' =>
    rw [hr] at hx
    obtain ⟨rfl, hp⟩ := hx
    exact ⟨k', rfl, hp⟩

lemma useTcb_threads (c : ℤ) (r : ℕ) (k : State) :
    Ends (useTcb c r) (fun _ k' => ∀ a, (k'.tcb a).thread = (k.tcb a).thread) (fun e _ => e = .stuck) k := by
  simp only [useTcb, ends_bind, ends_get, ends_deref, ends_modifyTcb, ends_modify, implies_true, true_and]
  intro cur _ a
  by_cases ha : a = r
  · simp [State.setTcb, ha]
  · simp [State.setTcb, ha]

lemma enterRpc_rpcStack {a : Rpc.SysRet} (k : State) : Ends (enterRpc c t r a Rpc.notifyFlags)
    (fun _ k' => (k'.tcb t).thread.rpcStack = Rpc.rpcPosition (k.tcb t).thread) (fun e _ => e = .stuck) k := by
  simp only [enterRpc, ends_bind, ends_get, ends_deref, ends_modifyThread, implies_true, true_and, cloneUvmem,
    ends_pure, referenceThread, ends_modifyTcb]
  intro inUse _ e he _ _ _ _
  obtain ⟨user, x, hc⟩ := Rpc.clearDown_of_enterRpc he
  rw [Rpc.notifyFlags, Rpc.enterRpc_push _ _ _ _ hc] at he
  have hst : e.rpcStack = Rpc.rpcPosition (k.tcb t).thread := by
    rw [← Option.some.inj he, Rpc.rpcPosition_eq]
  by_cases hr : t = r
  · subst hr
    simp [State.setTcb, hst]
  · simp [State.setTcb, hr, hst]

lemma runNotify_rpcStack (k : State) : Ends (runNotify c t r : K Unit) (fun _ _ => False)
    (fun e k' => e = .user → (k'.tcb t).thread.rpcStack = Rpc.rpcPosition (k.tcb t).thread) k := by
  unfold runNotify
  refine ends_bind.2 ((useTcb_threads c r k).mono ?_ fun e _ he hu => ?_)
  · rintro _ k₁ h₁
    rw [ends_bind, ends_get, ends_bind]
    refine (enterRpc_rpcStack k₁).mono ?_ fun e _ he hu => ?_
    · rintro _ k₂ h₂
      rw [h₁] at h₂
      simp only [handOver, note, bklUnlock, retUserspace, lockOp, ends_bind, ends_modifyTcb, ends_modify, ends_throw]
      intro _
      simpa [State.setTcb] using h₂
    · rw [he] at hu
      cases hu
  · rw [he] at hu
    cases hu

lemma notify_thread (k : State) : Ends (notify c t 0) (fun _ k' => (k'.tcb t).thread = (k.tcb t).thread)
    (fun e k' => e = .user → (k'.tcb t).thread.rpcStack = Rpc.rpcPosition (k.tcb t).thread) k := by
  have hthread : ((requested k t 0).tcb t).thread = (k.tcb t).thread := by rw [requested_tcb]
  have hdrop : ∀ handler : Option (Bool × ℤ), Ends (dropFlags t handler)
      (fun _ k' => (k'.tcb t).thread = (k.tcb t).thread) (fun _ _ => False) (requested k t 0) := by
    intro handler
    rw [dropFlags, ends_bind, ends_modifyTcb, note, ends_modify]
    change ((State.setTcb _ t _).tcb t).thread = _
    rw [setTcb_tcb_self, hthread]
  unfold notify
  rw [ends_bind]
  change Ends _ _ _ (requested k t 0)
  rw [ends_bind, ends_get]
  dsimp only
  split
  · exact hthread
  split
  · exact (hdrop _).mono (fun _ _ h => h) fun _ _ h => h.elim
  split
  · exact (hdrop _).mono (fun _ _ h => h) fun _ _ h => h.elim
  split
  · exact hthread
  split
  · exact hthread
  split
  · simp only [sendIpi, ends_bind, ends_get, ends_deref, ends_modify]
    exact ⟨fun _ h => (by cases h), fun _ _ => hthread⟩
  · exact (runNotify_rpcStack _).mono (fun _ _ h => h.elim) fun _ _ h hu => hthread ▸ h hu

def finishRpc (c : ℤ) (t : ℕ) (notification : Bool) : K Unit := do
  onlyIf (((← get).tcb t).notifyFlags ≠ 0) (notify c t 0)
  onlyIf (!notification) do
    bklUnlock
    retUserspace

lemma finishRpc_quiet (m : Bool) (hipi : k.ipi = Ipi.initHeads) (hn : ¬Notifies k c t) : Ends (finishRpc c t m)
    (fun _ k' => (k'.tcb t).thread = (k.tcb t).thread ∧ k'.tp = k.tp)
    (fun e k' => e = .user ∧ (k'.tcb t).thread = (k.tcb t).thread ∧ k'.tp = k.tp) k := by
  have hnotify : Ends (onlyIf ((k.tcb t).notifyFlags ≠ 0) (notify c t 0))
      (fun _ k' => (k'.tcb t).thread = (k.tcb t).thread ∧ k'.tp = k.tp) (fun _ _ => False) k := by
    unfold onlyIf
    split
    · refine ((notify_decides c t hipi).and (notify_thread k)).mono ?_ fun _ _ h => hn h.1
      rintro _ k' ⟨⟨-, -, htp⟩, hthread⟩
      exact ⟨hthread, htp⟩
    · exact ⟨rfl, rfl⟩
  rw [finishRpc, ends_bind, ends_get, ends_bind]
  refine hnotify.mono (fun _ k₁ h₁ => ?_) fun _ _ h => h.elim
  unfold onlyIf
  split
  · exact ⟨rfl, h₁⟩
  · exact h₁

lemma finishRpc_notified (m : Bool) (hipi : k.ipi = Ipi.initHeads) (hn : Notifies k c t) : Ends (finishRpc c t m)
    (fun _ _ => False)
    (fun e k' => e = .user → (k'.tcb t).thread.rpcStack = Rpc.rpcPosition (k.tcb t).thread) k := by
  obtain ⟨r, ⟨hflags, -⟩, -⟩ := id hn
  rw [finishRpc, ends_bind, ends_get, onlyIf, if_pos hflags, ends_bind]
  refine ((notify_decides c t hipi).and (notify_thread k)).mono ?_ fun _ _ h => h.2
  rintro _ k' ⟨⟨hno, -⟩, -⟩
  exact absurd hn hno

structure BackIn (k k' : State) (t : ℕ) (b : Activation) : Prop where
  others : ∀ a, a ≠ t → k'.tcb a = k.tcb a
  thread : ∃ v, k'.tcb t = { k.tcb t with thread := v } ∧ GoesOn v b ∧ v.tid = (k.tcb t).thread.tid ∧
    v.orphan = ((k.tcb t).thread.orphan || !usable k.procs b.pid) ∧
    Rpc.rpcPosition v = b.rpcStack - 2 * Rpc.basePageSize
  below : b.rpcStack ≤ Rpc.rpcStackTop
  rest : k' = { k with tcb := k'.tcb }

lemma leaveRpc_backIn (h : Away (k.tcb t).thread frames) (hrpc : isRpc (k.tcb t).thread = true) (a : Rpc.SysRet) :
    ∃ b rest m k', Rpc.StopsAt k.procs frames b rest ∧ BackIn k k' t b ∧
      ∀ {Q E}, Ends (leaveRpc c t a) Q E k ↔ Ends (finishRpc c t m) Q E k' := by
  obtain ⟨p, hl⟩ := h.layout
  obtain ⟨u, v, b, m, rest, p', hu, hstop, hin, ho, hv, hexec, hst, ho', htid, hbs, hp', hidx⟩ :=
    hl.unwinds (hl.isRpc_iff.1 hrpc) k.procs a
  have hun : unwound k.procs (k.tcb t).thread a = some (u, Rpc.noisy b m) := hu
  refine ⟨b, rest, m, k.setTcb t { k.tcb t with thread := { v with pid := b.pid, eid := b.eid } }, hstop,
    ⟨fun x hx => Function.update_of_ne hx _ _, ⟨_, setTcb_tcb_self .., ⟨rfl, rfl, hexec, hst⟩, htid, ho'.trans ho, ?_⟩, ?_,
      rfl⟩, ?_⟩
  · rw [Rpc.rpcPosition, show ({ v with pid := b.pid, eid := b.eid } : Rpc.Thread).rpcIdx = p' - 1 from hidx, hbs, Rpc.top,
      Rpc.basePageSize]
    ring
  · rw [hbs, Rpc.rpcStackTop_eq, Rpc.top_le_iff]
    exact hp'
  · intro Q E
    have hv' : Rpc.destroyRpc { u with exec := (Rpc.noisy b m).exec, rpcStack := (Rpc.noisy b m).rpcStack } = some v := hv
    rw [leaveRpc, ends_bind, ends_get, ends_bind, ends_deref, hun]
    simp only [reduceCtorEq, false_implies, true_and, Option.some.injEq, forall_eq']
    rw [ends_bind, ends_modifyThread, hin]
    simp only [Bool.not_true, Bool.and_false, Bool.false_eq_true, if_false]
    rw [ends_bind, ends_deref, hv']
    simp only [reduceCtorEq, false_implies, true_and, Option.some.injEq, forall_eq']
    rw [ends_bind, ends_modifyThread, setTcb_tcb_self, setTcb_setTcb]
    rfl

lemma notifies_iff (hs : SameRun k k₁) (htcbs : k₁.tcbs = (givenBack k (k.tcb t).thread.pid).tcbs)
    (hb : BackIn k₁ k' t b) (halive : usable k₁.procs b.pid = true) : Notifies k' c t ↔ NotifiedIn k c t b := by
  obtain ⟨v, hv, hgo, htid, ho, hpos⟩ := hb.thread
  rw [halive] at ho
  have htcb : ∀ a, ∃ n, k'.tcb a = { k.tcb a with refcount := n, thread := if a = t then v else (k.tcb a).thread } := by
    intro a
    obtain ⟨n, hn⟩ := hs.tcb a
    refine ⟨n, ?_⟩
    by_cases ha : a = t
    · subst ha
      rw [hv, hn, if_pos rfl]
    · rw [hb.others a ha, hn, if_neg ha]
  obtain ⟨n, hn⟩ := hs.tcb t
  have htid' : v.tid = (k.tcb t).thread.tid := by rw [htid, hn]
  have hav : ∀ a, unavailable (k'.tcb a) = unavailable (k.tcb a) := by
    intro a
    obtain ⟨m, hm⟩ := htcb a
    by_cases ha : a = t
    · subst ha
      simp [unavailable, Tcb.hasState, Tcb.orphan, hm, ho, hn]
    · simp [unavailable, Tcb.hasState, Tcb.orphan, hm, ha]
  have hget : ∀ id, k'.getTcb id = (givenBack k (k.tcb t).thread.pid).getTcb id := by
    intro id
    have hbase : (givenBack k (k.tcb t).thread.pid).tcb = k.tcb := by
      unfold givenBack
      split
      · rfl
      · split_ifs <;> rfl
    have hids : ∀ a, (k'.tcb a).thread.tid = (k.tcb a).thread.tid := by
      intro a
      obtain ⟨m, hm⟩ := htcb a
      rw [hm]
      dsimp only
      split_ifs with ha
      · rw [htid', ha]
      · rfl
    have htable : k'.tcbs = (givenBack k (k.tcb t).thread.pid).tcbs := by rw [hb.rest, ← htcbs]
    simp only [State.getTcb, htable, hids, hbase]
  have hflags : (k'.tcb t).notifyFlags = (k.tcb t).notifyFlags := by rw [hv, hn]
  have hid : (k'.tcb t).notifyId = (k.tcb t).notifyId := by rw [hv, hn]
  have hrpc : (!isRpc (k'.tcb t).thread) = Rpc.rpcStackEmpty b.rpcStack := by
    rw [hv, isRpc, Bool.not_not, hgo.rpcStack]
  have hsize : k'.rpcStackSize = k.rpcStackSize := by rw [hb.rest, ← hs.size]
  have hroom : ∀ r, Rpc.enoughRpcStackFor k'.rpcStackSize (k'.tcb r).thread = true ↔
      if r = t then Rpc.rpcStackBase ≤ b.rpcStack - 3 * Rpc.basePageSize - k.rpcStackSize
      else Rpc.enoughRpcStackFor k.rpcStackSize (k.tcb r).thread = true := by
    intro r
    obtain ⟨m, hm⟩ := htcb r
    rw [hm, hsize]
    split_ifs with hr
    · rw [Rpc.enoughRpcStackFor, hpos, decide_eq_true_iff]
      constructor <;> intro h <;> linarith
    · rfl
  have hrun : ∀ r, (k'.running r && k'.tp c ≠ some r) = (k.running r && k.tp c ≠ some r) := by
    intro r
    obtain ⟨m, hm⟩ := htcb r
    have hcpu : k'.cpuTcb = k.cpuTcb := by rw [hb.rest, ← hs.cpuTcb]
    have htp : k'.tp = k.tp := by rw [hb.rest, ← hs.tp]
    rw [State.running, hm, hcpu, htp, State.running]
  simp only [Notifies, HandsOver, NotifiedIn, hflags, hid, hget, hav, hrpc, hroom, hrun]
  constructor
  · rintro ⟨r, ⟨h₀, h₁, h₂, h₃, h₄⟩, h₅⟩
    exact ⟨h₀, r, h₁, h₂, h₃, h₄, h₅⟩
  · rintro ⟨h₀, r, h₁, h₂, h₃, h₄, h₅⟩
    exact ⟨r, ⟨h₀, h₁, h₂, h₃, h₄⟩, h₅⟩

lemma outcome_ok {x y : K Unit} (hx : x k = .ok () k₁) : outcome (do x; y) k = outcome y k₁ := by
  rw [outcome, bind_ok hx, outcome]

/-- A response takes the thread on in the innermost process that can be resumed exactly if
there is one, the callee has the reference of the call, and no handler is run there. -/
theorem resp_resumesAlive_iff (h : Away (k.tcb t).thread frames) (hrpc : isRpc (k.tcb t).thread = true)
    (hcur : k.tp c = some t) (hipi : k.ipi = Ipi.initHeads) (d0 d1 d2 d3 : ℤ) :
    (∃ k', outcome (sysIpcResp c t d0 d1 d2 d3) k = some k' ∧ ResumesAlive k.procs c t frames k') ↔
      (∀ a, k.getTcb (k.tcb t).thread.pid = some a → Held k a) ∧
        ∃ b, frames.find? (fun a => usable k.procs a.pid) = some b ∧ ¬NotifiedIn k c t b := by
  have hresp : outcome (sysIpcResp c t d0 d1 d2 d3) k = outcome (do
      unreferenceThread (k.getTcb (k.tcb t).thread.pid)
      leaveRpc c t ⟨Rpc.OK, (k.tcb t).thread.pid, d0, d1, d2, d3⟩) k := by
    rw [sysIpcResp]
    change outcome (if !isRpc (k.tcb t).thread then _ else _ : K Unit) k = _
    rw [hrpc]
    rfl
  rw [hresp]
  have hheld := unreference_decides k (k.tcb t).thread.pid
  have husable := sameCalls_unreference (k := k) (k.tcb t).thread.pid
  cases hx : unreferenceThread (k.getTcb (k.tcb t).thread.pid) k with
  | error e k₁ =>
    have hno := ends_of_eq_error hx hheld
    have he := ends_of_eq_error hx husable
    subst he
    constructor
    · rintro ⟨k', hk', -⟩
      have hstuck : (do
          unreferenceThread (k.getTcb (k.tcb t).thread.pid)
          leaveRpc c t ⟨Rpc.OK, (k.tcb t).thread.pid, d0, d1, d2, d3⟩ : K Unit) k = .error .stuck k₁ := by
        simp only [bind, EStateM.bind, hx]
      rw [outcome, hstuck] at hk'
      cases hk'
    · rintro ⟨hyes, -⟩
      exact absurd hyes hno
  | ok _ k₁ =>
    obtain ⟨hyes, hs, htcbs⟩ := ends_of_eq_ok hx hheld
    have hsame := ends_of_eq_ok hx husable
    rw [outcome_ok hx]
    have haway : Away (k₁.tcb t).thread frames := by rwa [hsame.thread]
    have hrpc₁ : isRpc (k₁.tcb t).thread = true := by rwa [hsame.thread]
    obtain ⟨b, rest, m, k₂, hstop, hback, hends⟩ :=
      leaveRpc_backIn (c := c) haway hrpc₁ ⟨Rpc.OK, (k.tcb t).thread.pid, d0, d1, d2, d3⟩
    have hfind : frames.find? (fun a => usable k.procs a.pid) = if usable k.procs b.pid then some b else none := by
      simpa only [hsame.usable] using hstop.find?_eq
    have hipi₂ : k₂.ipi = Ipi.initHeads := by rw [hback.rest, ← hipi, ← hs.ipi]
    have htp₂ : k₂.tp c = some t := by rw [hback.rest, ← hcur, ← hs.tp]
    obtain ⟨v, hv, hgo, -, -, hpos⟩ := hback.thread
    have hthread : (k₂.tcb t).thread = v := by rw [hv]
    have hnotified : usable k.procs b.pid = true → (Notifies k₂ c t ↔ NotifiedIn k c t b) :=
      fun halive => notifies_iff hs htcbs hback (by rwa [hsame.usable])
    have hfar : ∀ x : Rpc.Thread, x.rpcStack ≤ Rpc.rpcStackTop →
        x.rpcStack ≠ Rpc.rpcStackBase + Rpc.basePageSize * 2 ^ 21 := by
      intro x hx he
      simp only [he, Rpc.rpcStackTop, Rpc.basePageSize] at hx
      omega
    have hbelow := hback.below
    constructor
    · rintro ⟨k', hk', -, hres⟩
      refine ⟨hyes, ?_⟩
      by_cases hn : Notifies k₂ c t
      · have hst := ends_of_outcome hk' ((hends.2 (finishRpc_notified m hipi₂ hn)).mono (fun _ _ h => h.elim) fun _ _ h => h)
        rw [hthread, hpos] at hst
        simp only [Rpc.basePageSize] at hst
        obtain ⟨b', hb', hgo'⟩ | ⟨-, hhome⟩ := hres
        · rw [hfind] at hb'
          split_ifs at hb' with halive
          obtain rfl := Option.some.inj hb'
          rw [hgo'.rpcStack] at hst
          omega
        · exact absurd hhome.rpcStack (hfar _ (by omega))
      · have ht' := (ends_of_outcome (P := fun k' => (k'.tcb t).thread = (k₂.tcb t).thread) hk'
          ((hends.2 (finishRpc_quiet m hipi₂ hn)).mono (fun _ _ h => h.1) fun _ _ h _ => h.2.1))
        obtain ⟨b', hb', -⟩ | ⟨-, hhome⟩ := hres
        · refine ⟨b', hb', ?_⟩
          rw [hfind] at hb'
          split_ifs at hb' with halive
          obtain rfl := Option.some.inj hb'
          rwa [← hnotified halive]
        · refine absurd hhome.rpcStack (hfar _ ?_)
          rw [ht', hthread, hgo.rpcStack]
          exact hbelow
    · rintro ⟨-, b', hb', hn⟩
      rw [hfind] at hb'
      split_ifs at hb' with halive
      obtain rfl := Option.some.inj hb'
      have hquiet := finishRpc_quiet m hipi₂ fun h => hn ((hnotified halive).1 h)
      obtain ⟨k', hk', ht', htp'⟩ := outcome_of_ends (hends.2 hquiet)
      refine ⟨k', hk', by rw [htp', htp₂], .inl ⟨b, by rw [hfind, if_pos halive], ?_⟩⟩
      rw [ht', hthread]
      exact hgo

def clientTcb (tid : ℤ) : Tcb :=
  { zeroTcb .w64 with
    thread := { Rpc.initThread with eid := if tid = 4 then 3 else tid, pid := if tid = 4 then 3 else tid, tid := tid }
    rid := if tid = 4 then 3 else tid
    callback := 8192
    refcount := 2 }

def clientProcs : Rpc.Procs := fun pid => if 1 ≤ pid ∧ pid ≤ 3 then some (clientTcb pid).proc else none

def callingThread : Option Rpc.Thread :=
  Rpc.stepFor Rpc.rpcStackSize clientProcs (clientTcb 4).thread (.ipc .req 2 1 2 3 4)

def awayState (x : Rpc.Thread) (gone : Bool) : State :=
  { blank .w64 with
    tcbs := fun i => if 1 ≤ i ∧ i ≤ 4 ∧ ¬(gone = true ∧ i = 3) then some i.toNat else none
    tcb := fun a => if a = 4 then { clientTcb 4 with thread := x } else clientTcb a
    tp := fun c => if c = 0 then some 4 else none }

lemma away_callingThread {x : Rpc.Thread} (hx : callingThread = some x) :
    Away x [Rpc.activation (clientTcb 4).thread] ∧ isRpc x = true := by
  have hfresh : Rpc.Fresh (clientTcb 4).thread := ⟨rfl, rfl, rfl, fun _ => rfl⟩
  have hroom : Rpc.ThreadRoom Rpc.rpcStackSize clientProcs (clientTcb 4).thread (.ipc .req 2 1 2 3 4) :=
    fun _ => by decide
  refine ⟨.event Rpc.rpcStackSize clientProcs (.ipc .req 2 1 2 3 4) (.fresh hfresh) hroom hx, ?_⟩
  have hrpc : callingThread.map isRpc = some true := rfl
  rw [hx] at hrpc
  exact Option.some.inj hrpc

theorem resp_resumesAlive_iff_client : ∃ x k', Away x [Rpc.activation (clientTcb 4).thread] ∧
    outcome (sysIpcResp 0 4 5 6 7 8) (awayState x false) = some k' ∧
    ResumesAlive (awayState x false).procs 0 4 [Rpc.activation (clientTcb 4).thread] k' := by
  have hsome : callingThread.isSome = true := rfl
  obtain ⟨x, hx⟩ := Option.isSome_iff_exists.1 hsome
  obtain ⟨haway, hrpc⟩ := away_callingThread hx
  have hpid : callingThread.map (·.pid) = some 2 := rfl
  rw [hx] at hpid
  have hpid : x.pid = 2 := Option.some.inj hpid
  have hheld : ∀ a, (awayState x false).getTcb ((awayState x false).tcb 4).thread.pid = some a →
      Held (awayState x false) a := by
    intro a ha
    rw [show ((awayState x false).tcb 4).thread.pid = 2 from hpid] at ha
    obtain rfl : 2 = a := Option.some.inj ha
    exact .inl (show (1 : ℤ) < 2 by decide)
  have hnot : ¬NotifiedIn (awayState x false) 0 4 (Rpc.activation (clientTcb 4).thread) := fun h => h.1 rfl
  obtain ⟨k', hk', hres⟩ :=
    (resp_resumesAlive_iff (k := awayState x false) (c := 0) (t := 4) haway hrpc rfl rfl 5 6 7 8).2
    ⟨hheld, _, rfl, hnot⟩
  exact ⟨x, k', haway, hk', hres⟩

theorem resp_resumes_dead_root : ∃ x k', Away x [Rpc.activation (clientTcb 4).thread] ∧
    outcome (sysIpcResp 0 4 5 6 7 8) (awayState x true) = some k' ∧ k'.tp 0 = some 4 ∧ (k'.tcb 4).thread.pid = 3 ∧
    k'.getTcb 3 = none ∧ ¬ResumesAlive (awayState x true).procs 0 4 [Rpc.activation (clientTcb 4).thread] k' := by
  have hrun : (callingThread.bind fun x => (outcome (sysIpcResp 0 4 5 6 7 8) (awayState x true)).map fun k' =>
      (k'.tp 0, (k'.tcb 4).thread.pid, k'.getTcb 3)) = some (some 4, 3, none) := by decide +kernel
  obtain ⟨x, hx, hk⟩ := Option.bind_eq_some_iff.1 hrun
  obtain ⟨k', hk', hobs⟩ := Option.map_eq_some_iff.1 hk
  simp only [Prod.mk.injEq] at hobs
  obtain ⟨htp, hpid, hgone⟩ := hobs
  refine ⟨x, k', (away_callingThread hx).1, hk', htp, hpid, hgone, ?_⟩
  rintro ⟨-, ⟨b, hb, -⟩ | ⟨-, hhome⟩⟩
  · cases hb
  · rw [hhome.pid] at hpid
    cases hpid

end Kmi.Kernel
