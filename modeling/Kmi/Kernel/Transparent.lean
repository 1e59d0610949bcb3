import Kmi.Kernel.Notify
import Kmi.Rpc.Serve

/-! What a notification changes, and what the notified thread goes on with. -/

namespace Kmi.Kernel

open Library.Prog

variable {α : Type} {k k' k₂ : State} {c : ℤ} {t r : ℕ} {flags : BitVec 32}

def requested (k : State) (t : ℕ) (flags : BitVec 32) : State :=
  noted k t ((k.tcb t).notifyFlags ||| flags) (.request t flags)

lemma requested_tcb (a : ℕ) : (requested k t flags).tcb a =
    { k.tcb a with notifyFlags := if a = t then (k.tcb t).notifyFlags ||| flags else (k.tcb a).notifyFlags } :=
  noted_tcb k t _ _ a

lemma requested_getTcb (i : ℤ) : (requested k t flags).getTcb i = k.getTcb i := by
  unfold State.getTcb
  simp only [requested_tcb]
  rfl

lemma notify_enters (hr : k.getTcb (k.tcb t).notifyId = some r) (h : notify c t flags k = .error .user k') :
    runNotify c t r (requested k t flags) = (.error .user k' : EStateM.Result Exit State Unit) := by
  have hends : Ends (notify c t flags) (fun _ _ => True)
      (fun e k' => e = .stuck ∨ runNotify c t r (requested k t flags) = (.error e k' : EStateM.Result Exit State Unit))
      k := by
    unfold notify
    rw [ends_bind]
    change Ends _ _ _ (requested k t flags)
    rw [ends_bind, ends_get]
    have hr' : (requested k t flags).getTcb ((requested k t flags).tcb t).notifyId = some r := by
      rw [requested_getTcb, requested_tcb, hr]
    dsimp only
    rw [hr']
    split
    · trivial
    split
    · rename_i hnone
      cases hnone
    · rename_i s hs
      obtain rfl := Option.some.inj hs
      split
      · trivial
      split
      · trivial
      split
      · trivial
      split
      · simp only [sendIpi, ends_bind, ends_get, ends_deref, ends_modify, implies_true, true_or, and_self]
      · unfold Ends
        cases runNotify c t r (requested k t flags) with
        | ok a k'' => trivial
        | error e k'' => exact .inr rfl
  exact (ends_of_eq_error h hends).resolve_left fun hstuck => by cases hstuck

lemma runNotify_tp (k : State) : Ends (runNotify c t r : K Unit) (fun _ _ => False)
    (fun e k' => e = .stuck ∨ k'.tp = Function.update k.tp c (some r)) k := by
  simp only [runNotify, useTcb, enterRpc, cloneUvmem, referenceThread, handOver, note, bklUnlock, retUserspace, lockOp,
    ends_bind, ends_get, ends_deref, ends_modifyTcb, ends_modifyThread, ends_modify, ends_pure, ends_throw,
    implies_true, true_and, true_or]
  intro cur _ inUse _ e _ _ _ _ _
  exact .inr rfl

def delivered (k k' : State) (t : ℕ) (flags : BitVec 32) : BitVec 32 :=
  ((k.tcb t).notifyFlags ||| flags) &&& ~~~(k'.tcb t).notifyFlags

/-- Thread `t` runs the handler of `r` next, and nothing but its own state and a reference
to `r` has changed. What `enter_rpc` touches of RPC stacks is in the address space of `r`,
which `use_tcb` has put in use. -/
structure Entered (c : ℤ) (t r : ℕ) (flags : BitVec 32) (k k' : State) : Prop where
  next : k'.tp = Function.update k.tp c (some t)
  cpu : ∀ cur, k.tp c = some cur → k'.cpuTcb = Function.update k.cpuTcb (k.tcb cur).cpuId (some t)
  exec : (k'.tcb t).thread.exec = (k.tcb r).callback
  args : (Rpc.getRegs (k'.tcb t).thread).args = ⟨0, (k.tcb t).thread.tid, Rpc.SYS_USER_NOTIFY,
    (delivered k k' t flags).toNat, (k.tcb t).thread.eid, 0⟩
  stack : ∀ x ∈ Rpc.enterTouches (k.tcb t).thread (k.tcb r).thread.tid false,
    Rpc.InStack (k.tcb t).thread.tid x
  others : ∀ a, a ≠ t → k'.tcb a = if a = r then { k.tcb a with refcount := (k.tcb a).refcount + 1 } else k.tcb a
  rest : k' = { k with tcb := k'.tcb, tp := k'.tp, cpuTcb := k'.cpuTcb, trace := k'.trace, notes := k'.notes }

structure Alone (t : ℕ) (k k' : State) : Prop where
  others : ∀ a, a ≠ t → k'.tcb a = k.tcb a
  rest : k' = { k with tcb := k'.tcb, tp := k'.tp, cpuTcb := k'.cpuTcb, trace := k'.trace, notes := k'.notes }

lemma Alone.trans {k'' : State} (h : Alone t k k') (h' : Alone t k' k'') : Alone t k k'' where
  others := fun a ha => (h'.others a ha).trans (h.others a ha)
  rest := by
    rw [h'.rest, h.rest]

lemma alone_setTcb (x : Tcb) : Alone t k (k.setTcb t x) :=
  ⟨fun _ ha => Function.update_of_ne ha _ _, rfl⟩

lemma useTcb_alone (k : State) : Ends (useTcb c t)
    (fun _ k' => Alone t k k' ∧ k'.tp c = some t ∧ (k'.tcb t).proc = (k.tcb t).proc ∧
      (k'.tcb t).thread = (k.tcb t).thread ∧ (k'.tcb t).notifyFlags = (k.tcb t).notifyFlags ∧
      ∀ cur, k.tp c = some cur → k'.cpuTcb = Function.update k.cpuTcb (k.tcb cur).cpuId (some t))
    (fun e _ => e = .stuck) k := by
  simp only [useTcb, ends_bind, ends_get, ends_deref, ends_modifyTcb, ends_modify, implies_true, true_and]
  intro cur hcur
  refine ⟨⟨fun a ha => Function.update_of_ne ha _ _, rfl⟩, by simp, ?_, ?_, ?_, fun cur' hcur' => ?_⟩
  · simp [State.setTcb, Tcb.proc, Tcb.orphan]
  · simp [State.setTcb]
  · simp [State.setTcb]
  · obtain rfl := Option.some.inj (hcur.symm.trans hcur')
    rfl

lemma enterRpc_alone {a : Rpc.SysRet} {flags : Rpc.IpcFlags} (htp : k.tp c = some t) : Ends (enterRpc c t t a flags)
    (fun _ k' => Alone t k k' ∧ k'.tp = k.tp ∧ k'.cpuTcb = k.cpuTcb ∧
      (k'.tcb t).notifyFlags = (k.tcb t).notifyFlags)
    (fun e _ => e = .stuck) k := by
  simp only [enterRpc, ends_bind, ends_get, ends_deref, htp, Option.some.injEq, forall_eq', ends_modifyThread,
    implies_true, true_and, cloneUvmem, ends_pure, referenceThread, ends_modifyTcb]
  intro e _ _ _ _ _
  refine ⟨((alone_setTcb _).trans (alone_setTcb _)).trans (alone_setTcb _), rfl, rfl, ?_⟩
  simp [State.setTcb]

structure OwnHandler (c : ℤ) (t : ℕ) (k k' : State) : Prop extends Alone t k k' where
  frame : Rpc.enterRpc (k.tcb t).thread (k.tcb t).proc ⟨0, (k.tcb t).thread.tid, Rpc.SYS_USER_NOTIFY,
    (handedFlags (k.tcb t)).toNat, (k.tcb t).thread.eid, 0⟩ Rpc.notifyFlags = some (k'.tcb t).thread
  flags : (k'.tcb t).notifyFlags = (k.tcb t).notifyFlags &&& ~~~handedFlags (k.tcb t)
  cpu : ∀ cur, k.tp c = some cur → k'.cpuTcb = Function.update k.cpuTcb (k.tcb cur).cpuId (some t)

lemma runNotify_self (k : State) : Ends (runNotify c t t : K Unit) (fun _ _ => False)
    (fun e k' => e = .stuck ∨ OwnHandler c t k k') k := by
  unfold runNotify
  refine ends_bind.2 ((useTcb_alone k).mono ?_ fun _ _ he => .inl he)
  rintro _ k₁ ⟨h₁, htp, hproc, hthread, hflags, hcpu⟩
  rw [ends_bind, ends_get]
  dsimp only
  have hgiven : handedFlags (k₁.tcb t) = handedFlags (k.tcb t) := by
    unfold handedFlags
    rw [hthread, hflags]
  rw [hgiven, hthread, ends_bind]
  refine ((enterRpc_alone htp).and (enterRpc_self htp)).mono ?_ fun _ _ he => .inl he.1
  rintro _ k₂ ⟨⟨h₂, -, hcpu₂, hflags₂⟩, -, -, he⟩
  refine .inr ⟨(h₁.trans h₂).trans ⟨fun a ha => Function.update_of_ne ha _ _, rfl⟩, ?_, ?_, ?_⟩
  · rw [hthread, hproc] at he
    rw [he]
    simp [State.setTcb]
  · rw [← hflags, ← hflags₂]
    simp [State.setTcb]
  · intro cur hcur
    rw [← hcpu cur hcur, ← hcpu₂]
    rfl

lemma sub_sdiff {x y : BitVec 32} (h : x &&& y = x) : y &&& ~~~(y &&& ~~~x) = x := by
  rw [← h]
  ext i hi
  simp only [BitVec.getElem_and, BitVec.getElem_not]
  cases x[i] <;> cases y[i] <;> rfl

lemma entered_iff (hs : Rpc.Sound (k.tcb t).thread) (hr : k.getTcb (k.tcb t).notifyId = some r)
    (h : notify c t flags k = .error .user k') :
    Entered c t r flags k k' ↔ r = t ∧ 2 ≤ (k.tcb t).thread.rpcIdx := by
  have hrun := notify_enters hr h
  have hthread : ((requested k t flags).tcb t).thread = (k.tcb t).thread := by rw [requested_tcb]
  obtain ⟨p, stack, hl⟩ := hs
  have htouch := @Rpc.Layout.enterTouches_iff _ p stack (k.tcb r).thread.tid false hl nofun
  constructor
  · intro he
    have htp := (ends_of_eq_error hrun (runNotify_tp _)).resolve_left nofun
    have hrt : some r = some t := by
      have hat := congrFun (htp.symm.trans he.next) c
      simpa using hat
    exact ⟨Option.some.inj hrt, (htouch.1 he.stack).2⟩
  · rintro ⟨rfl, hroom⟩
    have hown := (ends_of_eq_error hrun (runNotify_self _)).resolve_left nofun
    have htp := (ends_of_eq_error hrun (runNotify_tp _)).resolve_left nofun
    have hframe := hown.frame
    have hgiven := sub_sdiff (handedFlags_sub ((requested k r flags).tcb r))
    have hdelivered : delivered k k' r flags = handedFlags ((requested k r flags).tcb r) := by
      rw [delivered, hown.flags]
      rw [requested_tcb, if_pos rfl] at hgiven ⊢
      exact hgiven
    obtain ⟨user, x, hc⟩ := Rpc.clearDown_of_enterRpc hframe
    rw [Rpc.notifyFlags, Rpc.enterRpc_push _ _ _ _ hc] at hframe
    refine ⟨htp, fun cur hcur => ?_, ?_, ?_, htouch.2 ⟨rfl, hroom⟩, fun a ha => ?_, ?_⟩
    · rw [hown.cpu cur hcur, requested_tcb]
      rfl
    · rw [← Option.some.inj hframe, requested_tcb]
      rfl
    · rw [← Option.some.inj hframe, hdelivered, hthread]
      simp [Rpc.getRegs, Rpc.regsPage]
    · rw [hown.others a ha, requested_tcb, if_neg ha, if_neg ha]
    · rw [hown.rest]
      rfl

structure SameCalls (k k' : State) : Prop where
  thread : ∀ a, (k'.tcb a).thread = (k.tcb a).thread
  flags : ∀ a, (k'.tcb a).notifyFlags = (k.tcb a).notifyFlags
  usable : ∀ pid, Rpc.usable k'.procs pid = Rpc.usable k.procs pid

lemma SameCalls.trans {k'' : State} (h : SameCalls k k') (h' : SameCalls k' k'') : SameCalls k k'' where
  thread := fun a => (h'.thread a).trans (h.thread a)
  flags := fun a => (h'.flags a).trans (h.flags a)
  usable := fun pid => (h'.usable pid).trans (h.usable pid)

lemma sameCalls_of_procs (ht : ∀ a, (k'.tcb a).thread = (k.tcb a).thread)
    (hf : ∀ a, (k'.tcb a).notifyFlags = (k.tcb a).notifyFlags) (hr : ∀ a, (k'.tcb a).proc = (k.tcb a).proc)
    (htcbs : k'.tcbs = k.tcbs) : SameCalls k k' := by
  refine ⟨ht, hf, fun pid => ?_⟩
  have hprocs : k'.procs = k.procs := by
    funext i
    simp only [State.procs, State.getTcb, htcbs, ht, hr]
  rw [hprocs]

lemma sameCalls_refcount (a : ℕ) (n : ℤ) : SameCalls k (k.setTcb a { k.tcb a with refcount := n }) := by
  have htcb : ∀ b, (k.setTcb a { k.tcb a with refcount := n }).tcb b =
      { k.tcb b with refcount := if b = a then n else (k.tcb b).refcount } := by
    intro b
    rw [setTcb_tcb]
    split_ifs with h
    · rw [h]
    · rfl
  refine sameCalls_of_procs (fun b => ?_) (fun b => ?_) (fun b => ?_) rfl
  · rw [htcb]
  · rw [htcb]
  · rw [htcb]
    rfl

lemma sameCalls_bury {a : ℕ} {pid : ℤ} (ha : k.getTcb pid = some a) (hz : (k.tcb a).rid = 0) (is : List ℤ) :
    SameCalls k { k with indices := is, tcbs := Function.update k.tcbs (k.tcb a).thread.tid none } := by
  refine ⟨fun _ => rfl, fun _ => rfl, fun q => ?_⟩
  have htid : 0 < pid ∧ k.tcbs (pid % numTcbs) = some a ∧ (k.tcb a).thread.tid = pid := by
    unfold State.getTcb at ha
    split at ha
    · cases ha
    split at ha
    · cases ha
    · rename_i hpos b hb
      split at ha
      · rename_i hid
        obtain rfl := Option.some.inj ha
        exact ⟨by omega, hb, hid⟩
      · cases ha
  obtain ⟨hpos, hslot, htid⟩ := htid
  have hdead : Rpc.isProc (k.tcb a).proc = false := by
    have hne : (0 : ℤ) ≠ pid := by omega
    simp [Rpc.isProc, Tcb.proc, hz, htid, hne]
  unfold Rpc.usable State.procs State.getTcb
  simp only [htid]
  by_cases hq : q ≤ 0
  · simp [hq]
  · by_cases hi : q % numTcbs = pid
    · have hsame : k.tcbs (q % numTcbs) = some a := by
        rw [hi, ← hslot, ← hi, Int.emod_emod_of_dvd _ dvd_rfl]
      have hmod : pid % numTcbs = pid := by rw [← hi, Int.emod_emod_of_dvd _ dvd_rfl]
      rw [hmod] at hslot
      by_cases hqp : q = pid
      · subst hqp
        simp [hq, hi, hslot, htid, hdead]
      · simp [hq, hi, hslot, htid, Ne.symm hqp]
    · simp [hq, hi]

lemma sameCalls_refl (k : State) : SameCalls k k := ⟨fun _ => rfl, fun _ => rfl, fun _ => rfl⟩

lemma sameCalls_free {free : ℕ → K Unit} (hfree : ∀ p k, Ends (free p) (fun _ k' => SameCalls k k')
    (fun e _ => e = .stuck) k) (ps : List ℕ) (k : State) :
    Ends (freeAll free ps) (fun _ k' => SameCalls k k') (fun e _ => e = .stuck) k := by
  induction ps generalizing k with
  | nil => exact sameCalls_refl k
  | cons p ps ih =>
    apply (hfree p k).bind
    intro _ k₁ h₁
    exact (ih k₁).mono (fun _ _ h => h₁.trans h) fun _ _ he => he

lemma sameCalls_unreference (pid : ℤ) : Ends (unreferenceThread (k.getTcb pid)) (fun _ k' => SameCalls k k')
    (fun e _ => e = .stuck) k := by
  cases ha : k.getTcb pid with
  | none => exact sameCalls_refl k
  | some a =>
    have h₁ := @sameCalls_refcount k a ((k.tcb a).refcount - 1)
    have hplain : Plain k (k.setTcb a { k.tcb a with refcount := (k.tcb a).refcount - 1 }) :=
      plain_setTcb ⟨rfl, rfl, rfl, rfl, rfl, id⟩
    have hget := (hplain.getTcb pid).trans ha
    simp only [unreferenceThread, ends_bind, ends_modifyTcb, ends_get]
    generalize k.setTcb a { k.tcb a with refcount := (k.tcb a).refcount - 1 } = k₁ at h₁ hget ⊢
    have hdata : Ends (onlyIf ((k₁.tcb a).refcount = 0) (destroyThreadData a)) (fun _ k' => SameCalls k₁ k')
        (fun e _ => e = .stuck) k₁ := by
      unfold onlyIf
      split
      · simp only [destroyThreadData, writeTcbs, ends_bind, ends_get, ends_assert, ends_modify, implies_true, true_and]
        intro _ hz
        have hbury := sameCalls_bury hget (by simpa [Tcb.zombie] using hz) (k₁.indices ++ [(k₁.tcb a).thread.tid])
        refine (sameCalls_free (fun p k => ?_) _ _).mono ?_ fun _ _ he => he
        · exact sameCalls_of_procs (fun _ => rfl) (fun _ => rfl) (fun _ => rfl) rfl
        intro _ k₂ h₂
        refine (sameCalls_free (fun p k => ?_) _ _).mono ?_ fun _ _ he => he
        · exact sameCalls_of_procs (fun _ => rfl) (fun _ => rfl) (fun _ => rfl) rfl
        intro _ k₃ h₃
        exact ((hbury.trans h₂).trans h₃).trans (sameCalls_of_procs (fun _ => rfl) (fun _ => rfl) (fun _ => rfl) rfl)
      · exact sameCalls_refl k₁
    refine hdata.mono (fun _ k₂ h₂ => ?_) fun _ _ he => he
    rw [ends_assert]
    exact ⟨fun _ => rfl, fun _ => h₁.trans h₂⟩

lemma leaveRpc_eq (procs : Rpc.Procs) (x : Rpc.Thread) (a : Rpc.SysRet) :
    Rpc.leaveRpc procs x a = (unwound procs x a).bind fun uc =>
      if uc.1.orphan && !Rpc.isRpc uc.1 then none
      else (Rpc.destroyRpc { uc.1 with exec := uc.2.exec, rpcStack := uc.2.rpcStack }).bind fun v =>
        some { v with pid := uc.2.pid, eid := uc.2.eid } := rfl

lemma leaveRpc_back (hn : (k.tcb t).notifyFlags = 0) (a : Rpc.SysRet) : Ends (leaveRpc c t a)
    (fun _ k' => Rpc.leaveRpc k.procs (k.tcb t).thread a = some (k'.tcb t).thread)
    (fun _ _ => ∀ v, Rpc.leaveRpc k.procs (k.tcb t).thread a = some v →
      ∃ u ctx, unwound k.procs (k.tcb t).thread a = some (u, ctx) ∧ ctx.notify = false) k := by
  simp only [leaveRpc, leaveRpc_eq, ends_bind, ends_get, ends_deref, ends_modifyThread]
  refine ⟨fun hnone v hv => ?_, fun uc hu => ?_⟩
  · rw [hnone] at hv
    cases hv
  · rw [hu, Option.bind_some]
    split
    · exact (departs_unorphanize t _).mono (fun _ _ hf => hf.elim) fun _ _ _ v hv => nomatch hv
    simp only [ends_bind, ends_deref, ends_modifyThread, ends_get]
    refine ⟨fun hnone v hv => ?_, fun v hv => ?_⟩
    · rw [hnone] at hv
      cases hv
    rw [hv, Option.bind_some]
    have hflags : ¬ (((k.setTcb t { k.tcb t with thread := uc.1 }).setTcb t
        { (k.setTcb t { k.tcb t with thread := uc.1 }).tcb t with
          thread := { v with pid := uc.2.pid, eid := uc.2.eid } }).tcb t).notifyFlags ≠ 0 := by
      simp [State.setTcb, hn]
    rw [onlyIf, if_neg hflags, ends_pure, onlyIf]
    split
    · rename_i hnot
      exact fun _ _ => ⟨uc.1, uc.2, rfl, by simpa using hnot⟩
    · rw [ends_pure]
      simp [State.setTcb]

/-- The thread answers from the frame of the handler that it entered in `k`, with nothing
more to be notified of; the reference to the handler is given back. -/
structure Answers (t : ℕ) (k k₂ : State) : Prop where
  serves : Rpc.Serves (k.tcb t).thread (k₂.tcb t).thread
  back : (k₂.tcb t).thread.rpcStack = (k.tcb t).thread.rpcStack
  flags : (k₂.tcb t).notifyFlags = 0
  released : ∃ k₃, unreferenceThread (k₂.getTcb (k₂.tcb t).thread.pid) k₂ = .ok () k₃

def Continues (c : ℤ) (t : ℕ) (k k₂ : State) : Prop :=
  ∀ d0 d1 d2 d3, ∃ k₃, sysIpcResp c t d0 d1 d2 d3 k₂ = .ok () k₃ ∧
    Rpc.activation (k₃.tcb t).thread = Rpc.activation (k.tcb t).thread

def Resumable (x : Rpc.Thread) (k₂ : State) : Prop :=
  Rpc.usable k₂.procs x.pid = true ∨ Rpc.isRpc x = false

lemma continues_iff (hs : Rpc.Sound (k.tcb t).thread) (hroom : 2 ≤ (k.tcb t).thread.rpcIdx) {p : Rpc.Proc}
    {a : Rpc.SysRet} (he : Rpc.enterRpc (k.tcb t).thread p a Rpc.notifyFlags = some (k'.tcb t).thread)
    (h : Answers t k' k₂) : Continues c t k k₂ ↔ Resumable (k.tcb t).thread k₂ := by
  obtain ⟨k₃, hk₃⟩ := h.released
  have hsame := ends_of_eq_ok hk₃ (sameCalls_unreference _)
  have hthread := hsame.thread t
  have hflags : (k₃.tcb t).notifyFlags = 0 := (hsame.flags t).trans h.flags
  have hin : Rpc.isRpc (k₂.tcb t).thread = true := by
    obtain ⟨b, -, -, -, hb, hst, -⟩ := h.serves.holds hs hroom he h.back
    have hb' : b ≠ 511 := hb.ne
    rw [Rpc.isRpc, Bool.not_eq_true', ← Bool.not_eq_true, hst, Rpc.rpcStackEmpty_top]
    exact hb'
  have hresp : ∀ d0 d1 d2 d3, sysIpcResp c t d0 d1 d2 d3 k₂ =
      leaveRpc c t ⟨Rpc.OK, (k₂.tcb t).thread.pid, d0, d1, d2, d3⟩ k₃ := by
    intro d0 d1 d2 d3
    have hbody : sysIpcResp c t d0 d1 d2 d3 k₂ = (do
        unreferenceThread (k₂.getTcb (k₂.tcb t).thread.pid)
        leaveRpc c t ⟨Rpc.OK, (k₂.tcb t).thread.pid, d0, d1, d2, d3⟩ : K Unit) k₂ := by
      rw [sysIpcResp]
      change (if !Rpc.isRpc (k₂.tcb t).thread then _ else _ : K Unit) k₂ = _
      rw [hin]
      rfl
    rw [hbody, bind_ok hk₃]
  have hiff : ∀ a', (∃ u', Rpc.leaveRpc k₃.procs (k₃.tcb t).thread a' = some u' ∧
      Rpc.activation u' = Rpc.activation (k.tcb t).thread) ↔ Resumable (k.tcb t).thread k₂ := by
    intro a'
    rw [hthread, Resumable, ← hsame.usable]
    exact h.serves.resumes_iff hs hroom he h.back a'
  constructor
  · intro hc
    obtain ⟨k₄, hk₄, hact⟩ := hc 0 0 0 0
    rw [hresp] at hk₄
    have hback := @leaveRpc_back k₃ c t hflags ⟨Rpc.OK, (k₂.tcb t).thread.pid, 0, 0, 0, 0⟩
    have hv := ends_of_eq_ok hk₄ hback
    exact (hiff _).1 ⟨_, hv, hact⟩
  · intro hr d0 d1 d2 d3
    obtain ⟨v, hv, hact⟩ := (hiff ⟨Rpc.OK, (k₂.tcb t).thread.pid, d0, d1, d2, d3⟩).2 hr
    rw [hresp]
    have hback := @leaveRpc_back k₃ c t hflags ⟨Rpc.OK, (k₂.tcb t).thread.pid, d0, d1, d2, d3⟩
    cases hl : leaveRpc c t ⟨Rpc.OK, (k₂.tcb t).thread.pid, d0, d1, d2, d3⟩ k₃ with
    | ok x k₄ =>
      have hv' := ends_of_eq_ok hl hback
      exact ⟨k₄, rfl, Option.some.inj (hv.symm.trans hv') ▸ hact⟩
    | error e k₄ =>
      obtain ⟨u, ctx, hu, hn⟩ := ends_of_eq_error hl hback v hv
      rw [unwound, hthread] at hu
      rw [Resumable, ← hsame.usable] at hr
      rw [h.serves.stops hs hroom he h.back hr hu] at hn
      cases hn

theorem notification_transparent (hs : Rpc.Sound (k.tcb t).thread) (hr : k.getTcb (k.tcb t).notifyId = some r)
    (h : notify c t flags k = .error .user k') :
    (Entered c t r flags k k' ↔ r = t ∧ 2 ≤ (k.tcb t).thread.rpcIdx) ∧
      (r = t → 2 ≤ (k.tcb t).thread.rpcIdx → ∀ c' k₂, Answers t k' k₂ →
        (Continues c' t k k₂ ↔ Resumable (k.tcb t).thread k₂)) := by
  refine ⟨entered_iff hs hr h, ?_⟩
  rintro rfl hroom c' k₂ hk₂
  have hown := (ends_of_eq_error (notify_enters hr h) (runNotify_self _)).resolve_left nofun
  have hframe := hown.frame
  rw [show ((requested k r flags).tcb r).thread = (k.tcb r).thread by rw [requested_tcb]] at hframe
  exact continues_iff hs hroom hframe hk₂

def toUser (x : K Unit) (k : State) : Option State :=
  match x k with
  | .error .user k' => some k'
  | _ => none

lemma eq_of_toUser {x : K Unit} (h : toUser x k = some k') : x k = .error .user k' := by
  unfold toUser at h
  split at h
  · rename_i hx
    rw [hx, Option.some.inj h]
  · cases h

def comesBack (x : K Unit) (k : State) : Bool :=
  match x k with
  | .ok _ _ => true
  | .error _ _ => false

lemma eq_of_comesBack {x : K Unit} (h : comesBack x k = true) : ∃ k', x k = .ok () k' := by
  unfold comesBack at h
  cases hx : x k with
  | ok _ k' => exact ⟨k', rfl⟩
  | error e k' =>
    rw [hx] at h
    cases h

lemma fresh_sound {x : Rpc.Thread} (hst : x.rpcStack = Rpc.rpcStackTop) (hidx : x.rpcIdx = Rpc.rpcPages - 1)
    (hregs : x.regs = Rpc.rpcStackTop - Rpc.sizeofCallCtx x.width) (huser : x.user = fun _ => false) : Rpc.Sound x := by
  have hfresh : Rpc.Fresh (Rpc.quiet x) := ⟨hst, hidx, hregs, fun i => congrFun huser i⟩
  exact ⟨511, [], .root hfresh⟩

theorem notification_transparent_init : ∃ k k', booted = some k ∧ notify 0 0 1 k = .error .user k' ∧
    Entered 0 0 0 1 k k' ∧ Continues 0 0 k k' := by
  have huser : (booted.map fun k => (k.tcb 0).thread.user) = some fun _ => false := rfl
  have hthread : (booted.map fun k => ((k.tcb 0).thread.rpcStack, (k.tcb 0).thread.rpcIdx,
      (k.tcb 0).thread.width, (k.tcb 0).thread.regs)) =
      some (Rpc.rpcStackTop, Rpc.rpcPages - 1, .w64, Rpc.rpcStackTop - Rpc.sizeofCallCtx .w64) := by decide +kernel
  have hhandler : (booted.map fun k => k.getTcb (k.tcb 0).notifyId) = some (some 0) := by decide +kernel
  have hrun : ((booted.bind (toUser (notify 0 0 1))).map fun k' => ((k'.tcb 0).notifyFlags,
      comesBack (unreferenceThread (k'.getTcb (k'.tcb 0).thread.pid)) k')) = some (0, true) := by decide +kernel
  obtain ⟨k', hk', hobs⟩ := Option.map_eq_some_iff.1 hrun
  obtain ⟨k, hk, hstep⟩ := Option.bind_eq_some_iff.1 hk'
  rw [hk] at huser hthread hhandler
  obtain ⟨hst, hrest⟩ := Prod.mk.inj (Option.some.inj hthread)
  obtain ⟨hidx, hrest⟩ := Prod.mk.inj hrest
  obtain ⟨hwidth, hregs⟩ := Prod.mk.inj hrest
  rw [← hwidth] at hregs
  obtain ⟨hflags, hcount⟩ := Prod.mk.inj hobs
  have hnotify := eq_of_toUser hstep
  have hsound := fresh_sound hst hidx hregs (Option.some.inj huser)
  have hroom : 2 ≤ (k.tcb 0).thread.rpcIdx := by
    rw [hidx]
    decide
  obtain ⟨hentered, hback⟩ := notification_transparent hsound (Option.some.inj hhandler) hnotify
  have hanswers : Answers 0 k' k' := ⟨.start, rfl, hflags, eq_of_comesBack hcount⟩
  refine ⟨k, k', hk, hnotify, hentered.2 ⟨rfl, hroom⟩, (hback rfl hroom 0 k' hanswers).2 (.inr ?_)⟩
  rw [Rpc.isRpc, hst]
  decide

theorem other_handler_runs : ∃ k k', Reached (fun _ _ => True) k ∧ k.getTcb (k.tcb 0).notifyId = some 7 ∧
    (k.tcb 7).isProc = true ∧ notify 0 0 1 k = .error .user k' ∧ ¬ Entered 0 0 7 1 k k' := by
  have hrun : ((booted.bind fun k => play k otherHandler).map fun k => (k.getTcb (k.tcb 0).notifyId,
      (k.tcb 7).isProc, (toUser (notify 0 0 1) k).map fun k' => k'.tp 0)) = some (some 7, true, some (some 7)) := by
    decide +kernel
  obtain ⟨k, hk, hobs⟩ := Option.map_eq_some_iff.1 hrun
  obtain ⟨hhandler, hrest⟩ := Prod.mk.inj hobs
  obtain ⟨hproc, hstep⟩ := Prod.mk.inj hrest
  obtain ⟨k', hk', htp⟩ := Option.map_eq_some_iff.1 hstep
  obtain ⟨k₀, hk₀, hplay⟩ := Option.bind_eq_some_iff.1 hk
  refine ⟨k, k', .play (.boot .w64 4096 _ hk₀) (fun _ _ _ => trivial) hplay, hhandler, hproc, eq_of_toUser hk', ?_⟩
  intro he
  have hnext := congrFun he.next 0
  rw [htp, Function.update_self] at hnext
  cases hnext

end Kmi.Kernel
