import Kmi.Kernel.Entries
import Kmi.Rpc.Refine

/-! The system calls that change one attribute of the thread they name. -/

namespace Kmi.Kernel

open Rpc (OK ERR_NF ERR_INVAL)

def Tcb.answered (x : Tcb) (s : ℤ) : Tcb := { x with thread := setRet 2 ⟨s, 0, 0, 0, 0, 0⟩ x.thread }

def State.answer (k : State) (t : ℕ) (s : ℤ) : State := k.setTcb t ((k.tcb t).answered s)

def State.change (k : State) (a : ℕ) (f : Tcb → Tcb) : State := k.setTcb a (f (k.tcb a))

/-- The call changes its attribute of the thread named `tid` and answers, or it only answers with an error. -/
def ActsOn (tid : ℤ) (f : Tcb → Tcb) (t : ℕ) (call : K Unit) (k : State) : Prop :=
  (∃ a, k.getTcb tid = some a ∧ call k = .ok () ((k.change a f).answer t OK)) ∨
    ∃ s, s ≠ OK ∧ call k = .ok () (k.answer t s)

variable {k : State} {t a b p : ℕ} {tid pid s : ℤ} {f : Tcb → Tcb} {call : K Unit} {caps : BitVec 32}

lemma answer_tcb_self : (k.answer t s).tcb t = (k.tcb t).answered s := Function.update_self _ _ _

lemma answer_tcb_of_ne (h : b ≠ t) : (k.answer t s).tcb b = k.tcb b := Function.update_of_ne h _ _

lemma change_tcb_self : (k.change a f).tcb a = f (k.tcb a) := Function.update_self _ _ _

lemma change_tcb_of_ne (h : b ≠ a) : (k.change a f).tcb b = k.tcb b := Function.update_of_ne h _ _

lemma answer_notifyId : ((k.answer t s).tcb b).notifyId = (k.tcb b).notifyId := by
  by_cases hb : b = t
  · rw [hb, answer_tcb_self]
    rfl
  · rw [answer_tcb_of_ne hb]

lemma answer_status : (Rpc.getRegs ((k.answer t s).tcb t).thread).args.s = s := by
  rw [answer_tcb_self]
  exact congrArg (fun r => r.args.s) (Rpc.getRegs_setRegs _ _)

lemma ActsOn.others (h : ActsOn tid f t call k) (ht : b ≠ t) (hb : k.getTcb tid ≠ some b) :
    ∃ k', call k = .ok () k' ∧ k'.tcb b = k.tcb b := by
  obtain ⟨a, ha, hcall⟩ | ⟨s, -, hcall⟩ := h
  · refine ⟨_, hcall, ?_⟩
    rw [answer_tcb_of_ne ht, change_tcb_of_ne]
    rintro rfl
    exact hb ha
  · exact ⟨_, hcall, answer_tcb_of_ne ht⟩

lemma actsOn_get_bind {g : State → K Unit} (h : ActsOn tid f t (g k) k) : ActsOn tid f t (get >>= g) k := h

lemma actsOn_error (hs : s ≠ OK) : ActsOn tid f t (setArgs1 t s) k := .inr ⟨s, hs, rfl⟩

lemma actsOn_change (ha : k.getTcb tid = some a) :
    ActsOn tid f t (modifyTcb a f >>= fun _ => setArgs1 t OK) k := .inl ⟨a, ha, rfl⟩

lemma changeCaps_actsOn (g : BitVec 32 → BitVec 32) :
    ActsOn tid (fun x => { x with caps := g x.caps }) t (changeCaps t tid g) k := by
  unfold changeCaps
  apply actsOn_get_bind
  split
  · exact actsOn_error (by decide)
  split
  · exact actsOn_error (by decide)
  · rename_i a ha
    exact actsOn_change ha

lemma sysDetach_actsOn (hp : k.getTcb (k.tcb t).thread.pid = some p) :
    ActsOn tid (fun x => { x with thread := { x.thread with orphan := true } }) t (sysDetach t tid) k := by
  unfold sysDetach
  apply actsOn_get_bind
  rw [hp]
  change ActsOn _ _ t (if _ then _ else _) k
  split
  · exact actsOn_error (by decide)
  split
  · exact actsOn_error (by decide)
  split
  · exact actsOn_error (by decide)
  · rename_i a ha _
    exact actsOn_change ha

lemma sysDetach_actsOn_iff : ActsOn tid (fun x => { x with thread := { x.thread with orphan := true } }) t
    (sysDetach t tid) k ↔ ∃ p, k.getTcb (k.tcb t).thread.pid = some p := by
  constructor
  · intro h
    by_contra hno
    have hnone : k.getTcb (k.tcb t).thread.pid = none := Option.eq_none_iff_forall_ne_some.2 fun p hp => hno ⟨p, hp⟩
    have hstuck : sysDetach t tid k = .error .stuck k := by
      unfold sysDetach
      change (deref _ >>= _ : K Unit) k = _
      rw [hnone]
      rfl
    obtain ⟨_, _, hok⟩ | ⟨_, _, hok⟩ := h
    · cases hstuck.symm.trans hok
    · cases hstuck.symm.trans hok
  · rintro ⟨p, hp⟩
    exact sysDetach_actsOn hp

lemma sysSetHandler_ok (hcap : isSet (k.tcb t).caps CAP_SIGNAL = true) (ha : k.getTcb tid = some a) :
    sysSetHandler t tid pid k = .ok () ((k.change t fun x => { x with notifyId := pid }).answer t OK) := by
  unfold sysSetHandler
  change (ite _ _ _ : K Unit) k = _
  rw [hcap, if_neg (by decide), ha]
  rfl

lemma change_notifyId_self (h : (k.tcb a).notifyId = pid) : (k.change a fun x => { x with notifyId := pid }) = k := by
  subst h
  exact congrArg (fun tcb => { k with tcb := tcb }) (Function.update_eq_self a k.tcb)

lemma sysSetHandler_actsOn_iff (hcap : isSet (k.tcb t).caps CAP_SIGNAL = true) (ha : k.getTcb tid = some a) :
    ActsOn tid (fun x => { x with notifyId := pid }) t (sysSetHandler t tid pid) k ↔
      a = t ∨ (k.tcb a).notifyId = pid ∧ (k.tcb t).notifyId = pid := by
  rw [ActsOn, sysSetHandler_ok hcap ha]
  constructor
  · rintro (⟨b, hb, heq⟩ | ⟨s, hs, heq⟩)
    · obtain rfl : a = b := Option.some_inj.1 (ha.symm.trans hb)
      by_cases hat : a = t
      · exact .inl hat
      -- the two states differ in who has the new handler, unless both had it before
      have heq' : (k.change t _).answer t OK = (k.change a _).answer t OK := (EStateM.Result.ok.inj heq).2
      have hnotify : ∀ b, ((k.change t fun x => { x with notifyId := pid }).tcb b).notifyId =
          ((k.change a fun x => { x with notifyId := pid }).tcb b).notifyId := by
        intro b
        rw [← answer_notifyId (t := t) (s := OK), heq', answer_notifyId]
      right
      constructor
      · rw [← change_tcb_of_ne (k := k) (f := fun x => { x with notifyId := pid }) hat, hnotify a, change_tcb_self]
      · rw [← change_tcb_of_ne (k := k) (f := fun x => { x with notifyId := pid }) (Ne.symm hat), ← hnotify t,
          change_tcb_self]
    · have hstate := (EStateM.Result.ok.inj heq).2
      have hstatus := congrArg (fun k : State => (Rpc.getRegs (k.tcb t).thread).args.s) hstate
      rw [answer_status, answer_status] at hstatus
      exact absurd hstatus.symm hs
  · rintro (rfl | ⟨hna, hnt⟩)
    · exact .inl ⟨a, ha, rfl⟩
    · refine .inl ⟨a, ha, ?_⟩
      rw [change_notifyId_self hna, change_notifyId_self hnt]

lemma sysSetHandler_error (h : isSet (k.tcb t).caps CAP_SIGNAL = true → k.getTcb tid = none) :
    ActsOn tid f t (sysSetHandler t tid pid) k := by
  unfold sysSetHandler
  apply actsOn_get_bind
  split
  · exact actsOn_error (by decide)
  · rename_i hcap
    rw [h (by simpa using hcap)]
    exact actsOn_error (by decide)

/-- For every state, caller and target the calls act on the thread they name, except that `detach` needs the process
of its caller, and `set_handler` does so only if it fails, is given its caller, or finds the handler set in both. -/
theorem named_calls_act_iff (k : State) (t : ℕ) (tid pid : ℤ) (caps : BitVec 32) :
    ActsOn tid (fun x => { x with caps := x.caps ||| caps }) t (sysSetCap t tid caps) k ∧
      ActsOn tid (fun x => { x with caps := x.caps &&& ~~~caps }) t (sysClearCap t tid caps) k ∧
      (ActsOn tid (fun x => { x with thread := { x.thread with orphan := true } }) t (sysDetach t tid) k ↔
        ∃ p, k.getTcb (k.tcb t).thread.pid = some p) ∧
      (ActsOn tid (fun x => { x with notifyId := pid }) t (sysSetHandler t tid pid) k ↔
        (isSet (k.tcb t).caps CAP_SIGNAL = true → ∀ r, k.getTcb tid = some r →
          r = t ∨ (k.tcb r).notifyId = pid ∧ (k.tcb t).notifyId = pid)) := by
  refine ⟨changeCaps_actsOn (· ||| caps), changeCaps_actsOn (· &&& ~~~caps), sysDetach_actsOn_iff, ?_⟩
  constructor
  · intro h hcap r hr
    exact (sysSetHandler_actsOn_iff hcap hr).1 h
  · intro h
    by_cases hcap : isSet (k.tcb t).caps CAP_SIGNAL = true
    · cases hr : k.getTcb tid with
      | none => exact sysSetHandler_error fun _ => hr
      | some r => exact (sysSetHandler_actsOn_iff hcap hr).2 (h hcap r hr)
    · exact sysSetHandler_error fun h' => absurd h' hcap

def callerAndTarget : State :=
  { blank .w64 with
    tcbs := fun i => if i = 1 then some 0 else if i = 2 then some 1 else none
    tcb := fun a => { zeroTcb .w64 with
      caps := CAP_SIGNAL ||| CAP_CAPS ||| CAP_PROC
      thread := { (zeroTcb .w64).thread with tid := a + 1, pid := 1 } } }

theorem named_calls_act_iff_detach :
    callerAndTarget.getTcb (callerAndTarget.tcb 0).thread.pid = some 0 ∧
      ActsOn 2 (fun x => { x with thread := { x.thread with orphan := true } }) 0 (sysDetach 0 2) callerAndTarget ∧
      ActsOn 1 (fun x => { x with notifyId := 5 }) 0 (sysSetHandler 0 1 5) callerAndTarget := by
  have hcaller : callerAndTarget.getTcb 1 = some 0 := by decide
  obtain ⟨-, -, hdetach, -⟩ := named_calls_act_iff callerAndTarget 0 2 5 CAP_IRQ
  refine ⟨hcaller, hdetach.2 ⟨0, hcaller⟩, (named_calls_act_iff callerAndTarget 0 1 5 CAP_IRQ).2.2.2.2 ?_⟩
  intro _ r hr
  exact .inl (Option.some_inj.1 (hr.symm.trans hcaller))

theorem set_handler_sets_own : ∃ k', sysSetHandler 0 2 5 callerAndTarget = .ok () k' ∧
    callerAndTarget.getTcb 2 = some 1 ∧ (k'.tcb 1).notifyId = 0 ∧ (k'.tcb 0).notifyId = 5 ∧
      ¬ActsOn 2 (fun x => { x with notifyId := 5 }) 0 (sysSetHandler 0 2 5) callerAndTarget := by
  have htarget : callerAndTarget.getTcb 2 = some 1 := by decide
  refine ⟨_, sysSetHandler_ok (by decide) htarget, htarget, by decide, by decide, ?_⟩
  rw [sysSetHandler_actsOn_iff (by decide) htarget]
  decide

end Kmi.Kernel
