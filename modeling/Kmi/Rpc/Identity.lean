import Kmi.Rpc.Refine

/-! Which process a handler is told that it was called by. -/

namespace Kmi.Rpc

variable {t t' : Thread} {k root : ℤ} {stack : List Activation} {procs : Procs}

structure Entry where
  caller : ℤ
  callee : ℤ
  forwarding : Bool
  pushes : Bool
  id : ℤ

def executing (root : ℤ) : List Entry → ℤ
  | [] => root
  | e :: _ => e.callee

def forwardingFrom (entries : List Entry) (c : Call) : Bool :=
  !entries.isEmpty && (c = .fwd || c = .kick)

def pushesFrom (entries : List Entry) (c : Call) : Bool :=
  entries.isEmpty || c = .req || c = .fwd

def undo (entries : List Entry) : List Entry := (entries.dropWhile fun e => !e.pushes).tail

def originator (entries : List Entry) : Option ℤ :=
  (entries.find? fun e => !e.forwarding).map (·.caller)

def calleeOf (procs : Procs) (pid : ℤ) : ℤ :=
  match procs pid with
  | none => 0
  | some r => r.tid

def trackEntries (procs : Procs) (root : ℤ) (t t' : Thread) (entries : List Entry) : Event → List Entry
  | .user .. => entries
  | .fault _ => entries
  | .ipc c pid _ _ _ _ =>
    if ((c.flags t).tail || enoughRpcStack t) && usable procs pid then
      ⟨executing root entries, calleeOf procs pid, forwardingFrom entries c, pushesFrom entries c,
        (getRegs t').args.s⟩ :: entries
    else entries
  | .resp .. => undo entries

inductive Calls (root : ℤ) : Thread → List Entry → Prop
  | fresh {t : Thread} : Fresh t → t.pid = root → Calls root t []
  | step {t t' : Thread} {entries : List Entry} (procs : Procs) (e : Event) : Calls root t entries →
      (∀ x ∈ entries, usable procs x.caller = true) → step procs t e = some t' →
      Calls root t' (trackEntries procs root t t' entries e)

def Delivered (entries : List Entry) (eid : ℤ) : Prop :=
  originator entries = some eid ∧ entries.head?.map (·.id) = some eid

def Restores (root : ℤ) : List Activation → List Entry → Prop
  | [], entries => entries = []
  | a :: stack, entries => ∃ e rest, (entries.dropWhile fun e => !e.pushes) = e :: rest ∧
      a.pid = e.caller ∧ e.caller = executing root rest ∧ (rest ≠ [] → Delivered rest a.eid) ∧
      Restores root stack rest

structure Identifies (root : ℤ) (t : Thread) (stack : List Activation) (entries : List Entry) : Prop where
  pid : t.pid = executing root entries
  eid : entries ≠ [] → Delivered entries t.eid
  restores : Restores root stack entries

lemma Restores.eq_nil_iff {entries : List Entry} (h : Restores root stack entries) :
    stack = [] ↔ entries = [] := by
  cases stack with
  | nil => exact ⟨fun _ => h, fun _ => rfl⟩
  | cons a stack =>
    obtain ⟨e, rest, hd, -⟩ := h
    constructor
    · intro hs
      cases hs
    · rintro rfl
      cases hd

lemma Layout.isRpc_eq {entries : List Entry} (hl : Layout t k stack) (h : Restores root stack entries) :
    isRpc t = !entries.isEmpty := by
  have hrpc := hl.isRpc_iff
  rw [Ne, h.eq_nil_iff] at hrpc
  cases entries <;> simp_all

lemma Layout.flags_eq {entries : List Entry} (hl : Layout t k stack) (h : Restores root stack entries)
    (c : Call) : c.flags t = ⟨!pushesFrom entries c, forwardingFrom entries c, false⟩ := by
  cases c <;> simp [Call.flags, pushesFrom, forwardingFrom, hl.isRpc_eq h]

lemma enterRpc_fields {r : Proc} {a : SysRet} {flags : IpcFlags} (h : enterRpc t r a flags = some t') :
    t'.pid = r.rid ∧ t'.eid = (if flags.forward then t.eid else t.pid) ∧ (getRegs t').args = a := by
  obtain ⟨user, x, hc⟩ := clearDown_of_enterRpc h
  cases htail : flags.tail <;>
    · simp [enterRpc, newRpc, reuseRpc, setRetFast, setStackFast, setRegs, setCtx, getRegs, regsPage,
        htail, hc] at h
      obtain rfl := h
      simp [getRegs, regsPage, rpcPosition_eq]

lemma sysIpc_enters {c : Call} {pid d0 d1 d2 d3 : ℤ} (henters : Enters procs t c pid)
    (h : sysIpc procs t c pid d0 d1 d2 d3 = some t') :
    ∃ r, procs pid = some r ∧ isProc r = true ∧
      enterRpc t r ⟨if (c.flags t).forward then t.eid else t.pid, t.tid, d0, d1, d2, d3⟩ (c.flags t) = some t' := by
  obtain ⟨hroom, hu⟩ := henters
  have hroom : (!(c.flags t).tail && !enoughRpcStack t) = false := by
    obtain h | h := hroom <;> simp [h]
  simp only [sysIpc, doIpc, hroom, Bool.false_eq_true, if_false] at h
  cases hr : procs pid with
  | none => simp [usable, hr] at hu
  | some r =>
    simp only [usable, hr] at hu
    simp only [hr, hu, if_true] at h
    exact ⟨r, rfl, (Bool.and_eq_true_iff.1 hu).1, h⟩

lemma trackEntries_enters {entries : List Entry} {c : Call} {pid d0 d1 d2 d3 : ℤ} {r : Proc}
    (h : Enters procs t c pid) (hr : procs pid = some r) :
    trackEntries procs root t t' entries (.ipc c pid d0 d1 d2 d3) =
      ⟨executing root entries, r.tid, forwardingFrom entries c, pushesFrom entries c,
        (getRegs t').args.s⟩ :: entries := by
  have hcond : (((c.flags t).tail || enoughRpcStack t) && usable procs pid) = true := by
    rw [Bool.and_eq_true, Bool.or_eq_true]
    exact h
  simp only [trackEntries, hcond, if_true, calleeOf, hr]

lemma trackEntries_refused {entries : List Entry} {c : Call} {pid d0 d1 d2 d3 : ℤ}
    (h : ¬ Enters procs t c pid) :
    trackEntries procs root t t' entries (.ipc c pid d0 d1 d2 d3) = entries := by
  have hcond : ¬ (((c.flags t).tail || enoughRpcStack t) && usable procs pid) = true := by
    rw [Bool.and_eq_true, Bool.or_eq_true]
    exact h
  rw [trackEntries, if_neg hcond]

namespace Identifies

variable {entries : List Entry}

lemma fresh : Identifies t.pid t [] [] := ⟨rfl, fun h => absurd rfl h, rfl⟩

lemma enter {r : Proc} {c : Call} {d0 d1 d2 d3 : ℤ} {e : Entry} (hi : Identifies root t stack entries)
    (hl : Layout t k stack) (hproc : isProc r = true)
    (h : enterRpc t r ⟨if (c.flags t).forward then t.eid else t.pid, t.tid, d0, d1, d2, d3⟩ (c.flags t) =
      some t')
    (he : e = ⟨executing root entries, r.tid, forwardingFrom entries c, pushesFrom entries c,
      (getRegs t').args.s⟩) :
    t'.pid = executing root (e :: entries) ∧ Delivered (e :: entries) t'.eid := by
  obtain ⟨hpid, heid, hargs⟩ := enterRpc_fields h
  have hrid : r.rid = r.tid := by
    simp only [isProc, Bool.and_eq_true, decide_eq_true_eq] at hproc
    exact hproc.1
  rw [hl.flags_eq hi.restores] at heid hargs
  rw [hargs] at he
  subst he
  refine ⟨hpid.trans hrid, ?_, by rw [heid]; rfl⟩
  cases hf : forwardingFrom entries c with
  | false =>
    rw [heid, hf]
    simp [originator, hi.pid]
  | true =>
    -- a forwarding entry is made inside a handler and passes on what that one received
    have hne : entries ≠ [] := by
      rintro rfl
      cases hf
    rw [heid, hf, if_pos rfl, ← (hi.eid hne).1]
    simp [originator]

lemma push {e : Entry} {a : Activation} (hi : Identifies root t stack entries)
    (hpid : t'.pid = executing root (e :: entries)) (heid : Delivered (e :: entries) t'.eid)
    (hp : e.pushes = true) (hc : e.caller = executing root entries) (hap : a.pid = t.pid)
    (hae : a.eid = t.eid) : Identifies root t' (a :: stack) (e :: entries) := by
  refine ⟨hpid, fun _ => heid, e, entries, ?_, ?_, hc, ?_, hi.restores⟩
  · rw [List.dropWhile_cons_of_neg (by simp [hp])]
  · rw [hap, hi.pid, hc]
  · rw [hae]
    exact hi.eid

lemma replace {e : Entry} (hi : Identifies root t stack entries) (hne : stack ≠ [])
    (hpid : t'.pid = executing root (e :: entries)) (heid : Delivered (e :: entries) t'.eid)
    (hp : e.pushes = false) : Identifies root t' stack (e :: entries) := by
  refine ⟨hpid, fun _ => heid, ?_⟩
  cases stack with
  | nil => exact absurd rfl hne
  | cons a stack =>
    obtain ⟨x, rest, hd, hrest⟩ := hi.restores
    refine ⟨x, rest, ?_, hrest⟩
    rw [List.dropWhile_cons_of_pos (by simp [hp]), hd]

lemma congr (hi : Identifies root t stack entries) (hpid : t'.pid = t.pid) (heid : t'.eid = t.eid) :
    Identifies root t' stack entries :=
  ⟨hpid.trans hi.pid, fun hne => heid ▸ hi.eid hne, hi.restores⟩

lemma pop {b : Activation} {rest : List Activation} (hi : Identifies root t stack entries)
    (halive : ∀ x ∈ entries, usable procs x.caller = true) (hstop : StopsAt procs stack b rest)
    (hpid : t'.pid = b.pid) (heid : t'.eid = b.eid) : Identifies root t' rest (undo entries) := by
  obtain ⟨above, rfl, hdead, -⟩ := hstop
  cases above with
  | cons a above =>
    obtain ⟨e, more, hd, hap, -⟩ := hi.restores
    have hmem : e ∈ entries := by
      apply (List.dropWhile_sublist _).subset
      rw [hd]
      exact List.mem_cons_self ..
    have := hdead a (List.mem_cons_self ..)
    rw [hap, halive e hmem] at this
    cases this
  | nil =>
    obtain ⟨e, more, hd, hap, hc, hde, hmore⟩ := hi.restores
    rw [undo, hd, List.tail_cons]
    exact ⟨hpid.trans (hap.trans hc), fun hne => heid ▸ hde hne, hmore⟩

lemma step {e : Event} (hi : Identifies root t stack entries) (hl : Layout t k stack)
    (halive : ∀ x ∈ entries, usable procs x.caller = true) (h : Rpc.step procs t e = some t') :
    ∃ k' stack', Layout t' k' stack' ∧ Identifies root t' stack' (trackEntries procs root t t' entries e) := by
  cases e with
  | user exec regs page =>
    obtain rfl := Option.some.inj h
    exact ⟨k, stack, hl.userRun exec regs page, hi.congr rfl rfl⟩
  | fault addr =>
    obtain ⟨-, hp, hlt, ht⟩ | ⟨-, rfl⟩ := handlePagefault_some h
    · exact ⟨k, stack, hl.grow hp hlt ht, hi.congr (ht ▸ rfl) (ht ▸ rfl)⟩
    · exact ⟨k, stack, hl, hi⟩
  | ipc c pid d0 d1 d2 d3 =>
    obtain ⟨hne, status, rfl⟩ | ⟨henters, -⟩ := sysIpc_cases h
    · refine ⟨k, stack, hl.setRegs _, ?_⟩
      rw [trackEntries_refused hne]
      exact hi.congr rfl rfl
    · obtain ⟨r, hr, hproc, he⟩ := sysIpc_enters henters h
      rw [trackEntries_enters henters hr]
      obtain ⟨hpid, heid⟩ := hi.enter hl hproc he rfl
      have hflags := hl.flags_eq hi.restores c
      cases htail : (c.flags t).tail with
      | true =>
        refine ⟨k, stack, hl.enter_replace he htail, hi.replace ?_ hpid heid ?_⟩
        · exact hl.isRpc_iff.1 (isRpc_of_tail htail)
        · simpa [hflags] using htail
      | false =>
        refine ⟨_, _, hl.enter_push he htail (by simpa [htail] using henters.1),
          hi.push hpid heid ?_ rfl rfl rfl⟩
        simpa [hflags] using htail
  | resp d0 d1 d2 d3 =>
    change (if isRpc t then _ else _) = _ at h
    split_ifs at h with hrpc
    · obtain ⟨b, rest, k', hstop, hpid, heid, -, hl', -⟩ := leaveRpc_some hl (hl.isRpc_iff.1 hrpc) h
      exact ⟨k', rest, hl', hi.pop halive hstop hpid heid⟩
    · obtain rfl := Option.some.inj h
      have hnil : stack = [] := not_not.1 fun hne => hrpc (hl.isRpc_iff.2 hne)
      have hent := hi.restores.eq_nil_iff.1 hnil
      refine ⟨k, stack, hl.setRegs _, ?_⟩
      subst hent
      exact hi.congr rfl rfl

end Identifies

lemma Calls.identifies {entries : List Entry} (h : Calls root t entries) :
    ∃ k stack, Layout t k stack ∧ Identifies root t stack entries := by
  induction h with
  | fresh hf hp => exact ⟨511, [], .root hf, hp ▸ .fresh⟩
  | step procs e _ halive hs ih =>
    obtain ⟨k, stack, hl, hi⟩ := ih
    exact hi.step hl halive hs

/-- The handler is told the thread's new effective id, which is the process of the last
entry that did not forward; that is the calling process or the one it was told itself. -/
theorem entry_id_is_originator {entries : List Entry} {c : Call} {pid d0 d1 d2 d3 : ℤ}
    (h : Calls root t entries) (henters : Enters procs t c pid)
    (hs : step procs t (.ipc c pid d0 d1 d2 d3) = some t') :
    ∃ e, trackEntries procs root t t' entries (.ipc c pid d0 d1 d2 d3) = e :: entries ∧
      e.id = (getRegs t').args.s ∧ (getRegs t').args.s = t'.eid ∧
      originator (e :: entries) = some (getRegs t').args.s ∧
      ((getRegs t').args.s = executing root entries ∨
        e.forwarding = true ∧ entries.head?.map (·.id) = some (getRegs t').args.s) := by
  obtain ⟨k, stack, hl, hi⟩ := h.identifies
  obtain ⟨r, hr, hproc, he⟩ := sysIpc_enters henters hs
  obtain ⟨-, horigin, hid⟩ := hi.enter hl hproc he rfl
  have hid : (getRegs t').args.s = t'.eid := Option.some.inj hid
  refine ⟨_, trackEntries_enters henters hr, rfl, hid, hid ▸ horigin, ?_⟩
  cases hf : forwardingFrom entries c with
  | false =>
    rw [hf] at horigin
    exact .inl (hid.trans (Option.some.inj horigin).symm)
  | true =>
    have hne : entries ≠ [] := by
      rintro rfl
      cases hf
    rw [hf] at horigin
    have hsame : originator entries = some t'.eid := horigin
    refine .inr ⟨rfl, ?_⟩
    rw [hid, (hi.eid hne).2, ← (hi.eid hne).1, hsame]

theorem entry_id_is_originator_kicked :
    ∃ t t' e e', Calls 1 t [e] ∧ Enters twoProcs t .kick 1 ∧
      step twoProcs t (.ipc .kick 1 5 6 7 8) = some t' ∧
      trackEntries twoProcs 1 t t' [e] (.ipc .kick 1 5 6 7 8) = [e', e] ∧
      (getRegs t').args.s = t'.eid ∧ originator [e', e] = some (getRegs t').args.s ∧ t'.eid = 1 := by
  have h := Calls.step twoProcs (.ipc .req 2 1 2 3 4) (.fresh initThread_fresh (rfl : initThread.pid = 1))
    (fun x hx => nomatch hx) rfl
  obtain ⟨e', he, -, hid, horigin, -⟩ :=
    @entry_id_is_originator _ _ 1 twoProcs _ .kick 1 5 6 7 8 h ⟨.inl rfl, rfl⟩ rfl
  exact ⟨_, _, _, e', h, ⟨.inl rfl, rfl⟩, rfl, he, hid, horigin, rfl⟩

end Kmi.Rpc
