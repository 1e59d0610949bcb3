import Kmi.Kernel.Entries
import Kmi.Rpc.Bounds

/-! The functions that leave alone who is in the table, who runs where, the
capabilities, the notifications and the lock. -/

namespace Kmi.Kernel

open Library.Prog

variable {α β : Type} {k k' k'' : State}

section

variable {Q : α → State → Prop} {E : Exit → State → Prop}

lemma ends_deref {p : Option α} :
    Ends (deref p) Q E k ↔ (p = none → E .stuck k) ∧ ∀ a, p = some a → Q a k := by
  cases p <;> simp [deref, stop]

lemma ends_assert {p : Bool} {Q : Unit → State → Prop} :
    Ends (assert p) Q E k ↔ (p = false → E .stuck k) ∧ (p = true → Q () k) := by
  cases p <;> simp [assert, stop]

lemma ends_modifyTcb {a : ℕ} {f : Tcb → Tcb} {Q : Unit → State → Prop} :
    Ends (modifyTcb a f) Q E k ↔ Q () (k.setTcb a (f (k.tcb a))) := Iff.rfl

lemma ends_modifyThread {a : ℕ} {f : Rpc.Thread → Rpc.Thread} {Q : Unit → State → Prop} :
    Ends (modifyThread a f) Q E k ↔
      Q () (k.setTcb a { k.tcb a with thread := f (k.tcb a).thread }) := Iff.rfl

end

structure SameCore (x y : Tcb) : Prop where
  tid : y.thread.tid = x.thread.tid
  caps : y.caps = x.caps
  cpuId : y.cpuId = x.cpuId
  flags : y.notifyFlags = x.notifyFlags
  dead : y.dead = x.dead
  rid : x.rid ≠ 0 → y.rid ≠ 0

lemma SameCore.refl (x : Tcb) : SameCore x x := ⟨rfl, rfl, rfl, rfl, rfl, id⟩

lemma SameCore.trans {x y z : Tcb} (h : SameCore x y) (h' : SameCore y z) : SameCore x z where
  tid := h'.tid.trans h.tid
  caps := h'.caps.trans h.caps
  cpuId := h'.cpuId.trans h.cpuId
  flags := h'.flags.trans h.flags
  dead := h'.dead.trans h.dead
  rid := fun hx => h'.rid (h.rid hx)

structure Plain (k k' : State) : Prop where
  tcbs : k'.tcbs = k.tcbs
  startTid : k'.startTid = k.startTid
  stackPages : k'.stackPages = k.stackPages
  cpuTcb : k'.cpuTcb = k.cpuTcb
  tp : k'.tp = k.tp
  ipi : k'.ipi = k.ipi
  trace : k'.trace = k.trace
  notes : k'.notes = k.notes
  indices : k'.indices = k.indices
  core : ∀ a, SameCore (k.tcb a) (k'.tcb a)

lemma Plain.refl (k : State) : Plain k k := ⟨rfl, rfl, rfl, rfl, rfl, rfl, rfl, rfl, rfl, fun _ => .refl _⟩

lemma Plain.trans (h : Plain k k') (h' : Plain k' k'') : Plain k k'' where
  tcbs := h'.tcbs.trans h.tcbs
  startTid := h'.startTid.trans h.startTid
  stackPages := h'.stackPages.trans h.stackPages
  cpuTcb := h'.cpuTcb.trans h.cpuTcb
  tp := h'.tp.trans h.tp
  ipi := h'.ipi.trans h.ipi
  trace := h'.trace.trans h.trace
  notes := h'.notes.trans h.notes
  indices := h'.indices.trans h.indices
  core := fun a => (h.core a).trans (h'.core a)

lemma plain_setTcb {a : ℕ} {x : Tcb} (h : SameCore (k.tcb a) x) : Plain k (k.setTcb a x) := by
  refine ⟨rfl, rfl, rfl, rfl, rfl, rfl, rfl, rfl, rfl, fun b => ?_⟩
  by_cases hb : b = a
  · subst hb
    simpa [State.setTcb] using h
  · simpa [State.setTcb, hb] using SameCore.refl _

lemma Plain.getTcb (h : Plain k k') (tid : ℤ) : k'.getTcb tid = k.getTcb tid := by
  unfold State.getTcb
  rw [h.tcbs]
  split
  · rfl
  · split
    · rfl
    · rw [(h.core _).tid]

def Mild (x : K α) : Prop := Within Plain (fun e _ _ => e = .stuck) x

lemma plain_composes : Composes Plain (fun (e : Exit) _ _ => e = .stuck) where
  refl := .refl
  trans := .trans
  leave := fun _ hl => hl

lemma mild_bind {x : K α} {f : α → K β} (hx : Mild x) (hf : ∀ a, Mild (f a)) : Mild (x >>= f) :=
  Within.bind plain_composes hx hf

lemma mild_pure (a : α) : Mild (pure a : K α) := within_pure plain_composes a

lemma mild_get : Mild (get : K State) := within_get plain_composes

lemma mild_stop : Mild (stop : K α) := fun _ => rfl

lemma mild_modify {f : State → State} (h : ∀ k, Plain k (f k)) : Mild (modify f) := within_modify h

lemma mild_deref (p : Option α) : Mild (deref p) := by
  cases p with
  | none => exact mild_stop
  | some a => exact mild_pure a

lemma mild_assert (p : Bool) : Mild (assert p) := by
  cases p with
  | false => exact mild_stop
  | true => exact mild_pure ()

lemma mild_modifyTcb {a : ℕ} {f : Tcb → Tcb} (h : ∀ x, SameCore x (f x)) : Mild (modifyTcb a f) :=
  mild_modify fun _ => plain_setTcb (h _)

lemma mild_modifyThread {a : ℕ} {f : Rpc.Thread → Rpc.Thread} (h : ∀ x, (f x).tid = x.tid) :
    Mild (modifyThread a f) :=
  mild_modifyTcb fun _ => ⟨h _, rfl, rfl, rfl, rfl, id⟩

lemma mild_setRet (a : ℕ) (n : ℕ) (r : Rpc.SysRet) : Mild (modifyThread a (setRet n r)) :=
  mild_modifyThread fun _ => rfl

lemma mild_setArgs1 (t : ℕ) (s : ℤ) : Mild (setArgs1 t s) := mild_setRet t 2 _

lemma mild_setArgs2 (t : ℕ) (s a : ℤ) : Mild (setArgs2 t s a) := mild_setRet t 3 _

lemma mild_referenceThread (t : ℕ) : Mild (referenceThread t) :=
  mild_modifyTcb fun _ => ⟨rfl, rfl, rfl, rfl, rfl, id⟩

lemma mild_setThread (t : ℕ) : Mild (setThread t) := mild_modifyThread fun _ => rfl

lemma mild_orphanize (t : ℕ) : Mild (orphanize t) := mild_modifyThread fun _ => rfl

lemma mild_answer : Mild answer := by
  apply mild_bind mild_get
  intro k
  apply mild_bind
  · exact mild_modify fun _ => ⟨rfl, rfl, rfl, rfl, rfl, rfl, rfl, rfl, rfl, fun _ => .refl _⟩
  · exact fun _ => mild_pure _

lemma mild_freePage (p : ℕ) : Mild (freePage p) :=
  mild_modify fun _ => ⟨rfl, rfl, rfl, rfl, rfl, rfl, rfl, rfl, rfl, fun _ => .refl _⟩

lemma mild_freeNode (p : ℕ) : Mild (freeNode p) :=
  mild_modify fun _ => ⟨rfl, rfl, rfl, rfl, rfl, rfl, rfl, rfl, rfl, fun _ => .refl _⟩

lemma mild_freeAll {free : ℕ → K Unit} (h : ∀ p, Mild (free p)) (ps : List ℕ) : Mild (freeAll free ps) := by
  induction ps with
  | nil => exact mild_pure ()
  | cons p ps ih => exact mild_bind (h p) fun _ => ih

lemma mild_allocPage : Mild allocPage := by
  apply mild_bind mild_answer
  intro p
  cases p with
  | none => exact mild_pure none
  | some p =>
    apply mild_bind mild_get
    intro k
    apply mild_bind (mild_assert _)
    intro _
    apply mild_bind
    · exact mild_modify fun _ => ⟨rfl, rfl, rfl, rfl, rfl, rfl, rfl, rfl, rfl, fun _ => .refl _⟩
    · exact fun _ => mild_pure _

lemma mild_getNode : Mild getNode := by
  apply mild_bind mild_answer
  intro p
  cases p with
  | none => exact mild_pure none
  | some p =>
    apply mild_bind mild_get
    intro k
    apply mild_bind (mild_assert _)
    intro _
    apply mild_bind
    · exact mild_modify fun _ => ⟨rfl, rfl, rfl, rfl, rfl, rfl, rfl, rfl, rfl, fun _ => .refl _⟩
    · exact fun _ => mild_pure _

lemma mild_destroyRpcmem (t : ℕ) : Mild (destroyRpcmem t) :=
  mild_bind mild_get fun _ => mild_freeAll mild_freePage _

lemma mild_cloneUvmem (r b : Option ℕ) : Mild (cloneUvmem r b) :=
  mild_bind (mild_deref r) fun _ => mild_bind (mild_deref b) fun _ => mild_pure _

lemma mild_setupRpcStack (t : ℕ) : Mild (setupRpcStack t) := by
  refine mild_bind mild_allocPage fun page => ?_
  cases page with
  | none => exact mild_pure false
  | some page =>
    refine mild_bind (mild_modifyTcb fun _ => ?_) fun _ => ?_
    · exact ⟨rfl, rfl, rfl, rfl, rfl, id⟩
    refine mild_bind mild_allocPage fun upper => ?_
    cases upper with
    | none => exact mild_bind (mild_freePage page) fun _ => mild_pure false
    | some upper =>
      refine mild_bind (mild_modifyTcb fun _ => ?_) fun _ => ?_
      · exact ⟨rfl, rfl, rfl, rfl, rfl, id⟩
      refine mild_bind mild_allocPage fun lower => ?_
      cases lower with
      | none => exact mild_bind (mild_freePage page) fun _ => mild_pure false
      | some lower =>
        refine mild_bind (mild_modifyTcb fun _ => ?_) fun _ => ?_
        · exact ⟨rfl, rfl, rfl, rfl, rfl, id⟩
        refine mild_bind (mild_modifyThread fun _ => ?_) fun _ => mild_pure true
        rfl

lemma mild_initUvmem (t : ℕ) : Mild (initUvmem t) := by
  refine mild_bind mild_getNode fun node => ?_
  cases node with
  | none => exact mild_pure false
  | some node =>
    refine mild_bind (mild_modifyTcb fun _ => ?_) fun _ => mild_pure true
    exact ⟨rfl, rfl, rfl, rfl, rfl, id⟩

lemma mild_request (taken : State → ℕ → Bool) : Mild (request taken) := by
  refine mild_bind mild_answer fun p => ?_
  cases p with
  | none => exact mild_pure false
  | some p => exact mild_bind mild_get fun _ => mild_bind (mild_assert _) fun _ => mild_pure true

lemma mild_takeNodes (n : ℕ) : Mild (takeNodes n) := by
  induction n with
  | zero => exact mild_pure ()
  | succ n ih => exact mild_bind (mild_request _) fun _ => mild_bind (mild_assert _) fun _ => ih

lemma mild_takePages (n : ℕ) : Mild (takePages n) := by
  induction n with
  | zero => exact mild_pure true
  | succ n ih =>
    refine mild_bind (mild_request _) fun given => ?_
    cases given with
    | false => exact mild_pure false
    | true => exact ih

lemma mild_placeArea (a : Area) : Mild (placeArea a) :=
  mild_bind (mild_deref _) fun nodes => mild_takeNodes nodes

lemma mild_keepArea (n : ℕ) (a : Area) : Mild (keepArea n a) :=
  mild_modifyTcb fun _ => ⟨rfl, rfl, rfl, rfl, rfl, id⟩

lemma mild_copyMappedRegion (n : ℕ) (a : Area) : Mild (copyMappedRegion n a) := by
  refine mild_bind (mild_placeArea a) fun _ => ?_
  split_ifs
  · exact mild_bind (mild_keepArea n a) fun _ => mild_pure false
  · refine mild_bind (mild_takePages _) fun given => ?_
    split_ifs
    · exact mild_bind (mild_keepArea n a) fun _ => mild_pure true
    · exact mild_pure false

lemma mild_copySharedRegion (n : ℕ) (a : Area) (pid : ℤ) (known : Bool) : Mild (copySharedRegion n a pid known) := by
  refine mild_bind mild_get fun k => ?_
  cases k.getTcb pid with
  | none => exact mild_pure false
  | some s =>
    refine mild_bind (mild_placeArea a) fun _ => mild_bind (mild_assert _) fun _ => ?_
    refine mild_bind (mild_takePages _) fun given => ?_
    split_ifs
    · refine mild_bind (mild_assert _) fun _ => mild_bind (mild_referenceThread s) fun _ => ?_
      exact mild_bind (mild_keepArea n a) fun _ => mild_pure true
    · exact mild_pure false

lemma mild_copyArea (n : ℕ) (a : Area) : Mild (copyArea n a) := by
  unfold copyArea
  split
  · exact mild_copySharedRegion n a _ _
  · exact mild_copyMappedRegion n a

lemma mild_copyUvmem (n : ℕ) (areas : List Area) : Mild (copyUvmem n areas) := by
  induction areas with
  | nil => exact mild_pure true
  | cons a areas ih =>
    refine mild_bind (mild_copyArea n a) fun copied => ?_
    cases copied with
    | false => exact mild_pure false
    | true => exact ih

lemma mild_enterRpc (c : ℤ) (t r : ℕ) (a : Rpc.SysRet) (flags : Rpc.IpcFlags) : Mild (enterRpc c t r a flags) := by
  intro k
  simp only [enterRpc, ends_bind, ends_get, ends_deref, ends_modifyThread, implies_true, true_and]
  intro inUse hp e he
  have htid := Rpc.enterRpc_tid he
  have h₁ : Plain k (k.setTcb inUse
      { k.tcb inUse with thread := { (k.tcb inUse).thread with page := e.page } }) :=
    plain_setTcb ⟨rfl, rfl, rfl, rfl, rfl, id⟩
  have hrest := mild_bind (mild_cloneUvmem (k.tcb r).procVmem (k.tcb t).rpcVmem) fun _ => mild_referenceThread r
  refine ends_bind.1 (hrest.from plain_composes (.trans h₁ (plain_setTcb ?_)))
  exact ⟨htid.trans (h₁.core t).tid.symm, rfl, rfl, rfl, rfl, id⟩

lemma mild_sysSetHandler (t : ℕ) (tid pid : ℤ) : Mild (sysSetHandler t tid pid) := by
  refine mild_bind mild_get fun k => ?_
  split_ifs
  · exact mild_setArgs1 t ERR_PERM
  · cases k.getTcb tid with
    | none => exact mild_setArgs1 t _
    | some r =>
      refine mild_bind (mild_modifyTcb fun _ => ?_) fun _ => mild_setArgs1 t _
      exact ⟨rfl, rfl, rfl, rfl, rfl, id⟩

lemma mild_sysExec (t : ℕ) (found : Bool) (loaded : Loaded) : Mild (sysExec t found loaded) := by
  refine mild_bind mild_get fun k => ?_
  dsimp only
  split_ifs
  · exact mild_setArgs1 t _
  · exact mild_setArgs1 t _
  · exact mild_setArgs1 t _
  · cases loaded with
    | faults => exact mild_stop
    | refused => exact mild_setArgs1 t _
    | entry entry =>
      refine mild_bind (mild_modifyTcb fun _ => ?_) fun _ => ?_
      · exact ⟨rfl, rfl, rfl, rfl, rfl, id⟩
      refine mild_bind (mild_setThread t) fun _ => ?_
      refine mild_bind (mild_modifyThread fun _ => rfl) fun _ => ?_
      exact mild_modifyThread fun _ => rfl

lemma mild_sysDetach (t : ℕ) (tid : ℤ) : Mild (sysDetach t tid) := by
  refine mild_bind mild_get fun k => ?_
  refine mild_bind (mild_deref _) fun p => ?_
  split_ifs
  · exact mild_setArgs1 t _
  · cases k.getTcb tid with
    | none => exact mild_setArgs1 t _
    | some o =>
      simp only
      split_ifs
      · exact mild_setArgs1 t _
      · exact mild_bind (mild_orphanize o) fun _ => mild_setArgs1 t _

lemma mild_sysGetCap (t : ℕ) (tid : ℤ) : Mild (sysGetCap t tid) := by
  refine mild_bind mild_get fun k => ?_
  cases k.getTcb tid with
  | none => exact mild_setArgs1 t _
  | some a => exact mild_setArgs2 t _ _

lemma mild_irqCall (t : ℕ) (call : Irq.Table → Tcb → ℤ × Irq.Table) : Mild (irqCall t call) := by
  refine mild_bind mild_get fun k => ?_
  refine mild_bind (mild_modify fun _ => ?_) fun _ => mild_setArgs1 t _
  exact ⟨rfl, rfl, rfl, rfl, rfl, rfl, rfl, rfl, rfl, fun _ => .refl _⟩

lemma mild_sysIrqReq (t : ℕ) (id : BitVec 64) : Mild (sysIrqReq t id) := mild_irqCall t fun m x => Irq.sysIrqReq m x id

lemma mild_sysFreeIrq (t : ℕ) (id : BitVec 64) : Mild (sysFreeIrq t id) :=
  mild_irqCall t fun m x => Irq.sysFreeIrq m x id

lemma mild_sysSetConf (t : ℕ) (rpc : Bool) (val : ℕ) : Mild (sysSetConf t rpc val) := by
  refine mild_bind mild_get fun k => ?_
  split_ifs
  · exact mild_setArgs1 t _
  · exact mild_setArgs1 t _
  · dsimp only
    split_ifs
    · exact mild_setArgs1 t _
    · refine mild_bind (mild_modify fun _ => ?_) fun _ => mild_setArgs1 t _
      exact ⟨rfl, rfl, rfl, rfl, rfl, rfl, rfl, rfl, rfl, fun _ => .refl _⟩

def called (k : State) (t : ℕ) : State :=
  State.setTcb { k with trace := k.trace ++ [LockOp.lock] } t
    { k.tcb t with thread := { (k.tcb t).thread with exec := (k.tcb t).thread.exec + 4 } }

lemma trap_syscall (c : ℤ) (s : Syscall) (k : State) {Q : Unit → State → Prop} {E : Exit → State → Prop}
    (hstop : ∀ k', E .stuck k')
    (h : ∀ t, k.tp c = some t →
      Ends (do handleSyscall c t s; bklUnlock; (retUserspace : K Unit)) Q E (called k t)) :
    Ends (trap c (.syscall s)) Q E k := by
  simp only [trap, enterKernel, dispatch, bklLock, lockOp, ends_bind, ends_modify, ends_get, ends_deref,
    ends_modifyThread]
  refine ⟨fun _ => hstop _, fun t ht => ?_⟩
  have := h t ht
  simp only [ends_bind] at this
  exact this

lemma called_plain (k : State) (t : ℕ) : Plain { k with trace := k.trace ++ [LockOp.lock] } (called k t) :=
  plain_setTcb ⟨rfl, rfl, rfl, rfl, rfl, id⟩

end Kmi.Kernel
