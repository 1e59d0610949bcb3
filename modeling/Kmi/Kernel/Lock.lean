import Kmi.Kernel.Plain

/-! Who holds the kernel lock when the kernel is left. -/

namespace Kmi.Kernel

open Library.Prog

variable {α β : Type} {k k' : State}

def Silent (x : K α) : Prop :=
  Within (fun k k' => k'.trace = k.trace)
    (fun e k k' => e = .stuck ∨ e = .user ∧ k'.trace = k.trace ++ [.unlock, .user]) x

lemma trace_composes : Composes (fun k k' : State => k'.trace = k.trace)
    (fun (e : Exit) k k' => e = .stuck ∨ e = .user ∧ k'.trace = k.trace ++ [.unlock, .user]) where
  refl _ := rfl
  trans h h' := h'.trans h
  leave h hl := hl.imp_right fun hu => ⟨hu.1, by rw [hu.2, h]⟩

lemma Mild.silent {x : K α} (h : Mild x) : Silent x :=
  fun k => (h k).mono (fun _ _ hp => hp.trace) fun _ _ he => .inl he

def Note.enters : Note → Bool
  | .enter _ _ _ _ => true
  | _ => false

structure Aside (k k' : State) : Prop where
  trace : k'.trace = k.trace
  notes : ∃ ns, k'.notes = k.notes ++ ns ∧ ∀ n ∈ ns, n.enters = false

lemma Aside.of_eq (htrace : k'.trace = k.trace) (hnotes : k'.notes = k.notes) : Aside k k' :=
  ⟨htrace, [], by rw [hnotes, List.append_nil], nofun⟩

lemma Aside.trans {k'' : State} (h : Aside k k') (h' : Aside k' k'') : Aside k k'' where
  trace := h'.trace.trans h.trace
  notes := by
    obtain ⟨ns, hns, hno⟩ := h.notes
    obtain ⟨ns', hns', hno'⟩ := h'.notes
    refine ⟨ns ++ ns', by rw [hns', hns, List.append_assoc], fun n hn => ?_⟩
    rcases List.mem_append.1 hn with hn | hn
    · exact hno n hn
    · exact hno' n hn

def Stays (x : K α) : Prop := Within Aside (fun e _ _ => e = .stuck) x

lemma stays_composes : Composes Aside (fun (e : Exit) _ _ => e = .stuck) where
  refl _ := .of_eq rfl rfl
  trans := .trans
  leave _ hl := hl

lemma Mild.stays {x : K α} (h : Mild x) : Stays x :=
  fun k => (h k).mono (fun _ _ hp => .of_eq hp.trace hp.notes) fun _ _ he => he

lemma Stays.silent {x : K α} (h : Stays x) : Silent x :=
  fun k => (h k).mono (fun _ _ hp => hp.trace) fun _ _ he => .inl he

lemma stays_bind {x : K α} {f : α → K β} (hx : Stays x) (hf : ∀ a, Stays (f a)) : Stays (x >>= f) :=
  Within.bind stays_composes hx hf

lemma stays_pure (a : α) : Stays (pure a : K α) := (mild_pure a).stays

lemma stays_get : Stays (get : K State) := mild_get.stays

lemma stays_deref (p : Option α) : Stays (deref p) := (mild_deref p).stays

lemma stays_assert (p : Bool) : Stays (assert p) := (mild_assert p).stays

lemma stays_onlyIf {p : Prop} [Decidable p] {x : K Unit} (h : Stays x) : Stays (onlyIf p x) := by
  unfold onlyIf
  split_ifs
  · exact h
  · exact stays_pure ()

lemma stays_modify {f : State → State} (h : ∀ k, (f k).trace = k.trace ∧ (f k).notes = k.notes) :
    Stays (modify f) :=
  within_modify fun k => .of_eq (h k).1 (h k).2

lemma stays_modifyTcb (a : ℕ) (f : Tcb → Tcb) : Stays (modifyTcb a f) := stays_modify fun _ => ⟨rfl, rfl⟩

lemma stays_modifyThread (a : ℕ) (f : Rpc.Thread → Rpc.Thread) : Stays (modifyThread a f) :=
  stays_modifyTcb a _

lemma stays_setArgs1 (t : ℕ) (s : ℤ) : Stays (setArgs1 t s) := (mild_setArgs1 t s).stays

lemma stays_note {n : Note} (h : n.enters = false) : Stays (note n) :=
  within_modify fun k => ⟨rfl, [n], rfl, by simpa using h⟩

lemma silent_bind {x : K α} {f : α → K β} (hx : Silent x) (hf : ∀ a, Silent (f a)) : Silent (x >>= f) :=
  Within.bind trace_composes hx hf

lemma silent_pure (a : α) : Silent (pure a : K α) := (mild_pure a).silent

lemma silent_get : Silent (get : K State) := mild_get.silent

lemma silent_deref (p : Option α) : Silent (deref p) := (mild_deref p).silent

lemma silent_assert (p : Bool) : Silent (assert p) := (mild_assert p).silent

lemma silent_onlyIf {p : Prop} [Decidable p] {x : K Unit} (h : Silent x) : Silent (onlyIf p x) := by
  unfold onlyIf
  split_ifs
  · exact h
  · exact silent_pure ()

lemma silent_modify {f : State → State} (h : ∀ k, (f k).trace = k.trace) : Silent (modify f) := within_modify h

lemma silent_modifyTcb (a : ℕ) (f : Tcb → Tcb) : Silent (modifyTcb a f) := silent_modify fun _ => rfl

lemma silent_modifyThread (a : ℕ) (f : Rpc.Thread → Rpc.Thread) : Silent (modifyThread a f) :=
  silent_modifyTcb a _

lemma silent_setArgs1 (t : ℕ) (s : ℤ) : Silent (setArgs1 t s) := (mild_setArgs1 t s).silent

lemma silent_leave : Silent (do bklUnlock; (retUserspace : K α)) := by
  intro k
  refine .inr ⟨rfl, ?_⟩
  simp

lemma stays_readTcbs (i : ℤ) : Stays (readTcbs i) := by
  refine stays_bind (stays_modify fun _ => ⟨rfl, rfl⟩) fun _ => ?_
  exact stays_bind stays_get fun _ => stays_pure _

lemma stays_writeTcbs (i : ℤ) (t : Option ℕ) : Stays (writeTcbs i t) := stays_modify fun _ => ⟨rfl, rfl⟩

lemma stays_findTid (t : ℕ) (stop : ℤ) (fuel : ℕ) (i : ℤ) : Stays (findTid t stop fuel i) := by
  induction fuel generalizing i with
  | zero => exact stays_pure _
  | succ fuel ih =>
    unfold findTid
    split_ifs
    · exact stays_pure _
    · refine stays_bind (stays_readTcbs _) fun found => ?_
      cases found with
      | some a => exact ih _
      | none =>
        refine stays_bind (stays_writeTcbs _ _) fun _ => ?_
        exact stays_bind (stays_modify fun _ => ⟨rfl, rfl⟩) fun _ => stays_pure _

lemma stays_initFreeThread (t : ℕ) : Stays (initFreeThread t) := by
  refine stays_bind mild_allocPage.stays fun vmem => ?_
  cases vmem with
  | none => exact stays_pure _
  | some vmem =>
    refine stays_bind (stays_modifyTcb _ _) fun _ => ?_
    refine stays_bind (mild_initUvmem t).stays fun ok => ?_
    split_ifs
    · exact stays_bind (mild_freePage _).stays fun _ => stays_pure _
    · refine stays_bind mild_allocPage.stays fun rpc => ?_
      cases rpc with
      | none => exact stays_bind (mild_freePage _).stays fun _ => stays_pure _
      | some rpc =>
        refine stays_bind (stays_modifyTcb _ _) fun _ => ?_
        refine stays_bind (mild_setupRpcStack t).stays fun ok => ?_
        split_ifs
        · refine stays_bind (mild_destroyRpcmem t).stays fun _ => ?_
          exact stays_bind (mild_freePage _).stays fun _ => stays_pure _
        · exact stays_bind (stays_modifyTcb _ _) fun _ => stays_pure _

lemma stays_initOwnedThread (p t : ℕ) : Stays (initOwnedThread p t) := by
  refine stays_bind stays_get fun k => ?_
  refine stays_bind (stays_modifyTcb _ _) fun _ => ?_
  refine stays_bind mild_allocPage.stays fun rpc => ?_
  cases rpc with
  | none => exact stays_pure _
  | some rpc =>
    refine stays_bind (stays_modifyTcb _ _) fun _ => ?_
    refine stays_bind (mild_setupRpcStack t).stays fun ok => ?_
    split_ifs
    · exact stays_bind (mild_destroyRpcmem t).stays fun _ => stays_pure _
    · exact stays_bind (mild_referenceThread p).stays fun _ => stays_pure _

lemma stays_takeTid (t : ℕ) : Stays (takeTid t) := by
  refine stays_bind (stays_modify fun _ => ⟨rfl, rfl⟩) fun _ => ?_
  refine stays_bind (stays_note rfl) fun _ => ?_
  refine stays_bind (stays_bind stays_get fun _ => stays_findTid _ _ _ _) fun tid => ?_
  exact stays_bind (stays_writeTcbs _ _) fun _ => stays_modifyThread _ _

lemma stays_constructThread (p : Option ℕ) (t : ℕ) : Stays (constructThread p t) := by
  refine stays_bind (stays_takeTid t) fun _ => ?_
  refine stays_bind ?_ fun ok => ?_
  · cases p with
    | some p => exact stays_initOwnedThread p t
    | none => exact stays_initFreeThread t
  split_ifs
  · exact stays_bind (stays_modify fun _ => ⟨rfl, rfl⟩) fun _ => stays_pure _
  · refine stays_bind stays_get fun k => ?_
    refine stays_bind (stays_deref _) fun parent => ?_
    refine stays_bind (mild_cloneUvmem _ _).stays fun _ => ?_
    exact stays_bind (mild_referenceThread t).stays fun _ => stays_pure _

lemma stays_allocStack : Stays allocStack := by
  refine stays_bind mild_answer.stays fun p => ?_
  cases p with
  | none => exact stays_pure _
  | some p =>
    refine stays_bind stays_get fun k => ?_
    refine stays_bind (stays_assert _) fun _ => ?_
    exact stays_bind (stays_modify fun _ => ⟨rfl, rfl⟩) fun _ => stays_pure _

lemma stays_createThread (p : Option ℕ) : Stays (createThread p) := by
  refine stays_bind stays_allocStack fun t => ?_
  cases t with
  | none => exact stays_pure _
  | some t => exact stays_constructThread p t

lemma stays_createProc (p : Option (ℕ × List Area)) : Stays (createProc p) := by
  refine stays_bind (stays_createThread none) fun n => ?_
  cases n with
  | none => exact stays_pure _
  | some n =>
    cases p with
    | none => exact stays_pure _
    | some p =>
      refine stays_bind (stays_bind stays_get fun _ => ?_) fun _ => stays_pure _
      exact stays_bind (stays_modifyTcb _ _) fun _ => (mild_copyUvmem n p.2).stays

lemma stays_destroyThreadData (t : ℕ) : Stays (destroyThreadData t) := by
  refine stays_bind stays_get fun x => ?_
  refine stays_bind (stays_assert _) fun _ => ?_
  refine stays_bind (stays_assert _) fun _ => ?_
  refine stays_bind (stays_writeTcbs _ _) fun _ => ?_
  refine stays_bind (mild_freeAll mild_freeNode _).stays fun _ => ?_
  refine stays_bind (mild_freeAll mild_freePage _).stays fun _ => ?_
  exact stays_modify fun _ => ⟨rfl, rfl⟩

lemma stays_unreferenceThread (t : Option ℕ) : Stays (unreferenceThread t) := by
  cases t with
  | none => exact stays_pure _
  | some t =>
    refine stays_bind (stays_modifyTcb _ _) fun _ => ?_
    refine stays_bind stays_get fun k => ?_
    refine stays_bind (stays_onlyIf (stays_destroyThreadData t)) fun _ => ?_
    exact stays_bind stays_get fun _ => stays_assert _

lemma stays_unqueueIpi (t : ℕ) : Stays (unqueueIpi t) := by
  refine stays_bind stays_get fun k => stays_bind (stays_deref _) fun ipi => ?_
  exact stays_modify fun _ => ⟨rfl, rfl⟩

lemma stays_destroyThread (t : ℕ) : Stays (destroyThread t) := by
  refine stays_bind stays_get fun k => ?_
  refine stays_bind (stays_assert _) fun _ => ?_
  refine stays_bind (stays_onlyIf (stays_unreferenceThread _)) fun _ => ?_
  refine stays_bind stays_get fun k => ?_
  refine stays_bind (mild_freeAll mild_freePage _).stays fun _ => ?_
  refine stays_bind (mild_destroyRpcmem t).stays fun _ => ?_
  refine stays_bind (stays_unqueueIpi t) fun _ => ?_
  exact stays_bind (stays_modifyTcb _ _) fun _ => stays_unreferenceThread _

lemma stays_useTcb (c : ℤ) (t : ℕ) : Stays (useTcb c t) := by
  refine stays_bind stays_get fun k => ?_
  refine stays_bind (stays_deref _) fun cur => ?_
  exact stays_bind (stays_modifyTcb _ _) fun _ => stays_modify fun _ => ⟨rfl, rfl⟩

lemma silent_runNotify (c : ℤ) (t r : ℕ) : Silent (runNotify c t r : K α) := by
  refine silent_bind (stays_useTcb c r).silent fun _ => ?_
  refine silent_bind silent_get fun k => ?_
  refine silent_bind (mild_enterRpc c t r _ _).silent fun _ => ?_
  refine silent_bind (silent_bind (silent_modifyTcb _ _) fun _ => fun _ => rfl) fun _ => ?_
  exact silent_leave

lemma stays_requestFlags (t : ℕ) (flags : BitVec 32) : Stays (requestFlags t flags) :=
  stays_bind (stays_modifyTcb _ _) fun _ => stays_note rfl

lemma stays_dropFlags (t : ℕ) (handler : Option (Bool × ℤ)) : Stays (dropFlags t handler) :=
  stays_bind (stays_modifyTcb _ _) fun _ => stays_note rfl

lemma stays_sendIpi (r : ℕ) : Stays (sendIpi r) := by
  refine stays_bind stays_get fun k => stays_bind (stays_deref _) fun ipi => ?_
  exact stays_modify fun _ => ⟨rfl, rfl⟩

lemma silent_notify (c : ℤ) (t : ℕ) (flags : BitVec 32) : Silent (notify c t flags) := by
  refine silent_bind (stays_requestFlags t flags).silent fun _ => ?_
  refine silent_bind silent_get fun k => ?_
  dsimp only
  split
  · exact silent_pure _
  · split
    · exact (stays_dropFlags t _).silent
    · split_ifs
      · exact (stays_dropFlags t _).silent
      · exact silent_pure _
      · exact silent_pure _
      · exact (stays_sendIpi _).silent
      · exact silent_runNotify c t _

lemma silent_unorphanize (t : ℕ) : Silent (unorphanize t : K α) := by
  refine silent_bind silent_get fun k => ?_
  refine silent_bind (silent_assert _) fun _ => ?_
  refine silent_bind (silent_deref _) fun init => ?_
  refine silent_bind (mild_referenceThread init).silent fun _ => ?_
  refine silent_bind (silent_modifyTcb _ _) fun _ => ?_
  refine silent_bind (mild_cloneUvmem _ _).silent fun _ => ?_
  refine silent_bind (silent_assert _) fun _ => ?_
  refine silent_bind (silent_modifyThread _ _) fun _ => ?_
  exact silent_bind (silent_modifyTcb _ _) fun _ => silent_leave

lemma silent_leaveRpc (c : ℤ) (t : ℕ) (a : Rpc.SysRet) : Silent (leaveRpc c t a) := by
  refine silent_bind silent_get fun k => ?_
  refine silent_bind (silent_deref _) fun found => ?_
  refine silent_bind (silent_modifyThread _ _) fun _ => ?_
  split_ifs
  · exact silent_unorphanize t
  · refine silent_bind (silent_deref _) fun v => ?_
    refine silent_bind (silent_modifyThread _ _) fun _ => ?_
    refine silent_bind silent_get fun k => ?_
    refine silent_bind (silent_onlyIf (silent_notify c t 0)) fun _ => ?_
    exact silent_onlyIf silent_leave

lemma silent_doIpc (c : ℤ) (t : ℕ) (pid d0 d1 d2 d3 : ℤ) (flags : Rpc.IpcFlags) :
    Silent (doIpc c t pid d0 d1 d2 d3 flags) := by
  refine silent_bind silent_get fun k => ?_
  dsimp only
  split
  · exact silent_setArgs1 t _
  · split
    · exact silent_setArgs1 t _
    · split
      · exact silent_bind (mild_enterRpc c t _ _ _).silent fun _ => silent_leave
      · exact silent_setArgs1 t _

lemma silent_sysIpcResp (c : ℤ) (t : ℕ) (d0 d1 d2 d3 : ℤ) : Silent (sysIpcResp c t d0 d1 d2 d3) := by
  refine silent_bind silent_get fun k => ?_
  dsimp only
  split
  · exact silent_setArgs1 t _
  · exact silent_bind (stays_unreferenceThread _).silent fun _ => silent_leaveRpc c t _

lemma silent_sysIpcNotify (c : ℤ) (t : ℕ) (tid : ℤ) : Silent (sysIpcNotify c t tid) := by
  refine silent_bind silent_get fun k => ?_
  split
  · exact silent_setArgs1 t _
  · split
    · exact silent_setArgs1 t _
    · exact silent_bind (silent_setArgs1 t _) fun _ => silent_notify c _ _

lemma stays_sysCreate (t : ℕ) (func d0 d1 d2 d3 : ℤ) : Stays (sysCreate t func d0 d1 d2 d3) := by
  refine stays_bind stays_get fun k => ?_
  refine stays_bind (stays_deref _) fun p => ?_
  split
  · exact stays_setArgs1 t _
  · refine stays_bind (stays_deref _) fun e => ?_
    refine stays_bind (stays_createThread _) fun n => ?_
    cases n with
    | none => exact stays_setArgs1 t _
    | some n =>
      refine stays_bind (mild_setThread n).stays fun _ => ?_
      refine stays_bind stays_get fun k => ?_
      refine stays_bind (stays_modifyThread _ _) fun _ => ?_
      refine stays_bind (stays_modifyThread _ _) fun _ => ?_
      refine stays_bind stays_get fun k => ?_
      exact stays_bind (stays_modifyTcb _ _) fun _ => stays_setArgs1 t _

lemma stays_sysFork (t : ℕ) (areas : List Area) : Stays (sysFork t areas) := by
  refine stays_bind stays_get fun k => ?_
  refine stays_bind (stays_deref _) fun p => ?_
  split
  · exact stays_setArgs1 t _
  · refine stays_bind (stays_deref _) fun e => ?_
    refine stays_bind (stays_createProc _) fun n => ?_
    cases n with
    | none => exact stays_setArgs1 t _
    | some n =>
      refine stays_bind stays_get fun k => ?_
      refine stays_bind (stays_deref _) fun e => ?_
      refine stays_bind (mild_setArgs2 n _ _).stays fun _ => ?_
      exact stays_bind (stays_modifyTcb _ _) fun _ => stays_setArgs1 t _

lemma stays_sysSpawn (t : ℕ) (loaded : Loaded) : Stays (sysSpawn t loaded) := by
  refine stays_bind stays_get fun k => ?_
  refine stays_bind (stays_deref _) fun p => ?_
  split
  · exact stays_setArgs1 t _
  · refine stays_bind (stays_createProc _) fun n => ?_
    cases n with
    | none => exact stays_setArgs1 t _
    | some n =>
      refine stays_bind stays_get fun k => ?_
      refine stays_bind (stays_modifyTcb _ _) fun _ => ?_
      cases loaded with
      | faults => exact mild_stop.stays
      | refused =>
        refine stays_bind stays_get fun k => ?_
        exact stays_bind (stays_assert _) fun _ => stays_setArgs1 t _
      | entry entry =>
        refine stays_bind (stays_modifyTcb _ _) fun _ => ?_
        refine stays_bind (mild_setThread n).stays fun _ => ?_
        refine stays_bind (stays_modifyThread _ _) fun _ => ?_
        refine stays_bind (stays_modifyThread _ _) fun _ => ?_
        exact stays_bind stays_get fun _ => stays_setArgs1 t _

lemma silent_swap (c : ℤ) (t s : ℕ) : Silent (swap c t s) := by
  refine silent_bind (silent_setArgs1 t _) fun _ => ?_
  refine silent_bind (stays_useTcb c s).silent fun _ => ?_
  refine silent_bind silent_get fun k => ?_
  dsimp only
  split_ifs
  · exact silent_unorphanize s
  · exact silent_notify c s 0
  · exact silent_pure _

lemma silent_swapTo (c : ℤ) (t : ℕ) (tid : ℤ) {next : K Unit} (h : Silent next) :
    Silent (swapTo c t tid next) := by
  refine silent_bind silent_get fun k => ?_
  split
  · exact silent_setArgs1 t _
  · split_ifs
    · exact silent_setArgs1 t _
    · exact silent_setArgs1 t _
    · exact silent_bind (silent_swap c t _) fun _ => h

lemma silent_sysSwap (c : ℤ) (t : ℕ) (tid : ℤ) : Silent (sysSwap c t tid) := by
  refine silent_bind silent_get fun k => ?_
  refine silent_bind (silent_deref _) fun p => ?_
  split
  · exact silent_setArgs1 t _
  · exact silent_swapTo c t tid (silent_pure _)

lemma silent_sysExit (c : ℤ) (t : ℕ) {tid : ℤ} (h : tid ≠ 0) : Silent (sysExit c t tid) := by
  refine silent_bind silent_get fun k => ?_
  refine silent_bind (silent_deref _) fun p => ?_
  rw [if_neg h]
  split_ifs
  · exact silent_setArgs1 t _
  · exact silent_setArgs1 t _
  · exact silent_swapTo c t tid (stays_destroyThread t).silent

lemma stays_changeCaps (t : ℕ) (tid : ℤ) (f : BitVec 32 → BitVec 32) : Stays (changeCaps t tid f) := by
  refine stays_bind stays_get fun k => ?_
  split
  · exact stays_setArgs1 t _
  · split
    · exact stays_setArgs1 t _
    · exact stays_bind (stays_modifyTcb _ _) fun _ => stays_setArgs1 t _

lemma stays_memRefs (refs : List MemRef) : Stays (memRefs refs) := by
  induction refs with
  | nil => exact stays_pure _
  | cons ref refs ih =>
    refine stays_bind ?_ fun _ => ih
    cases ref with
    | take tid =>
      refine stays_bind stays_get fun k => ?_
      split
      · exact stays_pure _
      · exact (mild_referenceThread _).stays
    | drop tid => exact stays_bind stays_get fun _ => stays_unreferenceThread _

lemma silent_handleSyscall (c : ℤ) (t : ℕ) (s : Syscall) (hexit : s ≠ .exit 0) (hsleep : s ≠ .sleep) :
    Silent (handleSyscall c t s) := by
  cases s with
  | ipc call pid d0 d1 d2 d3 => exact silent_bind silent_get fun _ => silent_doIpc c t pid d0 d1 d2 d3 _
  | ipcResp d0 d1 d2 d3 => exact silent_sysIpcResp c t d0 d1 d2 d3
  | ipcNotify tid => exact silent_sysIpcNotify c t tid
  | setHandler tid pid => exact (mild_sysSetHandler t tid pid).silent
  | create func d0 d1 d2 d3 => exact (stays_sysCreate t func d0 d1 d2 d3).silent
  | fork areas => exact (stays_sysFork t areas).silent
  | exec found loaded => exact (mild_sysExec t found loaded).silent
  | spawn loaded => exact (stays_sysSpawn t loaded).silent
  | swap tid => exact silent_sysSwap c t tid
  | exit tid => exact silent_sysExit c t fun h => hexit (by rw [h])
  | detach tid => exact (mild_sysDetach t tid).silent
  | setCap tid caps => exact (stays_changeCaps t tid (· ||| caps)).silent
  | getCap tid => exact (mild_sysGetCap t tid).silent
  | clearCap tid caps => exact (stays_changeCaps t tid (· &&& ~~~caps)).silent
  | irqReq id => exact (mild_sysIrqReq t id).silent
  | freeIrq id => exact (mild_sysFreeIrq t id).silent
  | setConf rpc val => exact (mild_sysSetConf t rpc val).silent
  | sleep => exact absurd rfl hsleep
  | other refs n ret => exact silent_bind (stays_memRefs refs).silent fun _ => silent_modifyThread _ _

def Closes (x : K Unit) : Prop :=
  ∀ k, Ends x (fun _ k' => k'.trace = k.trace ++ [.unlock])
    (fun e k' => e = .stuck ∨ e = .user ∧ k'.trace = k.trace ++ [.unlock, .user]) k

lemma closes_bklUnlock : Closes bklUnlock := fun _ => rfl

lemma closes_bind {x : K α} {f : α → K Unit} (hx : Silent x) (hf : ∀ a, Closes (f a)) : Closes (x >>= f) := by
  intro k
  apply (hx k).bind
  intro a k' hk
  refine (hf a k').mono ?_ ?_
  · intro _ k'' h
    rw [h, hk]
  · rintro e k'' (h | ⟨he, h⟩)
    · exact .inl h
    · exact .inr ⟨he, by rw [h, hk]⟩

lemma closes_handlePagefault (c : ℤ) (addr : ℤ) : Closes (do handlePagefault c addr; bklUnlock) := by
  refine closes_bind ?_ fun _ => closes_bklUnlock
  refine silent_bind silent_get fun k => ?_
  refine silent_bind (silent_deref _) fun t => ?_
  split
  · exact silent_bind (silent_deref _) fun u => silent_modifyThread _ _
  · exact silent_bind (silent_deref _) fun p => (mild_cloneUvmem _ _).silent

lemma Closes.whole {x : K Unit} (h : Closes x) (k : State) :
    Ends (do bklLock; x; (retUserspace : K Unit)) (fun _ _ => False)
      (fun e k' => e = .stuck ∨ k'.trace = k.trace ++ [.lock, .unlock, .user]) k := by
  rw [ends_bind]
  change Ends _ _ _ { k with trace := k.trace ++ [LockOp.lock] }
  rw [ends_bind]
  refine (h _).mono ?_ ?_
  · intro _ k' hk
    refine .inr ?_
    change k'.trace ++ [LockOp.user] = _
    simp [hk]
  · rintro e k' (he | ⟨-, hk⟩)
    · exact .inl he
    · refine .inr ?_
      simp [hk]

def orderly : Bool → List LockOp → Bool
  | _, [] => true
  | h, .lock :: ops => !h && orderly true ops
  | h, .unlock :: ops => h && orderly false ops
  | h, .user :: ops => !h && orderly h ops
  | h, .sleep :: ops => !h && orderly h ops

/-- The lock is taken once, at the start, it is given back only when it is held, and it is
not held in user mode or when the processor stops. -/
def Disciplined (trace : List LockOp) : Prop :=
  trace.head? = some .lock ∧ trace.count .lock = 1 ∧ orderly false trace = true

instance (trace : List LockOp) : Decidable (Disciplined trace) :=
  inferInstanceAs (Decidable (_ ∧ _ ∧ _))

def Leaks (c : ℤ) (k : State) : Entry → Prop
  | .irq => k.irqMap.word Irq.getIrq = 0
  | .syscall (.exit tid) => tid = 0 ∧ ∀ t, k.tp c = some t → (k.tcb t).thread.tid ≠ 1 ∧
      ∀ p, k.getTcb (k.tcb t).thread.eid = some p → isSet (k.tcb p).caps CAP_PROC = true
  | _ => False

def RefusesExit (k : State) (t : ℕ) : Prop :=
  (k.tcb t).thread.tid = 1 ∨ ∃ p, k.getTcb (k.tcb t).thread.eid = some p ∧ isSet (k.tcb p).caps CAP_PROC = false

lemma sysExit_zero (c : ℤ) (t : ℕ) (k : State) :
    Ends (sysExit c t 0) (fun _ k' => k'.trace = k.trace ∧ RefusesExit k t)
      (fun e k' => e = .stuck ∨ k'.trace = k.trace ++ [.sleep] ∧ ¬ RefusesExit k t) k := by
  simp only [sysExit, ends_bind, ends_get, ends_deref, true_or, implies_true, true_and]
  intro p hp
  split_ifs with hcap hone
  · refine (stays_setArgs1 t ERR_PERM k).mono (fun _ _ h => ⟨h.trace, .inr ⟨p, hp, ?_⟩⟩) fun _ _ => .inl
    simpa using hcap
  · exact (stays_setArgs1 t _ k).mono (fun _ _ h => ⟨h.trace, .inl hone⟩) fun _ _ => .inl
  · rw [ends_bind]
    refine (stays_destroyThread t k).mono (fun _ k' h => ?_) fun _ _ => .inl
    refine .inr ⟨?_, ?_⟩
    · change k'.trace ++ [LockOp.sleep] = _
      rw [h.trace]
    · rintro (h | ⟨p', hp', h⟩)
      · exact hone h
      · obtain rfl := Option.some.inj (hp.symm.trans hp')
        simp [h] at hcap

def Settles (c : ℤ) (e : Entry) (k : State) : Prop :=
  Ends (trap c e) (fun _ _ => False) (fun x k' => x = .stuck ∨ (Disciplined k'.trace ↔ ¬ Leaks c k e)) k

lemma Closes.settles {c : ℤ} {e : Entry} {x : K Unit} (h : Closes x) (hk : k.trace = [])
    (he : enterKernel c e = (do bklLock; x)) (hl : ¬ Leaks c k e) : Settles c e k := by
  have heq : trap c e = (do bklLock; x; (retUserspace : K Unit)) := by
    rw [trap, he, bind_assoc]
  rw [Settles, heq]
  refine (h.whole k).mono (fun _ _ hf => hf) ?_
  rintro x k' (hx | htrace)
  · exact .inl hx
  · refine .inr ⟨fun _ => hl, fun _ => ?_⟩
    rw [htrace, hk]
    decide

lemma closes_body {c : ℤ} {s : Syscall} (h : ∀ t, Silent (handleSyscall c t s)) :
    Closes (do
      let t ← deref ((← get).tp c)
      modifyThread t fun x => { x with exec := x.exec + 4 }
      handleSyscall c t s
      bklUnlock) := by
  refine closes_bind silent_get fun k => ?_
  refine closes_bind (silent_deref _) fun t => ?_
  refine closes_bind (silent_modifyThread _ _) fun _ => ?_
  exact closes_bind (h t) fun _ => closes_bklUnlock

lemma refusesExit_called (k : State) (t : ℕ) : RefusesExit (called k t) t ↔ RefusesExit k t := by
  have hplain := called_plain k t
  have heid : ((called k t).tcb t).thread.eid = (k.tcb t).thread.eid := by
    simp [called, State.setTcb]
  have htid : ((called k t).tcb t).thread.tid = (k.tcb t).thread.tid := (hplain.core t).tid
  have hcaps : ∀ p, ((called k t).tcb p).caps = (k.tcb p).caps := fun p => (hplain.core p).caps
  have hget : ∀ x, (called k t).getTcb x = k.getTcb x := hplain.getTcb
  simp only [RefusesExit, htid, heid, hget, hcaps]

lemma leaks_exit_iff {c : ℤ} {t : ℕ} (ht : k.tp c = some t) :
    Leaks c k (.syscall (.exit 0)) ↔ ¬ RefusesExit k t := by
  simp only [Leaks, true_and, ht, Option.some.injEq, forall_eq', RefusesExit, not_or, not_exists, not_and,
    Bool.not_eq_false]

lemma settles_exit (c : ℤ) (tid : ℤ) (hk : k.trace = []) : Settles c (.syscall (.exit tid)) k := by
  by_cases h : tid = 0
  · subst h
    refine trap_syscall c _ k (fun _ => .inl rfl) fun t ht => ?_
    rw [leaks_exit_iff ht, ends_bind]
    have htrace : (called k t).trace = [LockOp.lock] := by
      simp [called, State.setTcb, hk]
    refine (sysExit_zero c t (called k t)).mono ?_ ?_
    · rintro _ k' ⟨htr, href⟩
      rw [refusesExit_called] at href
      refine .inr ⟨fun _ => not_not.2 href, fun _ => ?_⟩
      change Disciplined (k'.trace ++ [LockOp.unlock] ++ [LockOp.user])
      rw [htr, htrace]
      decide
    · rintro e k' (he | ⟨htr, href⟩)
      · exact .inl he
      · rw [refusesExit_called] at href
        refine .inr ⟨fun hd => ?_, fun hn => absurd href hn⟩
        rw [htr, htrace] at hd
        exact absurd hd (by decide)
  · apply (closes_body fun t => ?_).settles hk rfl
    · exact fun hl => h hl.1
    · exact silent_sysExit c t h

lemma settles_sleep (c : ℤ) (hk : k.trace = []) : Settles c (.syscall .sleep) k := by
  refine trap_syscall c _ k (fun _ => .inl rfl) fun t ht => ?_
  have htrace : (called k t).trace = [LockOp.lock] := by
    simp [called, State.setTcb, hk]
  have hok : ∀ k' : State, Disciplined k'.trace → (Disciplined k'.trace ↔ ¬ Leaks c k (.syscall .sleep)) :=
    fun k' hd => ⟨fun _ hl => hl, fun _ => hd⟩
  rw [ends_bind]
  simp only [handleSyscall, sysSleep, ends_bind, ends_get]
  rw [ends_ite]
  constructor
  · intro _
    refine (stays_setArgs1 t ERR_PERM _).mono ?_ fun _ _ => .inl
    intro _ k' h
    refine .inr (hok _ ?_)
    change Disciplined (k'.trace ++ [LockOp.unlock] ++ [LockOp.user])
    rw [h.trace, htrace]
    decide
  · intro _
    refine .inr (hok _ ?_)
    change Disciplined ((called k t).trace ++ [LockOp.unlock] ++ [LockOp.sleep])
    rw [htrace]
    decide

lemma closes_serveIrq (c : ℤ) {served : Irq.Served ℕ} (h : served ≠ .unregistered) : Closes (serveIrq c served) := by
  cases served with
  | unregistered => exact absurd rfl h
  | dead => exact closes_bklUnlock
  | owner t => exact closes_bind (silent_notify c _ _) fun _ => closes_bklUnlock

lemma settles_irq (c : ℤ) (hk : k.trace = []) : Settles c .irq k := by
  simp only [Settles, trap, enterKernel, handleIrq, bklLock, lockOp, ends_bind, ends_modify, ends_get, ends_deref, hk,
    List.nil_append]
  refine ⟨fun _ => .inl trivial, fun r hr => ?_⟩
  obtain ⟨hz, heq⟩ | hserved : k.irqMap.word Irq.getIrq = 0 ∧ r = (.unregistered, k.irqMap.touch Irq.getIrq) ∨
      k.irqMap.word Irq.getIrq ≠ 0 ∧ r.1 ≠ .unregistered := by
    obtain ⟨hz, heq⟩ | ⟨hnz, -, heq⟩ | ⟨t, hnz, -, -, heq⟩ :=
      Irq.handleIrq_cases k.irqMap k.getTcb fun a => (k.tcb a).orphan
    · exact .inl ⟨hz, Option.some.inj (hr.symm.trans heq)⟩
    · obtain rfl := Option.some.inj (hr.symm.trans heq)
      exact .inr ⟨hnz, by simp⟩
    · obtain rfl := Option.some.inj (hr.symm.trans heq)
      exact .inr ⟨hnz, by simp⟩
  · -- nobody has registered: the handler returns with the lock
    subst heq
    refine .inr ⟨fun hd => ?_, fun hn => absurd hz hn⟩
    change Disciplined [LockOp.lock, LockOp.user] at hd
    exact absurd hd (by decide)
  · obtain ⟨hnz, hne⟩ := hserved
    refine (closes_serveIrq c hne _).mono ?_ ?_
    · intro _ k' htr
      refine .inr ⟨fun _ => hnz, fun _ => ?_⟩
      change Disciplined (k'.trace ++ [LockOp.user])
      rw [htr]
      change Disciplined [LockOp.lock, LockOp.unlock, LockOp.user]
      decide
    · rintro e k' (he | ⟨-, htr⟩)
      · exact .inl he
      · refine .inr ⟨fun _ => hnz, fun _ => ?_⟩
        rw [htr]
        change Disciplined [LockOp.lock, LockOp.unlock, LockOp.user]
        decide

lemma settles (c : ℤ) (e : Entry) (hk : k.trace = []) : Settles c e k := by
  cases e with
  | syscall s =>
    by_cases hexit : ∃ tid, s = .exit tid
    · obtain ⟨tid, rfl⟩ := hexit
      exact settles_exit c tid hk
    · by_cases hsleep : s = .sleep
      · subst hsleep
        exact settles_sleep c hk
      · apply (closes_body fun t => ?_).settles hk rfl
        · cases s <;> simp_all [Leaks]
        · exact silent_handleSyscall c t s (fun h => hexit ⟨0, h⟩) hsleep
  | irq => exact settles_irq c hk
  | timer tid =>
    refine (closes_bind silent_get fun k => ?_).settles hk rfl id
    split
    · exact closes_bklUnlock
    · split_ifs
      · exact closes_bklUnlock
      · exact closes_bind (silent_notify c _ _) fun _ => closes_bklUnlock
  | ipi =>
    refine (closes_bind silent_get fun k => ?_).settles hk rfl id
    refine closes_bind (silent_deref _) fun q => ?_
    refine closes_bind (silent_modify fun _ => rfl) fun _ => ?_
    split
    · exact closes_bklUnlock
    · exact fun _ => .inl rfl
    · exact closes_bind (silent_notify c _ _) fun _ => closes_bklUnlock
  | fault addr => exact (closes_handlePagefault c addr).settles hk rfl id
  | wake status =>
    refine (closes_bind silent_get fun k => ?_).settles hk rfl id
    refine closes_bind (silent_deref _) fun t => ?_
    exact closes_bind (silent_setArgs1 t status) fun _ => closes_bklUnlock

/-- An entry keeps to the discipline exactly when it is none of those that leave with the
lock. The trace is that of the whole entry, up to user mode or the stop of the processor. -/
theorem lock_discipline_iff (c : ℤ) (e : Entry) (k k' : State) (hk : k.trace = [])
    (h : finish (trap c e) k = some k') : Disciplined k'.trace ↔ ¬ Leaks c k e := by
  have hs : Ends (trap c e) _ _ k := settles c e hk
  rw [finish] at h
  cases hx : trap c e k with
  | ok a s' => exact (ends_of_eq_ok hx hs).elim
  | error x s' =>
    rw [hx] at h
    cases x with
    | stuck => cases h
    | user =>
      obtain rfl := Option.some.inj h
      simpa using ends_of_eq_error hx hs
    | asleep =>
      obtain rfl := Option.some.inj h
      simpa using ends_of_eq_error hx hs

def twoThreads : State :=
  (do
    let k ← boot .w64 4096 ((List.range 7).map fun i => some (i + 100))
    step k (.entry 0 (.syscall (.create 8192 0 0 0 0)) ((List.range 5).map fun i => some (i + 200))) :
    Option State).getD (blank .w64)

theorem lock_discipline_iff_swap :
    ∃ k', finish (trap 0 (.syscall (.swap 2))) { twoThreads with trace := [] } = some k' ∧
      Disciplined k'.trace := by
  have h : (finish (trap 0 (.syscall (.swap 2))) { twoThreads with trace := [] }).isSome = true := by
    decide +kernel
  obtain ⟨k', hk'⟩ := Option.isSome_iff_exists.1 h
  exact ⟨k', hk', (lock_discipline_iff 0 _ _ k' rfl hk').2 fun hl => hl⟩

theorem unregistered_irq_keeps_lock :
    ∃ k', finish (trap 0 .irq) { twoThreads with trace := [] } = some k' ∧
      k'.trace = [.lock, .user] ∧ ¬ Disciplined k'.trace := by
  have h : (finish (trap 0 .irq) { twoThreads with trace := [] }).map (·.trace) = some [.lock, .user] := by
    decide +kernel
  obtain ⟨k', hk', htr⟩ := Option.map_eq_some_iff.1 h
  refine ⟨k', hk', htr, ?_⟩
  rw [htr]
  decide

end Kmi.Kernel
