import Kmi.Kernel.Create

/-! What one step of the machine does to the threads and their capabilities, whichever way
it enters the kernel. -/

namespace Kmi.Kernel

open Library.Prog

variable {α β : Type} {k k' k'' : State} {c : ℤ} {s t r n : ℕ}

def Passes (old : BitVec 32 → BitVec 32 → Prop) (new : BitVec 32 → Prop) (k k' : State) : Prop :=
  ∀ i b, k'.tcbs i = some b →
    (k.tcbs i = some b ∧ old (k.tcb b).caps (k'.tcb b).caps) ∨ (k.tcbs i = none ∧ new (k'.tcb b).caps)

structure Shift (old : BitVec 32 → BitVec 32 → Prop) (new : BitVec 32 → Prop) (k k' : State) : Prop where
  thread : Passes old new k k'
  inv : Inv k'

variable {old : BitVec 32 → BitVec 32 → Prop} {new : BitVec 32 → Prop}

lemma Calm.shift (h : Calm k k') (hk : Inv k) (hold : ∀ x, old x x) : Shift old new k k' where
  thread := by
    intro i b hb
    rcases h.tcbs i with hi | hi
    · rw [hi] at hb
      rw [h.caps]
      exact .inl ⟨hb, hold _⟩
    · rw [hi] at hb
      cases hb
  inv := h.inv hk

lemma Shift.calm (h : Shift old new k k') (hc : Calm k' k'') : Shift old new k k'' where
  thread := by
    intro i b hb
    rcases hc.tcbs i with hi | hi
    · rw [hi] at hb
      rw [hc.caps]
      exact h.thread i b hb
    · rw [hi] at hb
      cases hb
  inv := hc.inv h.inv

def withCaps (k : State) (a : ℕ) (caps : BitVec 32) : State := k.setTcb a { k.tcb a with caps := caps }

lemma withCaps_tcb (k : State) (a : ℕ) (caps : BitVec 32) (b : ℕ) : (withCaps k a caps).tcb b =
    { k.tcb b with caps := if b = a then caps else (k.tcb b).caps } := by
  rw [withCaps, setTcb_tcb]
  split_ifs with h
  · rw [h]
  · rfl

lemma withCaps_inv (hk : Inv k) (a : ℕ) (caps : BitVec 32) : Inv (withCaps k a caps) := by
  refine ⟨⟨fun i b hb => ?_, hk.listed, fun b hb hd => ?_, hk.ipi, fun b hb => ?_, hk.notes, hk.indices⟩,
    hk.cpu, fun c b hb => ?_⟩
  · rw [withCaps_tcb]
    exact hk.table i b hb
  · rw [withCaps_tcb] at hd ⊢
    exact hk.alive b hb hd
  · rw [withCaps_tcb]
    exact hk.flags b hb
  · rw [withCaps_tcb]
    exact hk.current c b hb

lemma born_shift {caps : BitVec 32} (hk : Inv k) (hn : k.stackPages n = false) (hlt : k.startTid < numTcbs)
    (hold : ∀ x, old x x) (hnew : new caps) (h : Plain (withCaps (seated k n 1) n caps) k') :
    Shift old new k k' := by
  have hnext := hk.tcbs_next (le_validTid k.startTid)
  have hborn : Shift old new k (withCaps (seated k n 1) n caps) := by
    refine ⟨fun i b hb => ?_, withCaps_inv (seated_inv hk hn hlt) n caps⟩
    change (seated k n 1).tcbs i = some b at hb
    rw [withCaps_tcb]
    by_cases hi : i = validTid k.startTid
    · subst hi
      obtain rfl : n = b := by simpa [seated] using hb
      refine .inr ⟨hnext, ?_⟩
      simpa using hnew
    · have hb : k.tcbs i = some b := by simpa [seated, hi] using hb
      have hne := hk.ne_of_free hn ⟨i, hb⟩
      refine .inl ⟨hb, ?_⟩
      rw [if_neg hne, seated_tcb hne]
      exact hold _
  exact hborn.calm h.steady.toCalm

lemma made_shift {p : Option ℕ} (hk : Inv k) (hlt : k.startTid < numTcbs) (h : Made k p k')
    (hold : ∀ x, old x x) (hnew : new 0) : Shift old new k k' := by
  cases p with
  | none => exact (Plain.steady h).shift hk hold
  | some n =>
    have hsame : Plain (withCaps (seated k n 1) n 0) (seated k n 1) := by
      refine ⟨rfl, rfl, rfl, rfl, rfl, rfl, rfl, rfl, rfl, fun a => ?_⟩
      rw [withCaps_tcb]
      refine ⟨rfl, ?_, rfl, rfl, rfl, id⟩
      split_ifs with ha
      · subst ha
        simp [seated, zeroTcb]
      · rfl
    exact born_shift hk h.1 hlt hold hnew (hsame.trans h.2)

def Shifts (old : BitVec 32 → BitVec 32 → Prop) (new : BitVec 32 → Prop) (x : K α) (k : State) : Prop :=
  Ends x (fun _ k' => Shift old new k k') (fun e k' => e = .stuck ∨ Shift old new k k') k

lemma Calmly.shifts {x : K α} (h : Calmly x k) (hk : Inv k) (hold : ∀ x, old x x) : Shifts old new x k := by
  refine Ends.mono h (fun _ _ hc => hc.shift hk hold) ?_
  rintro e k' (he | hc)
  · exact .inl he
  · exact .inr (hc.shift hk hold)

lemma Mild.shifts {x : K α} (h : Mild x) (hk : Inv k) (hold : ∀ x, old x x) : Shifts old new x k :=
  (goes_of_mild h k).calmly.shifts hk hold

lemma Shifts.get_bind {f : State → K β} (h : Shifts old new (f k) k) : Shifts old new (get >>= f) k := h

lemma Shifts.deref_bind {p : Option α} {f : α → K β} (h : ∀ a, p = some a → Shifts old new (f a) k) :
    Shifts old new (deref p >>= f) k := by
  cases p with
  | none => exact .inl rfl
  | some a => exact h a rfl

lemma Shifts.mild_bind {x : K α} {f : α → K β} (hx : Ends x (fun _ k' => Shift old new k k') (fun e _ => e = .stuck) k)
    (hf : ∀ a, Mild (f a)) : Shifts old new (x >>= f) k := by
  refine ends_bind.2 (hx.mono ?_ fun _ _ he => .inl he)
  intro a k₁ h₁
  refine (hf a k₁).mono ?_ fun _ _ he => .inl he
  exact fun _ _ h₂ => h₁.calm h₂.steady.toCalm

lemma shifts_sysCreate (hk : Inv k) (hlt : k.startTid < numTcbs) (hgiven : unbroken 5 k.answers = true)
    (hold : ∀ x, old x x) (hnew : new 0) (func d0 d1 d2 d3 : ℤ) :
    Shifts old new (sysCreate t func d0 d1 d2 d3) k := by
  unfold sysCreate
  apply Shifts.get_bind
  refine Shifts.deref_bind fun p _ => ?_
  split
  · exact (mild_setArgs1 t _).shifts hk hold
  refine Shifts.deref_bind fun e _ => ?_
  have hmade : Ends (createThread (some e)) (fun _ k' => Shift old new k k') (fun e _ => e = .stuck) k :=
    (createThread_whole (p := some e) hk.toSound hlt hgiven).mono (fun _ _ h => made_shift hk hlt h hold hnew) fun _ _ he => he
  refine Shifts.mild_bind hmade fun n => ?_
  cases n with
  | none => exact mild_setArgs1 t _
  | some n =>
    refine mild_bind (mild_setThread n) fun _ => ?_
    refine mild_bind mild_get fun k₁ => ?_
    refine mild_bind (mild_setRet n 5 _) fun _ => ?_
    refine mild_bind (mild_modifyThread fun _ => rfl) fun _ => ?_
    refine mild_bind mild_get fun k₂ => ?_
    refine mild_bind (mild_modifyTcb fun _ => ?_) fun _ => mild_setArgs1 t _
    exact ⟨rfl, rfl, rfl, rfl, rfl, id⟩

lemma copyProc_ends {p : ℕ} (areas : List Area) (h : Plain (seated k n 1) k')
    (hp : (k'.tcb p).caps = (k.tcb p).caps) :
    Ends (copyProc p n areas) (fun _ k'' => Plain (withCaps (seated k n 1) n (k.tcb p).caps) k'')
      (fun e _ => e = .stuck) k' := by
  simp only [copyProc, ends_bind, ends_get, ends_modifyTcb]
  refine (mild_copyUvmem n areas).from plain_composes ?_
  refine ⟨h.tcbs, h.startTid, h.stackPages, h.cpuTcb, h.tp, h.ipi, h.trace, h.notes, h.indices, fun a => ?_⟩
  have hcore := h.core a
  rw [withCaps_tcb, setTcb_tcb]
  split_ifs with ha
  · subst ha
    exact ⟨hcore.tid, hp, hcore.cpuId, hcore.flags, hcore.dead, hcore.rid⟩
  · exact hcore

lemma shifts_sysFork (hk : Inv k) (hlt : k.startTid < numTcbs) (hgiven : unbroken 7 k.answers = true)
    (hold : ∀ x, old x x)
    (hnew : ∀ e, k.getTcb (k.tcb t).thread.eid = some e → new (k.tcb e).caps) (areas : List Area) :
    Shifts old new (sysFork t areas) k := by
  unfold sysFork
  apply Shifts.get_bind
  refine Shifts.deref_bind fun p _ => ?_
  split
  · exact (mild_setArgs1 t _).shifts hk hold
  refine Shifts.deref_bind fun e he => ?_
  have hmade : Ends (createProc (some (e, areas))) (fun _ k' => Shift old new k k') (fun e _ => e = .stuck) k := by
    unfold createProc
    rw [ends_bind]
    refine (createThread_whole (p := none) hk.toSound hlt hgiven).mono ?_ fun _ _ h => h
    intro n k₁ h₁
    cases n with
    | none => exact (Plain.steady h₁).shift hk hold
    | some n =>
      have hne := hk.ne_of_free h₁.1 (getTcb_inTable he)
      have hcaps : (k₁.tcb e).caps = (k.tcb e).caps := by
        rw [(h₁.2.core e).caps, seated_tcb hne]
      dsimp only
      rw [ends_bind]
      refine (copyProc_ends areas h₁.2 hcaps).mono ?_ fun _ _ h => h
      exact fun _ k₂ h₂ => born_shift hk h₁.1 hlt hold (hnew e he) h₂
  refine Shifts.mild_bind hmade fun n => ?_
  cases n with
  | none => exact mild_setArgs1 t _
  | some n =>
    refine mild_bind mild_get fun k₁ => ?_
    refine mild_bind (mild_deref _) fun e => ?_
    refine mild_bind (mild_setArgs2 n _ _) fun _ => ?_
    refine mild_bind (mild_modifyTcb fun _ => ?_) fun _ => mild_setArgs1 t _
    exact ⟨rfl, rfl, rfl, rfl, rfl, id⟩

lemma shifts_sysSpawn (hk : Inv k) (hlt : k.startTid < numTcbs) (hgiven : unbroken 7 k.answers = true)
    (hold : ∀ x, old x x) (hnew : new 0) (loaded : Loaded) : Shifts old new (sysSpawn t loaded) k := by
  unfold sysSpawn
  apply Shifts.get_bind
  refine Shifts.deref_bind fun p _ => ?_
  split
  · exact (mild_setArgs1 t _).shifts hk hold
  have hmade : Ends (createProc none) (fun _ k' => Shift old new k k') (fun e _ => e = .stuck) k := by
    unfold createProc
    rw [ends_bind]
    refine (createThread_whole (p := none) hk.toSound hlt hgiven).mono ?_ fun _ _ h => h
    intro n k₁ h₁
    cases n <;> exact made_shift hk hlt h₁ hold hnew
  refine Shifts.mild_bind hmade fun n => ?_
  cases n with
  | none => exact mild_setArgs1 t _
  | some n =>
    refine mild_bind mild_get fun k₁ => ?_
    refine mild_bind (mild_modifyTcb fun _ => ?_) fun _ => ?_
    · exact ⟨rfl, rfl, rfl, rfl, rfl, id⟩
    cases loaded with
    | faults => exact mild_stop
    | refused =>
      refine mild_bind mild_get fun k₂ => ?_
      exact mild_bind (mild_assert _) fun _ => mild_setArgs1 t _
    | entry entry =>
      refine mild_bind (mild_modifyTcb fun _ => ?_) fun _ => ?_
      · exact ⟨rfl, rfl, rfl, rfl, rfl, id⟩
      refine mild_bind (mild_setThread n) fun _ => ?_
      refine mild_bind (mild_modifyThread fun _ => rfl) fun _ => ?_
      refine mild_bind (mild_modifyThread fun _ => rfl) fun _ => ?_
      exact mild_bind mild_get fun _ => mild_setArgs1 t _

lemma shifts_changeCaps (hk : Inv k) (tid : ℤ) (f : BitVec 32 → BitVec 32)
    (hold : ∀ x y, y = x ∨ isSet (k.tcb t).caps CAP_CAPS = true ∧ y = f x → old x y) :
    Shifts old new (changeCaps t tid f) k := by
  have hrefl : ∀ x, old x x := fun x => hold x x (.inl rfl)
  unfold changeCaps
  apply Shifts.get_bind
  split
  · exact (mild_setArgs1 t _).shifts hk hrefl
  split
  · exact (mild_setArgs1 t _).shifts hk hrefl
  · rename_i hcap _ a ha
    have hset : isSet (k.tcb t).caps CAP_CAPS = true := by simpa using hcap
    refine Shifts.mild_bind ?_ fun _ => mild_setArgs1 t _
    change Shift old new k (withCaps k a (f (k.tcb a).caps))
    refine ⟨fun i b hb => .inl ⟨hb, ?_⟩, withCaps_inv hk a _⟩
    rw [withCaps_tcb]
    apply hold
    split_ifs with hba
    · subst hba
      exact .inr ⟨hset, rfl⟩
    · exact .inl rfl

def mayChange (caller : BitVec 32) (x y : BitVec 32) : Syscall → Prop
  | .setCap _ caps => y = x ∨ isSet caller CAP_CAPS = true ∧ y = x ||| caps
  | .clearCap _ caps => y = x ∨ isSet caller CAP_CAPS = true ∧ y = x &&& ~~~caps
  | _ => y = x

def startsWith (k : State) (t : ℕ) (y : BitVec 32) : Syscall → Prop
  | .fork _ => ∃ e, k.getTcb (k.tcb t).thread.eid = some e ∧ y = (k.tcb e).caps
  | _ => y = 0

def asks : Syscall → ℕ
  | .create _ _ _ _ _ => 5
  | .fork _ => 7
  | .spawn _ => 7
  | _ => 0

def Whole (k : State) (s : Syscall) (answers : List (Option ℕ)) : Prop :=
  asks s = 0 ∨ k.startTid < numTcbs ∧ unbroken (asks s) answers = true

lemma mayChange_refl (caller x : BitVec 32) (s : Syscall) : mayChange caller x x s := by
  cases s
  case setCap => exact .inl rfl
  case clearCap => exact .inl rfl
  all_goals exact rfl

lemma shifts_handleSyscall (hk : Inv k) (ht : k.tp c = some t) {s : Syscall} (hs : s ≠ .exit 0)
    (hw : Whole k s k.answers) :
    Shifts (fun x y => mayChange (k.tcb t).caps x y s) (fun y => startsWith k t y s) (handleSyscall c t s) k := by
  have hrefl : ∀ x, mayChange (k.tcb t).caps x x s := fun x => mayChange_refl _ x s
  cases s with
  | ipc call pid d0 d1 d2 d3 => exact (goes_sysIpc t call pid d0 d1 d2 d3 k).calmly.shifts hk hrefl
  | ipcResp d0 d1 d2 d3 => exact (goes_sysIpcResp hk ht d0 d1 d2 d3).calmly.shifts hk hrefl
  | ipcNotify tid => exact (goes_sysIpcNotify hk t tid).calmly.shifts hk hrefl
  | setHandler tid pid => exact (mild_sysSetHandler t tid pid).shifts hk hrefl
  | create func d0 d1 d2 d3 =>
    obtain h | ⟨hlt, hgiven⟩ := hw
    · cases h
    · refine shifts_sysCreate hk hlt hgiven ?_ ?_ func d0 d1 d2 d3
      · exact hrefl
      · exact rfl
  | fork areas =>
    obtain h | ⟨hlt, hgiven⟩ := hw
    · cases h
    · refine shifts_sysFork hk hlt hgiven ?_ ?_ areas
      · exact hrefl
      · exact fun e he => ⟨e, he, rfl⟩
  | exec found loaded => exact (mild_sysExec t found loaded).shifts hk hrefl
  | spawn loaded =>
    obtain h | ⟨hlt, hgiven⟩ := hw
    · cases h
    · refine shifts_sysSpawn hk hlt hgiven ?_ ?_ loaded
      · exact hrefl
      · exact rfl
  | swap tid => exact (calmly_sysSwap hk ht tid).shifts hk hrefl
  | exit tid =>
    have hne : tid ≠ 0 := fun h => hs (congrArg _ h)
    exact (calmly_sysExit hk ht hne).shifts hk hrefl
  | detach tid => exact (mild_sysDetach t tid).shifts hk hrefl
  | setCap tid caps => exact shifts_changeCaps hk tid _ fun _ _ h => h
  | getCap tid => exact (mild_sysGetCap t tid).shifts hk hrefl
  | clearCap tid caps => exact shifts_changeCaps hk tid _ fun _ _ h => h
  | irqReq id => exact (mild_sysIrqReq t id).shifts hk hrefl
  | freeIrq id => exact (mild_sysFreeIrq t id).shifts hk hrefl
  | setConf rpc val => exact (mild_sysSetConf t rpc val).shifts hk hrefl
  | sleep => exact (goes_sysSleep t k).calmly.shifts hk hrefl
  | other refs n ret =>
    refine Calmly.shifts ?_ hk hrefl
    exact (Goes.bind (goes_memRefs hk refs) fun _ k₁ _ => goes_of_mild (mild_setRet t n ret) k₁).calmly

def entryChange (k : State) (c : ℤ) (x y : BitVec 32) : Entry → Prop
  | .syscall s => ∃ t, k.tp c = some t ∧ mayChange (k.tcb t).caps x y s
  | _ => y = x

def entryStart (k : State) (c : ℤ) (y : BitVec 32) : Entry → Prop
  | .syscall s => ∃ t, k.tp c = some t ∧ startsWith k t y s
  | _ => False

lemma Shift.of_same {old' : BitVec 32 → BitVec 32 → Prop} {new' : BitVec 32 → Prop} (h : Shift old new k' k'')
    (htcbs : k'.tcbs = k.tcbs) (hcaps : ∀ a, (k'.tcb a).caps = (k.tcb a).caps)
    (hold : ∀ x y, old x y → old' x y) (hnew : ∀ y, new y → new' y) : Shift old' new' k k'' where
  thread := by
    intro i b hb
    rw [← htcbs, ← hcaps]
    rcases h.thread i b hb with ⟨hi, ho⟩ | ⟨hi, hn⟩
    · exact .inl ⟨hi, hold _ _ ho⟩
    · exact .inr ⟨hi, hnew _ hn⟩
  inv := h.inv

lemma steady_trace (k : State) (op : LockOp) : Steady k { k with trace := k.trace ++ [op] } := (lockOp_ends op k).1

lemma called_steady (k : State) (t : ℕ) : Steady k (called k t) :=
  (steady_trace k .lock).trans (called_plain k t).steady

lemma called_getTcb (k : State) (t : ℕ) (tid : ℤ) : (called k t).getTcb tid = k.getTcb tid :=
  (called_plain k t).getTcb tid

lemma called_eid (k : State) (t : ℕ) : ((called k t).tcb t).thread.eid = (k.tcb t).thread.eid := by
  simp [called, State.setTcb]

lemma startsWith_called {y : BitVec 32} {s : Syscall} (h : startsWith (called k t) t y s) :
    startsWith k t y s := by
  cases s
  case fork =>
    obtain ⟨e, he, rfl⟩ := h
    rw [called_getTcb, called_eid] at he
    exact ⟨e, he, (called_steady k t).caps e⟩
  all_goals exact h

def Leaves (c : ℤ) (k : State) (e : Entry) : Prop :=
  Ends (trap c e) (fun _ _ => False)
    (fun ex k' => ex = .stuck ∨ Shift (fun x y => entryChange k c x y e) (fun y => entryStart k c y e) k k') k

lemma leaves_syscall (hk : Inv k) {s : Syscall} (hs : s ≠ .exit 0) (hw : Whole k s k.answers) :
    Leaves c k (.syscall s) := by
  refine trap_syscall c s k (fun _ => .inl rfl) fun t ht => ?_
  have hsteady := called_steady k t
  have hk₁ := hsteady.inv hk
  have ht₁ : (called k t).tp c = some t := ht
  have hcaps := hsteady.caps t
  have hlift : ∀ k', Shift (fun x y => mayChange ((called k t).tcb t).caps x y s)
      (fun y => startsWith (called k t) t y s) (called k t) k' →
      Shift (fun x y => entryChange k c x y (.syscall s)) (fun y => entryStart k c y (.syscall s)) k k' := by
    intro k' h
    refine h.of_same rfl hsteady.caps (fun x y hxy => ⟨t, ht, ?_⟩) fun y hy => ⟨t, ht, startsWith_called hy⟩
    rw [← hcaps]
    exact hxy
  have hhandle : Shifts _ _ (handleSyscall c t s) (called k t) := shifts_handleSyscall hk₁ ht₁ hs hw
  refine ends_bind.2 (Ends.mono hhandle ?_ ?_)
  · intro _ k₂ h₂
    refine Ends.mono (departs_leave k₂) (fun _ _ hf => hf) ?_
    rintro e k₃ (he | h₃)
    · exact .inl he
    · exact .inr ((hlift k₂ h₂).calm h₃)
  · rintro e k₂ (he | h₂)
    · exact .inl he
    · exact .inr (hlift k₂ h₂)

lemma leaves_goes {e : Entry} (hk : Inv k) (h : Goes (enterKernel c e) k) (hold : ∀ x, entryChange k c x x e) :
    Leaves c k e := by
  have hshift : ∀ k', Calm k k' →
      Shift (fun x y => entryChange k c x y e) (fun y => entryStart k c y e) k k' :=
    fun k' hc => hc.shift hk hold
  unfold Leaves trap
  refine ends_bind.2 (Ends.mono h ?_ ?_)
  · intro _ k₁ h₁
    exact .inr (hshift _ (h₁.toCalm.trans (steady_trace k₁ .user).toCalm))
  · rintro ex k₁ (he | h₁)
    · exact .inl he
    · exact .inr (hshift k₁ h₁)

lemma leaves_entry (hk : Inv k) {e : Entry} (he : ∀ s, e = .syscall s → s ≠ .exit 0 ∧ Whole k s k.answers) :
    Leaves c k e := by
  cases e with
  | syscall s =>
    obtain ⟨hs, hw⟩ := he s rfl
    exact leaves_syscall hk hs hw
  | irq => exact leaves_goes hk (goes_handleIrq hk) fun _ => rfl
  | timer tid => exact leaves_goes hk (goes_handleTimer hk tid) fun _ => rfl
  | ipi => exact leaves_goes hk (goes_handleIpi hk) fun _ => rfl
  | fault addr => exact leaves_goes hk (goes_handleException addr k) fun _ => rfl
  | wake status => exact leaves_goes hk (goes_wake status k) fun _ => rfl

end Kmi.Kernel
