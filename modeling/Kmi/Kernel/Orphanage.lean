import Kmi.Kernel.Plain
import Kmi.Rpc.Lost

/-! Orphans, from `src/orphanage.c`, over runs in which threads are created, call and
answer, are detached and swapped to, and go away. What `get_tcb` finds is given with each
event, so processes can die between any two of them. -/

namespace Kmi.Kernel.Orphanage

open Library.Prog
open Rpc (Thread Procs isRpc usable Layout)

/-- A thread, with what has happened to it: the processes of the frames it has not returned
from, how often it has lost its process, and how often init was given it. -/
structure Member where
  tcb : Tcb
  frames : List ℤ
  causes : ℕ
  adoptions : ℕ

abbrev Threads := ℤ → Option Member

/-- What `create_thread` makes, with whatever is on the pages of its stack. -/
def newTcb (w : Rpc.IdWidth) (tid pid callback exec : ℤ) (page : ℤ → Rpc.StackPage) : Tcb :=
  { zeroTcb w with
    thread := {
      width := w
      exec := exec
      regs := Rpc.rpcStackTop - Rpc.sizeofCallCtx w
      rpcStack := Rpc.rpcStackTop
      rpcIdx := Rpc.rpcPages - 1
      eid := pid
      pid := pid
      tid := tid
      orphan := false
      user := fun _ => false
      page := page }
    rid := pid
    callback := callback }

def rehome (procs : Procs) (x : Tcb) : Option Tcb :=
  if isRpc x.thread then none
  else do
    let init ← procs 1
    if init.callback = 0 then none
    else
      let y := { x.thread with
        rpcStack := Rpc.resetStack
        rpcIdx := Rpc.rpcPages - 1
        pid := 1
        eid := 1 }
      let y := setRet 4 ⟨0, y.tid, SYS_USER_ORPHANED, x.rid, 0, 0⟩ y
      some { x with
        rid := 1
        callback := init.callback
        thread := { y with exec := init.callback } }

inductive Event where
  | create (w : Rpc.IdWidth) (tid pid callback exec : ℤ) (page : ℤ → Rpc.StackPage)
  | run (tid : ℤ) (e : Rpc.Event)
  | detach (tid : ℤ)
  | swap (tid : ℤ)
  | exit (tid successor : ℤ)
  | die (tid : ℤ)

def bereft (procs : Procs) (frames : List ℤ) : Rpc.Event → Bool
  | .resp .. => !frames.isEmpty && frames.all fun p => !usable procs p
  | _ => false

def runThread (procs : Procs) (x : Member) (e : Rpc.Event) : Option Member :=
  if Rpc.staysIn procs x.tcb.thread e then
    (Rpc.step procs x.tcb.thread e).map fun t =>
      { tcb := { x.tcb with thread := t }
        frames := Rpc.trackPids procs x.tcb.thread e x.frames
        causes := x.causes + (bereft procs x.frames e).toNat
        adoptions := x.adoptions }
  else none

def detach (x : Member) : Member :=
  if x.tcb.orphan then x
  else { x with tcb := { x.tcb with thread := { x.tcb.thread with orphan := true } }, causes := x.causes + 1 }

def Member.adoptable (x : Member) : Bool := !x.tcb.zombie && (!isRpc x.tcb.thread && x.tcb.orphan)

/-- `swap` and what stands before it, as far as it concerns the thread swapped to. -/
def swapTo (procs : Procs) (x : Member) : Option Member :=
  if x.adoptable then
    (rehome procs x.tcb).map fun y => { x with tcb := y, frames := [], adoptions := x.adoptions + 1 }
  else some x

def step (procs : Procs) (m : Threads) : Event → Option Threads
  | .create w tid pid callback exec page =>
    if (m tid).isSome then none
    else some (Function.update m tid (some ⟨newTcb w tid pid callback exec page, [], 0, 0⟩))
  | .run tid e => do
    let x ← m tid
    let y ← runThread procs x e
    some (Function.update m tid (some y))
  | .detach tid => some (Function.update m tid ((m tid).map detach))
  | .swap tid =>
    match m tid with
    | none => some m
    | some x => (swapTo procs x).map fun y => Function.update m tid (some y)
  | .exit tid successor =>
    if tid = 1 ∨ tid = successor then some m
    else
      match m successor with
      | none => some m
      | some x =>
        if x.tcb.zombie then some m
        else (swapTo procs x).map fun y =>
          -- `unorphanize` does not come back, and the thread that exits stays
          if x.adoptable then Function.update m successor (some y) else Function.update m tid none
  | .die tid => some (Function.update m tid none)

def adopts (m : Threads) : Event → Bool
  | .swap tid => (m tid).any Member.adoptable
  | .exit tid successor => !(tid = 1 || tid = successor) && (m successor).any Member.adoptable
  | _ => false

inductive Reached (ok : Threads → Event → Prop) : Threads → Prop where
  | boot : Reached ok fun _ => none
  | step {m m' : Threads} {e : Event} (procs : Procs) : Reached ok m → ok m e →
      step procs m e = some m' → Reached ok m'

/-- The thread at `a` is as in `x`, up to what does not concern it here. -/
def Looks (x : Tcb) (a : ℕ) (k : State) : Prop :=
  (k.tcb a).thread = x.thread ∧ (k.tcb a).rid = x.rid ∧ (k.tcb a).callback = x.callback

lemma unorphanize_rehome {k k' : State} {a : ℕ} (h : (unorphanize a : K Unit) k = .error .user k') :
    ∃ y, rehome k.procs (k.tcb a) = some y ∧ Looks y a k' := by
  have hends : Ends (unorphanize a : K Unit) (fun _ _ => False)
      (fun e k' => e = .user → ∃ y, rehome k.procs (k.tcb a) = some y ∧ Looks y a k') k := by
    unfold unorphanize
    rw [ends_bind, ends_get, ends_bind, ends_assert]
    refine ⟨fun _ he => (by cases he), fun hrpc => ?_⟩
    rw [ends_bind, ends_deref]
    refine ⟨fun _ he => (by cases he), fun init hinit => ?_⟩
    rw [ends_bind]
    have hthread : ((k.setTcb init { k.tcb init with refcount := (k.tcb init).refcount + 1 }).tcb a).thread =
        (k.tcb a).thread := by
      by_cases ha : a = init <;> simp [State.setTcb, ha]
    change Ends _ _ _ (k.setTcb init _)
    generalize k.setTcb init { k.tcb init with refcount := (k.tcb init).refcount + 1 } = k₁ at hthread
    rw [ends_bind, ends_modifyTcb]
    simp only [cloneUvmem, ends_bind, ends_deref, ends_pure, ends_assert]
    refine ⟨fun _ he => (by cases he), fun _ _ => ⟨fun _ he => (by cases he), fun _ _ =>
      ⟨fun _ he => (by cases he), fun hcb => ?_⟩⟩⟩
    rw [ends_modifyThread, ends_modifyTcb]
    rintro -
    have hrpc' : isRpc (k.tcb a).thread = false := by simpa using hrpc
    have hcb' : (k.tcb init).callback ≠ 0 := by simpa using hcb
    have hinit' : k.procs 1 = some (k.tcb init).proc := by simp [State.procs, hinit]
    cases hy : rehome k.procs (k.tcb a) with
    | none => simp [rehome, hrpc', hinit', Tcb.proc, hcb'] at hy
    | some y =>
      simp only [rehome, hrpc', hinit', Tcb.proc, hcb', Bool.false_eq_true, if_false,
        Option.bind_eq_bind, Option.bind_some, Option.some.injEq] at hy
      refine ⟨y, rfl, ?_⟩
      rw [← hy]
      simp [Looks, State.setTcb, hthread, Rpc.resetStack]
  exact ends_of_eq_error h hends rfl

variable {procs : Procs} {t t' : Thread} {x y : Member} {m m' : Threads}

lemma step_orphan {e : Rpc.Event} (h : Rpc.step procs t e = some t') (ho : t.orphan = true) :
    t'.orphan = true := by
  cases e with
  | user exec regs page =>
    cases h
    exact ho
  | fault addr =>
    obtain ⟨-, -, -, rfl⟩ | ⟨-, rfl⟩ := Rpc.handlePagefault_some h <;> exact ho
  | ipc c pid d0 d1 d2 d3 =>
    obtain ⟨-, status, rfl⟩ | ⟨-, r, a, he⟩ := Rpc.sysIpc_cases h
    · exact ho
    · exact (Rpc.enterRpc_orphan he).trans ho
  | resp d0 d1 d2 d3 =>
    change (if isRpc t then _ else _) = _ at h
    split_ifs at h
    · rw [Rpc.leaveRpc_orphan h, ho, Bool.true_or]
    · cases h
      exact ho

lemma step_orphan_iff {e : Rpc.Event} {k : ℤ} {stack : List Rpc.Activation} (hl : Layout t k stack)
    (h : Rpc.step procs t e = some t') :
    t'.orphan = (t.orphan || bereft procs (stack.map (·.pid)) e) := by
  cases e with
  | user exec regs page =>
    cases h
    simp [bereft, Rpc.userRun, Rpc.setRegs]
  | fault addr =>
    obtain ⟨-, -, -, rfl⟩ | ⟨-, rfl⟩ := Rpc.handlePagefault_some h <;> simp [bereft]
  | ipc c pid d0 d1 d2 d3 =>
    obtain ⟨-, status, rfl⟩ | ⟨-, r, a, he⟩ := Rpc.sysIpc_cases h
    · simp [bereft, Rpc.setArgs1, Rpc.setRetFast, Rpc.setRegs]
    · simp [bereft, Rpc.enterRpc_orphan he]
  | resp d0 d1 d2 d3 =>
    change (if isRpc t then _ else _) = _ at h
    split_ifs at h with hrpc
    · have hne := hl.isRpc_iff.1 hrpc
      obtain ⟨b, rest, k', hstop, hpid, -⟩ := Rpc.leaveRpc_some hl hne h
      rw [Rpc.leaveRpc_orphan h, hpid]
      congr 1
      obtain ⟨hu, hfind⟩ | ⟨hu, hdead⟩ := hstop.resumes
      · have hmem := List.mem_of_find?_eq_some hfind
        simp only [bereft, hu, Bool.not_true]
        symm
        rw [Bool.and_eq_false_iff]
        right
        rw [List.all_eq_false]
        exact ⟨b.pid, hmem, by simp [hu]⟩
      · have hall : ((stack.map (·.pid)).all fun p => !usable procs p) = true := by
          rw [List.all_eq_true]
          intro p hp
          rw [hdead p hp, Bool.not_false]
        simp [bereft, hu, hall, hne]
    · cases h
      have hnil : stack = [] := not_not.1 fun hne => hrpc (hl.isRpc_iff.2 hne)
      simp [bereft, hnil, Rpc.setArgs1, Rpc.setRetFast, Rpc.setRegs]

/-- What holds of every thread. A thread that init was given is not known to have its
frames in order. -/
structure Member.Sound (x : Member) : Prop where
  layout : x.adoptions = 0 → ∃ k stack, Layout x.tcb.thread k stack ∧ stack.map (·.pid) = x.frames
  orphan : x.tcb.orphan = true ↔ 1 ≤ x.causes
  adopted : 1 ≤ x.adoptions → x.tcb.orphan = true

lemma newTcb_sound (w : Rpc.IdWidth) (tid pid callback exec : ℤ) (page : ℤ → Rpc.StackPage) :
    (⟨newTcb w tid pid callback exec page, [], 0, 0⟩ : Member).Sound where
  layout := fun _ => ⟨511, [], .root ⟨rfl, rfl, rfl, fun _ => rfl⟩, rfl⟩
  orphan := by simp [newTcb, Tcb.orphan]
  adopted := by simp

lemma runThread_some {e : Rpc.Event} (h : runThread procs x e = some y) :
    Rpc.staysIn procs x.tcb.thread e = true ∧ ∃ t, Rpc.step procs x.tcb.thread e = some t ∧
      y = ⟨{ x.tcb with thread := t }, Rpc.trackPids procs x.tcb.thread e x.frames,
        x.causes + (bereft procs x.frames e).toNat, x.adoptions⟩ := by
  unfold runThread at h
  split_ifs at h with hin
  obtain ⟨t, ht, rfl⟩ := Option.map_eq_some_iff.mp h
  exact ⟨hin, t, ht, rfl⟩

lemma runThread_sound {e : Rpc.Event} (hx : x.Sound) (h : runThread procs x e = some y) :
    y.Sound := by
  obtain ⟨-, t, ht, rfl⟩ := runThread_some h
  have horphan : t.orphan = true ↔ 1 ≤ x.causes + (bereft procs x.frames e).toNat := by
    by_cases ho : x.tcb.orphan = true
    · have := hx.orphan.mp ho
      simp only [step_orphan ht ho, true_iff]
      omega
    · have hnone : x.adoptions = 0 := by
        by_contra hne
        exact ho (hx.adopted (by omega))
      obtain ⟨k, stack, hl, hf⟩ := hx.layout hnone
      have hc : ¬ 1 ≤ x.causes := fun h => ho (hx.orphan.mpr h)
      have hfalse : x.tcb.thread.orphan = false := by simpa [Tcb.orphan] using ho
      rw [step_orphan_iff hl ht, hf, hfalse, Bool.false_or]
      cases bereft procs x.frames e <;> simp
      omega
  refine ⟨fun hnone => ?_, horphan, fun ha => ?_⟩
  · obtain ⟨k, stack, hl, hf⟩ := hx.layout hnone
    obtain ⟨k', stack', hl', hf'⟩ := hl.track_step ht
    exact ⟨k', stack', hl', by rw [hf', hf]⟩
  · exact step_orphan ht (hx.adopted ha)

lemma detach_sound (hx : x.Sound) : (detach x).Sound := by
  unfold detach
  split_ifs with ho
  · exact hx
  · refine ⟨fun hnone => ?_, by simp [Tcb.orphan], fun _ => rfl⟩
    obtain ⟨k, stack, hl, hf⟩ := hx.layout hnone
    exact ⟨k, stack, ⟨hl.rpcStack, hl.regs, hl.user_zero, hl.frames, hl.cursor⟩, hf⟩

lemma rehome_some {z z' : Tcb} (h : rehome procs z = some z') :
    z'.orphan = z.orphan ∧ z'.thread.rpcStack = Rpc.resetStack ∧ z'.thread.rpcIdx = 511 ∧
      z'.rid = 1 ∧ z'.thread.pid = 1 ∧ ∃ init, procs 1 = some init ∧ z'.thread.exec = init.callback := by
  unfold rehome at h
  split_ifs at h
  obtain ⟨init, hinit, h⟩ := Option.bind_eq_some_iff.mp h
  split_ifs at h
  cases h
  exact ⟨rfl, rfl, rfl, rfl, rfl, init, hinit, rfl⟩

lemma swapTo_sound (hx : x.Sound) (h : swapTo procs x = some y) : y.Sound := by
  unfold swapTo at h
  split_ifs at h with ha
  · obtain ⟨z, hz, rfl⟩ := Option.map_eq_some_iff.mp h
    obtain ⟨ho, -⟩ := rehome_some hz
    simp only [Member.adoptable, Bool.and_eq_true] at ha
    exact ⟨by simp, by rw [ho]; exact hx.orphan, fun _ => ho.trans ha.2.2⟩
  · cases h
    exact hx

lemma step_cases {e : Event} (h : step procs m e = some m') :
    (adopts m e = true ∧ ∃ tid x y, m tid = some x ∧ x.adoptable = true ∧ swapTo procs x = some y ∧
      m' = Function.update m tid (some y)) ∨
    (adopts m e = false ∧
      ((∃ w tid pid callback exec page,
        m' = Function.update m tid (some ⟨newTcb w tid pid callback exec page, [], 0, 0⟩)) ∨
      (∃ tid x y f, e = .run tid f ∧ m tid = some x ∧ runThread procs x f = some y ∧
        m' = Function.update m tid (some y)) ∨
      (∃ tid x, m tid = some x ∧ m' = Function.update m tid (some (detach x))) ∨
      (∃ tid, m' = Function.update m tid none) ∨ m' = m)) := by
  cases e with
  | create w tid pid callback exec page =>
    rw [step] at h
    split_ifs at h
    cases h
    exact Or.inr ⟨rfl, Or.inl ⟨w, tid, pid, callback, exec, page, rfl⟩⟩
  | run tid f =>
    obtain ⟨x, hx, h⟩ := Option.bind_eq_some_iff.mp h
    obtain ⟨y, hy, h⟩ := Option.bind_eq_some_iff.mp h
    cases h
    exact Or.inr ⟨rfl, Or.inr (Or.inl ⟨tid, x, y, f, rfl, hx, hy, rfl⟩)⟩
  | detach tid =>
    cases h
    cases hx : m tid with
    | none => exact Or.inr ⟨rfl, Or.inr (Or.inr (Or.inr (Or.inl ⟨tid, by simp⟩)))⟩
    | some x => exact Or.inr ⟨rfl, Or.inr (Or.inr (Or.inl ⟨tid, x, hx, rfl⟩))⟩
  | swap tid =>
    rw [step] at h
    cases hx : m tid with
    | none =>
      rw [hx] at h
      cases h
      exact Or.inr ⟨by simp [adopts, hx], by simp⟩
    | some x =>
      rw [hx] at h
      obtain ⟨y, hy, rfl⟩ := Option.map_eq_some_iff.mp h
      cases ha : x.adoptable with
      | true => exact Or.inl ⟨by simp [adopts, hx, ha], tid, x, y, hx, ha, hy, rfl⟩
      | false =>
        rw [swapTo, ha] at hy
        cases hy
        refine Or.inr ⟨by simp [adopts, hx, ha], ?_⟩
        rw [← hx, Function.update_eq_self]
        simp
  | exit tid successor =>
    rw [step] at h
    by_cases hself : tid = 1 ∨ tid = successor
    · rw [if_pos hself] at h
      cases h
      exact Or.inr ⟨by simp [adopts]; tauto, by simp⟩
    rw [if_neg hself] at h
    have hself' : (tid = 1 || tid = successor) = false := by simpa using hself
    cases hx : m successor with
    | none =>
      rw [hx] at h
      cases h
      exact Or.inr ⟨by simp [adopts, hx], by simp⟩
    | some x =>
      rw [hx] at h
      change (if x.tcb.zombie then _ else _) = _ at h
      by_cases hz : x.tcb.zombie = true
      · rw [if_pos hz] at h
        cases h
        exact Or.inr ⟨by simp [adopts, hx, Member.adoptable, hz], by simp⟩
      · rw [if_neg hz] at h
        obtain ⟨y, hy, rfl⟩ := Option.map_eq_some_iff.mp h
        cases ha : x.adoptable with
        | true =>
          exact Or.inl ⟨by simp [adopts, hx, ha, hself'], successor, x, y, hx, ha, hy, by simp⟩
        | false =>
          exact Or.inr ⟨by simp [adopts, hx, ha], Or.inr (Or.inr (Or.inr (Or.inl ⟨tid, by simp⟩)))⟩
  | die tid =>
    cases h
    exact Or.inr ⟨rfl, Or.inr (Or.inr (Or.inr (Or.inl ⟨tid, rfl⟩)))⟩

lemma step_members {P : Member → Prop} {e : Event} (hm : ∀ tid x, m tid = some x → P x)
    (hs : step procs m e = some m')
    (hnew : ∀ w tid pid callback exec page, P ⟨newTcb w tid pid callback exec page, [], 0, 0⟩)
    (hrun : ∀ tid f x y, e = .run tid f → m tid = some x → P x → runThread procs x f = some y → P y)
    (hdetach : ∀ x, P x → P (detach x))
    (hswap : adopts m e = true → ∀ x y, P x → swapTo procs x = some y → P y) :
    ∀ tid x, m' tid = some x → P x := by
  have hset : ∀ tid y, P y → ∀ i z, Function.update m tid (some y) i = some z → P z := by
    intro tid y hy i z hz
    rw [Function.update_apply] at hz
    split_ifs at hz
    · cases hz
      exact hy
    · exact hm i z hz
  obtain ⟨ha, tid, x, y, hx, -, hy, rfl⟩ | ⟨-, ⟨w, tid, pid, callback, exec, page, rfl⟩ |
    ⟨tid, x, y, f, rfl, hx, hy, rfl⟩ | ⟨tid, x, hx, rfl⟩ | ⟨tid, rfl⟩ | rfl⟩ := step_cases hs
  · exact hset tid y (hswap ha x y (hm tid x hx) hy)
  · exact hset tid _ (hnew w tid pid callback exec page)
  · exact hset tid y (hrun tid f x y rfl hx (hm tid x hx) hy)
  · exact hset tid _ (hdetach x (hm tid x hx))
  · intro i z hz
    rw [Function.update_apply] at hz
    split_ifs at hz
    exact hm i z hz
  · exact hm

def Sound (m : Threads) : Prop := ∀ tid x, m tid = some x → x.Sound

lemma Sound.step {e : Event} (hm : Sound m) (h : Orphanage.step procs m e = some m') : Sound m' :=
  step_members hm h newTcb_sound (fun _ _ _ _ _ _ => runThread_sound) (fun _ => detach_sound)
    fun _ _ _ => swapTo_sound

lemma Reached.sound {ok : Threads → Event → Prop} (h : Reached ok m) : Sound m := by
  induction h with
  | boot => exact fun tid x hx => by cases hx
  | step procs _ _ hs ih => exact ih.step hs

/-- `is_rpc` says whether a frame is left to return from, and the stack pointer of the RPC
stack is inside the stack. -/
structure Truthful (x : Member) : Prop where
  isRpc : Rpc.isRpc x.tcb.thread = true ↔ x.frames ≠ []
  above : Rpc.rpcStackBase < x.tcb.thread.rpcStack
  below : x.tcb.thread.rpcStack ≤ Rpc.rpcStackTop

lemma Member.Sound.truthful (hx : x.Sound) (hnone : x.adoptions = 0) : Truthful x := by
  obtain ⟨k, stack, hl, hf⟩ := hx.layout hnone
  have hle := hl.frames.le
  have hidx := hl.idx_nonneg
  have hk := hl.idx_le
  refine ⟨?_, ?_, ?_⟩
  · rw [hl.isRpc_iff, ← hf]
    simp
  · rw [hl.rpcStack]
    simp only [Rpc.top, Rpc.basePageSize]
    omega
  · rw [hl.rpcStack, Rpc.rpcStackTop_eq]
    simp only [Rpc.top, Rpc.basePageSize]
    omega

lemma swapTo_not_truthful (ha : x.adoptable = true) (h : swapTo procs x = some y) :
    ¬ Truthful y := by
  rw [swapTo, if_pos ha] at h
  obtain ⟨z, hz, rfl⟩ := Option.map_eq_some_iff.mp h
  intro ht
  have hle := ht.below
  rw [(rehome_some hz).2.1] at hle
  simp [Rpc.resetStack, Rpc.rpcStackTop, Rpc.basePageSize] at hle

def Unadopted (m : Threads) : Prop := ∀ tid x, m tid = some x → x.adoptions = 0

lemma Unadopted.step {e : Event} (hm : Unadopted m) (h : Orphanage.step procs m e = some m')
    (ha : adopts m e = false) : Unadopted m' := by
  refine step_members hm h (fun _ _ _ _ _ _ => rfl) (fun tid f x y _ _ hx hy => ?_) (fun x hx => ?_) fun hadopt => ?_
  · obtain ⟨-, t, -, rfl⟩ := runThread_some hy
    exact hx
  · unfold detach
    split_ifs <;> exact hx
  · rw [ha] at hadopt
    cases hadopt

lemma Reached.unadopted (h : Reached (fun m e => adopts m e = false) m) : Unadopted m := by
  induction h with
  | boot => exact fun tid x hx => by cases hx
  | step procs _ ha hs ih => exact ih.step hs ha

/-- As long as no orphan is given to init `is_rpc` tells the truth about every thread; the
step that gives it one is the step that ends this. -/
theorem isRpc_truthful (h : Reached (fun m e => adopts m e = false) m) :
    (∀ tid x, m tid = some x → Truthful x) ∧
      ∀ procs e m', step procs m e = some m' →
        ((∀ tid x, m' tid = some x → Truthful x) ↔ adopts m e = false) := by
  have hs := h.sound
  have hu := h.unadopted
  refine ⟨fun tid x hx => (hs tid x hx).truthful (hu tid x hx), fun procs e m' hm' => ?_⟩
  constructor
  · intro ht
    obtain ⟨-, tid, x, y, hx, ha, hy, rfl⟩ | ⟨ha, -⟩ := step_cases hm'
    · exact absurd (ht tid y (Function.update_self ..)) (swapTo_not_truthful ha hy)
    · exact ha
  · intro ha tid x hx
    exact (hs.step hm' tid x hx).truthful (hu.step hm' ha tid x hx)

def initOnly : Procs := fun pid => if pid = 1 then some ⟨1, 1, 8192, false⟩ else none

lemma Reached.play {ok : Threads → Event → Prop} {es : List Event} (h : Reached ok m)
    (hok : ∀ e ∈ es, ∀ m, ok m e) (hp : es.foldlM (Orphanage.step procs) m = some m') : Reached ok m' := by
  induction es generalizing m with
  | nil =>
    cases hp
    exact h
  | cons e es ih =>
    simp only [List.foldlM_cons, Option.bind_eq_bind, Option.bind_eq_some_iff] at hp
    obtain ⟨m₁, hm₁, hp⟩ := hp
    exact ih (h.step procs (hok e List.mem_cons_self m) hm₁) (fun e he => hok e (List.mem_cons_of_mem _ he)) hp

def growth : List Event := [.create .w64 5 1 0 4096 fun _ => emptyPage, .run 5 (.fault (Rpc.rpcStackBase + 4096 * 510))]

def called : List Event := growth ++ [.run 5 (.ipc .req 1 0 0 0 0)]

theorem isRpc_truthful_called :
    ∃ m x, Reached (fun m e => adopts m e = false) m ∧ m 5 = some x ∧ x.tcb.thread.rpcIdx = 508 ∧
      x.frames = [1] ∧ (∀ tid x, m tid = some x → Truthful x) ∧
      ∀ procs e m', step procs m e = some m' →
        ((∀ tid x, m' tid = some x → Truthful x) ↔ adopts m e = false) := by
  have hrun : ((called.foldlM (step initOnly) fun _ => none).bind fun m => m 5).map
      (fun x => (x.tcb.thread.rpcIdx, x.frames)) = some (508, [1]) := by
    decide +kernel
  obtain ⟨x, hx, he⟩ := Option.map_eq_some_iff.mp hrun
  obtain ⟨m, hm, hx⟩ := Option.bind_eq_some_iff.mp hx
  simp only [Prod.mk.injEq] at he
  have hr : Reached (fun m e => adopts m e = false) m := Reached.boot.play (by simp [called, growth, adopts]) hm
  exact ⟨m, x, hr, hx, he.1, he.2, isRpc_truthful hr⟩

def adoption : List Event := [.create .w64 5 1 0 4096 fun _ => emptyPage, .detach 5, .swap 5]

/-- A thread that init has just been given is said to be in a call, and its RPC stack to
start far above the stack. -/
theorem rehomed_isRpc :
    ∃ m x, Reached (fun _ _ => True) m ∧ m 5 = some x ∧ x.adoptions = 1 ∧ x.frames = [] ∧
      isRpc x.tcb.thread = true ∧ Rpc.rpcStackTop < x.tcb.thread.rpcStack := by
  have hrun : ((adoption.foldlM (step initOnly) fun _ => none).bind fun m => m 5).map
      (fun x => (x.adoptions, x.frames, isRpc x.tcb.thread,
        decide (Rpc.rpcStackTop < x.tcb.thread.rpcStack))) = some (1, [], true, true) := by
    decide +kernel
  obtain ⟨x, hx, he⟩ := Option.map_eq_some_iff.mp hrun
  obtain ⟨m, hm, hx⟩ := Option.bind_eq_some_iff.mp hx
  simp only [Prod.mk.injEq, decide_eq_true_eq] at he
  exact ⟨m, x, Reached.boot.play (by simp) hm, hx, he⟩

def Unforged (m : Threads) : Event → Prop
  | .run tid e => ∀ x, m tid = some x → 1 ≤ x.adoptions → Rpc.Spares x.tcb.thread e
  | _ => True

def Member.Settled (x : Member) : Prop := 1 ≤ x.adoptions → Rpc.Lost x.tcb.thread

lemma Member.Settled.adoptable_eq (hx : x.Settled) (h : 1 ≤ x.adoptions) : x.adoptable = false := by
  simp [Member.adoptable, (hx h).isRpc]

lemma swapTo_settled (hx : x.Settled) (h : swapTo procs x = some y) : y.Settled := by
  unfold swapTo at h
  split_ifs at h with ha
  · obtain ⟨z, hz, rfl⟩ := Option.map_eq_some_iff.mp h
    obtain ⟨-, hstack, hidx, -⟩ := rehome_some hz
    intro
    exact Rpc.lost_of_reset hstack hidx
  · cases h
    exact hx

lemma detach_settled (hx : x.Settled) : (detach x).Settled := by
  intro ha
  unfold detach at ha ⊢
  split_ifs at ha ⊢
  · exact hx ha
  · exact hx ha

lemma runThread_settled {e : Rpc.Event} (hx : x.Settled) (hsp : 1 ≤ x.adoptions → Rpc.Spares x.tcb.thread e)
    (h : runThread procs x e = some y) : y.Settled := by
  obtain ⟨hin, t, ht, rfl⟩ := runThread_some h
  exact fun ha => (hx ha).step hin (hsp ha) ht

lemma Reached.settled (h : Reached Unforged m) : ∀ tid x, m tid = some x → x.Settled := by
  induction h with
  | boot => exact fun tid x hx => by cases hx
  | step procs _ hok hs ih =>
    refine step_members ih hs (fun _ _ _ _ _ _ ha => by simp at ha) (fun tid f x y he hx hxs hy => ?_)
      (fun _ => detach_settled) fun _ _ _ => swapTo_settled
    subst he
    exact runThread_settled hxs (hok x hx) hy

lemma Reached.mono {ok ok' : Threads → Event → Prop} (h : Reached ok m) (hok : ∀ m e, ok m e → ok' m e) :
    Reached ok' m := by
  induction h with
  | boot => exact .boot
  | step procs _ he hs ih => exact ih.step procs (hok _ _ he) hs

lemma swap_resumes {tid : ℤ} (ha : adopts m (.swap tid) = false) : step procs m (.swap tid) = some m := by
  rw [step]
  cases hx : m tid with
  | none => rfl
  | some x =>
    have hadopt : x.adoptable = false := by simpa [adopts, hx] using ha
    simp only [swapTo, hadopt, Bool.false_eq_true, if_false, Option.map_some, Option.some.injEq]
    rw [← hx, Function.update_eq_self]

lemma exit_resumes {pid tid : ℤ} (hx : m tid = some x) (ha : x.adoptable = false)
    (hs : step procs m (.exit pid tid) = some m') : m' tid = some x := by
  simp only [step, hx, swapTo, ha, Bool.false_eq_true, if_false, Option.map_some] at hs
  split_ifs at hs with hself
  · cases hs
    exact hx
  · cases hs
    exact hx
  · cases hs
    rw [Function.update_of_ne fun he => hself (.inr he.symm), hx]

def notifiable (m : Threads) (tid : ℤ) : Bool := (m tid).any fun x => !x.tcb.orphan

/-- The mark of an orphan is there exactly where its process has gone or it has been
detached. Init is given no other thread, being given to init does not take the mark away,
and every other thread that is swapped to goes on where it was. Where user code leaves the
records of open calls alone each thread that init is given has lost its process more often
than init was given it, and one that init was given goes on where it was. -/
theorem orphan_mark (ok : Threads → Event → Prop) (h : Reached ok m) :
    (∀ tid x, m tid = some x → (x.tcb.orphan = true ↔ 1 ≤ x.causes) ∧
      (notifiable m tid = true ↔ x.causes = 0)) ∧
    (∀ procs tid, adopts m (.swap tid) = false → step procs m (.swap tid) = some m) ∧
    (∀ procs e m', step procs m e = some m' → adopts m e = true →
      ∃ tid x y, m tid = some x ∧ m' = Function.update m tid (some y) ∧ 1 ≤ x.causes ∧
        ((∀ m e, ok m e → Unforged m e) → x.adoptions < x.causes) ∧
        y.adoptions = x.adoptions + 1 ∧ y.causes = x.causes ∧ y.tcb.rid = 1 ∧ y.tcb.thread.pid = 1 ∧
        (∃ init, procs 1 = some init ∧ y.tcb.thread.exec = init.callback) ∧ y.tcb.orphan = true) ∧
    ((∀ m e, ok m e → Unforged m e) → ∀ procs tid x, m tid = some x → 1 ≤ x.adoptions →
      step procs m (.swap tid) = some m ∧
        ∀ pid m', step procs m (.exit pid tid) = some m' → m' tid = some x) := by
  have hs := h.sound
  have hsettled : (∀ m e, ok m e → Unforged m e) → ∀ tid x, m tid = some x → 1 ≤ x.adoptions →
      x.adoptable = false :=
    fun hok tid x hx ha => ((h.mono hok).settled tid x hx).adoptable_eq ha
  refine ⟨fun tid x hx => ⟨(hs tid x hx).orphan, ?_⟩, fun procs tid ha => swap_resumes ha,
    fun procs e m' hm' ha => ?_, fun hok procs tid x hx ha => ?_⟩
  · have ho := (hs tid x hx).orphan
    simp only [notifiable, hx, Option.any_some, Bool.not_eq_true', ← Bool.not_eq_true, ho]
    omega
  · obtain ⟨-, tid, x, y, hx, hadopt, hy, hm'⟩ | ⟨hnone, -⟩ := step_cases hm'
    · have ho : x.tcb.orphan = true := by
        simp only [Member.adoptable, Bool.and_eq_true] at hadopt
        exact hadopt.2.2
      have hcause := (hs tid x hx).orphan.mp ho
      have hfirst : (∀ m e, ok m e → Unforged m e) → x.adoptions < x.causes := by
        intro hok
        by_contra hle
        rw [hsettled hok tid x hx (by omega)] at hadopt
        cases hadopt
      rw [swapTo, if_pos hadopt] at hy
      obtain ⟨z, hz, rfl⟩ := Option.map_eq_some_iff.mp hy
      obtain ⟨horphan, -, -, hrid, hpid, hinit⟩ := rehome_some hz
      exact ⟨tid, x, _, hx, hm', hcause, hfirst, rfl, rfl, hrid, hpid, hinit, horphan.trans ho⟩
    · rw [ha] at hnone
      cases hnone
  · have hnot := hsettled hok tid x hx ha
    refine ⟨swap_resumes (by simp [adopts, hx, hnot]), fun pid m' hm' => ?_⟩
    exact exit_resumes hx hnot hm'

def adopted : List Event := growth ++ [.detach 5, .swap 5, .run 5 (.ipc .req 1 0 0 0 0)]

theorem orphan_mark_adopted :
    ∃ m x, Reached Unforged m ∧ m 5 = some x ∧ x.adoptions = 1 ∧ x.causes = 1 ∧ x.frames = [1] ∧
      x.tcb.orphan = true ∧ notifiable m 5 = false ∧ ∀ procs, step procs m (.swap 5) = some m := by
  have hrun : ((adopted.foldlM (step initOnly) fun _ => none).bind fun m => m 5).map
      (fun x => (x.adoptions, x.causes, x.frames)) = some (1, 1, [1]) := by
    decide +kernel
  obtain ⟨x, hx, he⟩ := Option.map_eq_some_iff.mp hrun
  obtain ⟨m, hm, hx⟩ := Option.bind_eq_some_iff.mp hx
  simp only [Prod.mk.injEq] at he
  obtain ⟨hadopt, hcause, hframes⟩ := he
  have hr : Reached Unforged m := Reached.boot.play (by simp [adopted, growth, Unforged, Rpc.Spares]) hm
  obtain ⟨hmark, -, -, hresume⟩ := orphan_mark Unforged hr
  obtain ⟨ho, hn⟩ := hmark 5 x hx
  refine ⟨m, x, hr, hx, hadopt, hcause, hframes, ho.2 (by omega), ?_, fun procs =>
    (hresume (fun _ _ h => h) procs 5 x hx (by omega)).1⟩
  rw [← Bool.not_eq_true, hn]
  omega

def forgedPage : ℤ → Rpc.StackPage := fun _ =>
  { emptyPage with ctx := { emptyPage.ctx with rpcStack := Rpc.rpcStackTop, pid := 1 } }

def forging : List Event :=
  adopted ++ [.run 5 (.user 0 emptyPage.regs forgedPage), .run 5 (.resp 0 0 0 0), .swap 5]

/-- Thread 5 has been detached once and given to init once, and is not notified. Where it
rewrites the record of its call it is given to init again. -/
theorem adopted_not_notified :
    (∃ m x, Reached (fun _ _ => True) m ∧ m 5 = some x ∧ x.adoptions = 1 ∧ x.causes = 1 ∧
      notifiable m 5 = false) ∧
    ∃ m x, Reached (fun _ _ => True) m ∧ m 5 = some x ∧ x.adoptions = 2 ∧ x.causes = 1 := by
  have hrun : ((adoption.foldlM (step initOnly) fun _ => none).bind fun m => (m 5).map fun x =>
      (x.adoptions, x.causes, notifiable m 5)) = some (1, 1, false) := by
    decide +kernel
  have hforged : ((forging.foldlM (step initOnly) fun _ => none).bind fun m => m 5).map
      (fun x => (x.adoptions, x.causes)) = some (2, 1) := by
    decide +kernel
  constructor
  · obtain ⟨m, hm, hrun⟩ := Option.bind_eq_some_iff.mp hrun
    obtain ⟨x, hx, he⟩ := Option.map_eq_some_iff.mp hrun
    simp only [Prod.mk.injEq] at he
    exact ⟨m, x, Reached.boot.play (by simp) hm, hx, he⟩
  · obtain ⟨x, hx, he⟩ := Option.map_eq_some_iff.mp hforged
    obtain ⟨m, hm, hx⟩ := Option.bind_eq_some_iff.mp hx
    simp only [Prod.mk.injEq] at he
    exact ⟨m, x, Reached.boot.play (by simp) hm, hx, he⟩

end Kmi.Kernel.Orphanage
