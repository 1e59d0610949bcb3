import Kmi.Library.Prog
import Kmi.Irq.Table
import Kmi.Ipi

/-! Threads, processors and the kernel lock, from `src/tcb.c`, `src/orphanage.c`,
`src/irq.c`, `src/ipi.c`, `src/timer.c` and `arch/riscv64/kernel/cpu.c`. Addresses of
threads are the pages of their kernel stackPages. What the allocators answer, and what
the loader and the memory calls do, is given with each entry. A failed assertion, a
null pointer and a fault in the kernel all stop the machine. -/

namespace Kmi.Kernel

open Rpc (SysRet IpcFlags OK ERR_NF ERR_OOMEM ERR_INVAL ERR_MISC)

inductive LockOp where
  | lock
  | unlock
  | user
  | sleep
deriving DecidableEq, Repr

/-- What happens to the notifications of a thread: they are asked for, they are thrown away
with the handler as it was found (its state and its callback), or the handler `r` is
entered with flags while the thread is in an RPC or not. -/
inductive Note where
  | request (t : ℕ) (flags : BitVec 32)
  | drop (t : ℕ) (handler : Option (Bool × ℤ))
  | enter (t r : ℕ) (flags : BitVec 32) (rpc : Bool)
  | create (t : ℕ)
deriving DecidableEq, Repr

/-- Of the pages that are allocated, those that are kernel stackPages are kept apart, and what
a process has mapped is left out. The last three fields only record: the operations on the
lock, the entries of `tcbs` that are read or written, and the notifications. -/
structure State where
  tcbs : ℤ → Option ℕ
  startTid : ℤ
  tcb : ℕ → Tcb
  stackPages : ℕ → Bool
  pages : ℕ → Bool
  nodes : ℕ → Bool
  answers : List (Option ℕ)
  cpuTcb : ℤ → Option ℕ
  tp : ℤ → Option ℕ
  irqMap : Irq.Table
  ipi : Ipi.Heads
  rpcStackSize : ℤ
  trace : List LockOp
  indices : List ℤ
  notes : List Note

inductive Exit where
  | user
  | asleep
  | stuck
deriving DecidableEq, Repr

abbrev K := EStateM Exit State

namespace State

def setTcb (k : State) (a : ℕ) (t : Tcb) : State := { k with tcb := Function.update k.tcb a t }

def getTcb (k : State) (tid : ℤ) : Option ℕ :=
  if tid ≤ 0 then none
  else
    match k.tcbs (tid % numTcbs) with
    | none => none
    | some a => if (k.tcb a).thread.tid = tid then some a else none

def procs (k : State) : Rpc.Procs := fun pid => (k.getTcb pid).map fun a => (k.tcb a).proc

def running (k : State) (a : ℕ) : Bool := k.cpuTcb (k.tcb a).cpuId = some a

end State

def stop {α : Type} : K α := throw .stuck

def deref {α : Type} (p : Option α) : K α :=
  match p with
  | none => stop
  | some a => pure a

def assert (p : Bool) : K Unit := if p then pure () else stop

def onlyIf (p : Prop) [Decidable p] (x : K Unit) : K Unit := if p then x else pure ()

def modifyTcb (a : ℕ) (f : Tcb → Tcb) : K Unit := modify fun k => k.setTcb a (f (k.tcb a))

def modifyThread (a : ℕ) (f : Rpc.Thread → Rpc.Thread) : K Unit :=
  modifyTcb a fun t => { t with thread := f t.thread }

def note (n : Note) : K Unit := modify fun k => { k with notes := k.notes ++ [n] }

def lockOp (op : LockOp) : K Unit := modify fun k => { k with trace := k.trace ++ [op] }

def bklLock : K Unit := lockOp .lock

def bklUnlock : K Unit := lockOp .unlock

def retUserspace {α : Type} : K α := do
  lockOp .user
  throw .user

def sleep {α : Type} : K α := do
  lockOp .sleep
  throw .asleep

/-- The first `n` of the return registers. -/
def setRet (n : ℕ) (a : SysRet) (t : Rpc.Thread) : Rpc.Thread :=
  let r := (Rpc.getRegs t).args
  Rpc.setRetFast t ⟨if 1 ≤ n then a.s else r.s, if 2 ≤ n then a.id else r.id, if 3 ≤ n then a.a0 else r.a0,
    if 4 ≤ n then a.a1 else r.a1, if 5 ≤ n then a.a2 else r.a2, if 6 ≤ n then a.a3 else r.a3⟩

def setArgs1 (t : ℕ) (s : ℤ) : K Unit := modifyThread t (setRet 2 ⟨s, 0, 0, 0, 0, 0⟩)

def setArgs2 (t : ℕ) (s a : ℤ) : K Unit := modifyThread t (setRet 3 ⟨s, 0, a, 0, 0, 0⟩)

/-! Pages and region nodes: an allocator never hands out what is taken. -/

def answer : K (Option ℕ) := do
  let k ← get
  modify fun k => { k with answers := k.answers.tail }
  pure k.answers.head?.join

def allocStack : K (Option ℕ) := do
  match ← answer with
  | none => pure none
  | some p =>
    let k ← get
    assert (!k.stackPages p && !k.pages p)
    modify fun k => { k with stackPages := Function.update k.stackPages p true }
    pure (some p)

def freeStack (p : ℕ) : K Unit := modify fun k => { k with stackPages := Function.update k.stackPages p false }

def allocPage : K (Option ℕ) := do
  match ← answer with
  | none => pure none
  | some p =>
    let k ← get
    assert (!k.stackPages p && !k.pages p)
    modify fun k => { k with pages := Function.update k.pages p true }
    pure (some p)

def freePage (p : ℕ) : K Unit := modify fun k => { k with pages := Function.update k.pages p false }

def getNode : K (Option ℕ) := do
  match ← answer with
  | none => pure none
  | some p =>
    let k ← get
    assert (!k.nodes p)
    modify fun k => { k with nodes := Function.update k.nodes p true }
    pure (some p)

def freeNode (p : ℕ) : K Unit := modify fun k => { k with nodes := Function.update k.nodes p false }

def freeAll (free : ℕ → K Unit) : List ℕ → K Unit
  | [] => pure ()
  | p :: ps => do
    free p
    freeAll free ps

/-! `src/tcb.c` -/

def readTcbs (i : ℤ) : K (Option ℕ) := do
  modify fun k => { k with indices := k.indices ++ [i] }
  return (← get).tcbs i

def writeTcbs (i : ℤ) (t : Option ℕ) : K Unit :=
  modify fun k => { k with indices := k.indices ++ [i], tcbs := Function.update k.tcbs i t }

def validTid (i : ℤ) : ℤ := if i ≤ 0 then 1 else i

/-- The loop of `__alloc_tid`. When `num_tcbs` ids in a row are taken then so are all
further ones up to `stop`. -/
def findTid (t : ℕ) (stop : ℤ) : ℕ → ℤ → K ℤ
  | 0, _ => pure ERR_NF
  | fuel + 1, i => do
    if validTid i = stop then pure ERR_NF
    else
      match ← readTcbs (validTid i % numTcbs) with
      | some _ => findTid t stop fuel (validTid i + 1)
      | none => do
        writeTcbs (validTid i % numTcbs) (some t)
        modify fun k => { k with startTid := validTid i + 1 }
        pure (validTid i)

def allocTid (t : ℕ) : K ℤ := do
  let start := (← get).startTid
  findTid t (start - 1) (2 ^ 18) start

def referenceThread (t : ℕ) : K Unit := modifyTcb t fun x => { x with refcount := x.refcount + 1 }

/-- The page of the stack and the two tables that `map_vpage` needs to map it. -/
def setupRpcStack (t : ℕ) : K Bool := do
  match ← allocPage with
  | none => pure false
  | some page =>
    modifyTcb t fun x => { x with rpcPage := some page }
    match ← allocPage with
    | none =>
      freePage page
      pure false
    | some upper =>
      modifyTcb t fun x => { x with rpcTables := [upper] }
      match ← allocPage with
      | none =>
        freePage page
        pure false
      | some lower =>
        modifyTcb t fun x => { x with rpcTables := [upper, lower] }
        modifyThread t fun x => { x with
          rpcStack := Rpc.rpcStackTop
          rpcIdx := Rpc.rpcPages - 1
          regs := Rpc.rpcStackTop - Rpc.sizeofCallCtx x.width }
        pure true

def destroyRpcmem (t : ℕ) : K Unit := do
  let x := (← get).tcb t
  freeAll freePage (x.rpcTables ++ x.rpcVmem.toList)

/-- `init_uvmem` needs a node for the one free region. -/
def initUvmem (t : ℕ) : K Bool := do
  match ← getNode with
  | none => pure false
  | some node =>
    modifyTcb t fun x => { x with region := some node }
    pure true

def initFreeThread (t : ℕ) : K Bool := do
  match ← allocPage with
  | none => pure false
  | some vmem =>
    modifyTcb t fun x => { x with procVmem := some vmem }
    if !(← initUvmem t) then
      freePage vmem
      pure false
    else
      match ← allocPage with
      | none =>
        freePage vmem
        pure false
      | some rpc =>
        modifyTcb t fun x => { x with rpcVmem := some rpc }
        if !(← setupRpcStack t) then
          destroyRpcmem t
          freePage vmem
          pure false
        else
          modifyTcb t fun x => { x with
            rid := x.thread.tid
            thread := { x.thread with pid := x.thread.tid, eid := x.thread.tid } }
          pure true

/-- Without a page for the address space it answers `NULL`, which is `OK`. -/
def initOwnedThread (p t : ℕ) : K Bool := do
  let parent := (← get).tcb p
  modifyTcb t fun x => { x with
    rid := parent.rid
    callback := parent.callback
    thread := { x.thread with pid := parent.rid, eid := parent.rid } }
  match ← allocPage with
  | none => pure true
  | some rpc =>
    modifyTcb t fun x => { x with rpcVmem := some rpc }
    if !(← setupRpcStack t) then
      destroyRpcmem t
      pure false
    else
      referenceThread p
      pure true

def cloneUvmem (r b : Option ℕ) : K Unit := do
  let _ ← deref r
  let _ ← deref b

def initThread (p : Option ℕ) (t : ℕ) : K Bool :=
  match p with
  | some p => initOwnedThread p t
  | none => initFreeThread t

/-- The new tcb is cleared and gets its id; the entry is written again without `num_tcbs`. -/
def takeTid (t : ℕ) : K Unit := do
  modify fun k => k.setTcb t (zeroTcb k.irqMap.width)
  note (.create t)
  let tid ← allocTid t
  writeTcbs tid (some t)
  modifyThread t fun x => { x with tid := tid }

def constructThread (p : Option ℕ) (t : ℕ) : K (Option ℕ) := do
  takeTid t
  if !(← initThread p t) then
    freeStack t
    pure none
  else
    let k ← get
    let parent ← deref (k.getTcb (k.tcb t).rid)
    cloneUvmem (k.tcb parent).procVmem (k.tcb t).rpcVmem
    referenceThread t
    pure (some t)

def createThread (p : Option ℕ) : K (Option ℕ) := do
  match ← allocStack with
  | none => pure none
  | some t => constructThread p t

/-- A page or a node of the memory of a process. It must not be one that a thread has. -/
def request (taken : State → ℕ → Bool) : K Bool := do
  match ← answer with
  | none => pure false
  | some p =>
    let k ← get
    assert (!taken k p)
    pure true

/-- `__create_region` stores through the node that it gets, whatever it gets. -/
def takeNodes : ℕ → K Unit
  | 0 => pure ()
  | left + 1 => do
    let given ← request State.nodes
    assert given
    takeNodes left

def takePages : ℕ → K Bool
  | 0 => pure true
  | left + 1 => do
    if ← request fun k p => k.stackPages p || k.pages p then takePages left else pure false

/-- The pages and the tables that `copy_region` or `clone_region` asks for. -/
def Area.pages (a : Area) : ℕ :=
  match a.backing with
  | .own => a.tables.length + a.tables.sum
  | .nonbacked => 0
  | .shared .. => a.tables.sum

def keepArea (n : ℕ) (a : Area) : K Unit := modifyTcb n fun x => { x with copied := x.copied ++ [a] }

/-- `alloc_shared_fixed_region` in the copy. Where the region has no place there, the search
does not end or `assert(v == start)` fails. -/
def placeArea (a : Area) : K Unit := do
  let nodes ← deref a.nodes
  takeNodes nodes

/-- `__copy_mapped_region`. The address that it answers for a region without pages counts as
an error. A region that is not copied whole is freed again and unmapped. -/
def copyMappedRegion (n : ℕ) (a : Area) : K Bool := do
  placeArea a
  if a.backing = .nonbacked then
    keepArea n a
    pure false
  else if (← takePages a.pages) && a.whole then
    keepArea n a
    pure true
  else pure false

def Area.walked (a : Area) : Bool := !a.whole || a.tables ≠ []

def copySharedRegion (n : ℕ) (a : Area) (pid : ℤ) (known : Bool) : K Bool := do
  let k ← get
  match k.getTcb pid with
  | none => pure false
  | some s =>
    placeArea a
    assert (!a.walked || (k.tcb s).procVmem.isSome)
    if (← takePages a.pages) && a.whole then
      assert (known && (k.tcb s).rid = pid)
      referenceThread s
      keepArea n a
      pure true
    else pure false

def copyArea (n : ℕ) (a : Area) : K Bool :=
  match a.backing with
  | .shared pid known => copySharedRegion n a pid known
  | _ => copyMappedRegion n a

/-- `copy_uvmem`, with the used regions of the parent. -/
def copyUvmem (n : ℕ) : List Area → K Bool
  | [] => pure true
  | a :: areas => do
    if ← copyArea n a then copyUvmem n areas else pure false

/-- `__copy_proc`, with the registers and the stack of the parent. -/
def copyProc (p n : ℕ) (areas : List Area) : K Bool := do
  let parent := (← get).tcb p
  modifyTcb n fun x => { x with
    callback := parent.callback
    caps := parent.caps
    thread := { x.thread with exec := parent.thread.exec, page := parent.thread.page } }
  copyUvmem n areas

/-- The parent of a fork comes with its used regions. What `__copy_proc` answers is not
looked at. -/
def createProc (parent : Option (ℕ × List Area)) : K (Option ℕ) := do
  match ← createThread none with
  | none => pure none
  | some n =>
    match parent with
    | none => pure (some n)
    | some (p, areas) =>
      let _ ← copyProc p n areas
      pure (some n)

def destroyThreadData (t : ℕ) : K Unit := do
  let x := (← get).tcb t
  assert (x.refcount = 0)
  assert x.zombie
  writeTcbs x.thread.tid none
  freeAll freeNode x.region.toList
  freeAll freePage x.procVmem.toList
  freeStack t

def unreferenceThread (t : Option ℕ) : K Unit := do
  match t with
  | none => pure ()
  | some t =>
    modifyTcb t fun x => { x with refcount := x.refcount - 1 }
    onlyIf (((← get).tcb t).refcount = 0) (destroyThreadData t)
    assert (((← get).tcb t).refcount ≥ 0)

def unqueueIpi (t : ℕ) : K Unit := do
  let ipi ← deref (Ipi.unqueueIpi (← get).ipi t)
  modify fun k => { k with ipi := ipi }

def destroyThread (t : ℕ) : K Unit := do
  let k ← get
  assert ((k.tcb t).thread.tid ≠ 1)
  let r := k.getTcb (k.tcb t).rid
  onlyIf (r ≠ some t) (unreferenceThread r)
  freeAll freePage ((← get).tcb t).rpcPage.toList
  destroyRpcmem t
  unqueueIpi t
  modifyTcb t fun x => { x with dead := true, rid := 0 }
  unreferenceThread (some t)

/-- `use_tcb`, which also takes the thread's address space into use. -/
def useTcb (c : ℤ) (t : ℕ) : K Unit := do
  let k ← get
  let cur ← deref (k.tp c)
  let cpu := (k.tcb cur).cpuId
  modifyTcb t fun x => { x with cpuId := cpu }
  modify fun k => { k with
    tp := Function.update k.tp c (some t)
    cpuTcb := Function.update k.cpuTcb cpu (some t) }

/-! `src/uapi/ipc.c` and `src/orphanage.c` -/

/-- The frame goes where the address space in use has it, which is that of the thread the
processor runs. -/
def enterRpc (c : ℤ) (t r : ℕ) (a : SysRet) (flags : IpcFlags) : K Unit := do
  let k ← get
  let inUse ← deref (k.tp c)
  let page := (k.tcb inUse).thread.page
  let e ← deref (Rpc.enterRpc { (k.tcb t).thread with page := page } (k.tcb r).proc a flags)
  modifyThread inUse fun x => { x with page := e.page }
  modifyThread t fun x => { e with page := x.page }
  cloneUvmem (k.tcb r).procVmem (k.tcb t).rpcVmem
  referenceThread r

def sendIpi (r : ℕ) : K Unit := do
  let ipi ← deref (Ipi.sendIpi (← get).ipi r)
  modify fun k => { k with ipi := ipi }

def requestFlags (t : ℕ) (flags : BitVec 32) : K Unit := do
  modifyTcb t fun x => { x with notifyFlags := x.notifyFlags ||| flags }
  note (.request t flags)

def dropFlags (t : ℕ) (handler : Option (Bool × ℤ)) : K Unit := do
  modifyTcb t fun x => { x with notifyFlags := 0 }
  note (.drop t handler)

def handOver (t r : ℕ) (flags : BitVec 32) (rpc : Bool) : K Unit := do
  modifyTcb t fun x => { x with notifyFlags := x.notifyFlags &&& ~~~flags }
  note (.enter t r flags rpc)

def handedFlags (t : Tcb) : BitVec 32 :=
  (if Rpc.isRpc t.thread then 0 else t.notifyFlags &&& (NOTIFY_SIGNAL ||| NOTIFY_ORPHANED)) |||
    (if isSet t.notifyFlags (NOTIFY_IRQ ||| NOTIFY_TIMER) then
      t.notifyFlags &&& (NOTIFY_IRQ ||| NOTIFY_TIMER) else 0)

def runNotify {α : Type} (c : ℤ) (t r : ℕ) : K α := do
  useTcb c r
  let x := (← get).tcb t
  let flags := handedFlags x
  enterRpc c t r ⟨0, x.thread.tid, Rpc.SYS_USER_NOTIFY, flags.toNat, x.thread.eid, 0⟩ Rpc.notifyFlags
  handOver t r flags (Rpc.isRpc x.thread)
  bklUnlock
  retUserspace

def unavailable (r : Tcb) : Bool := r.hasState || r.callback = 0

def notify (c : ℤ) (t : ℕ) (flags : BitVec 32) : K Unit := do
  requestFlags t flags
  let k ← get
  let x := k.tcb t
  if x.notifyFlags = 0 then pure ()
  else
    match k.getTcb x.notifyId with
    | none => dropFlags t none
    | some r =>
      if unavailable (k.tcb r) then dropFlags t (some ((k.tcb r).hasState, (k.tcb r).callback))
      else if !isSet x.notifyFlags (NOTIFY_IRQ ||| NOTIFY_TIMER) && Rpc.isRpc x.thread then pure ()
      else if !Rpc.enoughRpcStackFor k.rpcStackSize (k.tcb r).thread then pure ()
      else if k.running r && k.tp c ≠ some r then sendIpi r
      else runNotify c t r

def orphanize (t : ℕ) : K Unit := modifyThread t fun x => { x with orphan := true }

def unorphanize {α : Type} (t : ℕ) : K α := do
  let k ← get
  assert (!Rpc.isRpc (k.tcb t).thread)
  let init ← deref (k.getTcb 1)
  referenceThread init
  let oldRid := (k.tcb t).rid
  modifyTcb t fun x => { x with
    rid := 1
    thread := { x.thread with
      rpcStack := Rpc.rpcStackBase + Rpc.basePageSize * 2 ^ 21
      rpcIdx := Rpc.rpcPages - 1
      pid := 1
      eid := 1 } }
  cloneUvmem (k.tcb init).procVmem (k.tcb t).rpcVmem
  assert ((k.tcb init).callback ≠ 0)
  modifyThread t fun x => setRet 4 ⟨0, x.tid, SYS_USER_ORPHANED, oldRid, 0, 0⟩ x
  modifyTcb t fun x => { x with
    callback := (k.tcb init).callback
    thread := { x.thread with exec := (k.tcb init).callback } }
  bklUnlock
  retUserspace

/-- `leave_rpc` up to where it has found what to go back to. -/
def unwound (procs : Rpc.Procs) (t : Rpc.Thread) (a : SysRet) : Option (Rpc.Thread × Rpc.CallCtx) :=
  let ctx := Rpc.ctxAt t t.rpcStack
  let t := { t with regs := ctx.rpcStack - Rpc.sizeofCallCtx t.width }
  Rpc.unwind procs 513 (if ctx.notify then t else Rpc.setRetFast t a) ctx

def leaveRpc (c : ℤ) (t : ℕ) (a : SysRet) : K Unit := do
  let k ← get
  let (u, ctx) ← deref (unwound k.procs (k.tcb t).thread a)
  modifyThread t fun _ => u
  if u.orphan && !Rpc.isRpc u then unorphanize t
  else
    let v ← deref (Rpc.destroyRpc { u with exec := ctx.exec, rpcStack := ctx.rpcStack })
    modifyThread t fun _ => { v with pid := ctx.pid, eid := ctx.eid }
    onlyIf (((← get).tcb t).notifyFlags ≠ 0) (notify c t 0)
    onlyIf (!ctx.notify) do
      bklUnlock
      retUserspace

def doIpc (c : ℤ) (t : ℕ) (pid d0 d1 d2 d3 : ℤ) (flags : IpcFlags) : K Unit := do
  let k ← get
  let x := (k.tcb t).thread
  if !flags.tail && !Rpc.enoughRpcStackFor k.rpcStackSize x then setArgs1 t ERR_OOMEM
  else
    match k.getTcb pid with
    | none => setArgs1 t ERR_INVAL
    | some r =>
      if (k.tcb r).isProc && !(k.tcb r).zombie then
        enterRpc c t r ⟨if flags.forward then x.eid else x.pid, x.tid, d0, d1, d2, d3⟩ flags
        bklUnlock
        retUserspace
      else setArgs1 t ERR_INVAL

def sysIpc (c : ℤ) (t : ℕ) (call : Rpc.Call) (pid d0 d1 d2 d3 : ℤ) : K Unit := do
  let x := ((← get).tcb t).thread
  doIpc c t pid d0 d1 d2 d3 (call.flags x)

def sysIpcResp (c : ℤ) (t : ℕ) (d0 d1 d2 d3 : ℤ) : K Unit := do
  let k ← get
  let x := (k.tcb t).thread
  if !Rpc.isRpc x then setArgs1 t ERR_MISC
  else
    unreferenceThread (k.getTcb x.pid)
    leaveRpc c t ⟨OK, x.pid, d0, d1, d2, d3⟩

def sysIpcNotify (c : ℤ) (t : ℕ) (tid : ℤ) : K Unit := do
  let k ← get
  if (k.tcb t).thread.tid ≠ tid && !isSet (k.tcb t).caps CAP_NOTIFY then setArgs1 t ERR_PERM
  else
    match k.getTcb tid with
    | none => setArgs1 t ERR_INVAL
    | some r =>
      setArgs1 t OK
      notify c r NOTIFY_SIGNAL

end Kmi.Kernel
