import Kmi.Kernel.Model

/-! The ways into the kernel, from `src/dispatch.c`, `src/uapi/`, `src/proc.c` and
`arch/riscv64/kernel/smp.c`, and what can happen between them. -/

namespace Kmi.Kernel

open Rpc (SysRet OK ERR_NF ERR_OOMEM ERR_INVAL)

inductive MemRef where
  | take (tid : ℤ)
  | drop (tid : ℤ)
deriving DecidableEq, Repr

/-- What `load_elf` comes to, with all that it allocates: a node that it has not got, an
error, or the entry point. -/
inductive Loaded where
  | faults
  | refused
  | entry (addr : ℤ)
deriving DecidableEq, Repr

/-- The system calls. What the loader makes of a binary and the used regions of the process
that is forked are given. The calls that only return values and memory calls are `other`. -/
inductive Syscall where
  | ipc (call : Rpc.Call) (pid d0 d1 d2 d3 : ℤ)
  | ipcResp (d0 d1 d2 d3 : ℤ)
  | ipcNotify (tid : ℤ)
  | setHandler (tid pid : ℤ)
  | create (func d0 d1 d2 d3 : ℤ)
  | fork (areas : List Area)
  | exec (found : Bool) (loaded : Loaded)
  | spawn (loaded : Loaded)
  | swap (tid : ℤ)
  | exit (tid : ℤ)
  | detach (tid : ℤ)
  | setCap (tid : ℤ) (caps : BitVec 32)
  | getCap (tid : ℤ)
  | clearCap (tid : ℤ) (caps : BitVec 32)
  | irqReq (id : BitVec 64)
  | freeIrq (id : BitVec 64)
  | setConf (rpc : Bool) (val : ℕ)
  | sleep
  | other (refs : List MemRef) (n : ℕ) (ret : SysRet)

def sysSetHandler (t : ℕ) (tid pid : ℤ) : K Unit := do
  let k ← get
  if !isSet (k.tcb t).caps CAP_SIGNAL then setArgs1 t ERR_PERM
  else
    match k.getTcb tid with
    | none => setArgs1 t ERR_INVAL
    | some _ =>
      -- the handler that is set is that of the caller, whatever thread was named
      modifyTcb t fun x => { x with notifyId := pid }
      setArgs1 t OK

def setThread (t : ℕ) : K Unit :=
  modifyThread t fun x => Rpc.setStackFast x (x.rpcStack - Rpc.basePageSize)

def sysCreate (t : ℕ) (func d0 d1 d2 d3 : ℤ) : K Unit := do
  let k ← get
  let p ← deref (k.getTcb (k.tcb t).thread.pid)
  if !isSet (k.tcb p).caps CAP_PROC then setArgs1 t ERR_PERM
  else
    let e ← deref (k.getTcb (k.tcb t).thread.eid)
    match ← createThread (some e) with
    | none => setArgs1 t ERR_OOMEM
    | some n =>
      setThread n
      let tid := ((← get).tcb n).thread.tid
      modifyThread n (setRet 5 ⟨tid, d0, d1, d2, d3, 0⟩)
      modifyThread n fun x => { x with exec := func }
      let id := ((← get).tcb t).notifyId
      modifyTcb n fun x => { x with notifyId := id }
      setArgs1 t tid

def sysFork (t : ℕ) (areas : List Area) : K Unit := do
  let k ← get
  let p ← deref (k.getTcb (k.tcb t).thread.pid)
  if !isSet (k.tcb p).caps CAP_PROC then setArgs1 t ERR_PERM
  else
    let e ← deref (k.getTcb (k.tcb t).thread.eid)
    match ← createProc (some (e, areas)) with
    | none => setArgs1 t ERR_OOMEM
    | some n =>
      let k ← get
      let e ← deref (k.getTcb (k.tcb t).thread.eid)
      setArgs2 n 0 (k.tcb e).thread.pid
      modifyTcb n fun x => { x with notifyId := (k.tcb p).notifyId }
      setArgs1 t (k.tcb n).thread.pid

def sysExec (t : ℕ) (found : Bool) (loaded : Loaded) : K Unit := do
  let x := (← get).tcb t
  if !x.isProc then setArgs1 t ERR_PERM
  else if x.refcount ≠ 1 then setArgs1 t ERR_INVAL
  else if !found then setArgs1 t ERR_ADDR
  else
    match loaded with
    | .faults => stop
    | .refused => setArgs1 t ERR_INVAL
    | .entry entry =>
      modifyTcb t fun x => { x with callback := entry }
      setThread t
      modifyThread t fun x => { x with exec := entry }
      modifyThread t fun x => setRet 4 ⟨0, x.tid, SYS_USER_SPAWNED, x.pid, 0, 0⟩ x

def sysSpawn (t : ℕ) (loaded : Loaded) : K Unit := do
  let k ← get
  let p ← deref (k.getTcb (k.tcb t).thread.eid)
  if !isSet (k.tcb p).caps CAP_PROC then setArgs1 t ERR_PERM
  else
    match ← createProc none with
    | none => setArgs1 t ERR_OOMEM
    | some n =>
      let id := ((← get).tcb p).notifyId
      modifyTcb n fun x => { x with notifyId := id }
      match loaded with
      | .faults => stop
      | .refused =>
        -- `destroy_proc` clears the memory of the process and leaves the thread
        assert ((← get).tcb n).isProc
        setArgs1 t ERR_INVAL
      | .entry entry =>
        modifyTcb n fun x => { x with callback := entry }
        setThread n
        modifyThread n fun x => { x with exec := entry }
        modifyThread n fun x => setRet 4 ⟨0, x.tid, SYS_USER_SPAWNED, x.pid, 0, 0⟩ x
        setArgs1 t ((← get).tcb n).thread.pid

def swap (c : ℤ) (t s : ℕ) : K Unit := do
  setArgs1 t OK
  useTcb c s
  let x := (← get).tcb s
  if !Rpc.isRpc x.thread && x.orphan then unorphanize s
  else if x.notifyFlags ≠ 0 then notify c s 0
  else pure ()

def swapTo (c : ℤ) (t : ℕ) (tid : ℤ) (next : K Unit) : K Unit := do
  let k ← get
  match k.getTcb tid with
  | none => setArgs1 t ERR_INVAL
  | some s =>
    if (k.tcb s).zombie then setArgs1 t ERR_NF
    else if k.running s then setArgs1 t ERR_EXT
    else
      swap c t s
      next

def sysSwap (c : ℤ) (t : ℕ) (tid : ℤ) : K Unit := do
  let k ← get
  let p ← deref (k.getTcb (k.tcb t).thread.pid)
  if !isSet (k.tcb p).caps CAP_PROC then setArgs1 t ERR_PERM
  else swapTo c t tid (pure ())

def sysExit (c : ℤ) (t : ℕ) (tid : ℤ) : K Unit := do
  let k ← get
  let p ← deref (k.getTcb (k.tcb t).thread.eid)
  if !isSet (k.tcb p).caps CAP_PROC then setArgs1 t ERR_PERM
  else if (k.tcb t).thread.tid = 1 then setArgs1 t ERR_INVAL
  else if tid = 0 then
    destroyThread t
    sleep
  else swapTo c t tid (destroyThread t)

def sysDetach (t : ℕ) (tid : ℤ) : K Unit := do
  let k ← get
  let p ← deref (k.getTcb (k.tcb t).thread.pid)
  if !isSet (k.tcb p).caps CAP_PROC then setArgs1 t ERR_PERM
  else
    match k.getTcb tid with
    | none => setArgs1 t ERR_INVAL
    | some o =>
      if (k.tcb o).orphan then setArgs1 t ERR_INVAL
      else
        orphanize o
        setArgs1 t OK

/-- `set_cap` and `clear_cap` differ in what they do to the capabilities. -/
def changeCaps (t : ℕ) (tid : ℤ) (f : BitVec 32 → BitVec 32) : K Unit := do
  let k ← get
  if !isSet (k.tcb t).caps CAP_CAPS then setArgs1 t ERR_PERM
  else
    match k.getTcb tid with
    | none => setArgs1 t ERR_NF
    | some a =>
      modifyTcb a fun x => { x with caps := f x.caps }
      setArgs1 t OK

def sysSetCap (t : ℕ) (tid : ℤ) (caps : BitVec 32) : K Unit := changeCaps t tid (· ||| caps)

def sysClearCap (t : ℕ) (tid : ℤ) (caps : BitVec 32) : K Unit := changeCaps t tid (· &&& ~~~caps)

def sysGetCap (t : ℕ) (tid : ℤ) : K Unit := do
  let k ← get
  match k.getTcb tid with
  | none => setArgs1 t ERR_NF
  | some a => setArgs2 t OK (k.tcb a).caps.toNat

def irqCall (t : ℕ) (call : Irq.Table → Tcb → ℤ × Irq.Table) : K Unit := do
  let k ← get
  let (r, irqMap) := call k.irqMap (k.tcb t)
  modify fun k => { k with irqMap := irqMap }
  setArgs1 t r

def sysIrqReq (t : ℕ) (id : BitVec 64) : K Unit := irqCall t fun m x => Irq.sysIrqReq m x id

def sysFreeIrq (t : ℕ) (id : BitVec 64) : K Unit := irqCall t fun m x => Irq.sysFreeIrq m x id

def sysSetConf (t : ℕ) (rpc : Bool) (val : ℕ) : K Unit := do
  let k ← get
  if !isSet (k.tcb t).caps CAP_CONF then setArgs1 t ERR_PERM
  else if !rpc then setArgs1 t OK
  else
    let size := Mem.alignUp val 4096
    if size > Rpc.maxRpcSize then setArgs1 t Rpc.ERR_MISC
    else
      modify fun k => { k with rpcStackSize := size }
      setArgs1 t OK

/-- The processor stops without the lock; `wake` is what follows if it comes back. -/
def sysSleep (t : ℕ) : K Unit := do
  let x := (← get).tcb t
  if !isSet x.caps CAP_POWER then setArgs1 t ERR_PERM
  else
    bklUnlock
    sleep

def memRef : MemRef → K Unit
  | .take tid => do
    match (← get).getTcb tid with
    | none => pure ()
    | some a => referenceThread a
  | .drop tid => do unreferenceThread ((← get).getTcb tid)

def memRefs : List MemRef → K Unit
  | [] => pure ()
  | ref :: refs => do
    memRef ref
    memRefs refs

def handleSyscall (c : ℤ) (t : ℕ) : Syscall → K Unit
  | .ipc call pid d0 d1 d2 d3 => sysIpc c t call pid d0 d1 d2 d3
  | .ipcResp d0 d1 d2 d3 => sysIpcResp c t d0 d1 d2 d3
  | .ipcNotify tid => sysIpcNotify c t tid
  | .setHandler tid pid => sysSetHandler t tid pid
  | .create func d0 d1 d2 d3 => sysCreate t func d0 d1 d2 d3
  | .fork areas => sysFork t areas
  | .exec found loaded => sysExec t found loaded
  | .spawn loaded => sysSpawn t loaded
  | .swap tid => sysSwap c t tid
  | .exit tid => sysExit c t tid
  | .detach tid => sysDetach t tid
  | .setCap tid caps => sysSetCap t tid caps
  | .getCap tid => sysGetCap t tid
  | .clearCap tid caps => sysClearCap t tid caps
  | .irqReq id => sysIrqReq t id
  | .freeIrq id => sysFreeIrq t id
  | .setConf rpc val => sysSetConf t rpc val
  | .sleep => sysSleep t
  | .other refs n ret => do
    memRefs refs
    modifyThread t (setRet n ret)

inductive Entry where
  | syscall (s : Syscall)
  | irq
  | timer (tid : ℤ)
  | ipi
  | fault (addr : ℤ)
  | wake (status : ℤ)

def dispatch (c : ℤ) (s : Syscall) : K Unit := do
  bklLock
  let t ← deref ((← get).tp c)
  modifyThread t fun x => { x with exec := x.exec + 4 }
  handleSyscall c t s
  bklUnlock

def serveIrq (c : ℤ) : Irq.Served ℕ → K Unit
  -- `bug()` returns without the unlock
  | .unregistered => pure ()
  | .dead => bklUnlock
  | .owner t => do
    notify c t NOTIFY_IRQ
    bklUnlock

def handleIrq (c : ℤ) : K Unit := do
  bklLock
  let k ← get
  let (served, irqMap) ← deref (Irq.handleIrq k.irqMap k.getTcb fun a => (k.tcb a).orphan)
  modify fun k => { k with irqMap := irqMap }
  serveIrq c served

/-- `tid` is the thread of the timer that is due. -/
def handleTimer (c : ℤ) (tid : ℤ) : K Unit := do
  bklLock
  let k ← get
  match k.getTcb tid with
  | none => bklUnlock
  | some r =>
    if (k.tcb r).orphan then bklUnlock
    else
      notify c r NOTIFY_TIMER
      bklUnlock

def handleIpi (c : ℤ) : K Unit := do
  bklLock
  let k ← get
  let (ipi, q) ← deref (Ipi.handleIpi k.ipi)
  modify fun k => { k with ipi := ipi }
  match q with
  | none => bklUnlock
  | some .fifo => stop
  | some (.thread r) =>
    notify c r 0
    bklUnlock

def handlePagefault (c : ℤ) (addr : ℤ) : K Unit := do
  let k ← get
  let t ← deref (k.tp c)
  if Rpc.inRpcStack (k.tcb t).thread addr then
    let u ← deref (Rpc.handlePagefault (k.tcb t).thread addr)
    modifyThread t fun _ => u
  else
    let p ← deref (k.getTcb (k.tcb t).thread.pid)
    cloneUvmem (k.tcb p).procVmem (k.tcb t).rpcVmem

def handleException (c : ℤ) (addr : ℤ) : K Unit := do
  bklLock
  handlePagefault c addr
  bklUnlock

/-- The rest of `sys_sleep` when the processor has not stopped after all. -/
def wake (c : ℤ) (status : ℤ) : K Unit := do
  bklLock
  let t ← deref ((← get).tp c)
  setArgs1 t status
  bklUnlock

def enterKernel (c : ℤ) : Entry → K Unit
  | .syscall s => dispatch c s
  | .irq => handleIrq c
  | .timer tid => handleTimer c tid
  | .ipi => handleIpi c
  | .fault addr => handleException c addr
  | .wake status => wake c status

/-- An entry that returns goes back to user mode by way of `entry.S`. -/
def trap (c : ℤ) (e : Entry) : K Unit := do
  enterKernel c e
  retUserspace

def coreBringup (c : ℤ) : K Unit := do
  bklLock
  let init ← deref ((← get).getTcb 1)
  let t ← deref (← createThread (some init))
  let exec := ((← get).tcb init).thread.exec
  modifyTcb t fun x => { x with cpuId := c, thread := { x.thread with exec := exec } }
  modify fun k => { k with tp := Function.update k.tp c (some t) }
  useTcb c t
  setThread t
  bklUnlock
  retUserspace

/-- `init_proc` on the first processor, with the entry point of the init program. -/
def initProc (entry : ℤ) : K Unit := do
  let t ← deref (← createProc none)
  modifyTcb t fun x => { x with cpuId := 0 }
  modify fun k => { k with tp := Function.update k.tp 0 (some t) }
  let tid := ((← get).tcb t).thread.tid
  modifyTcb t fun x => { x with
    notifyId := tid
    caps := x.caps ||| (CAP_CAPS ||| CAP_PROC ||| CAP_SIGNAL ||| CAP_POWER ||| CAP_NOTIFY ||| CAP_SHARED) }
  useTcb 0 t
  setThread t
  modifyTcb t fun x => { x with callback := entry }

def blank (w : Rpc.IdWidth) : State where
  tcbs := fun _ => none
  startTid := 0
  tcb := fun _ => zeroTcb w
  stackPages := fun _ => false
  pages := fun _ => false
  nodes := fun _ => false
  answers := []
  cpuTcb := fun _ => none
  tp := fun _ => none
  irqMap := Irq.initIrq w
  ipi := Ipi.initHeads
  rpcStackSize := Rpc.rpcStackSize
  trace := []
  indices := []
  notes := []

def held (trace : List LockOp) : Bool :=
  trace.foldl (fun h op => match op with
    | .lock => true
    | .unlock => false
    | _ => h) false

/-- What can happen next: a trap or a new processor takes the lock, user code runs, and
what is no kernel stack is written by whoever has it. -/
inductive Event where
  | entry (c : ℤ) (e : Entry) (answers : List (Option ℕ))
  | bringup (c : ℤ) (answers : List (Option ℕ))
  | user (c : ℤ) (exec : ℤ) (regs : Rpc.Regs) (page : ℤ → Rpc.StackPage)
  | reuse (a : ℕ) (x : Tcb)

def finish (x : K Unit) (k : State) : Option State :=
  match x k with
  | .ok _ k' => some k'
  | .error .stuck _ => none
  | .error _ k' => some k'

def step (k : State) : Event → Option State
  | .entry c e answers => if held k.trace then none else finish (trap c e) { k with answers := answers }
  | .bringup c answers =>
    if held k.trace || (k.tp c).isSome then none else finish (coreBringup c) { k with answers := answers }
  | .user c exec regs page =>
    (k.tp c).map fun a => k.setTcb a { k.tcb a with thread := Rpc.userRun (k.tcb a).thread exec regs page }
  | .reuse a x => if k.stackPages a then none else some (k.setTcb a x)

def boot (w : Rpc.IdWidth) (entry : ℤ) (answers : List (Option ℕ)) : Option State :=
  finish (initProc entry) { blank w with answers := answers }

end Kmi.Kernel
