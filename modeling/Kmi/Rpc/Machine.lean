import Kmi.Rpc.Model
import Kmi.Mem

/-! The RPC stacks of all threads, with the stack size that `set_conf` can change and
the notifications that enter a handler without a call of the thread. -/

namespace Kmi.Rpc

structure Machine where
  rpcStackSize : ℤ
  threads : ℤ → Option Thread

def maxRpcSize : ℕ := 2 ^ 19

def SYS_USER_NOTIFY : ℤ := 0

def enoughRpcStackFor (size : ℤ) (t : Thread) : Bool :=
  rpcPosition t - basePageSize - size ≥ rpcStackBase

def doIpcFor (size : ℤ) (procs : Procs) (t : Thread) (pid d0 d1 d2 d3 : ℤ) (flags : IpcFlags) :
    Option Thread :=
  if !flags.tail && !enoughRpcStackFor size t then some (setArgs1 t ERR_OOMEM)
  else
    match procs pid with
    | none => some (setArgs1 t ERR_INVAL)
    | some r =>
      if isProc r && !zombie r then
        enterRpc t r ⟨if flags.forward then t.eid else t.pid, t.tid, d0, d1, d2, d3⟩ flags
      else some (setArgs1 t ERR_INVAL)

def stepFor (size : ℤ) (procs : Procs) (t : Thread) : Event → Option Thread
  | .user exec regs page => some (userRun t exec regs page)
  | .fault addr => handlePagefault t addr
  | .ipc c pid d0 d1 d2 d3 => doIpcFor size procs t pid d0 d1 d2 d3 (c.flags t)
  | .resp d0 d1 d2 d3 => sysIpcResp procs t d0 d1 d2 d3

def setConf (m : Machine) (val : ℕ) : Machine :=
  let size := Mem.alignUp val 4096
  if size > maxRpcSize then m else { m with rpcStackSize := size }

/-- `notify` looks for room on the stack of the handler. -/
def notifies (size : ℤ) (t handler : Thread) (r : Proc) (critical : Bool) : Bool :=
  !zombie r && !r.orphan && r.callback ≠ 0 && (critical || !isRpc t) && enoughRpcStackFor size handler

def notifyFlags : IpcFlags := ⟨false, false, true⟩

/-- The handler's address space is in use when the notified thread is moved, so the
record and the registers are written where the handler's stack has them. -/
def runNotify (m : Machine) (tid handler flags : ℤ) (t h : Thread) (r : Proc) : Option Machine := do
  let e ← enterRpc { t with page := h.page } r ⟨0, t.tid, SYS_USER_NOTIFY, flags, t.eid, 0⟩ notifyFlags
  let threads := Function.update m.threads handler (some { h with page := e.page })
  let t := { e with page := if handler = tid then e.page else t.page }
  some { m with threads := Function.update threads tid (some t) }

inductive MachineEvent where
  | thread (tid : ℤ) (e : Event)
  | notify (tid handler : ℤ) (critical : Bool) (flags : ℤ)
  | setConf (val : ℕ)

def Machine.step (procs : Procs) (m : Machine) : MachineEvent → Option Machine
  | .thread tid e => do
    let t ← m.threads tid
    let t ← stepFor m.rpcStackSize procs t e
    some { m with threads := Function.update m.threads tid (some t) }
  | .notify tid handler critical flags => do
    let t ← m.threads tid
    let h ← m.threads handler
    let r ← procs handler
    if notifies m.rpcStackSize t h r critical then runNotify m tid handler flags t h r else some m
  | .setConf val => some (Rpc.setConf m val)

/-- A page of an RPC stack, or its entry in the page table, by the thread it belongs to. -/
structure Touch where
  owner : ℤ
  page : ℤ
deriving DecidableEq, Repr

def scanDown : ℕ → (ℤ → Bool) → ℤ → List ℤ
  | 0, _, _ => []
  | fuel + 1, user, idx =>
    if idx < rpcPages - 1 then
      if user idx then idx :: scanDown fuel (Function.update user idx false) (idx - 1) else [idx]
    else []

def scanUp : ℕ → (ℤ → Bool) → ℤ → List ℤ
  | 0, _, _ => []
  | fuel + 1, user, idx =>
    if idx < rpcPages - 1 then
      if user idx then idx :: scanUp fuel (Function.update user idx false) (idx + 1) else [idx]
    else []

def pagesFrom (first stop : ℤ) : List ℤ :=
  (List.range (stop - first).toNat).map fun j : ℕ => first + j

/-- What `enter_rpc` touches: the frame in the address space that is in use, and the
entries of the thread's own stack. -/
def enterTouches (t : Thread) (inUse : ℤ) (tail : Bool) : List Touch :=
  let rpcStack := if tail && isRpc t then t.rpcStack else rpcPosition t
  let last := if tail then
      match clearDown 513 t.user t.rpcIdx with
      | none => []
      | some (_, topIdx) => [topIdx + 1]
    else [t.rpcIdx - 2]
  ⟨inUse, ctxPage t.width rpcStack⟩ :: (scanDown 513 t.user t.rpcIdx ++ last).map (⟨t.tid, ·⟩)

/-- What `destroy_rpc` touches once `rpc_stack` is where it goes back to. -/
def destroyTouches (t : Thread) : List Touch :=
  match clearUp 513 t.user t.rpcIdx with
  | none => (scanUp 513 t.user t.rpcIdx).map (⟨t.tid, ·⟩)
  | some (_, topIdx) =>
    (scanUp 513 t.user t.rpcIdx ++
      pagesFrom (topIdx + 1) ((t.rpcStack - rpcStackBase) / basePageSize - 1)).map (⟨t.tid, ·⟩)

def growTouches (t : Thread) (top : ℤ) : List Touch := (pagesFrom (pageOf top) t.rpcIdx).map (⟨t.tid, ·⟩)

/-- The call gets past the checks of `do_ipc`. -/
def entersFor (size : ℤ) (procs : Procs) (t : Thread) (c : Call) (pid : ℤ) : Bool :=
  ((c.flags t).tail || enoughRpcStackFor size t) && usable procs pid

def threadTouches (size : ℤ) (procs : Procs) (t : Thread) : Event → List Touch
  | .user .. => []
  | .fault addr =>
    if inRpcStack t addr then growTouches t (addr - addr % basePageSize) else []
  | .ipc c pid _ _ _ _ =>
    if entersFor size procs t c pid then enterTouches t t.tid (c.flags t).tail else []
  | .resp d0 d1 d2 d3 =>
    if isRpc t then
      let ctx := ctxAt t t.rpcStack
      let u := { t with regs := ctx.rpcStack - sizeofCallCtx t.width }
      let u := if ctx.notify then u else setRetFast u ⟨OK, t.pid, d0, d1, d2, d3⟩
      match unwind procs 513 u ctx with
      | none => []
      | some (u, ctx) => destroyTouches { u with rpcStack := ctx.rpcStack }
    else []

def Machine.touches (procs : Procs) (m : Machine) : MachineEvent → List (ℤ × Touch)
  | .thread tid e =>
    match m.threads tid with
    | none => []
    | some t => (threadTouches m.rpcStackSize procs t e).map (tid, ·)
  | .notify tid handler critical _ =>
    match m.threads tid, m.threads handler, procs handler with
    | some t, some h, some r =>
      if notifies m.rpcStackSize t h r critical then (enterTouches t handler false).map (tid, ·) else []
    | _, _, _ => []
  | .setConf _ => []

end Kmi.Rpc
