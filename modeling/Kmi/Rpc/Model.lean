import Mathlib.Tactic

/-! A thread's RPC stack: the page flags and call records of
`arch/riscv64/kernel/vmem.c` and the calls of `src/uapi/ipc.c` that move it.
Addresses and page indices are integers, of a page only the record and the
registers at its top are kept, and an access outside the table has no result. -/

namespace Kmi.Rpc

structure CallCtx where
  exec : ℤ
  rpcStack : ℤ
  eid : ℤ
  pid : ℤ
  notify : Bool

structure SysRet where
  s : ℤ
  id : ℤ
  a0 : ℤ
  a1 : ℤ
  a2 : ℤ
  a3 : ℤ
deriving DecidableEq, Repr

structure Regs where
  args : SysRet
  sp : ℤ

structure StackPage where
  ctx : CallCtx
  regs : Regs

/-- The two widths that `int_fast32_t` and `uint_fast32_t` have on a 64-bit machine. -/
inductive IdWidth where
  | w32
  | w64
deriving DecidableEq, Repr

def IdWidth.bits : IdWidth → ℕ
  | .w32 => 32
  | .w64 => 64

/-- `width` is that of the ids in the records on the stack. -/
structure Thread where
  width : IdWidth
  exec : ℤ
  regs : ℤ
  rpcStack : ℤ
  rpcIdx : ℤ
  eid : ℤ
  pid : ℤ
  tid : ℤ
  orphan : Bool
  user : ℤ → Bool
  page : ℤ → StackPage

structure Proc where
  tid : ℤ
  rid : ℤ
  callback : ℤ
  orphan : Bool

abbrev Procs := ℤ → Option Proc

structure IpcFlags where
  tail : Bool
  forward : Bool
  notify : Bool

def OK : ℤ := 0

def ERR_NF : ℤ := -1

def ERR_OOMEM : ℤ := -4

def ERR_INVAL : ℤ := -6

def ERR_MISC : ℤ := -8

def basePageSize : ℤ := 4096

def rpcPages : ℤ := 512

def rpcStackBase : ℤ := 248 * 2 ^ 30

def rpcStackTop : ℤ := rpcStackBase + 2 ^ 21

def sizeofCallCtx : IdWidth → ℤ
  | .w32 => 32
  | .w64 => 40

def sizeofRegs : ℤ := 248

def rpcStackSize : ℤ := 2 ^ 19

def pageOf (addr : ℤ) : ℤ := (addr - rpcStackBase) / basePageSize

def ctxPage (w : IdWidth) (rpcStack : ℤ) : ℤ := pageOf (rpcStack - sizeofCallCtx w)

def ctxAt (t : Thread) (rpcStack : ℤ) : CallCtx := (t.page (ctxPage t.width rpcStack)).ctx

def setCtx (t : Thread) (rpcStack : ℤ) (c : CallCtx) : Thread :=
  let i := ctxPage t.width rpcStack
  { t with page := Function.update t.page i { t.page i with ctx := c } }

def regsPage (t : Thread) : ℤ := pageOf (t.regs - sizeofRegs)

def setRegs (t : Thread) (r : Regs) : Thread :=
  { t with page := Function.update t.page (regsPage t) { t.page (regsPage t) with regs := r } }

def getRegs (t : Thread) : Regs := (t.page (regsPage t)).regs

def setRetFast (t : Thread) (a : SysRet) : Thread := setRegs t { getRegs t with args := a }

def setStackFast (t : Thread) (sp : ℤ) : Thread := setRegs t { getRegs t with sp := sp }

def setArgs1 (t : Thread) (s : ℤ) : Thread :=
  setRetFast t { (getRegs t).args with s := s, id := 0 }

def rpcStackEmpty (addr : ℤ) : Bool := addr = rpcStackTop

def isRpc (t : Thread) : Bool := !rpcStackEmpty t.rpcStack

def rpcPosition (t : Thread) : ℤ := rpcStackBase + basePageSize * t.rpcIdx

def inRpcStack (t : Thread) (addr : ℤ) : Bool :=
  rpcStackBase ≤ addr && addr < rpcStackBase + basePageSize * t.rpcIdx

def isProc (r : Proc) : Bool := r.rid = r.tid && !r.orphan

def zombie (r : Proc) : Bool := r.rid = 0

def usable (procs : Procs) (pid : ℤ) : Bool :=
  match procs pid with
  | none => false
  | some r => isProc r && !zombie r

/-- The loop of `reuse_rpc` and `new_rpc`, which goes down. -/
def clearDown : ℕ → (ℤ → Bool) → ℤ → Option ((ℤ → Bool) × ℤ)
  | 0, _, _ => none
  | fuel + 1, user, idx =>
    if idx < rpcPages - 1 then
      if idx < 0 then none
      else if user idx then clearDown fuel (Function.update user idx false) (idx - 1)
      else some (user, idx)
    else some (user, idx)

/-- The first loop of `destroy_rpc`, which goes up. -/
def clearUp : ℕ → (ℤ → Bool) → ℤ → Option ((ℤ → Bool) × ℤ)
  | 0, _, _ => none
  | fuel + 1, user, idx =>
    if idx < rpcPages - 1 then
      if idx < 0 then none
      else if user idx then clearUp fuel (Function.update user idx false) (idx + 1)
      else some (user, idx)
    else some (user, idx)

def setRange (user : ℤ → Bool) (first stop : ℤ) : ℤ → Bool :=
  fun i => if first ≤ i ∧ i < stop then true else user i

def reuseRpc (t : Thread) : Option Thread := do
  let (user, topIdx) ← clearDown 513 t.user t.rpcIdx
  some { t with rpcIdx := topIdx + 1, user := Function.update user (topIdx + 1) true }

def newRpc (t : Thread) : Option Thread := do
  let (user, _) ← clearDown 513 t.user t.rpcIdx
  some { t with rpcIdx := t.rpcIdx - 2, user := Function.update user (t.rpcIdx - 2) true }

def destroyRpc (t : Thread) : Option Thread := do
  let (user, topIdx) ← clearUp 513 t.user t.rpcIdx
  let ctx := (t.rpcStack - rpcStackBase) / basePageSize
  some { t with rpcIdx := ctx - 2, user := setRange user (topIdx + 1) (ctx - 1) }

def growRpc (t : Thread) (top : ℤ) : Option Thread :=
  let bottomIdx := pageOf top
  if top % basePageSize = 0 ∧ bottomIdx ≤ t.rpcIdx then
    some { t with rpcIdx := bottomIdx, user := setRange t.user bottomIdx t.rpcIdx }
  else none

/-- The part of `handle_pagefault` that concerns the RPC stack. -/
def handlePagefault (t : Thread) (addr : ℤ) : Option Thread :=
  if inRpcStack t addr then growRpc t (addr - addr % basePageSize) else some t

def enterRpc (t : Thread) (r : Proc) (a : SysRet) (flags : IpcFlags) : Option Thread := do
  let rpcStack := if flags.tail && isRpc t then t.rpcStack else rpcPosition t
  let t := { t with regs := rpcStack - sizeofCallCtx t.width }
  let t := setRetFast t a
  let t ← if flags.tail then reuseRpc t
    else
      let t := { setCtx t rpcStack ⟨t.exec, t.rpcStack, t.eid, t.pid, flags.notify⟩ with
        rpcStack := rpcStack }
      newRpc t
  let t := setStackFast t (rpcStack - basePageSize)
  some { t with
    eid := if flags.forward then t.eid else t.pid
    exec := r.callback
    pid := r.rid }

def enoughRpcStack (t : Thread) : Bool :=
  rpcPosition t - basePageSize - rpcStackSize ≥ rpcStackBase

/-- The loop of `leave_rpc` past processes that are gone. -/
def unwind (procs : Procs) : ℕ → Thread → CallCtx → Option (Thread × CallCtx)
  | 0, _, _ => none
  | fuel + 1, t, ctx =>
    if usable procs ctx.pid then some (t, ctx)
    else if rpcStackEmpty ctx.rpcStack then some ({ t with orphan := true }, ctx)
    else
      let ctx := ctxAt t ctx.rpcStack
      let t := { t with regs := ctx.rpcStack - sizeofCallCtx t.width }
      let t := if ctx.notify then t else setArgs1 t ERR_NF
      unwind procs fuel t ctx

/-- The caller has checked that the thread is in an RPC, so the branch that gives
an orphan to init is never taken from here. -/
def leaveRpc (procs : Procs) (t : Thread) (a : SysRet) : Option Thread := do
  let ctx := ctxAt t t.rpcStack
  let t := { t with regs := ctx.rpcStack - sizeofCallCtx t.width }
  let t := if ctx.notify then t else setRetFast t a
  let (t, ctx) ← unwind procs 513 t ctx
  if t.orphan && !isRpc t then none
  else
    let t ← destroyRpc { t with exec := ctx.exec, rpcStack := ctx.rpcStack }
    some { t with pid := ctx.pid, eid := ctx.eid }

def doIpc (procs : Procs) (t : Thread) (pid d0 d1 d2 d3 : ℤ) (flags : IpcFlags) : Option Thread :=
  if !flags.tail && !enoughRpcStack t then some (setArgs1 t ERR_OOMEM)
  else
    match procs pid with
    | none => some (setArgs1 t ERR_INVAL)
    | some r =>
      if isProc r && !zombie r then
        enterRpc t r ⟨if flags.forward then t.eid else t.pid, t.tid, d0, d1, d2, d3⟩ flags
      else some (setArgs1 t ERR_INVAL)

inductive Call where
  | req
  | fwd
  | tail
  | kick
deriving DecidableEq, Repr

def Call.flags (t : Thread) : Call → IpcFlags
  | .req => ⟨false, false, false⟩
  | .fwd => ⟨false, isRpc t, false⟩
  | .tail => ⟨isRpc t, false, false⟩
  | .kick => ⟨isRpc t, isRpc t, false⟩

def sysIpc (procs : Procs) (t : Thread) (c : Call) (pid d0 d1 d2 d3 : ℤ) : Option Thread :=
  doIpc procs t pid d0 d1 d2 d3 (c.flags t)

def sysIpcResp (procs : Procs) (t : Thread) (d0 d1 d2 d3 : ℤ) : Option Thread :=
  if isRpc t then leaveRpc procs t ⟨OK, t.pid, d0, d1, d2, d3⟩ else some (setArgs1 t ERR_MISC)

structure Fresh (t : Thread) : Prop where
  rpcStack : t.rpcStack = rpcStackTop
  rpcIdx : t.rpcIdx = rpcPages - 1
  regs : t.regs = rpcStackTop - sizeofCallCtx t.width
  user : ∀ i, t.user i = false

/-- User code runs until it traps: it has written the pages it can reach, and the
trap saves its registers and where it stopped. -/
def userRun (t : Thread) (exec : ℤ) (regs : Regs) (page : ℤ → StackPage) : Thread :=
  setRegs { t with exec := exec, page := fun i => if t.user i then page i else t.page i } regs

inductive Event where
  | user (exec : ℤ) (regs : Regs) (page : ℤ → StackPage)
  | fault (addr : ℤ)
  | ipc (c : Call) (pid d0 d1 d2 d3 : ℤ)
  | resp (d0 d1 d2 d3 : ℤ)

def step (procs : Procs) (t : Thread) : Event → Option Thread
  | .user exec regs page => some (userRun t exec regs page)
  | .fault addr => handlePagefault t addr
  | .ipc c pid d0 d1 d2 d3 => sysIpc procs t c pid d0 d1 d2 d3
  | .resp d0 d1 d2 d3 => sysIpcResp procs t d0 d1 d2 d3

end Kmi.Rpc
