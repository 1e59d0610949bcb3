import Kmi.Vmem.Model
import Kmi.Rpc.Model

/-! The address spaces of a running system: a process owns a table, a thread runs
on a table of its own that `clone_uvmem` fills from a process. Of the calls of
`src/uapi` only what they do to these tables and to the ids of a thread is kept;
where the kernel would stop or touch memory that is not its own there is no result. -/

namespace Kmi.Vmem

open Kmi.Mem

structure Frame where
  pid : ℕ
  eid : ℕ

structure Tcb where
  tid : ℕ
  pid : ℕ
  eid : ℕ
  rid : ℕ
  orphan : Bool
  proc : Option Table
  rpc : Table
  frames : List Frame
  -- `reset_rpc_stack` has moved `rpc_stack` off its empty position
  rehomed : Bool

structure System where
  kvmem : ℕ
  low : ℕ → Table
  tcbs : ℕ → Option Tcb

def isProc (t : Tcb) : Bool := t.rid = t.tid && !t.orphan

def zombie (t : Tcb) : Bool := t.rid = 0

def isRpc (t : Tcb) : Bool := t.rehomed || !t.frames.isEmpty

def usable (tcbs : ℕ → Option Tcb) (pid : ℕ) : Bool :=
  match tcbs pid with
  | none => false
  | some r => isProc r && !zombie r

/-- The flags the four call handlers give to `do_ipc`. -/
def ipcFlags (rpc : Bool) : Rpc.Call → Rpc.IpcFlags
  | .req => ⟨false, false, false⟩
  | .fwd => ⟨false, rpc, false⟩
  | .tail => ⟨rpc, false, false⟩
  | .kick => ⟨rpc, rpc, false⟩

def enterRpc (t r : Tcb) (flags : Rpc.IpcFlags) : Option Tcb := do
  let proc ← r.proc
  -- a tail call without a frame to reuse writes its registers outside the stack
  let frames ←
    if flags.tail then if t.frames.isEmpty then none else some t.frames
    else some (⟨t.pid, t.eid⟩ :: t.frames)
  some { t with
    frames := frames
    rpc := cloneUvmem proc t.rpc
    eid := if flags.forward then t.eid else t.pid
    pid := r.rid }

def doIpc (tcbs : ℕ → Option Tcb) (t : Tcb) (pid : ℕ) (room : Bool) (flags : Rpc.IpcFlags) :
    Option Tcb :=
  if !flags.tail && !room then some t
  else
    match tcbs pid with
    | none => some t
    | some r => if isProc r && !zombie r then enterRpc t r flags else some t

/-- The loop of `leave_rpc`: the frame it stops at, those below, and whether the
thread has lost its root process. -/
def unwind (tcbs : ℕ → Option Tcb) (rehomed : Bool) : List Frame → Option (Frame × List Frame × Bool)
  | [] => none
  | ctx :: rest =>
    if usable tcbs ctx.pid then some (ctx, rest, false)
    else if rest.isEmpty && !rehomed then some (ctx, rest, true)
    else unwind tcbs rehomed rest

def leaveRpc (tcbs : ℕ → Option Tcb) (t : Tcb) : Option Tcb := do
  let (ctx, rest, orphaned) ← unwind tcbs t.rehomed t.frames
  some { t with frames := rest, orphan := t.orphan || orphaned, pid := ctx.pid, eid := ctx.eid }

def ipcResp (tcbs : ℕ → Option Tcb) (t : Tcb) : Option Tcb :=
  if isRpc t then leaveRpc tcbs t else some t

def procOf (tcbs : ℕ → Option Tcb) (pid : ℕ) : Option Table := do
  let p ← tcbs pid
  p.proc

def handlePagefault (tcbs : ℕ → Option Tcb) (t : Tcb) : Option Tcb := do
  let proc ← procOf tcbs t.pid
  some { t with rpc := cloneUvmem proc t.rpc }

def unorphanize (tcbs : ℕ → Option Tcb) (t : Tcb) : Option Tcb := do
  let init ← procOf tcbs 1
  some { t with
    rid := 1
    pid := 1
    eid := 1
    frames := []
    rehomed := true
    rpc := cloneUvmem init t.rpc }

def swap (tcbs : ℕ → Option Tcb) (t : Tcb) : Option Tcb :=
  if !isRpc t && t.orphan then unorphanize tcbs t else some t

inductive PageCall where
  | map (paddr vaddr flags order : ℕ) (pages : Pages)
  | unmap (vaddr : ℕ)

def PageCall.run (m : Space) : PageCall → Space
  | .map paddr vaddr flags order pages => (mapVpage m paddr vaddr flags order pages).1
  | .unmap vaddr => (unmapVpage m vaddr).1

def unmapAll (m : Space) (vaddrs : List ℕ) : Space :=
  vaddrs.foldl (fun m v => (unmapVpage m v).1) m

structure Mapping where
  paddr : ℕ
  vaddr : ℕ
  flags : ℕ
  pages : Pages

def mapSections : Space → List Mapping → Space × Bool
  | m, [] => (m, true)
  | m, x :: xs =>
    match mapVpage m x.paddr x.vaddr x.flags 0 x.pages with
    | (m, res) => if res = OK then mapSections m xs else (m, false)

/-- The program of an `exec`: what it maps, whether all its sections could be read and
given a region, and the addresses that are unmapped when a memory is destroyed. -/
structure Image where
  sections : List Mapping
  complete : Bool
  mapped : List ℕ

def Image.loads (kvmem : ℕ) (low : ℕ → Table) (image : Image) : Bool :=
  image.complete && (mapSections ⟨createVmem kvmem, low⟩ image.sections).2

def mapExec (kvmem : ℕ) (old : Space) (image : Image) : Space :=
  let new := (mapSections ⟨createVmem kvmem, old.low⟩ image.sections).1
  if image.loads kvmem old.low then
    ⟨new.root, (unmapAll ⟨old.root, new.low⟩ image.mapped).low⟩
  else ⟨old.root, (unmapAll new image.mapped).low⟩

def rpcStackFlags : ℕ := VM_V ||| VM_R ||| VM_W ||| VM_A ||| VM_D

def setupRpcStack (m : Space) (page : ℕ) (pages : Pages) : Option Space :=
  match mapVpage m page RPC_STACK_BASE rpcStackFlags 0 pages with
  | (m, res) =>
    if res = OK then
      match findVmem m RPC_STACK_BASE maxOrder none with
      | some (some a, _, _) =>
        some { m with low := Function.update m.low a fun i =>
          if i < 512 then toPte (pa (page + i * basePageSize)) (vpFlags rpcStackFlags) else m.low a i }
      | _ => none
    else none

def createThread (s : System) (tid rid page : ℕ) (proc : Option Table) (pages : Pages) :
    Option System := do
  let m ← setupRpcStack ⟨createVmem s.kvmem, s.low⟩ page pages
  let t : Tcb := ⟨tid, rid, rid, rid, false, proc, m.root, [], false⟩
  let tcbs := Function.update s.tcbs tid (some t)
  let parent ← procOf tcbs rid
  let t := { t with rpc := cloneUvmem parent t.rpc }
  some { s with low := m.low, tcbs := Function.update tcbs tid (some t) }

inductive Event where
  | ipc (tid : ℕ) (c : Rpc.Call) (pid : ℕ) (room : Bool)
  | resp (tid : ℕ)
  | fault (tid : ℕ)
  | swap (tid : ℕ)
  | detach (tid : ℕ)
  | page (pid : ℕ) (c : PageCall)
  | exec (pid : ℕ) (image : Image)
  | create (tid new page : ℕ) (pages : Pages)
  | createProc (new page : ℕ) (pages : Pages)

def System.setTcb (s : System) (tid : ℕ) (t : Tcb) : System :=
  { s with tcbs := Function.update s.tcbs tid (some t) }

def System.setProc (s : System) (pid : ℕ) (t : Tcb) (m : Space) : System :=
  { s.setTcb pid { t with proc := some m.root } with low := m.low }

/-- A fork is a `createProc` and the pages it copies, a spawn a `createProc` and an
`exec`; `exec` is allowed here whatever the reference count is. -/
def step (s : System) : Event → Option System
  | .ipc tid c pid room => do
    let t ← s.tcbs tid
    let t ← doIpc s.tcbs t pid room (ipcFlags (isRpc t) c)
    some (s.setTcb tid t)
  | .resp tid => do
    let t ← s.tcbs tid
    let t ← ipcResp s.tcbs t
    some (s.setTcb tid t)
  | .fault tid => do
    let t ← s.tcbs tid
    let t ← handlePagefault s.tcbs t
    some (s.setTcb tid t)
  | .swap tid => do
    let t ← s.tcbs tid
    let t ← swap s.tcbs t
    some (s.setTcb tid t)
  | .detach tid => do
    let t ← s.tcbs tid
    some (s.setTcb tid { t with orphan := true })
  | .page pid c => do
    let t ← s.tcbs pid
    let proc ← t.proc
    some (s.setProc pid t (c.run ⟨proc, s.low⟩))
  | .exec pid image => do
    let t ← s.tcbs pid
    let proc ← t.proc
    if isProc t then some (s.setProc pid t (mapExec s.kvmem ⟨proc, s.low⟩ image)) else some s
  | .create tid new page pages => do
    let t ← s.tcbs tid
    let e ← s.tcbs t.eid
    if (s.tcbs new).isNone then createThread s new e.rid page none pages else none
  | .createProc new page pages =>
    if (s.tcbs new).isNone then createThread s new new page (some (createVmem s.kvmem)) pages
    else none

/-- The thread table as `init_tcbs` leaves it. -/
def initTcbs (kvmem : ℕ) (low : ℕ → Table) : System := ⟨kvmem, low, fun _ => none⟩

end Kmi.Vmem
