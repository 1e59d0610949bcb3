import Kmi.Vmem.Levels
import Kmi.Vmem.Threads

/-! The running system with its references and with what the pages are handed out for. A
memory is destroyed page by page as `src/arch/riscv64/kernel/vmem.c` does it; that its
entries for pages are cleared first is kept for `exec` only, since the tables they are in
are freed in the same call. -/

namespace Kmi.Vmem

open Kmi.Mem

/-- What a page is handed out for: a table of a process, or of the RPC stack of a thread. -/
inductive Holder where
  | proc (pid : ℕ)
  | stack (tid : ℕ)
deriving DecidableEq

structure Machine where
  sys : System
  refcount : ℕ → ℤ
  -- the tables that are handed out, and for what
  owner : ℕ → Option Holder

def destroyBranch (low : ℕ → Table) : ℕ → ℕ → Option (List ℕ)
  | 0, _ => none
  | fuel + 1, a => do
    let below ← (List.range 512).mapM fun i =>
      if isBranch (low a i) then destroyBranch low fuel (pteAddr (low a i)) else some []
    some (below.flatten ++ [a])

/-- The loop of `destroy_vmem` and `destroy_rpcmem` from an entry on. -/
def destroyEntries (m : Space) (first : ℕ) : Option (List ℕ) := do
  let freed ← (List.range' first (KERNEL_PAGE - first)).mapM fun i =>
    if isBranch (m.root i) then destroyBranch m.low (maxOrder + 1) (pteAddr (m.root i)) else some []
  some freed.flatten

def destroyVmem (m : Space) : Option (List ℕ) := destroyEntries m 0

def destroyRpcmem (m : Space) : Option (List ℕ) := destroyEntries m CSTACK_PAGE

def handOut (owner : ℕ → Option Holder) (h : Holder) (tables : List (ℕ × ℕ)) : ℕ → Option Holder :=
  fun a => if a ∈ tables.map Prod.fst then some h else owner a

def giveBack (owner : ℕ → Option Holder) (freed : List ℕ) : ℕ → Option Holder :=
  fun a => if a ∈ freed then none else owner a

def PageCall.tables (m : Space) : PageCall → List (ℕ × ℕ)
  | .map _ vaddr _ order pages => mapTables vaddr (maxOrder - order) maxOrder none pages m
  | .unmap _ => []

def sectionTables : Space → List Mapping → List (ℕ × ℕ)
  | _, [] => []
  | m, x :: xs =>
    mapTables x.vaddr maxOrder maxOrder none x.pages m ++
      match mapVpage m x.paddr x.vaddr x.flags 0 x.pages with
      | (m, res) => if res = OK then sectionTables m xs else []

def alive (s : System) (tid : ℕ) : Bool :=
  match s.tcbs tid with
  | none => false
  | some t => !zombie t

def Machine.reference (s : Machine) (tid : ℕ) : Machine :=
  { s with refcount := Function.update s.refcount tid (s.refcount tid + 1) }

def destroyThreadData (s : Machine) (t : Tcb) : Option Machine :=
  if zombie t then do
    let sys := { s.sys with tcbs := Function.update s.sys.tcbs t.tid none }
    match t.proc with
    | none => some { s with sys := sys }
    | some proc => do
      let freed ← destroyVmem ⟨proc, s.sys.low⟩
      some { s with sys := sys, owner := giveBack s.owner freed }
  else none

def unreferenceThread (s : Machine) (tid : ℕ) : Option Machine :=
  match s.sys.tcbs tid with
  | none => some s
  | some t =>
    let n := s.refcount tid - 1
    let s := { s with refcount := Function.update s.refcount tid n }
    if n = 0 then destroyThreadData s t else if n < 0 then none else some s

def unreferenceRoot (s : Machine) (t : Tcb) : Option Machine :=
  if t.rid = t.tid then some s else unreferenceThread s t.rid

def destroyThread (s : Machine) (t : Tcb) : Option Machine :=
  if t.tid = 1 then none
  else do
    let s ← unreferenceRoot s t
    let freed ← destroyRpcmem ⟨t.rpc, s.sys.low⟩
    let s := { s with sys := s.sys.setTcb t.tid { t with rid := 0 }, owner := giveBack s.owner freed }
    unreferenceThread s t.tid

def answers (tcbs : ℕ → Option Tcb) (t : Tcb) (c : Rpc.Call) (pid : ℕ) (room : Bool) : Bool :=
  ((ipcFlags (isRpc t) c).tail || room) && usable tcbs pid

/-- An `exec` of a process that holds all references to itself. -/
def Machine.exec (s : Machine) (pid : ℕ) (t : Tcb) (proc : Table) (image : Image) : Option Machine := do
  let new := (mapSections ⟨createVmem s.sys.kvmem, s.sys.low⟩ image.sections).1
  let owner := handOut s.owner (.proc pid) (sectionTables ⟨createVmem s.sys.kvmem, s.sys.low⟩ image.sections)
  let sys := s.sys.setProc pid t (mapExec s.sys.kvmem ⟨proc, s.sys.low⟩ image)
  if image.loads s.sys.kvmem s.sys.low then
    let freed ← destroyVmem (unmapAll ⟨proc, new.low⟩ image.mapped)
    some { s with sys := sys, owner := giveBack owner freed }
  else
    let freed ← destroyVmem (unmapAll new image.mapped)
    some { s with sys := sys, owner := giveBack owner freed }

inductive MachineEvent where
  | call (e : Event)
  | exit (tid : ℕ)
  | share (pid : ℕ)
  | unshare (pid : ℕ)

def Machine.call (s : Machine) : Event → Option Machine
  | .ipc tid c pid room => do
    let t ← s.sys.tcbs tid
    let sys ← step s.sys (.ipc tid c pid room)
    let s' := { s with sys := sys }
    if zombie t then none
    else if answers s.sys.tcbs t c pid room then some (s'.reference pid) else some s'
  | .resp tid => do
    let t ← s.sys.tcbs tid
    if zombie t then none
    else if isRpc t then do
      let s ← unreferenceThread s t.pid
      let t ← leaveRpc s.sys.tcbs t
      some { s with sys := s.sys.setTcb tid t }
    else some s
  | .swap tid => do
    let t ← s.sys.tcbs tid
    let sys ← step s.sys (.swap tid)
    let s' := { s with sys := sys }
    if zombie t then none
    else if !isRpc t && t.orphan then some (s'.reference 1) else some s'
  | .page pid c => do
    let t ← s.sys.tcbs pid
    let proc ← t.proc
    let sys ← step s.sys (.page pid c)
    some { s with sys := sys, owner := handOut s.owner (.proc pid) (c.tables ⟨proc, s.sys.low⟩) }
  | .exec pid image => do
    let t ← s.sys.tcbs pid
    let proc ← t.proc
    if isProc t && s.refcount pid = 1 then s.exec pid t proc image else some s
  | .create tid new page pages => do
    let t ← s.sys.tcbs tid
    let sys ← step s.sys (.create tid new page pages)
    let s' := { s with
      sys := sys
      refcount := Function.update s.refcount new 1
      owner := handOut s.owner (.stack new)
        (mapTables RPC_STACK_BASE maxOrder maxOrder none pages ⟨createVmem s.sys.kvmem, s.sys.low⟩) }
    if zombie t then none else some (s'.reference t.eid)
  | .createProc new page pages => do
    let sys ← step s.sys (.createProc new page pages)
    some { s with
      sys := sys
      refcount := Function.update s.refcount new 1
      owner := handOut s.owner (.stack new)
        (mapTables RPC_STACK_BASE maxOrder maxOrder none pages ⟨createVmem s.sys.kvmem, s.sys.low⟩) }
  | .fault tid => do
    let sys ← step s.sys (.fault tid)
    if alive s.sys tid then some { s with sys := sys } else none
  | .detach tid => do
    let sys ← step s.sys (.detach tid)
    some { s with sys := sys }

def Machine.step (s : Machine) : MachineEvent → Option Machine
  | .call e => s.call e
  | .exit tid => do
    let t ← s.sys.tcbs tid
    if zombie t then none else destroyThread s t
  | .share pid => if (s.sys.tcbs pid).isSome then some (s.reference pid) else none
  | .unshare pid => unreferenceThread s pid

def initMachine (kvmem : ℕ) (low : ℕ → Table) : Machine := ⟨initTcbs kvmem low, fun _ => 0, fun _ => none⟩

end Kmi.Vmem
