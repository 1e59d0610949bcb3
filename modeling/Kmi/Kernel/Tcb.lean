import Kmi.Rpc.Machine

/-! What the kernel keeps of a thread, with the capabilities and notifications that go with it. -/

namespace Kmi.Kernel

def ERR_PERM : ℤ := -10

def ERR_EXT : ℤ := -5

def ERR_ADDR : ℤ := -3

def CAP_CAPS : BitVec 32 := 1

def CAP_PROC : BitVec 32 := 2

def CAP_NOTIFY : BitVec 32 := 4

def CAP_POWER : BitVec 32 := 8

def CAP_CONF : BitVec 32 := 16

def CAP_IRQ : BitVec 32 := 32

def CAP_SIGNAL : BitVec 32 := 64

def CAP_SHARED : BitVec 32 := 128

def NOTIFY_SIGNAL : BitVec 32 := 1

def NOTIFY_TIMER : BitVec 32 := 2

def NOTIFY_IRQ : BitVec 32 := 4

def NOTIFY_ORPHANED : BitVec 32 := 8

def SYS_USER_ORPHANED : ℤ := 1

def SYS_USER_SPAWNED : ℤ := 2

def isSet (x y : BitVec 32) : Bool := x &&& y ≠ 0

/-- Where the pages of a region come from: they are its own, there are none that it has to
give back, or they are those of the process `pid`, which has a region at this address or not. -/
inductive Backing where
  | own
  | nonbacked
  | shared (pid : ℤ) (known : Bool)
deriving DecidableEq, Repr

/-- A used region as `copy_uvmem` meets it: the nodes that it splits off in the copy, where
there is a place for it; the tables that the copy needs for each of its pages, up to the first
that cannot be copied; and whether all of them can. -/
structure Area where
  backing : Backing
  nodes : Option ℕ
  tables : List ℕ
  whole : Bool
deriving DecidableEq, Repr

/-- What a thread's page holds. The bit TCB_ORPHAN is in `thread`, TCB_ZOMBIE is `dead`.
`copied` records the regions that `copy_uvmem` has given it. -/
structure Tcb where
  thread : Rpc.Thread
  rid : ℤ
  callback : ℤ
  refcount : ℤ
  cpuId : ℤ
  notifyId : ℤ
  notifyFlags : BitVec 32
  caps : BitVec 32
  dead : Bool
  procVmem : Option ℕ
  region : Option ℕ
  rpcVmem : Option ℕ
  rpcPage : Option ℕ
  rpcTables : List ℕ
  copied : List Area

def emptyPage : Rpc.StackPage := ⟨⟨0, 0, 0, 0, false⟩, ⟨⟨0, 0, 0, 0, 0, 0⟩, 0⟩⟩

def zeroTcb (w : Rpc.IdWidth) : Tcb where
  thread := ⟨w, 0, 0, 0, 0, 0, 0, 0, false, fun _ => false, fun _ => emptyPage⟩
  rid := 0
  callback := 0
  refcount := 0
  cpuId := 0
  notifyId := 0
  notifyFlags := 0
  caps := 0
  dead := false
  procVmem := none
  region := none
  rpcVmem := none
  rpcPage := none
  rpcTables := []
  copied := []

def numTcbs : ℤ := 2 ^ 18

def Tcb.orphan (t : Tcb) : Bool := t.thread.orphan

/-- `zombie()`, which looks at the root process and not at the state. -/
def Tcb.zombie (t : Tcb) : Bool := t.rid = 0

def Tcb.isProc (t : Tcb) : Bool := t.rid = t.thread.tid && !t.orphan

def Tcb.hasState (t : Tcb) : Bool := t.dead || t.orphan

def Tcb.proc (t : Tcb) : Rpc.Proc := ⟨t.thread.tid, t.rid, t.callback, t.orphan⟩

end Kmi.Kernel
