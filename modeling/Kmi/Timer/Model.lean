import Kmi.Regions.Model

/-! The timers of one CPU, from `src/timer.c`. A timer is the slot of its
`struct timer_node`. Which free slot `get_node` hands out, and whether its page is new
and therefore cleared, is up to the caller here. -/

namespace Kmi.Timer

open Kmi.Library.PointerTree Kmi.SpTree Kmi.Mem Kmi.Regions

abbrev Ticks := BitVec 64

structure TimerData where
  tid : ℕ
  cid : ℤ
  ticks : Ticks

/-- The slots in `pending` are those in use; `armed` records the last `set_timer`. -/
structure Timers where
  heap : SpHeap
  root : Option ℕ
  timer : ℕ → TimerData
  pending : List ℕ
  armed : Option Ticks

def Timers.cids (s : Timers) (n : ℕ) : ℤ := (s.timer n).cid

/-- Conversion to `id_t`, a signed integer of `w` bits. -/
def idOf (w : ℕ) (ticks : Ticks) : ℤ := (ticks.setWidth w).toInt

def next (w : ℕ) (cid : ℤ) : Option ℤ := if cid + 1 < 2 ^ (w - 1) then some (cid + 1) else none

def getNode (s : Timers) (ti : ℕ) (fresh : Bool) : Option Timers :=
  if ti ∈ s.pending then none
  else some { s with
    heap := if fresh then clearNode s.heap ti else s.heap
    pending := ti :: s.pending }

/-- The loop of `__insert_timer`. The walk may meet the new node itself. -/
def place (w : ℕ) (cids : ℕ → ℤ) (m : Links ℕ) (ti : ℕ) :
    ℕ → Option ℕ → ℤ → Option ℕ → SpDir → Option (Option ℕ × SpDir × ℤ)
  | _, none, cid, p, d => some (p, d, cid)
  | 0, some _, _, _, _ => none
  | fuel + 1, some n, cid, _, _ => do
    let cid ← if cid = (if n = ti then cid else cids n) then next w cid else some cid
    if cid < (if n = ti then cid else cids n) then
      place w cids m ti fuel (m.left n) cid (some n) .left
    else
      place w cids m ti fuel (m.right n) cid (some n) .right

def insertTimer (w fuel : ℕ) (s : Timers) (ti : ℕ) : Option (Timers × ℤ) := do
  let (p, d, cid) ← place w s.cids s.heap.links ti fuel s.root (s.cids ti) none .left
  let (root, heap) ← spInsert fuel s.root s.heap p ti d
  some ({ s with
    root := root
    heap := heap
    timer := Function.update s.timer ti { s.timer ti with cid := cid } }, cid)

def newTimer (w fuel : ℕ) (s : Timers) (ti : ℕ) (fresh : Bool) (tid : ℕ) (ticks : Ticks) :
    Option (Timers × ℤ) := do
  let s ← getNode s ti fresh
  insertTimer w fuel { s with timer := Function.update s.timer ti ⟨tid, idOf w ticks, ticks⟩ } ti

def newAbsTimer (w fuel : ℕ) (s : Timers) (ti : ℕ) (fresh : Bool) (tid : ℕ) (ticks : Ticks) :
    Option (Timers × ℤ) := do
  let (s, id) ← newTimer w fuel s ti fresh tid ticks
  some ({ s with armed := some ticks }, id)

def newRelTimer (w fuel : ℕ) (s : Timers) (ti : ℕ) (fresh : Bool) (tid : ℕ)
    (ticks currentTicks : Ticks) : Option (Timers × ℤ) :=
  newAbsTimer w fuel s ti fresh tid (ticks + currentTicks)

/-- `sp_first` reads through the root, which must not be null. -/
def newestTimer (fuel : ℕ) (s : Timers) : Option ℕ := do
  let root ← s.root
  spFirst fuel s.heap.links root

def findTimer (s : Timers) (cid : ℤ) : ℕ → Option ℕ → Option (Option ℕ)
  | _, none => some none
  | 0, some _ => none
  | fuel + 1, some n =>
    if (s.timer n).cid = cid then some (some n)
    else if (s.timer n).cid < cid then findTimer s cid fuel (s.heap.links.left n)
    else findTimer s cid fuel (s.heap.links.right n)

def removeTimer (fuel : ℕ) (s : Timers) (n : ℕ) : Option Timers := do
  let (root, heap) ← spRemove fuel s.root s.heap n
  some { s with root := root, heap := heap, pending := s.pending.erase n }

def sysFreeTimer (fuel : ℕ) (s : Timers) (cid : ℤ) : Option (Timers × ℤ) := do
  let found ← findTimer s cid fuel s.root
  match found with
  | none => some (s, ERR_NF)
  | some n => do
    let s ← removeTimer fuel s n
    some (s, OK)

def handleTimer (fuel : ℕ) (s : Timers) : Option (Timers × ℕ) := do
  let n ← newestTimer fuel s
  let tid := (s.timer n).tid
  let s ← removeTimer fuel s n
  some (s, tid)

inductive Event where
  | newAbs (ti : ℕ) (fresh : Bool) (tid : ℕ) (ticks : Ticks)
  | newRel (ti : ℕ) (fresh : Bool) (tid : ℕ) (ticks currentTicks : Ticks)
  | free (cid : ℤ)
  | handle

/-- With `oneShot` the interrupt that `handle_timer` serves has used up the deadline. -/
def step (w : ℕ) (oneShot : Bool) (fuel : ℕ) (s : Timers) : Event → Option Timers
  | .newAbs ti fresh tid ticks => (newAbsTimer w fuel s ti fresh tid ticks).map Prod.fst
  | .newRel ti fresh tid ticks now => (newRelTimer w fuel s ti fresh tid ticks now).map Prod.fst
  | .free cid => (sysFreeTimer fuel s cid).map Prod.fst
  | .handle => do
    let (s, _) ← handleTimer fuel s
    some (if oneShot then { s with armed := none } else s)

/-- The tree of `cpu_timers` and the node pages are zeroed at boot. -/
def initial (timer : ℕ → TimerData) : Timers :=
  ⟨⟨⟨fun _ => none, fun _ => none, fun _ => none⟩, fun _ => 0⟩, none, timer, [], none⟩

inductive Reached (w : ℕ) (oneShot : Bool) (ok : Timers → Event → Prop) : Timers → Prop where
  | initial (timer : ℕ → TimerData) : Reached w oneShot ok (initial timer)
  | step {s s' : Timers} {e : Event} (fuel : ℕ) : Reached w oneShot ok s → ok s e →
      step w oneShot fuel s e = some s' → Reached w oneShot ok s'

end Kmi.Timer
