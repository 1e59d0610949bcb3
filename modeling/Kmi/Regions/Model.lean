import Kmi.Mem
import Kmi.Library.LinkedList
import Kmi.SpTree.Model

/-! The memory regions of `src/regions.c`. A region is the address of its node, and
addresses inside regions count pages. Which free slot the node allocator hands out
is up to the caller here; without one it hands out a null pointer. -/

namespace Kmi.Regions

open Kmi.Library.LinkedList Kmi.Library.PointerTree Kmi.SpTree Kmi.Mem

abbrev Flags := BitVec 64

def MR_USED : Flags := 1 <<< 8

/-- The fields of `struct mem_region` that are no links; `shaddr` shares the place of
`refcount`. -/
structure Region where
  stop : ℕ
  start : ℕ
  pid : ℕ
  refcount : ℕ
  flags : Flags

def Region.size (g : Region) : ℕ := g.stop - g.start

def Region.used (g : Region) : Bool := g.flags &&& MR_USED ≠ 0

structure RegionMap where
  heap : SpHeap
  list : Chain ℕ
  region : ℕ → Region
  taken : ℕ → Bool
  usedNodes : ℕ
  reserved : ℕ
  start : ℕ
  stop : ℕ
  freeRegions : Option ℕ
  usedRegions : Option ℕ

def page (addr : ℕ) : ℕ := addr / basePageSize

def RegionMap.setRegion (m : RegionMap) (x : ℕ) (g : Region) : RegionMap :=
  { m with region := Function.update m.region x g }

def RegionMap.fuel (m : RegionMap) : ℕ := m.usedNodes + 2

def clearNode (h : SpHeap) (x : ℕ) : SpHeap :=
  ⟨((h.links.setLeft x none).setRight x none).setParent x none, Function.update h.hint x 0⟩

def getMemNode (m : RegionMap) (x : ℕ) : Option RegionMap :=
  if m.taken x then none
  else some { m with
    heap := clearNode m.heap x
    list := (m.list.setNext (some x) none).setPrev (some x) none
    region := Function.update m.region x ⟨0, 0, 0, 0, 0⟩
    taken := Function.update m.taken x true
    usedNodes := m.usedNodes + 1 }

def freeMemNode (m : RegionMap) (x : ℕ) : RegionMap :=
  { m with taken := Function.update m.taken x false, usedNodes := m.usedNodes - 1 }

def descend : ℕ → Links ℕ → (ℕ → Bool) → Option ℕ → Option ℕ → SpDir → Option (Option ℕ × SpDir)
  | _, _, _, none, p, d => some (p, d)
  | 0, _, _, some _, _, _ => none
  | fuel + 1, links, goLeft, some n, _, _ =>
    if goLeft n then descend fuel links goLeft (links.left n) (some n) .left
    else descend fuel links goLeft (links.right n) (some n) .right

def insertRegion (m : RegionMap) (goLeft : ℕ → Bool) (root : Option ℕ) (x : ℕ) :
    Option (Option ℕ × SpHeap) := do
  let heap := clearNode m.heap x
  let (p, d) ← descend m.fuel heap.links goLeft root none .left
  spInsert m.fuel root heap p x d

def freeGoLeft (m : RegionMap) (x t : ℕ) : Bool :=
  if (m.region x).size < (m.region t).size then true
  else if (m.region x).size > (m.region t).size then false
  else if (m.region x).start < (m.region t).start then true
  else false

def insertFreeRegion (m : RegionMap) (x : ℕ) : Option RegionMap := do
  let (root, heap) ← insertRegion m (freeGoLeft m x) m.freeRegions x
  some { m with heap := heap, freeRegions := root }

def usedGoLeft (m : RegionMap) (x t : ℕ) : Bool := (m.region x).start < (m.region t).start

def insertUsedRegion (m : RegionMap) (x : ℕ) : Option RegionMap := do
  let (root, heap) ← insertRegion m (usedGoLeft m x) m.usedRegions x
  some { m with heap := heap, usedRegions := root }

def initRegion (m : RegionMap) (node : Option ℕ) (start arenaSize reserved : ℕ) :
    Option (RegionMap × ℤ) :=
  match node with
  | none => some (m, ERR_OOMEM)
  | some x => do
    let m ← getMemNode m x
    let m := m.setRegion x { m.region x with
      start := page start
      stop := page start + page arenaSize
      flags := 0 }
    let m := { m with
      reserved := page reserved
      start := (m.region x).start
      stop := (m.region x).stop }
    let m ← insertFreeRegion m x
    some (m, OK)

def findUsed (m : RegionMap) (ref : ℕ) : ℕ → Option ℕ → Option (Option ℕ)
  | _, none => some none
  | 0, some _ => none
  | fuel + 1, some n =>
    if ref = (m.region n).start then some (some n)
    else if ref < (m.region n).start then findUsed m ref fuel (m.heap.links.left n)
    else findUsed m ref fuel (m.heap.links.right n)

def findUsedRegion (m : RegionMap) (start : ℕ) : Option (Option ℕ) :=
  findUsed m (page start) m.fuel m.usedRegions

def findClosest (m : RegionMap) (ref : ℕ) : ℕ → Option ℕ → Option ℕ → ℕ → Option (Option ℕ)
  | _, none, closest, _ => some closest
  | 0, some _, _, _ => none
  | fuel + 1, some n, closest, md =>
    let d := ((ref : ℤ) - (m.region n).start).natAbs
    if d = 0 then some (some n)
    else
      let (closest, md) := if d < md then (some n, d) else (closest, md)
      if ref < (m.region n).start then findClosest m ref fuel (m.heap.links.left n) closest md
      else findClosest m ref fuel (m.heap.links.right n) closest md

def findClosestUsedRegion (m : RegionMap) (start : ℕ) : Option (Option ℕ) :=
  match m.usedRegions with
  | none => some m.freeRegions
  | some n => findClosest m (page start) m.fuel (some n) none (2 ^ 64 - 1)

/-- The loop of `find_first_region` to the front of the list. -/
def goFirst (m : RegionMap) : ℕ → ℕ → Option ℕ
  | 0, _ => none
  | fuel + 1, x =>
    match m.list.prev x with
    | none => some x
    | some p => goFirst m fuel p

def findFirstRegion (m : RegionMap) : Option (Option ℕ) := do
  match ← findClosestUsedRegion m 0 with
  | none => some none
  | some x => (goFirst m m.fuel x).map some

def createRegion (m : RegionMap) (node : Option ℕ) (start stop : ℕ) (prev next : Option ℕ) :
    Option (RegionMap × ℕ) := do
  let x ← node
  let m ← getMemNode m x
  let m := m.setRegion x { m.region x with start := start, stop := stop }
  some ({ m with list := (m.list.setPrev (some x) prev).setNext (some x) next }, x)

def splitPre (m : RegionMap) (node : Option ℕ) (x preStart preStop : ℕ) : Option RegionMap :=
  if preStart = preStop then some m
  else do
    let (m, n) ← createRegion m node preStart preStop (m.list.prev x) (some x)
    let m := { m with list := m.list.setPrev (some x) (some n) }
    let m := { m with list := m.list.setNext (m.list.prev n) (some n) }
    insertFreeRegion m n

def splitPost (m : RegionMap) (node : Option ℕ) (x postStart postStop : ℕ) : Option RegionMap :=
  if postStart = postStop then some m
  else do
    let (m, n) ← createRegion m node postStart postStop (some x) (m.list.next x)
    let m := { m with list := m.list.setNext (some x) (some n) }
    let m := { m with list := m.list.setPrev (m.list.next n) (some n) }
    insertFreeRegion m n

def partitionRegion (m : RegionMap) (pre post : Option ℕ) (x pages align : ℕ) (flags : Flags)
    (pid : ℕ) : Option (RegionMap × ℕ) := do
  let (root, heap) ← spRemove m.fuel m.freeRegions m.heap x
  let m := { m with heap := heap, freeRegions := root }
  let preStart := (m.region x).start
  let start := (preStart + align) % 2 ^ 64
  let stop := (start + pages) % 2 ^ 64
  let postStop := (m.region x).stop
  let m ← splitPre m pre x preStart start
  let m ← splitPost m post x stop postStop
  let m := m.setRegion x ⟨stop, start, pid,
    if pid = 0 then 1 else (m.region x).refcount, flags ||| MR_USED⟩
  let m ← insertUsedRegion m x
  some (m, start * basePageSize % 2 ^ 64)

def poAlign (s : ℕ) : ℕ :=
  if s ≥ orderSize 2 then orderSize 2 else if s ≥ orderSize 1 then orderSize 1 else 0

/-- The loop of `find_free_region`, with the free region it finds and `*align`. The
subtractions of the reserved part may wrap. -/
def findFree (m : RegionMap) (size offset : ℕ) : ℕ → Option ℕ → Option ℕ → Option (Option ℕ × ℕ)
  | _, none, best => some (best, 0)
  | 0, some _, _ => none
  | fuel + 1, some n, best =>
    let t := m.region n
    let start := alignUp t.start offset
    let qsize := t.stop - t.start
    let bsize := t.stop - start
    if start < m.start + m.reserved then
      match m.heap.links.right n with
      | some r => findFree m size offset fuel (some r) best
      | none =>
        let skip := sub64 m.reserved t.start
        if size < sub64 qsize skip then some (best, 0)
        else if size ≤ sub64 bsize skip then some (some n, start - t.start)
        else some (some n, sub64 t.stop size)
    else
      let best := if best = none ∧ size ≤ qsize then some n else best
      if size ≤ bsize then some (some n, start - t.start)
      else findFree m size offset fuel (m.heap.links.right n) best

def findFreeRegion (m : RegionMap) (size : ℕ) : Option (Option ℕ × ℕ) :=
  findFree m size (page (poAlign (size * basePageSize))) m.fuel m.freeRegions none

/-- The result is the address of the region, 0 if there is none, and `*actual_size`. -/
def allocSharedRegion (m : RegionMap) (pre post : Option ℕ) (size : ℕ) (flags : Flags) (pid : ℕ) :
    Option (RegionMap × ℕ × ℕ) := do
  let asize := alignUp size basePageSize
  let pages := page asize
  match ← findFreeRegion m pages with
  | (none, _) => some (m, 0, asize)
  | (some x, align) => do
    let (m, addr) ← partitionRegion m pre post x pages align flags pid
    some (m, addr, asize)

def allocRegion (m : RegionMap) (pre post : Option ℕ) (size : ℕ) (flags : Flags) :
    Option (RegionMap × ℕ × ℕ) :=
  allocSharedRegion m pre post size flags 0

/-- The loop that goes to the region with the page in it; it asserts that there is one. -/
def locate (m : RegionMap) (ref : ℕ) : ℕ → ℕ → Option ℕ
  | 0, _ => none
  | fuel + 1, x =>
    if (m.region x).start ≤ ref ∧ ref < (m.region x).stop then some x
    else if ref > (m.region x).start then (m.list.next x).bind (locate m ref fuel)
    else (m.list.prev x).bind (locate m ref fuel)

/-- The result is the address of the region, 0 if there is none, and `*actual_size`. -/
def allocSharedFixedRegion (m : RegionMap) (pre post : Option ℕ) (start size : ℕ) (flags : Flags)
    (pid : ℕ) : Option (RegionMap × ℕ × ℕ) := do
  let asize := alignUp size basePageSize
  let pages := page asize
  let ref := page start
  match ← findClosestUsedRegion m start with
  | none => some (m, 0, asize)
  | some c =>
    let x ← locate m ref m.fuel c
    if (m.region x).used then some (m, 0, asize)
    else if ref + pages > (m.region x).stop then some (m, 0, asize)
    else do
      let (m, addr) ← partitionRegion m pre post x pages (ref - (m.region x).start) flags pid
      some (m, addr, asize)

def allocFixedRegion (m : RegionMap) (pre post : Option ℕ) (start size : ℕ) (flags : Flags) :
    Option (RegionMap × ℕ × ℕ) :=
  allocSharedFixedRegion m pre post start size flags 0

def tryCoalescePrev : ℕ → RegionMap → Option ℕ → Option RegionMap
  | _, m, none => some m
  | 0, _, some _ => none
  | fuel + 1, m, some x =>
    if (m.region x).used then some m
    else
      match m.list.prev x with
      | none => some m
      | some p =>
        if (m.region p).used then some m
        else do
          let m := m.setRegion x { m.region x with start := (m.region p).start }
          let m := { m with list := m.list.setPrev (some x) (m.list.prev p) }
          let m := { m with list := m.list.setNext (m.list.prev x) (some x) }
          let (root, heap) ← spRemove m.fuel m.freeRegions m.heap p
          let m := freeMemNode { m with heap := heap, freeRegions := root } p
          tryCoalescePrev fuel m (m.list.prev x)

def tryCoalesceNext : ℕ → RegionMap → Option ℕ → Option RegionMap
  | _, m, none => some m
  | 0, _, some _ => none
  | fuel + 1, m, some x =>
    if (m.region x).used then some m
    else
      match m.list.next x with
      | none => some m
      | some n =>
        if (m.region n).used then some m
        else do
          let m := m.setRegion x { m.region x with stop := (m.region n).stop }
          let m := { m with list := m.list.setNext (some x) (m.list.next n) }
          let m := { m with list := m.list.setPrev (m.list.next x) (some x) }
          let (root, heap) ← spRemove m.fuel m.freeRegions m.heap n
          let m := freeMemNode { m with heap := heap, freeRegions := root } n
          tryCoalesceNext fuel m (m.list.next x)

def tryCoalesceRegions (m : RegionMap) (x : ℕ) : Option RegionMap := do
  let m ← tryCoalescePrev m.fuel m (some x)
  tryCoalesceNext m.fuel m (some x)

def freeKnownRegion (m : RegionMap) (x : ℕ) : Option RegionMap := do
  let (root, heap) ← spRemove m.fuel m.usedRegions m.heap x
  let m := { m with heap := heap, usedRegions := root }
  let m := m.setRegion x { m.region x with flags := (m.region x).flags &&& ~~~MR_USED }
  let m ← tryCoalesceRegions m x
  insertFreeRegion m x

def freeRegion (m : RegionMap) (start : ℕ) : Option (RegionMap × ℤ) :=
  if !isAligned start basePageSize then some (m, ERR_ALIGN)
  else do
    match ← findUsedRegion m start with
    | none => some (m, ERR_NF)
    | some x =>
      let m ← freeKnownRegion m x
      some (m, OK)

/-- `__destroy_region`, which frees the nodes of a tree and leaves its pointers as they are. -/
def destroyNodes : ℕ → RegionMap → Option ℕ → Option RegionMap
  | _, m, none => some m
  | 0, _, some _ => none
  | fuel + 1, m, some n => do
    let m ← destroyNodes fuel m (m.heap.links.left n)
    let m ← destroyNodes fuel m (m.heap.links.right n)
    some (freeMemNode m n)

def destroyRegion (m : RegionMap) : Option RegionMap := do
  let m' ← destroyNodes m.fuel m m.freeRegions
  destroyNodes m.fuel m' m'.usedRegions

end Kmi.Regions
