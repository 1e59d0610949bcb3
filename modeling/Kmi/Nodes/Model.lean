import Kmi.Library.LinkedList
import Kmi.Mem

/-! The node allocator of `src/nodes.c`. A region is a page, named by its number, and a
node is an address inside one. The headers of the regions are kept field by field. -/

namespace Kmi.Nodes

open Library.LinkedList Mem

structure NodeRoot where
  nodeSize : ℕ
  maxNodes : ℕ
  firstNode : ℕ
  head : Option ℕ
  avHead : Option ℕ
  regions : Chain ℕ
  av : Chain ℕ
  usedNodes : ℕ → ℕ
  bitmap : ℕ → ℕ → Bool

def sizeofNodeRegion : ℕ := 40

def nodeRegion (p : ℕ) : ℕ := p / 4096

def slot (r : NodeRoot) (nr i : ℕ) : ℕ := i * r.nodeSize + (r.firstNode + 4096 * nr)

/-- `alloc_page` gives the page `nr`, which is filled with zeroes. -/
def createRegion (r : NodeRoot) (nr : ℕ) : NodeRoot :=
  { r with
    regions := (r.regions.setNext (some nr) none).setPrev (some nr) none
    av := (r.av.setNext (some nr) none).setPrev (some nr) none
    usedNodes := Function.update r.usedNodes nr 0
    bitmap := Function.update r.bitmap nr fun _ => false }

def emptyRoot : NodeRoot where
  nodeSize := 0
  maxNodes := 0
  firstNode := 0
  head := none
  avHead := none
  regions := ⟨fun _ => none, fun _ => none⟩
  av := ⟨fun _ => none, fun _ => none⟩
  usedNodes := fun _ => 0
  bitmap := fun _ _ => false

def initNodes (nodeSize nr : ℕ) : NodeRoot :=
  let maxNodes := 4096 / nodeSize
  let bitmapSize := maxNodes / 8 + 1
  let firstNode := alignUp (sizeofNodeRegion + bitmapSize) nodeSize
  { createRegion emptyRoot nr with
    head := some nr
    avHead := some nr
    nodeSize := nodeSize
    firstNode := firstNode
    maxNodes := (maxNodes + (2 ^ 64 - firstNode / nodeSize)) % 2 ^ 64 }

def findFreeNode (r : NodeRoot) (nr : ℕ) : NodeRoot × Option ℕ :=
  match (List.range r.maxNodes).find? fun i => !r.bitmap nr i with
  | none => (r, none)
  | some i =>
    ({ r with bitmap := Function.update r.bitmap nr (Function.update (r.bitmap nr) i true) },
      some (slot r nr i))

def popAvHead (r : NodeRoot) : NodeRoot :=
  match r.avHead with
  | none => r
  | some t =>
    let avHead := r.regions.next t
    { r with
      avHead := avHead
      av := ((r.av.setPrev avHead none).setNext (some t) none).setPrev (some t) none }

/-- A region with room is at hand, made from the page `nr` if there is none. -/
def ensureAvHead (r : NodeRoot) (nr : ℕ) : NodeRoot :=
  match r.avHead with
  | some _ => r
  | none =>
    let r := createRegion r nr
    { r with
      avHead := some nr
      regions := (r.regions.setPrev (some nr) r.head).setNext r.head (some nr)
      head := some nr }

def getNode (r : NodeRoot) (nr : ℕ) : NodeRoot × Option ℕ :=
  let r := ensureAvHead r nr
  match r.avHead with
  | none => (r, none)
  | some h =>
    let (r, p) := findFreeNode r h
    let used := (r.usedNodes h + 1) % 2 ^ 64
    let r := { r with usedNodes := Function.update r.usedNodes h used }
    (if used = r.maxNodes then popAvHead r else r, p)

def pushAvHead (r : NodeRoot) (nr : ℕ) : NodeRoot :=
  { r with
    av := ((r.av.setPrev (some nr) none).setNext (some nr) r.avHead).setPrev r.avHead (some nr)
    avHead := some nr }

def freeRegion (r : NodeRoot) (nr : ℕ) : NodeRoot :=
  let avN := r.av.next nr
  let avP := r.av.prev nr
  let r := { r with av := (r.av.setPrev avN avP).setNext avP avN }
  let r := if r.avHead = some nr then popAvHead r else r
  let n := r.regions.next nr
  let p := r.regions.prev nr
  let r := { r with regions := (r.regions.setPrev n p).setNext p n }
  if r.head = some nr ∧ r.regions.prev nr ≠ none then
    { r with
      regions := r.regions.setNext (some nr) none
      head := r.regions.prev nr }
  else r

def nodeIndex (r : NodeRoot) (p : ℕ) : ℕ := (p - (r.firstNode + 4096 * nodeRegion p)) / r.nodeSize

def freeNode (r : NodeRoot) (p : ℕ) : NodeRoot :=
  let nr := nodeRegion p
  let r := { r with
    bitmap := Function.update r.bitmap nr (Function.update (r.bitmap nr) (nodeIndex r p) false) }
  let used := decr (r.usedNodes nr)
  let r := { r with usedNodes := Function.update r.usedNodes nr used }
  if used = 0 then freeRegion r nr
  else if r.av.next nr = none ∧ r.av.prev nr = none then pushAvHead r nr
  else r

end Kmi.Nodes
