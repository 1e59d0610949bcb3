import Kmi.Library.LinkedList
import Kmi.Mem

/-! The physical memory map of `src/pmem.c`. A set of a bucket is its index, and
its bitmap an array of bits of its own; a failed assertion has no result. -/

namespace Kmi.Pmem

open Kmi.Library.LinkedList Kmi.Mem

structure Bucket where
  bits : ℕ
  pageSize : ℕ
  head : Option ℕ
  links : Chain ℕ
  size : ℕ → ℕ
  used : ℕ → ℕ
  map : ℕ → ℕ → Bool

structure Pmap where
  base : ℕ
  buckets : ℕ → Option Bucket
  used : ℕ

def Bucket.setUsed (b : Bucket) (set n : ℕ) : Bucket :=
  { b with used := Function.update b.used set n }

def Bucket.setBit (b : Bucket) (set bit : ℕ) (v : Bool) : Bucket :=
  { b with map := Function.update b.map set (Function.update (b.map set) bit v) }

def Bucket.clearAll (b : Bucket) (set : ℕ) : Bucket :=
  { b with map := Function.update b.map set fun i =>
      if i < b.size set then false else b.map set i }

def Pmap.setBucket (m : Pmap) (order : ℕ) (b : Bucket) : Pmap :=
  { m with buckets := Function.update m.buckets order (some b) }

def attachSet (b : Bucket) (set : ℕ) : Bucket :=
  if (b.links.next set).isSome ∨ b.head = some set then b
  else { b with head := some set, links := b.links.push b.head set }

def detachSet (b : Bucket) (set : ℕ) : Bucket :=
  { b with
    head := if b.head = some set then b.links.next set else b.head
    links := b.links.unlink set }

def pageAddr (base : ℕ) (b : Bucket) (set bit : ℕ) : ℕ :=
  base + set * b.pageSize * b.bits + bit * b.pageSize

def getBit (base : ℕ) (b : Bucket) (a : ℕ) : ℕ × ℕ :=
  ((a - base) / b.pageSize / b.bits, (a - base) / b.pageSize % b.bits)

def findFirstUnset (map : ℕ → Bool) (n : ℕ) : ℕ :=
  ((List.range n).find? fun i => !map i).getD (n + 1)

def freeAt : ℕ → Pmap → ℕ → ℕ → Option (Bool × Pmap)
  | 0, _, _, _ => none
  | fuel + 1, m, order, addr =>
    match m.buckets order with
    | none => some (false, m)
    | some b =>
      let set := (getBit m.base b addr).1
      let bit := (getBit m.base b addr).2
      let b := b.setUsed set (decr (b.used set))
      if b.map set bit then
        let b := attachSet (b.setBit set bit false) set
        if b.used set = 0 then
          let b := detachSet b set
          let m := m.setBucket order b
          if b.size set = orderWidth (order + 1) then
            (freeAt fuel m (order + 1) (pageAddr m.base b set bit)).map fun r => (true, r.2)
          else some (true, m)
        else some (true, m.setBucket order b)
      else none

def carve (b : Bucket) (set : ℕ) : Bucket :=
  let b := { b with links := (b.links.setNext (some set) none).setPrev (some set) none }
  attachSet ((b.setUsed set 0).clearAll set) set

def takePage (b : Bucket) (set : ℕ) : ℕ × Bucket :=
  let b := b.setUsed set (b.used set + 1)
  let bit := findFirstUnset (b.map set) (b.size set)
  let b := b.setBit set bit true
  (bit, if b.used set = b.size set then detachSet b set else b)

def allocAt : ℕ → Pmap → ℕ → Option (ℕ × Pmap)
  | 0, _, _ => none
  | fuel + 1, m, order =>
    match m.buckets order with
    | none => some (0, m)
    | some b =>
      match b.head with
      | none => do
        let (a, m) ← allocAt fuel m (order + 1)
        if a = 0 then some (0, m)
        else
          let set := (getBit m.base b a).1
          if b.size set ≠ 0 ∧ b.size set ≤ orderWidth (order + 1) then
            allocAt fuel (m.setBucket order (carve b set)) order
          else none
      | some set =>
        some (pageAddr m.base b set (takePage b set).1, m.setBucket order (takePage b set).2)

def markAt : ℕ → Pmap → ℕ → ℕ → Option (Bool × Pmap)
  | 0, _, _, _ => none
  | fuel + 1, m, order, addr =>
    match m.buckets order with
    | none => some (false, m)
    | some b => do
      let set := (getBit m.base b addr).1
      let bit := (getBit m.base b addr).2
      let fresh := b.used set = 0
      let b := if fresh then attachSet (b.clearAll set) set else b
      let m := m.setBucket order b
      let m ← if fresh then (markAt fuel m (order + 1) addr).map Prod.snd else some m
      if b.map set bit then some (false, m)
      else
        let b := (b.setUsed set (b.used set + 1)).setBit set bit true
        some (true, m.setBucket order (if b.used set = b.size set then detachSet b set else b))

def depth : ℕ := maxOrder + 2

def freePage (m : Pmap) (order addr : ℕ) : Option Pmap := do
  let (counted, m) ← freeAt depth m order addr
  some (if counted then { m with used := m.used - orderSize order } else m)

def allocPage (m : Pmap) (order : ℕ) : Option (ℕ × Pmap) := do
  let (page, m) ← allocAt depth m order
  some (page, if page ≠ 0 then { m with used := m.used + orderSize order } else m)

def markUsed (m : Pmap) (order addr : ℕ) : Option Pmap := do
  let (counted, m) ← markAt depth m order addr
  some (if counted then { m with used := m.used + orderSize order } else m)

def sizeofBmap : ℕ := 32

def sizeofBucket : ℕ := 24

def sizeofPmap : ℕ := 88

def getSetSize (bits : ℕ) : ℕ := alignUp (sizeofBmap + (bits + 1) / 8) 8

structure SetPlace where
  addr : ℕ
  size : ℕ

structure BucketPlace where
  order : ℕ
  addr : ℕ
  bits : ℕ
  sets : List SetPlace

def placeSets (bits setSize : ℕ) : ℕ → ℕ → ℕ → List SetPlace × ℕ × ℕ
  | 0, n, cont => ([], n, cont)
  | sets + 1, n, cont =>
    let (ps, n', cont') := placeSets bits setSize sets (n - bits) (cont + setSize)
    (⟨cont, bits⟩ :: ps, n', cont')

def maybePopulateBucket (n cont order : ℕ) : BucketPlace × ℕ :=
  let bits := if orderWidth (order + 1) = 0 then n else orderWidth (order + 1)
  let setSize := getSetSize bits
  let (ps, n', cont') := placeSets bits setSize (n / bits) n (cont + sizeofBucket)
  if n' = 0 then (⟨order, cont, bits, ps⟩, cont')
  else (⟨order, cont, bits, ps ++ [⟨cont', n'⟩]⟩, cont' + setSize)

def maybePopulateOrders (ramSize : ℕ) : ℕ → ℕ → List BucketPlace × ℕ
  | 0, cont => ([], cont)
  | iter + 1, cont =>
    let num := ramSize / orderSize iter
    if num = 0 then maybePopulateOrders ramSize iter cont
    else
      let (b, cont) := maybePopulateBucket num cont iter
      let (bs, cont) := maybePopulateOrders ramSize iter cont
      (b :: bs, cont)

def maybePopulatePmap (ramSize start : ℕ) : List BucketPlace × ℕ :=
  let (bs, cont) := maybePopulateOrders ramSize (maxOrder + 1) (start + sizeofPmap)
  (bs, cont - start)

def probePmap (ramSize start : ℕ) : ℕ := (maybePopulatePmap ramSize start).2

def BucketPlace.bucket (p : BucketPlace) (first : Bool) : Bucket :=
  let b : Bucket :=
    { bits := p.bits
      pageSize := orderSize p.order
      head := none
      links := ⟨fun _ => none, fun _ => none⟩
      size := fun set => ((p.sets[set]?).map SetPlace.size).getD 0
      used := fun _ => 0
      map := fun _ _ => false }
  if first then (List.range p.sets.length).foldl attachSet b else b

def populatePmap (ramBase ramSize start : ℕ) : Pmap :=
  let places := (maybePopulatePmap ramSize start).1
  { base := ramBase
    buckets := fun order => (places.find? fun p => p.order = order).map fun p =>
      p.bucket ((places.head?.map BucketPlace.order) = some order)
    used := 0 }

end Kmi.Pmem
