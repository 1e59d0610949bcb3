import Kmi.Library.PointerTree

/-! The balanced trees of `src/sp_tree.c`. A node is its address; the fields of
`struct sp_node` are maps from addresses, and a failed assertion or the
dereference of a null pointer has no result. Loops are given fuel. -/

namespace Kmi.SpTree

open Kmi.Library.PointerTree

structure SpHeap where
  links : Links ℕ
  hint : ℕ → ℤ

inductive SpDir where
  | left
  | right
deriving DecidableEq, Repr

def turnLeft (m : Links ℕ) (n : ℕ) : Option (Links ℕ) :=
  match m.left n with
  | none => none
  | some l =>
    let p := m.parent n
    let m := m.setParent l (m.parent n)
    let m := m.setLeft n (m.right l)
    let m := m.setParent n (some l)
    let m := m.setRight l (some n)
    let m := m.relink p n (some l)
    some (m.adopt (m.left n) n)

def turnRight (m : Links ℕ) (n : ℕ) : Option (Links ℕ) :=
  match m.right n with
  | none => none
  | some r =>
    let p := m.parent n
    let m := m.setParent r (m.parent n)
    let m := m.setRight n (m.left r)
    let m := m.setParent n (some r)
    let m := m.setLeft r (some n)
    let m := m.relink p n (some r)
    some (m.adopt (m.right n) n)

def sideHint (h : SpHeap) : Option ℕ → ℤ
  | none => 0
  | some c => h.hint c + 1

def balance (h : SpHeap) (n : ℕ) : ℤ :=
  sideHint h (h.links.left n) - sideHint h (h.links.right n)

def maxHint (h : SpHeap) (n : ℕ) : ℤ :=
  if sideHint h (h.links.left n) > sideHint h (h.links.right n) then
    sideHint h (h.links.left n)
  else
    sideHint h (h.links.right n)

/-- The two turns of `__sp_update`, with the root pointer they may move. -/
def rebalance (root : Option ℕ) (h : SpHeap) (n : ℕ) : Option (Option ℕ × Links ℕ) :=
  if balance h n < -1 then
    (turnRight h.links n).map fun m => (if root = some n then h.links.right n else root, m)
  else if 1 < balance h n then
    (turnLeft h.links n).map fun m => (if root = some n then h.links.left n else root, m)
  else
    some (root, h.links)

def update : ℕ → Option ℕ → SpHeap → Option ℕ → Option (Option ℕ × SpHeap)
  | _, root, h, none => some (root, h)
  | 0, _, _, some _ => none
  | fuel + 1, root, h, some n => do
    let prevHint := h.hint n
    let p := h.links.parent n
    let (root, m) ← rebalance root h n
    let h : SpHeap := ⟨m, h.hint⟩
    let hint := maxHint h n
    let h : SpHeap := ⟨m, Function.update h.hint n hint⟩
    if hint = 0 ∨ hint ≠ prevHint then update fuel root h p else some (root, h)

def spInsert (fuel : ℕ) (root : Option ℕ) (h : SpHeap) (p : Option ℕ) (n : ℕ) (d : SpDir) :
    Option (Option ℕ × SpHeap) :=
  match root, p with
  | none, _ => some (some n, h)
  | some _, none => none
  | some _, some p =>
    let m := match d with
      | .left => h.links.setLeft p (some n)
      | .right => h.links.setRight p (some n)
    update fuel root ⟨m.setParent n (some p), h.hint⟩ (some n)

def replaceRight (m : Links ℕ) (n r : ℕ) : Option (Links ℕ) := do
  let p := m.parent n
  let rp ← m.parent r
  let m := if m.left rp = some r then (m.setLeft rp (m.right r)).adopt (m.right r) rp else m
  let m := if m.parent rp = some n then m.setParent rp (some r) else m
  let m := m.setParent r p
  let m := m.setLeft r (m.left n)
  let x ← m.right n
  let m := if x ≠ r then (m.setRight r (some x)).setParent x (some r) else m
  let m := m.relink p n (some r)
  some (m.adopt (m.left n) r)

def replaceLeft (m : Links ℕ) (n l : ℕ) : Option (Links ℕ) := do
  let p := m.parent n
  let lp ← m.parent l
  let m := if m.right lp = some l then (m.setRight lp (m.left l)).adopt (m.left l) lp else m
  let m := if m.parent lp = some n then m.setParent lp (some l) else m
  let m := m.setParent l p
  let m := m.setRight l (m.right n)
  let x ← m.left n
  let m := if x ≠ l then (m.setLeft l (some x)).setParent x (some l) else m
  let m := m.relink p n (some l)
  some (m.adopt (m.right n) l)

def spFirst : ℕ → Links ℕ → ℕ → Option ℕ
  | 0, _, _ => none
  | fuel + 1, m, n =>
    match m.left n with
    | none => some n
    | some l => spFirst fuel m l

def spLast : ℕ → Links ℕ → ℕ → Option ℕ
  | 0, _, _ => none
  | fuel + 1, m, n =>
    match m.right n with
    | none => some n
    | some r => spLast fuel m r

def spRemove (fuel : ℕ) (root : Option ℕ) (h : SpHeap) (del : ℕ) :
    Option (Option ℕ × SpHeap) :=
  match h.links.right del, h.links.left del with
  | some r, _ => do
    let least ← spFirst fuel h.links r
    let m ← replaceRight h.links del least
    update fuel (if root = some del then some least else root) ⟨m, h.hint⟩ (m.right least)
  | none, some l => do
    let most ← spLast fuel h.links l
    let m ← replaceLeft h.links del most
    update fuel (if root = some del then some most else root) ⟨m, h.hint⟩ (m.left most)
  | none, none =>
    if root = some del then some (none, h)
    else do
      let paren ← h.links.parent del
      update fuel root ⟨h.links.relink (some paren) del none, h.hint⟩ (some paren)

end Kmi.SpTree
