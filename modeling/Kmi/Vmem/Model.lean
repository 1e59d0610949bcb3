import Kmi.Mem

/-! The page tables of `arch/riscv64/kernel/vmem.c`. A virtual memory is its
top-level table and the tables below it, which are found by their address in the
direct map. -/

namespace Kmi.Vmem

open Kmi.Mem

def VM_V : ℕ := 1

def VM_R : ℕ := 2

def VM_W : ℕ := 4

def VM_X : ℕ := 8

def VM_U : ℕ := 16

def VM_G : ℕ := 32

def VM_A : ℕ := 64

def VM_D : ℕ := 128

def KSTART_PAGE : ℕ := 256

def KERNEL_PAGE : ℕ := 510

def CSTACK_PAGE : ℕ := 248

def TOP_PAGE_SIZE : ℕ := 2 ^ 30

def VM_DMAP : ℕ := 0xffffffc000000000

def UVMEM_END : ℕ := 2 ^ 38 - 2 ^ 33

def RPC_STACK_BASE : ℕ := UVMEM_END

def GRAVESTONE : ℕ := VM_G

def va (x : ℕ) : ℕ := (x + VM_DMAP) % 2 ^ 64

def pa (x : ℕ) : ℕ := (x + (2 ^ 64 - VM_DMAP)) % 2 ^ 64

def ptePpn (pte : ℕ) : ℕ := pte >>> 10

def pteFlags (pte : ℕ) : ℕ := pte &&& 0xff

def vpFlags (flags : ℕ) : ℕ := flags &&& 0xff

def toPte (p f : ℕ) : ℕ := ((p >>> 12) <<< 10) ||| f

def ptePaddr (pte : ℕ) : ℕ := (ptePpn pte <<< 12) % 2 ^ 64

def pteAddr (pte : ℕ) : ℕ := va (ptePaddr pte)

def vmToIndex (a o : ℕ) : ℕ := (a >>> orderShift o) % 512

def isActive (pte : ℕ) : Bool := pteFlags pte &&& VM_V ≠ 0

def isLeaf (pte : ℕ) : Bool := isActive pte && pteFlags pte &&& (0xff - VM_V) ≠ 0

def isBranch (pte : ℕ) : Bool := isActive pte && pteFlags pte &&& (0xff - VM_V) = 0

def unused (b : ℕ) : Bool := b = GRAVESTONE || b = 0

abbrev Table := ℕ → ℕ

structure Space where
  root : Table
  low : ℕ → Table

def Space.leaf (m : Space) : Option ℕ → Table
  | none => m.root
  | some a => m.low a

def Space.setLeaf (m : Space) (b : Option ℕ) (idx pte : ℕ) : Space :=
  match b with
  | none => { m with root := Function.update m.root idx pte }
  | some a => { m with low := Function.update m.low a (Function.update (m.low a) idx pte) }

def sanitizeUvflags (flags : ℕ) : ℕ := (flags &&& (VM_R ||| VM_W ||| VM_X)) ||| VM_V ||| VM_U

def findVmem (m : Space) (v : ℕ) : ℕ → Option ℕ → Option (Option ℕ × ℕ × ℕ)
  | 0, b =>
    let pte := m.leaf b (vmToIndex v 0)
    if unused pte then none
    else if isLeaf pte then some (b, vmToIndex v 0, 0)
    else none
  | top + 1, b =>
    let pte := m.leaf b (vmToIndex v (top + 1))
    if unused pte then none
    else if isLeaf pte then some (b, vmToIndex v (top + 1), top + 1)
    else findVmem m v top (some (pteAddr pte))

structure Stat where
  addr : ℕ
  order : ℕ
  flags : ℕ
deriving DecidableEq, Repr

def statVpage (m : Space) (vaddr : ℕ) : Option Stat :=
  match findVmem m vaddr maxOrder none with
  | none => none
  | some (b, idx, order) => some ⟨pteAddr (m.leaf b idx), order, pteFlags (m.leaf b idx)⟩

abbrev Pages := List ℕ

def createLeaf (m : Space) : Pages → Option (Space × ℕ × Pages)
  | [] => none
  | page :: pages =>
    if page = 0 then none
    else some ({ m with low := Function.update m.low page fun _ => 0 }, toPte (pa page) VM_V, pages)

/-- The loop of `map_vpage`, which makes the tables that are missing; its first
argument is how many orders are left to go down. -/
def mapWalk (vaddr : ℕ) : ℕ → ℕ → Option ℕ → Pages → Space → Space × Option (Option ℕ)
  | 0, _, branch, _, m => (m, some branch)
  | left + 1, top, branch, pages, m =>
    let idx := vmToIndex vaddr top
    if unused (m.leaf branch idx) then
      match createLeaf m pages with
      | none => (m, none)
      | some (m, leaf, pages) =>
        let m := m.setLeaf branch idx leaf
        mapWalk vaddr left (top - 1) (some (pteAddr (m.leaf branch idx))) pages m
    else mapWalk vaddr left (top - 1) (some (pteAddr (m.leaf branch idx))) pages m

def addGravesBelow (root : Table) : ℕ → Table
  | 0 => root
  | i + 1 =>
    if unused (root i) then addGravesBelow (Function.update root i GRAVESTONE) i else root

def addGraves (root : Table) (idx : ℕ) : Table :=
  if CSTACK_PAGE ≤ idx then root else addGravesBelow root idx

def mapVpage (m : Space) (paddr vaddr flags order : ℕ) (pages : Pages) : Space × ℤ :=
  match mapWalk vaddr (maxOrder - order) maxOrder none pages m with
  | (m, none) => (m, ERR_OOMEM)
  | (m, some branch) =>
    let idx := vmToIndex vaddr order
    if unused (m.leaf branch idx) then
      let m := m.setLeaf branch idx (toPte (pa paddr) (vpFlags (flags ||| (VM_A ||| VM_D))))
      ({ m with root := addGraves m.root (vmToIndex vaddr maxOrder) }, OK)
    else (m, ERR_INVAL)

def removeGravesBelow (root : Table) : ℕ → Table
  | 0 => root
  | i + 1 =>
    if root i = GRAVESTONE then removeGravesBelow (Function.update root i 0) i else root

def removeGraves (root : Table) (idx : ℕ) : Table :=
  if CSTACK_PAGE ≤ idx then root
  else if root (idx + 1) ≠ 0 then root
  else removeGravesBelow root (idx + 1)

def unmapVpage (m : Space) (vaddr : ℕ) : Space × ℤ :=
  match findVmem m vaddr maxOrder none with
  | none => (m, ERR_NF)
  | some (b, idx, _) =>
    let m := m.setLeaf b idx GRAVESTONE
    ({ m with root := removeGraves m.root (vmToIndex vaddr maxOrder) }, OK)

/-- A table after `create_vmem`: no user entry, the direct map and the kernel. -/
def createVmem (kvmem : ℕ) : Table := fun i =>
  if i < KSTART_PAGE then 0
  else if i < KERNEL_PAGE then
    toPte (TOP_PAGE_SIZE * (i - KSTART_PAGE)) (VM_V ||| VM_R ||| VM_W ||| VM_X ||| VM_G ||| VM_D ||| VM_A)
  else if i = KERNEL_PAGE then toPte kvmem VM_V
  else 0

/-- The first loop of `clone_uvmem`, with where it stops. -/
def cloneUsed (r : Table) : ℕ → ℕ → Table → Table × ℕ
  | 0, i, b => (b, i)
  | left + 1, i, b =>
    if r i = 0 then (b, i) else cloneUsed r left (i + 1) (Function.update b i (r i))

def clearUsed : ℕ → ℕ → Table → Table
  | 0, _, b => b
  | left + 1, i, b =>
    if b i = 0 then b else clearUsed left (i + 1) (Function.update b i 0)

def cloneUvmem (r b : Table) : Table :=
  let (b, i) := cloneUsed r CSTACK_PAGE 0 b
  clearUsed (CSTACK_PAGE - i) i b

end Kmi.Vmem
