import Kmi.Uvmem.Model

/-! The ELF loader, from `src/elf.c` and `include/kmi/elf.h`. It reads the image at user
addresses, where no page that is handed out meanwhile is seen, and fills the new pages at
their addresses in the direct map. -/

namespace Kmi.Elf

open Kmi.Mem Kmi.Vmem Kmi.Regions Kmi.Uvmem

def EI_MAGIC : ℕ := 0x7f454c46

def ELFCLASS32 : ℕ := 1

def ELFCLASS64 : ℕ := 2

def ET_EXEC : ℕ := 2

def PT_LOAD : ℕ := 1

def PF_X : ℕ := 1

def PF_W : ℕ := 2

def PF_R : ℕ := 4

def UVMEM_START : ℕ := 0

def SZ_64K : ℕ := 0x10000

abbrev Bytes := ℕ → UInt8

def field (mem : Bytes) : ℕ → ℕ → ℕ
  | _, 0 => 0
  | addr, width + 1 => (mem (addr % 2 ^ 64)).toNat + 256 * field mem (addr + 1) width

def cpuToBe32 (x : ℕ) : ℕ :=
  x % 2 ^ 8 * 2 ^ 24 + x / 2 ^ 8 % 2 ^ 8 * 2 ^ 16 + x / 2 ^ 16 % 2 ^ 8 * 2 ^ 8 + x / 2 ^ 24 % 2 ^ 8

structure ElfHeader where
  e_type : ℕ
  e_entry : ℕ
  e_phoff : ℕ
  e_phentsize : ℕ
  e_phnum : ℕ

def elf64Header (mem : Bytes) (e : ℕ) : ElfHeader :=
  ⟨field mem (e + 16) 2, field mem (e + 24) 8, field mem (e + 32) 8, field mem (e + 54) 2,
    field mem (e + 56) 2⟩

def elf32Header (mem : Bytes) (e : ℕ) : ElfHeader :=
  ⟨field mem (e + 16) 2, field mem (e + 24) 4, field mem (e + 28) 4, field mem (e + 42) 2,
    field mem (e + 44) 2⟩

def elfHeader (c : ℕ) (mem : Bytes) (e : ℕ) : ElfHeader :=
  if c = ELFCLASS64 then elf64Header mem e else elf32Header mem e

structure ProgramHeader where
  p_type : ℕ
  p_flags : ℕ
  p_offset : ℕ
  p_vaddr : ℕ
  p_filesz : ℕ
  p_memsz : ℕ
deriving DecidableEq

def program64Header (mem : Bytes) (p : ℕ) : ProgramHeader :=
  ⟨field mem p 4, field mem (p + 4) 4, field mem (p + 8) 8, field mem (p + 16) 8, field mem (p + 32) 8,
    field mem (p + 40) 8⟩

def program32Header (mem : Bytes) (p : ℕ) : ProgramHeader :=
  ⟨field mem p 4, field mem (p + 24) 4, field mem (p + 4) 4, field mem (p + 8) 4, field mem (p + 16) 4,
    field mem (p + 20) 4⟩

def programHeader (c : ℕ) (mem : Bytes) (p : ℕ) : ProgramHeader :=
  if c = ELFCLASS64 then program64Header mem p else program32Header mem p

def elfToUvflags (elfFlags : ℕ) : ℕ :=
  let uvflags := VM_V ||| VM_U
  let uvflags := if elfFlags &&& PF_X ≠ 0 then uvflags ||| VM_X else uvflags
  let uvflags := if elfFlags &&& PF_W ≠ 0 then uvflags ||| VM_W else uvflags
  if elfFlags &&& PF_R ≠ 0 then uvflags ||| VM_R else uvflags

def memset (ram : Bytes) (dst : ℕ) (c : UInt8) (n : ℕ) : Bytes := fun x =>
  if dst ≤ x ∧ x < dst + n then c else ram x

def memcpy (ram : Bytes) (dst : ℕ) (image : Bytes) (src n : ℕ) : Bytes := fun x =>
  if dst ≤ x ∧ x < dst + n then image ((src + (x - dst)) % 2 ^ 64) else ram x

section Map

variable (image : Bytes)

def elfMapPages (va vaz vf vfz flags : ℕ) :
    ℕ → ℕ → List Answer → Space → Bytes → Option (Space × Bytes × ℤ)
  | 0, _, _, _, _ => none
  | fuel + 1, runner, answers, m, ram =>
    if vaz ≤ runner then some (m, ram, OK)
    else
      let a := answers.headD ⟨0, []⟩
      if a.page = 0 then some (m, ram, ERR_OOMEM)
      else
        let ram := memset ram a.page 0 basePageSize
        let ram :=
          if runner < vfz then
            memcpy ram a.page image ((vf + runner) % 2 ^ 64) (min basePageSize (vfz - runner))
          else ram
        let (m, ret) := mapVpage m a.page ((va + runner) % 2 ^ 64) flags 0 a.tables
        if ret ≠ OK then some (m, ram, ERR_OOMEM)
        else elfMapPages va vaz vf vfz flags fuel ((runner + basePageSize) % 2 ^ 64) answers.tail m ram

structure SectionAnswers where
  pre : Option ℕ
  post : Option ℕ
  pages : List Answer

def elfMapSection (u : UserVmem) (ram : Bytes) (va vaz vf vfz flags : ℕ) (a : SectionAnswers) :
    Option (UserVmem × Bytes × ℤ) := do
  let (region, v, _) ← allocFixedRegion u.region a.pre a.post va vaz (BitVec.ofNat 64 flags)
  if v = 0 then some (⟨region, u.vmem⟩, ram, ERR_INVAL)
  else if v ≠ alignDown va basePageSize then none
  else do
    let (vmem, ram, ret) ←
      elfMapPages image va vaz vf vfz flags (vaz / basePageSize + 2) 0 a.pages u.vmem ram
    some (⟨region, vmem⟩, ram, ret)

/-- The loop of `__map_exec`, with how many program headers are left. -/
def mapSegments (bin ei_c phsize : ℕ) :
    ℕ → ℕ → List SectionAnswers → UserVmem → Bytes → Option (UserVmem × Bytes × ℤ)
  | 0, _, _, u, ram => some (u, ram, OK)
  | left + 1, runner, answers, u, ram =>
    let p := programHeader ei_c image runner
    if p.p_type ≠ PT_LOAD then
      mapSegments bin ei_c phsize left ((runner + phsize) % 2 ^ 64) answers u ram
    else do
      let (u, ram, ret) ← elfMapSection image u ram p.p_vaddr p.p_memsz ((bin + p.p_offset) % 2 ^ 64)
        p.p_filesz (elfToUvflags (p.p_flags % 2 ^ 8)) (answers.headD ⟨none, none, []⟩)
      if ret ≠ OK then some (u, ram, ERR_OOMEM)
      else mapSegments bin ei_c phsize left ((runner + phsize) % 2 ^ 64) answers.tail u ram

end Map

/-- What the allocators answer: whether there is a top-level table, a node for the new region
map, then the segments. -/
structure ExecAnswers where
  top : Bool
  node : Option ℕ
  sections : List SectionAnswers

/-- The memory of the process afterwards, and the memory that `destroy_uvmem` was given. -/
structure Exec where
  memory : UserVmem
  destroyed : Option UserVmem
  ram : Bytes
  status : ℤ

/-- `struct uvmem` set to zero and initialized; the nodes are those of all region maps. -/
def initUvmem (m : RegionMap) (node : Option ℕ) : Option (RegionMap × ℤ) :=
  initRegion { m with reserved := 0, start := 0, stop := 0, freeRegions := none, usedRegions := none }
    node UVMEM_START (UVMEM_END - UVMEM_START) SZ_64K

def mapExec (image : Bytes) (kvmem : ℕ) (t : UserVmem) (ram : Bytes) (bin ei_c phstart phnum phsize : ℕ)
    (a : ExecAnswers) : Option Exec :=
  if a.top = false then some ⟨t, none, ram, ERR_OOMEM⟩
  else do
    let (region, ret) ← initUvmem t.region a.node
    if ret ≠ OK then some ⟨t, none, ram, ERR_OOMEM⟩
    else do
      let (u, ram, ret) ← mapSegments image bin ei_c phsize phnum phstart a.sections
        ⟨region, ⟨createVmem kvmem, t.vmem.low⟩⟩ ram
      if ret ≠ OK then some ⟨t, some u, ram, ERR_OOMEM⟩
      else some ⟨u, some t, ram, OK⟩

def prepareExec (image : Bytes) (kvmem : ℕ) (t : UserVmem) (ram : Bytes) (ei_c elf : ℕ) (a : ExecAnswers) :
    Option (Exec × ℕ) := do
  let h := elfHeader ei_c image elf
  let r ← mapExec image kvmem t ram elf ei_c ((elf + h.e_phoff) % 2 ^ 64) h.e_phnum h.e_phentsize a
  if r.status ≠ OK then some (r, 0) else some (r, h.e_entry)

def prepareProc (image : Bytes) (kvmem : ℕ) (t : UserVmem) (ram : Bytes) (ei_c elf : ℕ) (a : ExecAnswers) :
    Option (Exec × ℕ) :=
  if (elfHeader ei_c image elf).e_type = ET_EXEC then prepareExec image kvmem t ram ei_c elf a
  else some (⟨t, none, ram, OK⟩, 0)

def loadElf (image : Bytes) (kvmem : ℕ) (t : UserVmem) (ram : Bytes) (elf : ℕ) (a : ExecAnswers) :
    Option (Exec × ℕ) :=
  let ei_class := field image (elf + 4) 1
  if field image elf 4 ≠ cpuToBe32 EI_MAGIC then some (⟨t, none, ram, OK⟩, 0)
  else if ei_class ≠ ELFCLASS32 ∧ ei_class ≠ ELFCLASS64 then some (⟨t, none, ram, OK⟩, 0)
  else prepareProc image kvmem t ram ei_class elf a

end Kmi.Elf
