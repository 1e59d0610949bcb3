import Kmi.Uvmem.Process

/-! Memory that processes share, from `src/vmem.c`, `src/regions.c`, `src/tcb.c` and
`src/uapi/mem.c`. Threads are their ids and own an address space each; what a thread of a
process, or a call into it, does to the process is to hold it and to let it go again. -/

namespace Kmi.Shared

open Kmi.Mem Kmi.Vmem Kmi.Regions Kmi.Uvmem

def ERR_PERM : ℤ := -10

structure Tcb where
  rid : ℕ
  refcount : ℤ
  -- whether it has CAP_SHARED
  shared : Bool
  memory : UserVmem

/-- `freed` records the pages that go back to the page allocator, `holds` how many of the
references to a process are those of other threads and of calls. -/
structure System where
  tcbs : ℕ → Bool
  tcb : ℕ → Tcb
  holds : ℕ → ℕ
  freed : List (ℕ × ℕ)

namespace System

variable (s : System)

def setTcb (t : ℕ) (x : Tcb) : System := { s with tcb := Function.update s.tcb t x }

def regions (t : ℕ) : RegionMap := (s.tcb t).memory.region

def vmem (t : ℕ) : Space := (s.tcb t).memory.vmem

def setRegions (t : ℕ) (r : RegionMap) : System :=
  s.setTcb t { s.tcb t with memory := ⟨r, (s.tcb t).memory.vmem⟩ }

def setVmem (t : ℕ) (m : Space) : System :=
  s.setTcb t { s.tcb t with memory := ⟨(s.tcb t).memory.region, m⟩ }

def setMemory (t : ℕ) (u : UserVmem) : System := s.setTcb t { s.tcb t with memory := u }

def setRefcount (t : ℕ) (n : ℤ) : System := s.setTcb t { s.tcb t with refcount := n }

def setCount (t x n : ℕ) : System :=
  s.setRegions t ((s.regions t).setRegion x { (s.regions t).region x with refcount := n })

def freePages (pages : List (ℕ × ℕ)) : System := { s with freed := s.freed ++ pages }

def known (t : ℕ) : Prop := t ≠ 0 ∧ s.tcbs t = true

instance (t : ℕ) : Decidable (s.known t) := inferInstanceAs (Decidable (_ ∧ _))

def getTcb (tid : ℕ) : Option ℕ := if s.known tid then some tid else none

def zombie (t : ℕ) : Bool := (s.tcb t).rid = 0

def isProc (t : ℕ) : Bool := (s.tcb t).rid = t

/-- `find_used_region`, where the code asserts that there is one. -/
def findRegion (t addr : ℕ) : Option ℕ := (findUsedRegion (s.regions t) addr).join

end System

def referenceThread (s : System) (t : ℕ) : System := s.setRefcount t ((s.tcb t).refcount + 1)

def referenceMem (s : System) (d o ref orig : ℕ) : Option System := do
  let src ← s.findRegion o orig
  let dst ← s.findRegion d ref
  if ((s.regions d).region dst).pid ≠ (s.tcb o).rid then none
  else
    let s := s.setCount d dst orig
    let s := s.setCount o src (((s.regions o).region src).refcount + 1)
    some (referenceThread s o)

/-! Giving references back. A thread that loses its last reference gives back its own. -/

mutual

def freeMapping : ℕ → System → ℕ → ℕ → Option System
  | 0, _, _, _ => none
  | fuel + 1, s, t, x => do
    let g := (s.regions t).region x
    let s ← match s.getTcb g.pid with
      | none => some s
      | some owner => unreferenceMem fuel s owner g.refcount
    if g.flags &&& MR_NONBACKED ≠ 0 then some s
    else
      let start := g.start * basePageSize % 2 ^ 64
      let size := sub64 (g.stop * basePageSize % 2 ^ 64) start
      let (m, freed) ← unmapRegion (s.vmem t) start size
      if g.pid ≠ 0 then some (s.setVmem t m)
      else some ((s.setVmem t m).freePages freed)
termination_by structural fuel => fuel

def unreferenceMem : ℕ → System → ℕ → ℕ → Option System
  | 0, _, _, _ => none
  | fuel + 1, s, o, addr => do
    let src ← s.findRegion o addr
    let n := ((s.regions o).region src).refcount
    if n < 1 then none
    else
      let s := s.setCount o src (n - 1)
      if n - 1 = 0 then
        let s ← freeMapping fuel s o src
        let r ← freeKnownRegion (s.regions o) src
        unreferenceThread fuel (s.setRegions o r) o
      else unreferenceThread fuel s o
termination_by structural fuel => fuel

def unreferenceThread : ℕ → System → ℕ → Option System
  | 0, _, _ => none
  | fuel + 1, s, t => do
    let s := s.setRefcount t ((s.tcb t).refcount - 1)
    let s ← if (s.tcb t).refcount = 0 then destroyThreadData fuel s t else some s
    if (s.tcb t).refcount < 0 then none else some s
termination_by structural fuel => fuel

def destroyThreadData : ℕ → System → ℕ → Option System
  | 0, _, _ => none
  | fuel + 1, s, t =>
    if (s.tcb t).refcount ≠ 0 ∨ s.zombie t = false then none
    else do
      let s := { s with tcbs := Function.update s.tcbs t false }
      let first ← findFirstRegion (s.regions t)
      let s ← purgeUvmem fuel s t first
      let r ← destroyRegion (s.regions t)
      some (s.setRegions t r)
termination_by structural fuel => fuel

def purgeUvmem : ℕ → System → ℕ → Option ℕ → Option System
  | 0, _, _, _ => none
  | _ + 1, s, _, none => some s
  | fuel + 1, s, t, some x => do
    let s ← if ((s.regions t).region x).used then freeMapping fuel s t x else some s
    purgeUvmem fuel s t ((s.regions t).list.next x)
termination_by structural fuel => fuel

end

/-- The loop of `clone_region`, from the space `g` into the space `b`, which may be the same. -/
def clonePages (b g flags : ℕ) : ℕ → ℕ → ℕ → ℕ → List Pages → (ℕ → Space) → Option ((ℕ → Space) × ℤ)
  | 0, _, _, _, _, _ => none
  | fuel + 1, src, dst, bytes, answers, spaces =>
    if bytes = 0 then some (spaces, OK)
    else
      match statVpage (spaces g) src with
      | none => some (spaces, ERR_NF)
      | some x =>
        let (m, res) := mapVpage (spaces b) x.addr dst flags x.order (answers.headD [])
        let spaces := Function.update spaces b m
        if res ≠ OK then some (spaces, res)
        else
          clonePages b g flags fuel ((src + orderSize x.order) % 2 ^ 64)
            ((dst + orderSize x.order) % 2 ^ 64) (sub64 bytes (orderSize x.order)) answers.tail spaces

def cloneRegion (b g src dst bytes flags : ℕ) (answers : List Pages) (spaces : ℕ → Space) :
    Option ((ℕ → Space) × ℤ) :=
  let (src, srcSize) := alignRegion src bytes
  let (dst, dstSize) := alignRegion dst bytes
  if srcSize ≠ dstSize then none
  else clonePages b g flags (srcSize / basePageSize + 1) src dst srcSize answers spaces

/-- `__clone_shared_region`; the address is 0 where there is no room. -/
def cloneSharedRegion (s : System) (d o x : ℕ) (pre post : Option ℕ) (flags : ℕ) (answers : List Pages) :
    Option (System × ℕ) := do
  let m := (s.regions o).region x
  let start := m.start * basePageSize % 2 ^ 64
  let size := sub64 (m.stop * basePageSize % 2 ^ 64) start
  let (r, v, size) ← allocSharedRegion (s.regions d) pre post size (MR_NONBACKED ||| m.flags) (s.tcb o).rid
  let s := s.setRegions d r
  if v = 0 then some (s, 0)
  else do
    let (spaces, res) ← cloneRegion d o start v size flags answers s.vmem
    let s := s.setVmem d (spaces d)
    if res = OK then do
      let s ← referenceMem s d o v start
      some (s, v)
    else do
      let (r, _) ← freeRegion (s.regions d) v
      let m ← unmapFixedRegion (s.vmem d) v size
      some ((s.setRegions d r).setVmem d m, statusVm res)

def refSharedUvmem (s : System) (d o v : ℕ) (pre post : Option ℕ) (flags : ℕ) (answers : List Pages) :
    Option (System × ℕ) := do
  match ← findUsedRegion (s.regions o) v with
  | none => some (s, statusVm ERR_NF)
  | some x =>
    if ((s.regions o).region x).flags &&& MR_SHARED = 0 then some (s, statusVm ERR_INVAL)
    else cloneSharedRegion s d o x pre post flags answers

/-- The common end of the allocations from pages up to an order, with the pages that are
freed again where it fails. -/
def mapUvmem (order : ℕ) (u : UserVmem) (v size : ℕ) (flags : Flags) (answers : List Answer) :
    Option (UserVmem × ℕ × List (ℕ × ℕ)) :=
  if errCode v then some (u, v, [])
  else do
    let (vmem, ret) ← mapRegion u.vmem v size order flags.toNat answers
    if ret ≠ OK then
      let (vmem, freed) ← unmapRegion vmem v size
      let (region, _) ← freeRegion u.region v
      some (⟨region, vmem⟩, statusVm ret, freed)
    else some (⟨u.region, vmem⟩, v, [])

/-- `alloc_uvmem`, and with MR_SHARED and base pages `alloc_shared_uvmem`. -/
def allocUvmem (order : ℕ) (extra : Flags) (u : UserVmem) (pre post : Option ℕ) (size : ℕ) (flags : Flags)
    (answers : List Answer) : Option (UserVmem × ℕ × List (ℕ × ℕ)) := do
  let (region, v, size) ← allocRegion u.region pre post size (extra ||| flags)
  mapUvmem order ⟨region, u.vmem⟩ v size flags answers

def allocFixedUvmem (u : UserVmem) (pre post : Option ℕ) (start size : ℕ) (flags : Flags)
    (answers : List Answer) : Option (UserVmem × ℕ × List (ℕ × ℕ)) := do
  let (region, v, size) ← allocFixedRegion u.region pre post start size flags
  mapUvmem maxOrder ⟨region, u.vmem⟩ v size flags answers

def freeUvmem (fuel : ℕ) (s : System) (r va : ℕ) : Option (System × ℤ) := do
  match ← findUsedRegion (s.regions r) va with
  | none => some (s, ERR_NF)
  | some x =>
    let g := (s.regions r).region x
    if g.pid = 0 ∧ g.refcount > 1 then some (s, ERR_INVAL)
    else do
      let s ← freeMapping fuel s r x
      let m ← freeKnownRegion (s.regions r) x
      some (s.setRegions r m, OK)

/-- What a process may ask the kernel for, with the answers of the allocators; and what its
threads and calls do to it, which take references to it and give them back. -/
inductive Call where
  | create (tid : ℕ) (shared : Bool) (m : RegionMap) (node kvmem : ℕ) (low : ℕ → Table)
  | reqMem (c : ℕ) (pre post : Option ℕ) (size flags : ℕ) (answers : List Answer)
  | reqFixmem (c : ℕ) (pre post : Option ℕ) (fixed size flags : ℕ) (answers : List Answer)
  | reqSharedmem (c : ℕ) (pre post : Option ℕ) (size flags : ℕ) (answers : List Answer)
  | refSharedmem (c : ℕ) (pre post : Option ℕ) (tid addr flags : ℕ) (answers : List Pages)
  | freeMem (c start : ℕ)
  | reference (p : ℕ)
  | unreference (p : ℕ)
  | exit (p : ℕ)

def uvflags (flags : ℕ) : Flags := BitVec.ofNat 64 (sanitizeUvflags flags)

def returnVm (v : ℕ) : ℕ × ℕ := if errCode v then (v, 0) else (statusVm OK, v)

/-- A process without memory, once `init_uvmem` has found a node. -/
def createProc (s : System) (tid : ℕ) (shared : Bool) (r : RegionMap) (vmem : Space) : System :=
  { s with
    tcbs := Function.update s.tcbs tid true
    tcb := Function.update s.tcb tid ⟨tid, 1, shared, ⟨r, vmem⟩⟩
    holds := Function.update s.holds tid 0 }

def hold (s : System) (p : ℕ) : System :=
  referenceThread { s with holds := Function.update s.holds p (s.holds p + 1) } p

def letGo (s : System) (p : ℕ) : System := { s with holds := Function.update s.holds p (s.holds p - 1) }

def endThread (s : System) (p : ℕ) : System := s.setTcb p { s.tcb p with rid := 0 }

def step (fuel : ℕ) (s : System) : Call → Option (System × ℕ × ℕ)
  | .create tid shared m node kvmem low => do
    let (r, status) ← initRegion m (some node) 0 UVMEM_END 65536
    some (createProc s tid shared r ⟨createVmem kvmem, low⟩, statusVm status, tid)
  | .reqMem c pre post size flags answers =>
    if s.isProc c = false then none
    else do
      let (u, v, freed) ← allocUvmem maxOrder 0 (s.tcb c).memory pre post size (uvflags flags) answers
      some ((s.setMemory c u).freePages freed, returnVm v)
  | .reqFixmem c pre post fixed size flags answers =>
    if s.isProc c = false then none
    else do
      let (u, v, freed) ← allocFixedUvmem (s.tcb c).memory pre post fixed size (uvflags flags) answers
      some ((s.setMemory c u).freePages freed, returnVm v)
  | .reqSharedmem c pre post size flags answers =>
    if (s.tcb c).shared = false then some (s, statusVm ERR_PERM, 0)
    else if s.isProc c = false then none
    else do
      let (u, v, freed) ← allocUvmem 0 MR_SHARED (s.tcb c).memory pre post size (uvflags flags) answers
      some ((s.setMemory c u).freePages freed, returnVm v)
  | .refSharedmem c pre post tid addr flags answers =>
    if (s.tcb c).shared = false then some (s, statusVm ERR_PERM, 0)
    else
      match s.getTcb tid with
      | none => some (s, statusVm ERR_INVAL, 0)
      | some r =>
        if s.zombie r then some (s, statusVm ERR_INVAL, 0)
        else do
          let (s, v) ← refSharedUvmem s r c addr pre post (uvflags flags).toNat answers
          some (s, returnVm v)
  | .freeMem c start => do
    let (s, status) ← freeUvmem fuel s c start
    some (s, statusVm status, 0)
  | .reference p => some (hold s p, statusVm OK, 0)
  | .unreference p => do
    let s ← unreferenceThread fuel (letGo s p) p
    some (s, statusVm OK, 0)
  | .exit p =>
    if p = 1 then some (s, statusVm ERR_INVAL, 0)
    else do
      let s ← unreferenceThread fuel (endThread s p) p
      some (s, statusVm OK, 0)

end Kmi.Shared
