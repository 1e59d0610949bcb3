import Kmi.Regions.Model
import Kmi.Vmem.Model

/-! The user memory of a process, from `src/vmem.c` and the mapping loops at the end of
`src/regions.c`. The loops count with `size_t`; what `alloc_page` answers is given. -/

namespace Kmi.Uvmem

open Kmi.Mem Kmi.Vmem Kmi.Regions

def MR_SHARED : Flags := 1 <<< 10

def MR_NONBACKED : Flags := 1 <<< 11

/-- A `stat_t` that is returned as a `vm_t`. -/
def statusVm (status : ℤ) : ℕ := (status % 2 ^ 64).toNat

def errCode (x : ℕ) : Bool := x > 2 ^ 64 - basePageSize

structure UserVmem where
  region : RegionMap
  vmem : Space

/-- What `alloc_page` answers for a page and then for the tables on the way to it. -/
structure Answer where
  page : ℕ
  tables : Pages

def alignRegion (start bytes : ℕ) : ℕ × ℕ :=
  let shift := orderShift 0
  let top := (start + bytes) % 2 ^ 64
  let newStart := (start >>> shift) <<< shift
  let newTop := (top >>> shift) <<< shift
  let newTop := if newTop ≠ top then (newTop + basePageSize) % 2 ^ 64 else newTop
  (newStart, sub64 newTop newStart)

/-- One try of `map_region` to map a page of an order; whether it does, and the answers
that are left. -/
def tryPage (m : Space) (flags order start bytes : ℕ) (answers : List Answer) :
    Space × List Answer × Bool :=
  if orderSize order > bytes then (m, answers, false)
  else if !isAligned start (orderSize order) then (m, answers, false)
  else
    match answers with
    | [] => (m, [], false)
    | a :: answers =>
      if a.page = 0 then (m, answers, false)
      else
        let (m, res) := mapVpage m a.page start flags order a.tables
        (m, answers, res = OK)

def mapPages (flags : ℕ) : ℕ → ℕ → ℕ → ℕ → List Answer → Space → Option (Space × ℤ)
  | 0, _, _, _, _, _ => none
  | fuel + 1, order, start, bytes, answers, m =>
    if bytes = 0 then some (m, OK)
    else
      let (m, answers, mapped) := tryPage m flags order start bytes answers
      if mapped then
        mapPages flags fuel order ((start + orderSize order) % 2 ^ 64) (bytes - orderSize order) answers m
      else if order = 0 then some (m, ERR_MISC)
      else mapPages flags fuel (order - 1) start bytes answers m

def mapRegion (m : Space) (start bytes order flags : ℕ) (answers : List Answer) : Option (Space × ℤ) :=
  let (start, bytes) := alignRegion start bytes
  mapPages flags (bytes / basePageSize + order + 1) order start bytes answers m

/-- A page that `alloc_page` gave to `map_region`, and whether it was mapped. -/
structure Take where
  order : ℕ
  page : ℕ
  mapped : Bool

/-- The page that one try takes, if it gets as far as `alloc_page`. -/
def tryTakes (m : Space) (flags order start bytes : ℕ) (answers : List Answer) : List Take :=
  if orderSize order > bytes then []
  else if !isAligned start (orderSize order) then []
  else
    match answers with
    | [] => []
    | a :: _ =>
      if a.page = 0 then []
      else [⟨order, a.page, (tryPage m flags order start bytes answers).2.2⟩]

/-- The pages that the loop of `map_region` takes, in this order. -/
def takes (flags : ℕ) : ℕ → ℕ → ℕ → ℕ → List Answer → Space → List Take
  | 0, _, _, _, _, _ => []
  | fuel + 1, order, start, bytes, answers, m =>
    if bytes = 0 then []
    else
      let (m', answers', mapped) := tryPage m flags order start bytes answers
      tryTakes m flags order start bytes answers ++
        if mapped then
          takes flags fuel order ((start + orderSize order) % 2 ^ 64) (bytes - orderSize order)
            answers' m'
        else if order = 0 then []
        else takes flags fuel (order - 1) start bytes answers' m'

def regionTakes (m : Space) (start bytes order flags : ℕ) (answers : List Answer) : List Take :=
  let (start, bytes) := alignRegion start bytes
  takes flags (bytes / basePageSize + order + 1) order start bytes answers m

/-- The loop of `map_fixed_region`, with the tables that `alloc_page` answers page by page. -/
def mapFixedPages (flags : ℕ) : ℕ → ℕ → ℕ → ℕ → List Pages → Space → Option (Space × ℤ)
  | 0, _, _, _, _, _ => none
  | fuel + 1, v, start, bytes, answers, m =>
    if bytes = 0 then some (m, OK)
    else
      let (m, ret) := mapVpage m start v flags 0 (answers.headD [])
      if ret ≠ OK then some (m, ret)
      else
        mapFixedPages flags fuel ((v + basePageSize) % 2 ^ 64) ((start + basePageSize) % 2 ^ 64)
          (sub64 bytes basePageSize) answers.tail m

def mapFixedRegion (m : Space) (v start bytes flags : ℕ) (answers : List Pages) : Option (Space × ℤ) :=
  let (start, bytes) := alignRegion start bytes
  mapFixedPages flags (bytes / basePageSize + 1) (alignDown v basePageSize) start bytes answers m

/-- The loop of `unmap_region`, with the pages that it frees. It goes round only as long
as it takes a page out. -/
def unmapPages : ℕ → ℕ → ℕ → Space → Option (Space × List (ℕ × ℕ))
  | 0, _, _, _ => none
  | fuel + 1, v, bytes, m =>
    if bytes = 0 then some (m, [])
    else
      match statVpage m v with
      | none => some (m, [])
      | some x => do
        let (m, freed) ← unmapPages fuel ((v + orderSize x.order) % 2 ^ 64)
          (sub64 bytes (orderSize x.order)) (unmapVpage m v).1
        some (m, (x.order, x.addr) :: freed)

def unmapRegion (m : Space) (v bytes : ℕ) : Option (Space × List (ℕ × ℕ)) :=
  let v := alignDown v basePageSize
  unmapPages (512 ^ 3 + 1) v (sub64 (alignUp ((v + bytes) % 2 ^ 64) basePageSize) v) m

def unmapFixedRegion (m : Space) (v bytes : ℕ) : Option Space :=
  (unmapRegion m v bytes).map Prod.fst

def mapUvmem (u : UserVmem) (v size : ℕ) (flags : Flags) (answers : List Answer) : Option (UserVmem × ℕ) :=
  if errCode v then some (u, v)
  else do
    let (vmem, ret) ← mapRegion u.vmem v size maxOrder flags.toNat answers
    if ret ≠ OK then
      let (vmem, _) ← unmapRegion vmem v size
      let (region, _) ← freeRegion u.region v
      some (⟨region, vmem⟩, statusVm ret)
    else some (⟨u.region, vmem⟩, v)

def allocUvmem (u : UserVmem) (pre post : Option ℕ) (size : ℕ) (flags : Flags) (answers : List Answer) :
    Option (UserVmem × ℕ) := do
  let (region, v, size) ← allocRegion u.region pre post size flags
  mapUvmem ⟨region, u.vmem⟩ v size flags answers

def allocFixedUvmem (u : UserVmem) (pre post : Option ℕ) (start size : ℕ) (flags : Flags)
    (answers : List Answer) : Option (UserVmem × ℕ) := do
  let (region, v, size) ← allocFixedRegion u.region pre post start size flags
  mapUvmem ⟨region, u.vmem⟩ v size flags answers

/-- What freeing a region does to the page tables. There is no thread 0; if the owner of the
region is still there, `unref` is what `unreference_mem` does to these tables. -/
def freeMapping (m : Space) (g : Region) (owner : Bool) (unref : Space → Space) : Option Space :=
  let m := if g.pid ≠ 0 ∧ owner = true then unref m else m
  if g.flags &&& MR_NONBACKED ≠ 0 then some m
  else
    let start := g.start * basePageSize % 2 ^ 64
    let size := sub64 (g.stop * basePageSize % 2 ^ 64) start
    if g.pid ≠ 0 then unmapFixedRegion m start size
    else (unmapRegion m start size).map Prod.fst

def freeUvmem (u : UserVmem) (va : ℕ) (owner : Bool) (unref : Space → Space) : Option (UserVmem × ℤ) := do
  match ← findUsedRegion u.region va with
  | none => some (u, ERR_NF)
  | some x =>
    let g := u.region.region x
    if g.pid = 0 ∧ g.refcount > 1 then some (u, ERR_INVAL)
    else do
      let vmem ← freeMapping u.vmem g owner unref
      let region ← freeKnownRegion u.region x
      some (⟨region, vmem⟩, OK)

end Kmi.Uvmem
