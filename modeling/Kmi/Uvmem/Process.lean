import Kmi.Regions.Runs
import Kmi.Uvmem.Alloc
import Kmi.Vmem.Threads

/-! A process and the threads in it, over the memory calls. What the calls for shared and
device memory do to the process is taken apart into regions that are reserved or released
and pages that are mapped or unmapped; what happens elsewhere leaves its tables alone. -/

namespace Kmi.Uvmem

open Kmi.Mem Kmi.Vmem Kmi.Regions

structure Process where
  memory : UserVmem
  -- `rpc.vmem` of the threads that are in the process
  threads : ℕ → Option Table

inductive Event where
  | alloc (pre post : Option ℕ) (size : ℕ) (flags : Flags) (answers : List Answer)
  | allocFixed (pre post : Option ℕ) (start size : ℕ) (flags : Flags) (answers : List Answer)
  | free (va : ℕ) (owner : Bool) (unref : Space → Space)
  | reserve (pre post : Option ℕ) (size : ℕ) (flags : Flags) (pid : ℕ)
  | reserveFixed (pre post : Option ℕ) (start size : ℕ) (flags : Flags) (pid : ℕ)
  | release (start : ℕ)
  -- the count of references to a region of the process
  | recount (start refcount : ℕ)
  | page (c : PageCall)
  -- a thread comes in, or sees a page fault, and its table is synchronised
  | enter (tid : ℕ) (rpc : Table)
  -- a thread comes back from another process with the table it has
  | resume (tid : ℕ) (rpc : Table)
  | leave (tid : ℕ)
  | elsewhere (low : ℕ → Table)

def Process.setRegion (p : Process) (region : RegionMap) : Process :=
  { p with memory := { p.memory with region := region } }

def Process.setVmem (p : Process) (vmem : Space) : Process :=
  { p with memory := { p.memory with vmem := vmem } }

def step (p : Process) : Event → Option (Process × ℕ)
  | .alloc pre post size flags answers => do
    let (u, v) ← allocUvmem p.memory pre post size flags answers
    some ({ p with memory := u }, v)
  | .allocFixed pre post start size flags answers => do
    let (u, v) ← allocFixedUvmem p.memory pre post start size flags answers
    some ({ p with memory := u }, v)
  | .free va owner unref => do
    let (u, status) ← freeUvmem p.memory va owner unref
    some ({ p with memory := u }, statusVm status)
  | .reserve pre post size flags pid => do
    let (region, v, _) ← allocSharedRegion p.memory.region pre post size flags pid
    some (p.setRegion region, v)
  | .reserveFixed pre post start size flags pid => do
    let (region, v, _) ← allocSharedFixedRegion p.memory.region pre post start size flags pid
    some (p.setRegion region, v)
  | .release start => do
    let (region, status) ← freeRegion p.memory.region start
    some (p.setRegion region, statusVm status)
  | .recount start refcount => do
    match ← findUsedRegion p.memory.region start with
    | none => some (p, 0)
    | some x =>
      let g := p.memory.region.region x
      some (p.setRegion (p.memory.region.setRegion x { g with refcount := refcount }), 0)
  | .page c => some (p.setVmem (c.run p.memory.vmem), 0)
  | .enter tid rpc =>
    some ({ p with threads :=
      Function.update p.threads tid (some (cloneUvmem p.memory.vmem.root rpc)) }, 0)
  | .resume tid rpc => some ({ p with threads := Function.update p.threads tid (some rpc) }, 0)
  | .leave tid => some ({ p with threads := Function.update p.threads tid none }, 0)
  | .elsewhere low => some (p.setVmem { p.memory.vmem with low := low }, 0)

def Answered (p : Process) : Event → Prop
  | .alloc _ _ _ _ answers => FreshAnswers p.memory.vmem answers
  | .allocFixed _ _ _ _ _ answers => FreshAnswers p.memory.vmem answers
  | .free _ _ unref => ∀ m, WellFormed m → WellFormed (unref m)
  | .page (.map paddr _ flags order pages) => paddr < 2 ^ 64 ∧ paddr % 4096 = 0 ∧ PageFlags flags ∧
      order ≤ maxOrder ∧ FreshPages p.memory.vmem pages
  | .elsewhere low => ∀ v < 2 ^ 39, ∀ o a, Walks p.memory.vmem v o (some a) → low a = p.memory.vmem.low a
  | _ => True

def Orderly (p : Process) : Event → Prop
  | .alloc pre post size flags _ => Request p.memory.region pre post size ∧ PageFlags flags.toNat ∧
      ∃ first, FoundAt p.memory.region size first ∧ Untranslated p.memory.vmem first (pagesOf size)
  | .allocFixed pre post start size flags _ =>
      Request p.memory.region pre post size ∧ PageFlags flags.toNat ∧
      RangeFree p.memory.region (page start) (pagesOf size) ∧
      Untranslated p.memory.vmem (page start) (pagesOf size)
  | .reserve pre post size _ _ => Request p.memory.region pre post size ∧
      ∃ first, FoundAt p.memory.region size first
  | .reserveFixed pre post start size _ _ => Request p.memory.region pre post size ∧
      RangeFree p.memory.region (page start) (pagesOf size)
  | .page (.map _ vaddr _ order _) => vaddr < 2 ^ 39 ∧ NoLargerLeaf p.memory.vmem vaddr order
  | _ => True

def KernelTable (kvmem : ℕ) (low : ℕ → Table) : Prop :=
  ∀ i, stops (low (pteAddr (toPte kvmem VM_V)) i) = true

inductive RunsWith (cond : Process → Event → Prop) : Process → Prop
  | init {m₀ m : RegionMap} {x kvmem : ℕ} {low : ℕ → Table} {status : ℤ} : m₀.freeRegions = none →
      m₀.usedRegions = none → initRegion m₀ (some x) 0 UVMEM_END 65536 = some (m, status) →
      KernelTable kvmem low → RunsWith cond ⟨⟨m, ⟨createVmem kvmem, low⟩⟩, fun _ => none⟩
  | step {p p' : Process} {r : ℕ} (e : Event) : RunsWith cond p → Answered p e → cond p e →
      step p e = some (p', r) → RunsWith cond p'

variable {p p' : Process} {r : ℕ} {m : RegionMap} {space : Space} {g : Region}

lemma createVmem_walks {kvmem v o : ℕ} {low : ℕ → Table} {b : Option ℕ} (hk : KernelTable kvmem low)
    (h : Walks ⟨createVmem kvmem, low⟩ v o b) : b = none ∨
      b = some (pteAddr (toPte kvmem VM_V)) ∧ o = 1 ∧ vmToIndex v maxOrder = KERNEL_PAGE := by
  induction h with
  | top => exact .inl rfl
  | @down o b h hs ih =>
    obtain rfl | ⟨rfl, -, -⟩ := ih
    · have ho := Walks.top_iff.1 h
      obtain rfl : o = 1 := by
        rw [maxOrder] at ho
        omega
      have hidx : vmToIndex v (1 + 1) = KERNEL_PAGE := by
        by_contra hne
        rw [Space.leaf, createVmem_stops kvmem hne] at hs
        cases hs
      refine .inr ⟨?_, rfl, hidx⟩
      rw [hidx]
      rfl
    · rw [Space.leaf, hk] at hs
      cases hs

lemma createVmem_fresh {kvmem : ℕ} {low : ℕ → Table} {pages : Pages} (hk : KernelTable kvmem low)
    (hal : ∀ p ∈ pages, p < 2 ^ 64 ∧ p % 4096 = 0) (hnodup : (pages.filter (· ≠ 0)).Nodup)
    (hne : ∀ p ∈ pages, p ≠ pteAddr (toPte kvmem VM_V)) : FreshPages ⟨createVmem kvmem, low⟩ pages := by
  refine ⟨hal, hnodup, fun p hp _ v _ o h => ?_⟩
  obtain h | ⟨h, -⟩ := createVmem_walks hk h
  · cases h
  · exact hne p hp (Option.some.inj h)

lemma createVmem_wellFormed {kvmem : ℕ} {low : ℕ → Table} (hk : KernelTable kvmem low) :
    WellFormed ⟨createVmem kvmem, low⟩ := by
  refine ⟨fun {v v' o o' a} hv hv' h h' => ?_⟩
  obtain h | ⟨-, rfl, hi⟩ := createVmem_walks hk h
  · cases h
  obtain h' | ⟨-, rfl, hi'⟩ := createVmem_walks hk h'
  · cases h'
  refine ⟨rfl, (pageOf_eq_iff v v' maxOrder).2 ⟨?_, hi.trans hi'.symm⟩⟩
  rw [pageOf_top hv, pageOf_top hv']

lemma walks_elsewhere {low : ℕ → Table} {v o : ℕ} {b : Option ℕ}
    (hl : ∀ v < 2 ^ 39, ∀ o a, Walks space v o (some a) → low a = space.low a) (hv : v < 2 ^ 39)
    (h : Walks { space with low := low } v o b) : Walks space v o b := by
  induction h with
  | top => exact .top
  | @down o b h hs ih =>
    have hleaf : ({ space with low := low } : Space).leaf b = space.leaf b := by
      cases b with
      | none => rfl
      | some a => exact hl v hv _ a ih
    rw [hleaf] at hs ⊢
    exact .down ih hs

lemma wellFormed_elsewhere {low : ℕ → Table} (hw : WellFormed space)
    (hl : ∀ v < 2 ^ 39, ∀ o a, Walks space v o (some a) → low a = space.low a) :
    WellFormed { space with low := low } :=
  ⟨fun hv hv' h h' => hw.one_path hv hv' (walks_elsewhere hl hv h) (walks_elsewhere hl hv' h')⟩

lemma unmapPages_wellFormed {fuel v bytes : ℕ} {space' : Space} {freed : List (ℕ × ℕ)}
    (hw : WellFormed space) (h : unmapPages fuel v bytes space = some (space', freed)) :
    WellFormed space' := by
  induction fuel generalizing space v bytes freed with
  | zero => cases h
  | succ fuel ih =>
    rw [unmapPages] at h
    split_ifs at h
    · cases h
      exact hw
    · cases hx : statVpage space v with
      | none =>
        rw [hx] at h
        cases h
        exact hw
      | some x =>
        rw [hx] at h
        simp only [Option.bind_eq_bind, Option.bind_eq_some_iff] at h
        obtain ⟨⟨m', freed'⟩, hrec, h⟩ := h
        cases h
        exact ih (unmapVpage_wellFormed hw v) hrec

lemma unmapRegion_wellFormed {v bytes : ℕ} {space' : Space} {freed : List (ℕ × ℕ)}
    (hw : WellFormed space) (h : unmapRegion space v bytes = some (space', freed)) : WellFormed space' :=
  unmapPages_wellFormed hw h

lemma freeMapping_wellFormed {g : Region} {owner : Bool} {unref : Space → Space} {space' : Space}
    (hw : WellFormed space) (hunref : ∀ m, WellFormed m → WellFormed (unref m))
    (h : freeMapping space g owner unref = some space') : WellFormed space' := by
  have hw' : WellFormed (if g.pid ≠ 0 ∧ owner = true then unref space else space) := by
    split_ifs
    · exact hunref _ hw
    · exact hw
  rw [freeMapping] at h
  dsimp only at h
  generalize (if g.pid ≠ 0 ∧ owner = true then unref space else space) = m at h hw'
  split_ifs at h
  · cases h
    exact hw'
  · rw [unmapFixedRegion, Option.map_eq_some_iff] at h
    obtain ⟨⟨m', freed⟩, h, rfl⟩ := h
    exact unmapRegion_wellFormed hw' h
  · rw [Option.map_eq_some_iff] at h
    obtain ⟨⟨m', freed⟩, h, rfl⟩ := h
    exact unmapRegion_wellFormed hw' h

lemma freeUvmem_valid {u u' : UserVmem} {va : ℕ} {owner : Bool} {unref : Space → Space} {status : ℤ}
    (hu : Valid u) (hunref : ∀ m, WellFormed m → WellFormed (unref m))
    (h : freeUvmem u va owner unref = some (u', status)) : Valid u' := by
  obtain ⟨xs, hp⟩ := hu.region
  obtain ⟨found, hfound, hmem⟩ := findUsedRegion_spec hp va
  cases found with
  | none =>
    simp only [freeUvmem, hfound, Option.bind_eq_bind, Option.bind_some, Option.some.injEq, Prod.mk.injEq] at h
    rw [← h.1]
    exact hu
  | some x =>
    obtain ⟨⟨hx, hxu⟩, -⟩ := (hmem x).1 rfl
    obtain ⟨m', hfree, hd⟩ := freeKnownRegion_freed hp hx hxu
    simp only [freeUvmem, hfound, hfree, Option.bind_eq_bind, Option.bind_some] at h
    split_ifs at h
    · cases h
      exact hu
    · rw [Option.bind_eq_some_iff] at h
      obtain ⟨space, hmap, h⟩ := h
      cases h
      exact ⟨hd.partition, hd.start.trans hu.start, hd.stop.trans hu.stop,
        freeMapping_wellFormed hu.tables hunref hmap⟩

lemma Valid.setRegion {u : UserVmem} (hu : Valid u) (hm : NewUsed u.region m g) : Valid ⟨m, u.vmem⟩ :=
  ⟨hm.whole, hm.start.trans hu.start, hm.stop.trans hu.stop, hu.tables⟩

lemma Valid.step {e : Event} (hu : Valid p.memory) (ha : Answered p e) (hc : Orderly p e)
    (h : step p e = some (p', r)) : Valid p'.memory := by
  cases e with
  | alloc pre post size flags answers =>
    obtain ⟨hr, hf, first, hfound, hn⟩ := hc
    obtain ⟨u', v, heq, -, hu'⟩ := allocUvmem_spec hu hr hf ha hfound hn
    simp only [Uvmem.step, heq, Option.bind_eq_bind, Option.bind_some] at h
    cases h
    exact hu'
  | allocFixed pre post start size flags answers =>
    obtain ⟨hr, hf, hfree, hn⟩ := hc
    obtain ⟨u', v, heq, -, hu'⟩ := allocFixedUvmem_spec hu hr hf ha hfree hn
    simp only [Uvmem.step, heq, Option.bind_eq_bind, Option.bind_some] at h
    cases h
    exact hu'
  | free va owner unref =>
    simp only [Uvmem.step, Option.bind_eq_bind, Option.bind_eq_some_iff] at h
    obtain ⟨⟨u', status⟩, hfree, h⟩ := h
    cases h
    exact freeUvmem_valid hu ha hfree
  | reserve pre post size flags pid =>
    obtain ⟨hr, first, hfound⟩ := hc
    obtain ⟨m', g, heq, -, -, hm⟩ := @Valid.allocShared _ size flags pre post hu hr pid first hfound
    simp only [Uvmem.step, heq, Option.bind_eq_bind, Option.bind_some] at h
    cases h
    exact hu.setRegion hm
  | reserveFixed pre post start size flags pid =>
    obtain ⟨hr, hfree⟩ := hc
    obtain ⟨m', g, heq, -, -, hm⟩ := @Valid.allocSharedFixed _ size flags pre post hu hr pid start hfree
    simp only [Uvmem.step, heq, Option.bind_eq_bind, Option.bind_some] at h
    cases h
    exact hu.setRegion hm
  | release start =>
    obtain ⟨xs, hp⟩ := hu.region
    obtain ⟨m', status, heq, -, -, hp', hs, he⟩ := freeRegion_spec hp start
    simp only [Uvmem.step, heq, Option.bind_eq_bind, Option.bind_some] at h
    cases h
    exact ⟨hp', hs.trans hu.start, he.trans hu.stop, hu.tables⟩
  | recount start refcount =>
    obtain ⟨xs, hp⟩ := hu.region
    obtain ⟨found, hfound, -⟩ := findUsedRegion_spec hp start
    simp only [Uvmem.step, hfound, Option.bind_eq_bind, Option.bind_some] at h
    cases found with
    | none =>
      cases h
      exact hu
    | some x =>
      cases h
      exact ⟨⟨xs, hp.setRegion rfl rfl rfl⟩, hu.start, hu.stop, hu.tables⟩
  | page c =>
    cases h
    cases c with
    | map paddr vaddr flags order pages =>
      obtain ⟨hp, hal, hf, ho, hfresh⟩ := ha
      obtain ⟨hv, hn⟩ := hc
      exact ⟨hu.region, hu.start, hu.stop, (mapVpage_spec hu.tables hf.1 hf.2 hp hal hv ho hn hfresh).1⟩
    | unmap vaddr => exact ⟨hu.region, hu.start, hu.stop, unmapVpage_wellFormed hu.tables vaddr⟩
  | enter tid rpc =>
    cases h
    exact hu
  | resume tid rpc =>
    cases h
    exact hu
  | leave tid =>
    cases h
    exact hu
  | elsewhere low =>
    cases h
    exact ⟨hu.region, hu.start, hu.stop, wellFormed_elsewhere hu.tables ha⟩

lemma RunsWith.valid {cond : Process → Event → Prop} (hcond : ∀ p e, cond p e → Orderly p e)
    (h : RunsWith cond p) : Valid p.memory := by
  induction h with
  | init hf hu hi hk =>
    obtain ⟨hp, hs, he⟩ := initRegion_partition hf hu (by decide) hi
    refine ⟨⟨_, hp⟩, hs, ?_, createVmem_wellFormed hk⟩
    rw [he]
    rfl
  | step e _ ha hc hs ih => exact ih.step ha (hcond _ _ hc) hs

end Kmi.Uvmem
