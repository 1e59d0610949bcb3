import Kmi.Pmem.Boot
import Kmi.Vmem.Direct

/-! The page allocator and the page tables in one system: what `alloc_page` answers the calls
that make tables comes from the map of pages, next to all other pages of the kernel. -/

namespace Kmi.Board

open Kmi.Mem Kmi.Pmem Kmi.Vmem

structure State where
  machine : Machine
  pmap : Pmap
  -- the pages that are handed out, with their orders
  live : List (ℕ × ℕ)

/-- `alloc_page` for base pages, time after time. -/
def allocPages : ℕ → Pmap → List (ℕ × ℕ) → Option (Pages × Pmap × List (ℕ × ℕ))
  | 0, m, live => some ([], m, live)
  | n + 1, m, live => do
    let (a, m) ← allocPage m 0
    let (pages, m, live) ← allocPages n m (if a = 0 then live else (0, a) :: live)
    some (a :: pages, m, live)

inductive Event where
  | machine (e : MachineEvent)
  -- a page for something else than a table
  | alloc (order : ℕ)
  -- a page that is no table, or no longer
  | free (order a : ℕ)

def step (b : State) : Event → Option State
  | .machine e => do
    let (pages, pmap, live) ← allocPages e.pages.length b.pmap b.live
    let machine ← b.machine.step e
    if pages = e.pages then some ⟨machine, pmap, live⟩ else none
  | .alloc order => do
    let (a, pmap) ← allocPage b.pmap order
    some { b with pmap := pmap, live := if a = 0 then b.live else (order, a) :: b.live }
  | .free order a => do
    let pmap ← freePage b.pmap order a
    if b.live.contains (order, a) ∧ (order = 0 → b.machine.owner a = none) then
      some { b with pmap := pmap, live := b.live.erase (order, a) }
    else none

def Asked : MachineEvent → Prop
  | .call (.page _ (.map _ vaddr flags order _)) => vaddr < UVMEM_END ∧ order ≤ maxOrder ∧ flags &&& VM_V ≠ 0
  | .call (.page _ (.unmap vaddr)) => vaddr < UVMEM_END
  | .call (.exec _ image) => image.UserOnly
  | _ => True

def Ok (b : State) : Event → Prop
  | .machine e => Asked e ∧ b.machine.Careful e
  | .alloc _ => True
  | .free order a => FreeFindsSets b.pmap order a

/-- `kvmem` lies in the kernel, and is as `init_mapping` leaves it. -/
structure Loaded (f : Firmware) (kvmem : ℕ) (low : ℕ → Table) : Prop where
  table : low (kernelPage kvmem) = kvmemTable f.loadAddr
  base : va f.loadAddr ≤ kernelPage kvmem
  top : kernelPage kvmem + 4096 ≤ va f.loadAddr + f.kernelSize

inductive Runs (f : Firmware) (fdt : ℕ) : State → Prop
  | boot {m : Pmap} {place : AvoidRegion} {kvmem : ℕ} {low : ℕ → Table} :
      initPmem f (va fdt) = some (m, place) → Loaded f kvmem low → Runs f fdt ⟨initMachine kvmem low, m, []⟩
  | step {b b' : State} (e : Event) : Runs f fdt b → Ok b e → step b e = some b' → Runs f fdt b'

variable {f : Firmware} {fdt n order a tid v : ℕ} {b b' : State} {m m' m₀ : Pmap} {g : Ram} {marked : List ℕ}
  {live live' : List (ℕ × ℕ)} {pages : Pages} {e : MachineEvent} {x : Machine} {t : Tcb} {root : Table} {h : Holder}

lemma Asked.proper (ha : Asked e) (hp : NewPages x.owner e.pages) : x.Proper e := by
  match e with
  | .call (.page _ (.map ..)) => exact ⟨ha.1, ha.2.1, ha.2.2, hp⟩
  | .call (.page _ (.unmap _)) => exact ha
  | .call (.exec ..) => exact ⟨ha, hp⟩
  | .call (.create ..) => exact hp
  | .call (.createProc ..) => exact hp
  | .call (.ipc ..) => trivial
  | .call (.resp _) => trivial
  | .call (.fault _) => trivial
  | .call (.swap _) => trivial
  | .call (.detach _) => trivial
  | .exit _ => trivial
  | .share _ => trivial
  | .unshare _ => trivial

structure Drawn (live live' : List (ℕ × ℕ)) (pages : Pages) : Prop where
  grown : ∀ y ∈ live, y ∈ live'
  taken : ∀ p ∈ pages, p ≠ 0 → (0, p) ∈ live' ∧ (0, p) ∉ live
  nodup : (pages.filter (· ≠ 0)).Nodup

lemma allocPages_drawn (h₀ : Owned g m₀ [] marked) (hr : Run FreeFindsSets m₀ m live)
    (hd : allocPages n m live = some (pages, m', live')) : Run FreeFindsSets m₀ m' live' ∧ Drawn live live' pages := by
  induction n generalizing m live pages with
  | zero =>
    cases hd
    exact ⟨hr, fun _ hy => hy, fun p hp => (by cases hp), List.nodup_nil⟩
  | succ n ih =>
    simp only [allocPages, Option.bind_eq_bind, Option.bind_eq_some_iff] at hd
    obtain ⟨⟨a, m₁⟩, halloc, ⟨rest, m₂, live₂⟩, hrest, hd⟩ := hd
    cases hd
    have hr₁ := hr.alloc halloc
    obtain ⟨hrun, hdrawn⟩ := ih hr₁ hrest
    refine ⟨hrun, ?_⟩
    by_cases ha : a = 0
    · rw [if_pos ha] at hdrawn
      refine ⟨hdrawn.grown, fun p hp hp0 => ?_, ?_⟩
      · obtain rfl | hp := List.mem_cons.1 hp
        · exact absurd ha hp0
        · exact hdrawn.taken p hp hp0
      · rw [List.filter_cons_of_neg (by simpa using ha)]
        exact hdrawn.nodup
    · have hnew := (hr₁.owned h₀).2.nodup
      rw [if_neg ha] at hdrawn hnew
      have hfresh := (List.nodup_cons.1 hnew).1
      refine ⟨fun y hy => hdrawn.grown y (List.mem_cons_of_mem _ hy), fun p hp hp0 => ?_, ?_⟩
      · obtain rfl | hp := List.mem_cons.1 hp
        · exact ⟨hdrawn.grown _ List.mem_cons_self, hfresh⟩
        · obtain ⟨hin, hnot⟩ := hdrawn.taken p hp hp0
          exact ⟨hin, fun hmem => hnot (List.mem_cons_of_mem _ hmem)⟩
      · rw [List.filter_cons_of_pos (by simpa using ha), List.nodup_cons]
        refine ⟨fun hmem => ?_, hdrawn.nodup⟩
        exact (hdrawn.taken a (List.mem_of_mem_filter hmem) ha).2 List.mem_cons_self

/-- The pages that are handed out have a place each, away from what `init_pmem` keeps. -/
structure Placed (f : Firmware) (fdt : ℕ) (y : ℕ × ℕ) : Prop where
  aligned : 4096 ∣ y.2
  top : y.2 + orderSize y.1 < 2 ^ 64
  kept : ∀ r ∈ keptRegions f (va fdt), ¬ Intersects y.2 (orderSize y.1) r.base r.size

structure Started (f : Firmware) (fdt : ℕ) (g : Ram) (m₀ : Pmap) : Prop where
  bytes : g.bytes = f.ramSize
  accounted : Accounted g (va f.ramBase) m₀ [] (markReserved (va f.ramBase) f.ramSize
    (avoidRegions f (va fdt) ++ [pmapPlace f (va fdt)]))

lemma exists_started {place : AvoidRegion} (hf : f.Sane fdt) (hi : initPmem f (va fdt) = some (m₀, place)) :
    ∃ g, Started f fdt g m₀ := by
  obtain ⟨g, hg, m₁, hm₁, hacc, -⟩ := hf.init
  cases hm₁.symm.trans hi
  exact ⟨g, hg, hacc⟩

lemma Started.placed {y : ℕ × ℕ} (hs : Started f fdt g m₀) (hf : f.Sane fdt) (hr : Run FreeFindsSets m₀ m live)
    (hy : y ∈ live) : Placed f fdt y := by
  obtain ⟨hlo, hhi, hkept⟩ := hf.live_avoids hs.bytes hs.accounted hr hy
  have hlow := hf.low
  rw [va_eq (by omega)] at hhi
  refine ⟨?_, by omega, hkept⟩
  obtain ⟨hb, hown⟩ := hr.owned hs.accounted.owned
  obtain ⟨p, hp, -⟩ := hown.inside hy
  obtain ⟨c, hc⟩ := hf.base_aligned
  obtain ⟨s, hs'⟩ : 4096 ∣ orderSize y.1 := page_dvd_orderSize _
  rw [hb, hs.accounted.base, hc, hs'] at hp
  exact ⟨c + p * s, by rw [hp]; ring⟩

lemma Started.drawn (hs : Started f fdt g m₀) (hf : f.Sane fdt) (hr : Run FreeFindsSets m₀ m live')
    (hd : Drawn live live' pages) : ∀ p ∈ pages, p ≠ 0 → Placed f fdt (0, p) :=
  fun p hp hp0 => hs.placed hf hr (hd.taken p hp hp0).1

lemma Drawn.proper (hd : Drawn live live' pages) (hp : ∀ p ∈ pages, p ≠ 0 → Placed f fdt (0, p)) :
    ProperPages pages := by
  refine ⟨fun p hmem => ?_, hd.nodup⟩
  by_cases hp0 : p = 0
  · rw [hp0]
    exact ⟨by norm_num, rfl⟩
  · obtain ⟨halign, htop, -⟩ := hp p hmem hp0
    dsimp only at halign htop
    omega

lemma Placed.not_kernel {p : ℕ} (hp : Placed f fdt (0, p)) (hbase : va f.loadAddr ≤ p) :
    va f.loadAddr + f.kernelSize < p + 4096 := by
  by_contra htop
  apply hp.kept ⟨va f.loadAddr, f.kernelSize⟩ (List.mem_cons_of_mem _ List.mem_cons_self)
  rw [intersects_iff, show orderSize (0, p).1 = 4096 from rfl]
  dsimp only
  omega

structure Together (f : Firmware) (m₀ : Pmap) (b : State) : Prop where
  run : Run FreeFindsSets m₀ b.pmap b.live
  tables : ∀ a h, b.machine.owner a = some h → (0, a) ∈ b.live
  kernel : KernelRuns f.loadAddr b.machine
  base : va f.loadAddr ≤ kernelPage b.machine.sys.kvmem
  top : kernelPage b.machine.sys.kvmem + 4096 ≤ va f.loadAddr + f.kernelSize

lemma Together.machine (ht : Together f m₀ b) (hf : f.Sane fdt) (hs : Started f fdt g m₀) (ha : Asked e)
    (hc : b.machine.Careful e) (hstep : step b (.machine e) = some b') : Together f m₀ b' := by
  simp only [step, Option.bind_eq_bind, Option.bind_eq_some_iff] at hstep
  obtain ⟨⟨pages, m', live'⟩, hdraw, x', hx', hstep⟩ := hstep
  split_ifs at hstep with hpages
  cases hstep
  dsimp only at hpages
  subst hpages
  obtain ⟨hrun, hdrawn⟩ := allocPages_drawn hs.accounted.owned ht.run hdraw
  have hplaced := hs.drawn hf hrun hdrawn
  have hnew : NewPages b.machine.owner e.pages := by
    obtain ⟨halign, hnodup⟩ := hdrawn.proper hplaced
    refine ⟨halign, hnodup, fun p hp hp0 => ?_⟩
    cases hown : b.machine.owner p with
    | none => rfl
    | some h => exact absurd (ht.tables p h hown) (hdrawn.taken p hp hp0).2
  have hkernel : kernelPage b.machine.sys.kvmem ∉ e.pages := by
    intro hmem
    have hlow := hf.kernel.low
    have hbase := ht.base
    have htop := ht.top
    dsimp only at hlow
    rw [va_eq (by omega)] at hbase
    have hafter := (hplaced _ hmem (by omega)).not_kernel ht.base
    omega
  have hproper := ha.proper hnew
  obtain ⟨hkept, hspare⟩ := ht.kernel.kept
  have hsame := (hkept.step ht.kernel.careful.sound hspare hproper hc hkernel hx').same
  refine ⟨hrun, fun a h hown => ?_, ht.kernel.step e hproper hc hkernel hx', by rw [hsame]; exact ht.base,
    by rw [hsame]; exact ht.top⟩
  cases hold : b.machine.owner a with
  | some h' => exact hdrawn.grown _ (ht.tables a h' hold)
  | none =>
    by_contra hnot
    have hnone := step_owner hx' hold fun hmem => by
      by_contra ha0
      exact hnot (hdrawn.taken a hmem ha0).1
    dsimp only at hown
    rw [hnone] at hown
    cases hown

lemma Together.step {ev : Event} (ht : Together f m₀ b) (hf : f.Sane fdt) (hs : Started f fdt g m₀) (hok : Ok b ev)
    (hstep : Board.step b ev = some b') : Together f m₀ b' := by
  cases ev with
  | machine e => exact ht.machine hf hs hok.1 hok.2 hstep
  | alloc order =>
    simp only [Board.step, Option.bind_eq_bind, Option.bind_eq_some_iff] at hstep
    obtain ⟨⟨a, m'⟩, halloc, hstep⟩ := hstep
    cases hstep
    refine ⟨ht.run.alloc halloc, fun c h hown => ?_, ht.kernel, ht.base, ht.top⟩
    have hold := ht.tables c h hown
    dsimp only
    split_ifs
    · exact hold
    · exact List.mem_cons_of_mem _ hold
  | free order a =>
    simp only [Board.step, Option.bind_eq_bind, Option.bind_eq_some_iff] at hstep
    obtain ⟨m', hfree, hstep⟩ := hstep
    split_ifs at hstep with hc
    cases hstep
    refine ⟨ht.run.free (List.contains_iff_mem.1 hc.1) hok hfree, fun c h hown => ?_, ht.kernel, ht.base, ht.top⟩
    have hne : (0, c) ≠ (order, a) := by
      intro heq
      obtain ⟨rfl, rfl⟩ := Prod.mk.inj heq
      have hnone := hc.2 rfl
      dsimp only at hown
      rw [hnone] at hown
      cases hown
    exact (List.mem_erase_of_ne hne).2 (ht.tables c h hown)

lemma Runs.together (hr : Runs f fdt b) (hf : f.Sane fdt) : ∃ g m₀, Started f fdt g m₀ ∧ Together f m₀ b := by
  induction hr with
  | boot hi hl =>
    obtain ⟨g, hs⟩ := exists_started hf hi
    exact ⟨g, _, hs, .start, fun a h hown => (by cases hown), .boot _ _ hl.table, hl.base, hl.top⟩
  | step e _ hok hstep ih =>
    obtain ⟨g, m₀, hs, ht⟩ := ih
    exact ⟨g, m₀, hs, ht.step hf hs hok hstep⟩

section SmallBoard

lemma draws_two {ramBase bytes p p' : ℕ} (hacc : Accounted g ramBase m₀ [] marked) (hg : g.bytes = bytes)
    (hpos : 0 < ramBase) (hne : marked ≠ []) (hp : FreePage ramBase bytes [] marked 0 p)
    (hp' : FreePage ramBase bytes [] marked 0 p') (hpp : p ≠ p') :
    ∃ a a' m live, allocPages 2 m₀ [] = some ([a, a'], m, live) ∧ a ≠ 0 ∧ a' ≠ 0 := by
  subst hg
  obtain ⟨a, m₁, halloc, -⟩ := hacc.owned.alloc 0
  have ha := (hacc.alloc_iff hpos hne (Nat.zero_le _) halloc).2 ⟨p, hp⟩
  have hacc₁ := (Run.start.alloc halloc).accounted hacc hpos
  rw [if_neg ha] at hacc₁
  obtain ⟨a', m₂, halloc', -⟩ := hacc₁.owned.alloc 0
  have ha' : a' ≠ 0 := by
    apply (hacc₁.alloc_iff hpos hne (Nat.zero_le _) halloc').2
    obtain ⟨q, hq, -⟩ := hacc₁.owned.inside List.mem_cons_self
    rw [hacc₁.base] at hq
    dsimp only at hq
    have hfree : ∀ r ≠ q, FreePage ramBase g.bytes [] marked 0 r → FreePage ramBase g.bytes [(0, a)] marked 0 r := by
      rintro r hrq ⟨hle, -, hmarked⟩
      refine ⟨hle, fun y hy => ?_, hmarked⟩
      obtain rfl := List.mem_singleton.1 hy
      simp only [Apart, hq, show orderSize 0 = 4096 from rfl]
      omega
    by_cases hpq : p = q
    · exact ⟨p', hfree p' (fun heq => hpp (hpq.trans heq.symm)) hp'⟩
    · exact ⟨p, hfree p hpq hp⟩
  refine ⟨a, a', m₂, [(0, a'), (0, a)], ?_, ha, ha'⟩
  simp only [allocPages, halloc, halloc', Option.bind_eq_bind, Option.bind_some, if_neg ha, if_neg ha']

lemma smallBoard_free {c : ℕ} (hc : c = va 0x80040000 ∨ c = va 0x80041000) :
    ∃ p, c = va smallBoard.ramBase + p * orderSize 0 ∧ FreePage (va smallBoard.ramBase) smallBoard.ramSize []
      (markReserved (va smallBoard.ramBase) smallBoard.ramSize
        (avoidRegions smallBoard (va 0x80040000) ++ [pmapPlace smallBoard (va 0x80040000)])) 0 p := by
  have hpage : RamPage (va smallBoard.ramBase) smallBoard.ramSize c := by
    obtain rfl | rfl := hc
    · exact ⟨by decide, by decide, by decide⟩
    · exact ⟨by decide, by decide, by decide⟩
  apply (free_iff smallBoard_sane.markRight smallBoard_sane.base_aligned).2
  refine ⟨hpage, fun r hr hmeet => ?_⟩
  obtain ⟨r', hr', hmeet'⟩ := (smallBoard_sane.meets_kept hpage).1 ⟨r, hr, hmeet⟩
  obtain ⟨hbase, hsize⟩ := smallBoard_place
  rw [intersects_iff] at hmeet'
  obtain rfl | rfl | rfl | hr' := by simpa only [keptRegions, List.mem_cons] using hr'
  · rw [hbase, hsize] at hmeet'
    obtain rfl | rfl := hc
    · exact absurd hmeet' (by decide)
    · exact absurd hmeet' (by decide)
  · obtain rfl | rfl := hc
    · exact absurd hmeet' (by decide)
    · exact absurd hmeet' (by decide)
  · obtain rfl | rfl := hc
    · exact absurd hmeet' (by decide)
    · exact absurd hmeet' (by decide)
  · obtain rfl := List.mem_singleton.1 hr'
    obtain rfl | rfl := hc
    · exact absurd hmeet' (by decide)
    · exact absurd hmeet' (by decide)

lemma mem_mapTables_first {left top : ℕ} {c : Option ℕ} {m : Space} (hu : unused (m.leaf c (vmToIndex v top)) = true)
    (ha : a ≠ 0) : a ∈ (mapTables v (left + 1) top c (a :: pages) m).map Prod.fst := by
  rw [mapTables, if_pos hu]
  simp only [createLeaf, if_neg ha, List.headD_cons, List.map_cons, List.mem_cons, true_or]

lemma first_process {p p' kvmem : ℕ} {low : ℕ → Table} {place : AvoidRegion} (page : ℕ) (hf : f.Sane fdt)
    (hs : Started f fdt g m₀) (hi : initPmem f (va fdt) = some (m₀, place)) (hl : Loaded f kvmem low)
    (hne : markReserved (va f.ramBase) f.ramSize (avoidRegions f (va fdt) ++ [pmapPlace f (va fdt)]) ≠ [])
    (hp : FreePage (va f.ramBase) f.ramSize [] (markReserved (va f.ramBase) f.ramSize
      (avoidRegions f (va fdt) ++ [pmapPlace f (va fdt)])) 0 p)
    (hp' : FreePage (va f.ramBase) f.ramSize [] (markReserved (va f.ramBase) f.ramSize
      (avoidRegions f (va fdt) ++ [pmapPlace f (va fdt)])) 0 p') (hpp : p ≠ p') :
    ∃ b a, Runs f fdt b ∧ b.machine.sys.tcbs 1 = some (freshTcb kvmem 1 a) ∧ b.machine.owner a = some (.stack 1) := by
  have hpos : 0 < va f.ramBase := by
    have hlow := hf.low
    rw [va_eq (by omega)]
    omega
  obtain ⟨a, a', m, live, hdraw, ha, ha'⟩ := draws_two hs.accounted hs.bytes hpos hne hp hp' hpp
  obtain ⟨hrun, hdrawn⟩ := allocPages_drawn hs.accounted.owned .start hdraw
  have hproper := hdrawn.proper (hs.drawn hf hrun hdrawn)
  obtain ⟨low', hcreate⟩ := @step_createProc (initTcbs kvmem low) a a' 1 page rfl hproper ha ha'
  refine ⟨⟨⟨⟨kvmem, low', Function.update (fun _ => none) 1 (some (freshTcb kvmem 1 a))⟩,
    Function.update (fun _ => 0) 1 1, handOut (fun _ => none) (.stack 1)
      (mapTables RPC_STACK_BASE maxOrder maxOrder none [a, a'] ⟨createVmem kvmem, low⟩)⟩, m, live⟩, a,
    .step (.machine (.call (.createProc 1 page [a, a']))) (.boot hi hl) ⟨trivial, trivial⟩ ?_, ?_, ?_⟩
  · simp only [step, MachineEvent.pages, List.length_cons, List.length_nil, hdraw, Machine.step, Machine.call,
      initMachine, hcreate, Option.bind_eq_bind, Option.bind_some]
    rfl
  · simp only [Function.update_self]
  · have hu : unused ((⟨createVmem kvmem, low⟩ : Space).leaf none (vmToIndex RPC_STACK_BASE maxOrder)) = true := by
      rw [vmToIndex_rpcStackBase]
      rfl
    exact if_pos (@mem_mapTables_first _ _ _ 1 maxOrder none _ hu ha)

lemma smallBoard_runs : ∃ b a, Runs smallBoard 0x80040000 b ∧
    b.machine.sys.tcbs 1 = some (freshTcb 0x80001000 1 a) ∧ b.machine.owner a = some (.stack 1) := by
  obtain ⟨g, hg, m₀, hm₀, hacc, hne⟩ := smallBoard_sane.init
  obtain ⟨p, hp, hfree⟩ := smallBoard_free (.inl rfl)
  obtain ⟨p', hp', hfree'⟩ := smallBoard_free (.inr rfl)
  have hpp : p ≠ p' := by
    rintro rfl
    exact absurd (hp.trans hp'.symm) (by decide)
  have hl : Loaded smallBoard 0x80001000 fun _ => kvmemTable 0x80000000 := ⟨rfl, by decide, by decide⟩
  exact first_process 0x200000 smallBoard_sane ⟨hg, hacc⟩ hm₀ hl hne hfree hfree' hpp

end SmallBoard

structure OwnPage (f : Firmware) (fdt : ℕ) (b : State) (a : ℕ) : Prop where
  mem : (0, a) ∈ b.live
  apart : ∀ y ∈ b.live, y ≠ (0, a) → Apart (0, a) y
  next : ∀ order p m', allocPage b.pmap order = some (p, m') → p ≠ 0 → Apart (0, a) (order, p)
  kept : ∀ r ∈ keptRegions f (va fdt), ¬ Intersects a 4096 r.base r.size

/-- Whatever is mapped, unmapped, loaded, destroyed, allocated and freed, in any order, the tables
that the threads run on are handed out, and a table shares no byte with any other page that is
handed out, with the next one that is, or with the kernel. -/
theorem board_tables (hf : f.Sane fdt) (hr : Runs f fdt b) :
    TablesHeld b.machine ∧ ∀ a h, b.machine.owner a = some h → OwnPage f fdt b a := by
  obtain ⟨g, m₀, hs, ht⟩ := hr.together hf
  refine ⟨ht.kernel.careful.sound.tablesHeld, fun a h hown => ?_⟩
  have hmem := ht.tables a h hown
  have howned := (ht.run.owned hs.accounted.owned).2
  refine ⟨hmem, fun y hy hne => howned.apart hmem hy hne.symm, fun order p m' halloc hp => ?_,
    (hs.placed hf ht.run hmem).kept⟩
  have hnext := ((ht.run.alloc halloc).owned hs.accounted.owned).2
  rw [if_neg hp] at hnext
  have hnew := (List.nodup_cons.1 hnext.nodup).1
  apply hnext.apart (List.mem_cons_of_mem _ hmem) List.mem_cons_self
  intro heq
  rw [← heq] at hnew
  exact hnew hmem

theorem board_tables_small : ∃ b a, Runs smallBoard 0x80040000 b ∧ b.machine.owner a = some (.stack 1) ∧
    OwnPage smallBoard 0x80040000 b a := by
  obtain ⟨b, a, hr, -, hown⟩ := smallBoard_runs
  exact ⟨b, a, hr, hown, (board_tables smallBoard_sane hr).2 a _ hown⟩

theorem board_kernel (hf : f.Sane fdt) (hr : Runs f fdt b) (hal : f.loadAddr % orderSize 1 = 0)
    (ht : b.machine.sys.tcbs tid = some t) (hroot : root = t.rpc ∨ t.proc = some root) (hv : 2 ^ 38 ≤ v)
    (hv' : v < VM_IO) : hwAddress ⟨root, b.machine.sys.low⟩ false v = kernelAddress f.loadAddr v ∧
      hwAddress ⟨root, b.machine.sys.low⟩ true v = none := by
  obtain ⟨g, m₀, -, hto⟩ := hr.together hf
  have hload : f.loadAddr < 2 ^ 64 := by
    have hlow := hf.kernel.low
    dsimp only at hlow
    omega
  have hlt : v < 2 ^ 64 := hv'.trans VM_IO_lt
  exact ⟨hto.kernel.address hal hload ht hroot hv hlt, hto.kernel.address hal hload ht hroot hv hlt⟩

theorem board_kernel_small : ∃ b t, Runs smallBoard 0x80040000 b ∧ b.machine.sys.tcbs 1 = some t ∧
    hwAddress ⟨t.rpc, b.machine.sys.low⟩ false (VM_KERNEL + 5) = some (0x80000000 + 5) := by
  obtain ⟨b, a, hr, ht, -⟩ := smallBoard_runs
  obtain ⟨hkernel, -⟩ := @board_kernel smallBoard 0x80040000 1 (VM_KERNEL + 5) b _ _ smallBoard_sane hr rfl ht
    (.inl rfl) (by decide) (by decide)
  exact ⟨b, _, hr, ht, hkernel.trans (by decide)⟩

end Kmi.Board
