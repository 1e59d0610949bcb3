import Kmi.Regions.Used

/-! The region map over whole runs. -/

namespace Kmi.Regions

open Kmi.Library.LinkedList Kmi.SpTree Kmi.Mem

variable {m m' : RegionMap} {xs : List ℕ}

def initNode (m : RegionMap) (x start arenaSize reserved : ℕ) : RegionMap :=
  { m with
    heap := clearNode m.heap x
    list := (m.list.setNext (some x) none).setPrev (some x) none
    region := Function.update m.region x ⟨page start + page arenaSize, page start, 0, 0, 0⟩
    taken := Function.update m.taken x true
    usedNodes := m.usedNodes + 1
    reserved := page reserved
    start := page start
    stop := page start + page arenaSize }

lemma initRegion_eq {x start arenaSize reserved : ℕ} (htk : m.taken x = false) :
    initRegion m (some x) start arenaSize reserved =
      (insertFreeRegion (initNode m x start arenaSize reserved) x).bind fun m => some (m, OK) := by
  simp [initRegion, getMemNode, htk, RegionMap.setRegion, initNode]

lemma initNode_trees {x start arenaSize reserved : ℕ} (hf : m.freeRegions = none)
    (hu : m.usedRegions = none) : Trees (initNode m x start arenaSize reserved) [] [] := by
  refine ⟨?_, ?_, .nil, .nil, by simp⟩
  · rw [initNode]
    exact hf ▸ holds_nil_iff.2 rfl
  · rw [initNode]
    exact hu ▸ holds_nil_iff.2 rfl

lemma initRegion_free {x start arenaSize reserved : ℕ} {status : ℤ}
    (h : initRegion m (some x) start arenaSize reserved = some (m', status)) : m.taken x = false := by
  cases htk : m.taken x with
  | true => simp [initRegion, getMemNode, htk] at h
  | false => rfl

lemma initRegion_partition {m₀ : RegionMap} {x start arenaSize reserved : ℕ} {status : ℤ}
    (hf : m₀.freeRegions = none) (hu : m₀.usedRegions = none) (hne : 0 < page arenaSize)
    (h : initRegion m₀ (some x) start arenaSize reserved = some (m, status)) :
    Partition m [x] ∧ m.start = page start ∧ m.stop = page start + page arenaSize := by
  have ht := @initNode_trees m₀ x start arenaSize reserved hf hu
  have hreg : (initNode m₀ x start arenaSize reserved).region x =
      ⟨page start + page arenaSize, page start, 0, 0, 0⟩ := Function.update_self ..
  obtain ⟨root, heap, frees, hi, ht', hfrees⟩ := ht.insertFree (x := x) (by simp) (by simp) (by simp)
    (by simp [RegionMap.fuel])
  rw [initRegion_eq (initRegion_free h), hi] at h
  simp only [Option.bind_some, Option.some.injEq, Prod.mk.injEq] at h
  obtain ⟨rfl, -⟩ := h
  refine ⟨⟨?_, ?_, ?_, ⟨frees, [], ht', ?_, ?_⟩, ?_, ?_⟩, rfl, rfl⟩
  · refine ⟨by simp, some x, rfl, ?_, rfl, ?_⟩ <;> simp [initNode]
  · refine ⟨?_, ?_, ?_⟩
    · rw [hreg]
      rfl
    · rw [hreg]
      change page start < page start + page arenaSize
      omega
    · rw [hreg]
      rfl
  · exact List.isChain_singleton _
  · intro y
    rw [hfrees]
    simp only [List.mem_singleton, List.not_mem_nil, or_false]
    constructor
    · rintro rfl
      exact ⟨rfl, by simp [hreg, Region.used]⟩
    · exact fun hy => hy.1
  · intro y
    simp only [List.not_mem_nil, List.mem_singleton, false_iff]
    rintro ⟨rfl, hy⟩
    simp [hreg, Region.used] at hy
  · simp [initNode]
  · simp [initNode]

inductive Run : RegionMap → Prop
  | init {m₀ m : RegionMap} {x start arenaSize reserved : ℕ} {status : ℤ} :
      m₀.freeRegions = none → m₀.usedRegions = none → start < 2 ^ 64 → arenaSize < 2 ^ 64 →
      0 < page arenaSize → initRegion m₀ (some x) start arenaSize reserved = some (m, status) →
      Run m
  | alloc {m m' : RegionMap} {pre post : Option ℕ} {start size pid addr asize : ℕ} {flags : Flags} :
      Run m → m.start ≤ page start → page start < m.stop → 0 < size →
      size + basePageSize ≤ 2 ^ 64 →
      allocSharedFixedRegion m pre post start size flags pid = some (m', addr, asize) → Run m'
  | free {m m' : RegionMap} {start : ℕ} {status : ℤ} : Run m →
      freeRegion m start = some (m', status) → Run m'

lemma freeRegion_spec (h : Partition m xs) (start : ℕ) :
    ∃ m' status, freeRegion m start = some (m', status) ∧
      (status = OK ↔ isAligned start basePageSize = true ∧
        ∃ x ∈ xs, (m.region x).used = true ∧ (m.region x).start = page start) ∧
      (status ≠ OK → m' = m) ∧ (∃ xs', Partition m' xs') ∧ m'.start = m.start ∧
      m'.stop = m.stop := by
  cases hal : isAligned start basePageSize with
  | false =>
    refine ⟨m, ERR_ALIGN, by simp [freeRegion, hal], ?_, fun _ => rfl, ⟨xs, h⟩, rfl, rfl⟩
    simp [ERR_ALIGN, OK]
  | true =>
    obtain ⟨r, hr, hmem⟩ := findUsedRegion_spec h start
    cases r with
    | none =>
      refine ⟨m, ERR_NF, by simp [freeRegion, hal, hr], ?_, fun _ => rfl, ⟨xs, h⟩, rfl, rfl⟩
      constructor
      · simp [ERR_NF, OK]
      · rintro ⟨-, x, hx, hxu, hxs⟩
        cases (hmem x).2 ⟨⟨hx, hxu⟩, hxs⟩
    | some x =>
      obtain ⟨⟨hx, hxu⟩, hxs⟩ := (hmem x).1 rfl
      obtain ⟨m', hf, hd⟩ := freeKnownRegion_freed h hx hxu
      obtain ⟨xs', hp, -⟩ := hd.whole
      refine ⟨m', OK, by simp [freeRegion, hal, hr, hf], ?_, fun hne => absurd rfl hne, ⟨xs', hp⟩,
        hd.start, hd.stop⟩
      exact ⟨fun _ => ⟨rfl, x, hx, hxu, hxs⟩, fun _ => rfl⟩

lemma Run.partition (h : Run m) : (∃ xs, Partition m xs) ∧ m.stop ≤ 2 ^ 53 := by
  induction h with
  | init hf hu hs ha hne hi =>
    obtain ⟨hp, hms, hme⟩ := initRegion_partition hf hu hne hi
    refine ⟨⟨_, hp⟩, ?_⟩
    have hb := basePageSize_eq
    rw [hme, page, page, hb]
    omega
  | alloc _ hs he hpos hwrap hr ih =>
    obtain ⟨⟨xs, hp⟩, hstop⟩ := ih
    obtain ⟨ys, x, zs, rfl, -, -, ⟨-, heq⟩ | ⟨hx, hfit, heq⟩⟩ := allocSharedFixedRegion_cases hp hstop hs he
    · rw [heq] at hr
      obtain ⟨rfl, -⟩ := Prod.mk.inj (Option.some.inj hr)
      exact ⟨⟨_, hp⟩, hstop⟩
    · rw [heq, Option.bind_eq_some_iff] at hr
      obtain ⟨r, hr, hres⟩ := hr
      obtain ⟨rfl, -⟩ := Prod.mk.inj (Option.some.inj hres)
      obtain ⟨hp', -, hme⟩ := partitionRegion_partition hp hx (by omega) (pagesOf_pos hpos hwrap)
        hfit hr
      exact ⟨hp', hme ▸ hstop⟩
  | @free m _ start _ _ hr ih =>
    obtain ⟨⟨xs, hp⟩, hstop⟩ := ih
    obtain ⟨m', status, hf, -, -, hp', -, hme⟩ := freeRegion_spec hp start
    obtain ⟨rfl, -⟩ := Prod.mk.inj (Option.some.inj (hf.symm.trans hr))
    exact ⟨hp', hme ▸ hstop⟩

/-- Every map of a run is a partition of its arena, both operations have a result, and
`free_region` answers OK exactly for the starts of used regions. -/
theorem run_partition (h : Run m) :
    ∃ xs, Partition m xs ∧
      (∀ start, ∃ m' status, freeRegion m start = some (m', status) ∧
        (status = OK ↔ isAligned start basePageSize = true ∧
          ∃ x ∈ xs, (m.region x).used = true ∧ (m.region x).start = page start) ∧
        (status ≠ OK → m' = m)) ∧
      ∀ pre post start size flags pid, m.taken pre = false → m.taken post = false → post ≠ pre →
        m.start ≤ page start → page start < m.stop → 0 < size → size + basePageSize ≤ 2 ^ 64 →
        ∃ r, allocSharedFixedRegion m (some pre) (some post) start size flags pid = some r := by
  obtain ⟨⟨xs, hp⟩, hstop⟩ := h.partition
  refine ⟨xs, hp, fun start => ?_, ?_⟩
  · obtain ⟨m', status, hf, hok, hsame, -⟩ := freeRegion_spec hp start
    exact ⟨m', status, hf, hok, hsame⟩
  · intro pre post start size flags pid hpre hpost hne hs he hpos hwrap
    obtain ⟨ys, x, zs, rfl, -, -, ⟨-, heq⟩ | ⟨hx, hfit, heq⟩⟩ := @allocSharedFixedRegion_cases m xs
      (some pre) (some post) start size pid flags hp hstop hs he
    · exact ⟨_, heq⟩
    · obtain ⟨r, hr⟩ := @partitionRegion_exists m ys zs x pre post _ _ pid flags hp hx
        (by omega) (pagesOf_pos hpos hwrap) hfit hpre hpost hne
      rw [heq, hr]
      exact ⟨_, rfl⟩

def emptyMap : RegionMap where
  heap := ⟨⟨fun _ => none, fun _ => none, fun _ => none⟩, fun _ => 0⟩
  list := ⟨fun _ => none, fun _ => none⟩
  region := fun _ => ⟨0, 0, 0, 0, 0⟩
  taken := fun _ => false
  usedNodes := 0
  reserved := 0
  start := 0
  stop := 0
  freeRegions := none
  usedRegions := none

def sixteenPages : RegionMap :=
  ((initRegion emptyMap (some 1) 4096 65536 0).map Prod.fst).getD emptyMap

def sixteenPagesCarved : RegionMap :=
  ((allocSharedFixedRegion sixteenPages (some 2) (some 3) 8192 4096 0 0).map Prod.fst).getD emptyMap

theorem run_partition_sixteen_pages :
    Run sixteenPagesCarved ∧ (sixteenPagesCarved.region 1).used = true ∧
      sixteenPagesCarved.list.prev 1 = some 2 ∧ sixteenPagesCarved.list.next 1 = some 3 ∧
      ∃ xs, Partition sixteenPagesCarved xs := by
  have hinit : Run sixteenPages := @Run.init emptyMap sixteenPages 1 4096 65536 0 OK rfl rfl
    (by decide) (by decide) (by decide) rfl
  have hrun : Run sixteenPagesCarved := @Run.alloc sixteenPages sixteenPagesCarved (some 2) (some 3)
    8192 4096 0 8192 4096 0 hinit (by decide) (by decide) (by decide) (by decide) rfl
  obtain ⟨xs, hp, -⟩ := run_partition hrun
  exact ⟨hrun, rfl, rfl, rfl, xs, hp⟩

end Kmi.Regions
