import Kmi.Regions.Nearest
import Kmi.Uvmem.Model

/-! The loops of `src/vmem.c` through all regions of a process: copying, clearing and purging them. -/

namespace Kmi.Uvmem

open BinaryTree Kmi.Mem Kmi.Regions Kmi.Library.LinkedList Kmi.Library.PointerTree

def MR_KEEP : Flags := 1 <<< 9

/-- `for (; m; m = m->next)`, with the regions that the body is entered for. -/
def walk (body : RegionMap → ℕ → Option RegionMap) : ℕ → RegionMap → Option ℕ → Option (RegionMap × List ℕ)
  | _, m, none => some (m, [])
  | 0, _, some _ => none
  | fuel + 1, m, some x => do
    let m ← body m x
    let (m, visited) ← walk body fuel m (m.list.next x)
    some (m, x :: visited)

section Copy

-- what `__copy_mapped_region` and `__copy_shared_region` answer
variable (copyMapped copyShared : ℕ → ℤ)

def copyOne (m : RegionMap) (x : ℕ) : ℤ :=
  let g := m.region x
  if !g.used then OK else if g.pid = 0 then copyMapped x else copyShared x

/-- The loop of `copy_uvmem`. The copies change no field of this map that it reads. -/
def copyWalk (m : RegionMap) : ℕ → Option ℕ → Option (ℤ × List ℕ)
  | _, none => some (OK, [])
  | 0, some _ => none
  | fuel + 1, some x =>
    let ret := copyOne copyMapped copyShared m x
    if ret ≠ OK then some (ret, [x])
    else do
      let (ret, visited) ← copyWalk m fuel (m.list.next x)
      some (ret, x :: visited)

def copyUvmem (m : RegionMap) : Option (ℤ × List ℕ) := do
  let first ← findFirstRegion m
  copyWalk copyMapped copyShared m m.fuel first

end Copy

section Free

-- what `unreference_mem` does to this map when the region of another one is a region of this one too
variable (unref : RegionMap → ℕ → Option RegionMap)

def dropReference (m : RegionMap) (x : ℕ) : Option RegionMap :=
  if (m.region x).pid = 0 then some m else unref m x

def clearOne (m : RegionMap) (x : ℕ) : Option RegionMap :=
  let g := m.region x
  if g.flags &&& MR_KEEP ≠ 0 then some m
  else if !g.used then some m
  else if g.pid = 0 ∧ g.refcount > 1 then some (m.setRegion x { g with refcount := g.refcount - 1 })
  else do
    let m ← dropReference unref m x
    freeKnownRegion m x

def purgeOne (m : RegionMap) (x : ℕ) : Option RegionMap :=
  if !(m.region x).used then some m else dropReference unref m x

def clearUvmem (m : RegionMap) : Option (RegionMap × List ℕ) := do
  let first ← findFirstRegion m
  walk (clearOne unref) (m.stop - m.start) m first

def purgeUvmem (m : RegionMap) : Option (RegionMap × List ℕ) := do
  let first ← findFirstRegion m
  walk (purgeOne unref) (m.stop - m.start) m first

end Free

/-- While the reference of `x` is given back, regions of the map lose references, and those that are `own` to
it as the process shares them with itself can be freed. -/
inductive Drops (own : ℕ → Prop) (x : ℕ) : RegionMap → RegionMap → Prop where
  | none {m} : Drops own x m m
  | count {m m'} (y n : ℕ) : Drops own x m m' → Drops own x m (m'.setRegion y { m'.region y with refcount := n })
  | free {m m' m'' y} (addr : ℕ) : Drops own x m m' → findUsedRegion m' addr = some (some y) → y ≠ x → own y →
      freeKnownRegion m' y = some m'' → Drops own x m m''

def DropsReferences (own : ℕ → Prop) (unref : RegionMap → ℕ → Option RegionMap) : Prop :=
  ∀ m xs x, Partition m xs → x ∈ xs → (m.region x).used = true → ∃ m', unref m x = some m' ∧ Drops own x m m'

/-- What is left of the map for the rest of a walk that is at `x`. -/
structure Round (own : ℕ → Prop) (m m' : RegionMap) (xs xs' : List ℕ) (x : ℕ) : Prop where
  whole : Partition m' xs'
  here : x ∈ xs'
  start : (m'.region x).start ≤ (m.region x).start
  stop : (m.region x).stop ≤ (m'.region x).stop
  last : m'.stop = m.stop
  still : ∀ y, (m'.region y).used = true → (m.region y).used = true ∧ (y ∈ xs' ↔ y ∈ xs) ∧
    (m'.region y).start = (m.region y).start
  kept : ∀ y, y ≠ x → (m.region y).used = true → (m'.region y).used = true ∨ own y

variable {own : ℕ → Prop} {m m' m'' : RegionMap} {xs xs' xs'' ys zs : List ℕ} {x y fuel : ℕ}
  {unref body : RegionMap → ℕ → Option RegionMap} {copyMapped copyShared : ℕ → ℤ}

lemma Round.refl (hp : Partition m xs) (hx : x ∈ xs) : Round own m m xs xs x :=
  ⟨hp, hx, le_rfl, le_rfl, rfl, fun _ hy => ⟨hy, Iff.rfl, rfl⟩, fun _ _ hy => .inl hy⟩

lemma Round.trans (h : Round own m m' xs xs' x) (h' : Round own m' m'' xs' xs'' x) :
    Round own m m'' xs xs'' x where
  whole := h'.whole
  here := h'.here
  start := h'.start.trans h.start
  stop := h.stop.trans h'.stop
  last := h'.last.trans h.last
  still := by
    intro y hy
    obtain ⟨hy', hmem', hs'⟩ := h'.still y hy
    obtain ⟨hy, hmem, hs⟩ := h.still y hy'
    exact ⟨hy, hmem'.trans hmem, hs'.trans hs⟩
  kept := by
    intro y hne hy
    obtain hy' | hown := h.kept y hne hy
    · exact h'.kept y hne hy'
    · exact .inr hown

lemma Round.count (hp : Partition m xs) (hx : x ∈ xs) (y n : ℕ) :
    Round own m (m.setRegion y { m.region y with refcount := n }) xs xs x := by
  have hreg : ∀ z, ((m.setRegion y { m.region y with refcount := n }).region z).start = (m.region z).start ∧
      ((m.setRegion y { m.region y with refcount := n }).region z).stop = (m.region z).stop ∧
      ((m.setRegion y { m.region y with refcount := n }).region z).used = (m.region z).used := by
    intro z
    obtain rfl | hne := eq_or_ne z y
    · simp [RegionMap.setRegion, Region.used]
    · simp [RegionMap.setRegion, hne]
  refine ⟨hp.setRegion rfl rfl rfl, hx, (hreg x).1.le, (hreg x).2.1.ge, rfl, ?_, ?_⟩
  · intro z hz
    rw [(hreg z).2.2] at hz
    exact ⟨hz, Iff.rfl, (hreg z).1⟩
  · intro z _ hz
    rw [(hreg z).2.2]
    exact .inl hz

lemma Round.free (hp : Partition m xs) (hx : x ∈ xs) (hy : y ∈ xs) (hyu : (m.region y).used = true)
    (hxu : (m.region x).used = true) (hown : y = x ∨ own y) (hf : freeKnownRegion m y = some m') :
    ∃ xs', Round own m m' xs xs' x := by
  obtain ⟨m₁, xs', heq, hp', hy', hmem, hs, he, hfree, hlo, hhi, hothers⟩ := freeKnownRegion_stays hp hy hyu
  obtain rfl := Option.some.inj (heq.symm.trans hf)
  have hstill : ∀ z, (m₁.region z).used = true → (m.region z).used = true ∧ (z ∈ xs' ↔ z ∈ xs) ∧
      (m₁.region z).start = (m.region z).start := by
    intro z hz
    have hne : z ≠ y := by
      rintro rfl
      rw [hfree] at hz
      exact Bool.false_ne_true hz
    have hz' := hz
    rw [hothers z hne] at hz'
    exact ⟨hz', hmem z hz, by rw [hothers z hne]⟩
  have hkept : ∀ z, z ≠ x → (m.region z).used = true → (m₁.region z).used = true ∨ own z := by
    intro z hne hz
    obtain rfl | hzy := eq_or_ne z y
    · exact .inr (hown.resolve_left hne)
    · rw [hothers z hzy]
      exact .inl hz
  obtain rfl | hne := eq_or_ne x y
  · exact ⟨xs', hp', hy', hlo, hhi, he, hstill, hkept⟩
  · have hxu' : (m₁.region x).used = true := by rw [hothers x hne, hxu]
    exact ⟨xs', hp', (hmem x hxu').2 hx, by rw [hothers x hne], by rw [hothers x hne], he, hstill,
      hkept⟩

lemma Drops.round (h : Drops own x m m') (hp : Partition m xs) (hx : x ∈ xs) (hu : (m.region x).used = true) :
    ∃ xs', Round own m m' xs xs' x ∧ (m'.region x).used = true := by
  induction h with
  | none => exact ⟨xs, .refl hp hx, hu⟩
  | count y n _ ih =>
    obtain ⟨xs', hr, hu'⟩ := ih
    refine ⟨xs', hr.trans (.count hr.whole hr.here y n), ?_⟩
    obtain rfl | hne := eq_or_ne x y
    · simpa [RegionMap.setRegion, Region.used] using hu'
    · simpa [RegionMap.setRegion, hne] using hu'
  | free addr _ hy hne hown hf ih =>
    obtain ⟨xs', hr, hu'⟩ := ih
    obtain ⟨found, hfound, hmem⟩ := findUsedRegion_spec hr.whole addr
    obtain ⟨⟨hy', hyu⟩, -⟩ := (hmem _).1 (Option.some.inj (hfound.symm.trans hy))
    obtain ⟨xs'', hr'⟩ := Round.free hr.whole hr.here hy' hyu hu' (.inr hown) hf
    refine ⟨xs'', hr.trans hr', ?_⟩
    obtain ⟨m₁, _, heq, -, -, -, -, -, -, -, -, hothers⟩ := freeKnownRegion_stays hr.whole hy' hyu
    obtain rfl := Option.some.inj (heq.symm.trans hf)
    rw [hothers x hne.symm, hu']

def Keeps (own : ℕ → Prop) (body : RegionMap → ℕ → Option RegionMap) : Prop :=
  ∀ m xs x, Partition m xs → x ∈ xs → ∃ m' xs', body m x = some m' ∧ Round own m m' xs xs' x

lemma dropReference_round (h : DropsReferences own unref) (hp : Partition m xs) (hx : x ∈ xs)
    (hu : (m.region x).used = true) :
    ∃ m' xs', dropReference unref m x = some m' ∧ Round own m m' xs xs' x ∧ (m'.region x).used = true := by
  rw [dropReference]
  split_ifs
  · exact ⟨m, xs, rfl, .refl hp hx, hu⟩
  · obtain ⟨m', heq, hd⟩ := h m xs x hp hx hu
    obtain ⟨xs', hr⟩ := hd.round hp hx hu
    exact ⟨m', xs', heq, hr⟩

lemma clearOne_keeps (h : DropsReferences own unref) : Keeps own (clearOne unref) := by
  intro m xs x hp hx
  unfold clearOne
  dsimp only
  split_ifs with hkeep hunused hcount
  · exact ⟨m, xs, rfl, .refl hp hx⟩
  · exact ⟨m, xs, rfl, .refl hp hx⟩
  · exact ⟨_, xs, rfl, .count hp hx x _⟩
  · obtain ⟨m₁, xs₁, hdrop, hr, hu⟩ := dropReference_round h hp hx (by simpa using hunused)
    obtain ⟨m₂, -, hfree, -⟩ := freeKnownRegion_stays hr.whole hr.here hu
    obtain ⟨xs₂, hr'⟩ := Round.free hr.whole hr.here hr.here hu hu (.inl rfl) hfree
    refine ⟨m₂, xs₂, ?_, hr.trans hr'⟩
    rw [hdrop]
    exact hfree

lemma purgeOne_keeps (h : DropsReferences own unref) : Keeps own (purgeOne unref) := by
  intro m xs x hp hx
  unfold purgeOne
  split_ifs with hunused
  · exact ⟨m, xs, rfl, .refl hp hx⟩
  · obtain ⟨m₁, xs₁, hdrop, hr, -⟩ := dropReference_round h hp hx (by simpa using hunused)
    exact ⟨m₁, xs₁, hdrop, hr⟩

lemma next_spec (hp : Partition m xs) (hx : x ∈ xs) :
    (m.list.next x = none ∧ ∀ y ∈ xs, (m.region y).start ≤ (m.region x).start) ∨
      ∃ z ∈ xs, m.list.next x = some z ∧ (m.region z).start = (m.region x).stop ∧
        ∀ y ∈ xs, (m.region x).start < (m.region y).start → (m.region z).start ≤ (m.region y).start := by
  obtain ⟨ys, zs, rfl⟩ := List.append_of_mem hx
  obtain ⟨-, -, -, hnext, -⟩ := isList_append_cons_iff.1 hp.linked
  obtain ⟨i, hbefore, rfl, -, hafter⟩ := covers_append.1 hp.covers
  cases zs with
  | nil =>
    refine .inl ⟨hnext, ?_⟩
    intro y hy
    rw [List.mem_append, List.mem_singleton] at hy
    obtain hy | rfl := hy
    · have := hbefore.mem hy
      omega
    · exact le_rfl
  | cons z zs =>
    refine .inr ⟨z, by simp, hnext, hafter.1, ?_⟩
    intro y hy hlt
    rw [List.mem_append, List.mem_cons] at hy
    obtain hy | rfl | hy := hy
    · have := hbefore.mem hy
      omega
    · exact absurd hlt (lt_irrefl _)
    · rw [hafter.1]
      exact (hafter.mem hy).1

lemma walk_visits (hb : Keeps own body) (hp : Partition m xs) (hx : x ∈ xs)
    (hfuel : m.stop - (m.region x).start ≤ fuel) :
    ∃ m' visited, walk body fuel m (some x) = some (m', visited) ∧
      (∀ y, (m'.region y).used = true → (m.region y).used = true) ∧
      ∀ y ∈ xs, (m.region x).start ≤ (m.region y).start → (m.region y).used = true →
        y ∈ visited ∨ own y ∧ (m'.region y).used = false := by
  induction fuel generalizing m xs x with
  | zero =>
    have := hp.covers.mem hx
    omega
  | succ fuel ih =>
    obtain ⟨m₁, xs₁, hbody, hr⟩ := hb m xs x hp hx
    -- a used region behind `x` is still there after the round and still behind `x`, or it has been freed
    have hbehind : ∀ y ∈ xs, y ≠ x → (m.region x).start ≤ (m.region y).start → (m.region y).used = true →
        (y ∈ xs₁ ∧ (m₁.region x).start < (m₁.region y).start ∧ (m₁.region y).used = true) ∨
          own y ∧ (m₁.region y).used = false := by
      intro y hy hne hle hyu
      cases hyu₁ : (m₁.region y).used with
      | false => exact .inr ⟨(hr.kept y hne hyu).resolve_left (by simp [hyu₁]), rfl⟩
      | true =>
        obtain ⟨-, hmem, hs⟩ := hr.still y hyu₁
        refine .inl ⟨hmem.2 hy, ?_, rfl⟩
        rw [hs]
        by_contra hge
        have hxb := hp.covers.mem hx
        have hyb := hp.covers.mem hy
        have := hr.start
        exact hne (hp.covers.eq_of_mem hy hx (p := (m.region x).start) (by omega) (by omega))
    obtain ⟨hnext, hlast⟩ | ⟨z, hz, hnext, hzs, hfirst⟩ := next_spec hr.whole hr.here
    · refine ⟨m₁, [x], ?_, fun y hy => (hr.still y hy).1, ?_⟩
      · rw [walk, hbody]
        simp only [Option.bind_eq_bind, Option.bind_some, hnext]
        rw [walk]
        rfl
      · intro y hy hle hyu
        by_cases hne : y = x
        · exact .inl (List.mem_singleton.2 hne)
        · obtain ⟨hy₁, hlt, -⟩ | hfreed := hbehind y hy hne hle hyu
          · exact absurd (hlast y hy₁) (not_le.2 hlt)
          · exact .inr hfreed
    · have hbound : m₁.stop - (m₁.region z).start ≤ fuel := by
        have := hp.covers.mem hx
        have := hr.stop
        rw [hr.last, hzs]
        omega
      obtain ⟨m', visited, hwalk, hused, hvisited⟩ := ih hr.whole hz hbound
      refine ⟨m', x :: visited, ?_, fun y hy => (hr.still y (hused y hy)).1, ?_⟩
      · rw [walk, hbody]
        simp only [Option.bind_eq_bind, Option.bind_some, hnext, hwalk]
      · intro y hy hle hyu
        rw [List.mem_cons]
        by_cases hne : y = x
        · exact .inl (.inl hne)
        · obtain ⟨hy₁, hlt, hyu₁⟩ | ⟨hown, hfreed⟩ := hbehind y hy hne hle hyu
          · exact (hvisited y hy₁ (hfirst y hy₁ hlt) hyu₁).imp_left .inr
          · refine .inr ⟨hown, Bool.eq_false_of_not_eq_true ?_⟩
            intro hy'
            rw [hused y hy'] at hfreed
            exact Bool.false_ne_true hfreed.symm

lemma walk_first (hb : Keeps own body) (hp : Partition m xs) :
    ∃ m' visited, walk body (m.stop - m.start) m xs.head? = some (m', visited) ∧
      ∀ y ∈ xs, (m.region y).used = true → y ∈ visited ∨ own y ∧ (m'.region y).used = false := by
  cases xs with
  | nil =>
    refine ⟨m, [], ?_, fun y hy => absurd hy (List.not_mem_nil)⟩
    rw [List.head?_nil, walk]
  | cons x xs =>
    have hx := hp.covers.1
    obtain ⟨m', visited, hwalk, -, hvisited⟩ := @walk_visits own m (x :: xs) x (m.stop - m.start) body hb hp
      (by simp) (by omega)
    refine ⟨m', visited, hwalk, ?_⟩
    intro y hy
    apply hvisited y hy
    rw [hx]
    exact (hp.covers.mem hy).1

structure Recounted (m m' : RegionMap) (xs : List ℕ) : Prop where
  whole : Partition m' xs
  list : m'.list = m.list
  last : m'.stop = m.stop
  start : ∀ y, (m'.region y).start = (m.region y).start
  used : ∀ y, (m'.region y).used = (m.region y).used

def FreesOwn (own : ℕ → Prop) (m m' : RegionMap) (xs : List ℕ) : Prop :=
  ∃ y ∈ xs, own y ∧ (m.region y).used = true ∧ (m'.region y).used = false

lemma Recounted.refl (hp : Partition m xs) : Recounted m m xs := ⟨hp, rfl, rfl, fun _ => rfl, fun _ => rfl⟩

lemma Recounted.count (h : Recounted m m' xs) (y n : ℕ) :
    Recounted m (m'.setRegion y { m'.region y with refcount := n }) xs := by
  refine ⟨h.whole.setRegion rfl rfl rfl, h.list, h.last, fun z => ?_, fun z => ?_⟩
  · rw [← h.start z]
    obtain rfl | hne := eq_or_ne z y
    · simp [RegionMap.setRegion]
    · simp [RegionMap.setRegion, hne]
  · rw [← h.used z]
    obtain rfl | hne := eq_or_ne z y
    · simp [RegionMap.setRegion, Region.used]
    · simp [RegionMap.setRegion, hne]

lemma Drops.recounted (h : Drops own x m m') (hp : Partition m xs) (hx : x ∈ xs) (hu : (m.region x).used = true) :
    Recounted m m' xs ∨ FreesOwn own m m' xs := by
  induction h with
  | none => exact .inl (.refl hp)
  | @count m' y n _ ih =>
    obtain hr | ⟨z, hz, hown, hused, hfreed⟩ := ih
    · exact .inl (hr.count y n)
    · refine .inr ⟨z, hz, hown, hused, ?_⟩
      rw [← hfreed]
      obtain rfl | hne := eq_or_ne z y
      · simp [RegionMap.setRegion, Region.used]
      · simp [RegionMap.setRegion, hne]
  | @free m' m'' y addr hd hy _ hown hf ih =>
    obtain ⟨xs', hr, -⟩ := hd.round hp hx hu
    obtain ⟨found, hfound, hmem⟩ := findUsedRegion_spec hr.whole addr
    obtain ⟨⟨hy', hyu⟩, -⟩ := (hmem _).1 (Option.some.inj (hfound.symm.trans hy))
    obtain ⟨m₁, _, heq, -, -, -, -, -, hfree, -, -, hothers⟩ := freeKnownRegion_stays hr.whole hy' hyu
    obtain rfl := Option.some.inj (heq.symm.trans hf)
    obtain hsame | ⟨z, hz, hzown, hused, hfreed⟩ := ih
    · have hused : (m.region y).used = true := by rw [← hsame.used, hyu]
      exact .inr ⟨y, (hr.still y hyu).2.1.1 hy', hown, hused, hfree⟩
    · refine .inr ⟨z, hz, hzown, hused, ?_⟩
      obtain rfl | hne := eq_or_ne z y
      · exact hfree
      · rw [hothers z hne, hfreed]

lemma purgeOne_recounted (h : DropsReferences own unref) (hp : Partition m xs) (hx : x ∈ xs)
    (hbody : purgeOne unref m x = some m') : Recounted m m' xs ∨ FreesOwn own m m' xs := by
  unfold purgeOne dropReference at hbody
  split_ifs at hbody with hunused hpid
  · obtain rfl := Option.some.inj hbody
    exact .inl (.refl hp)
  · obtain rfl := Option.some.inj hbody
    exact .inl (.refl hp)
  · have hu : (m.region x).used = true := by simpa using hunused
    obtain ⟨m₁, heq, hd⟩ := h m xs x hp hx hu
    obtain rfl := Option.some.inj (heq.symm.trans hbody)
    exact hd.recounted hp hx hu

lemma walk_freed (hb : Keeps own body) (hp : Partition m xs) (hx : x ∈ xs) (hbody : body m x = some m')
    (hround : Round own m m' xs xs' x) (hfuel : m.stop - (m.region x).start ≤ fuel + 1) :
    ∃ m'' visited, walk body (fuel + 1) m (some x) = some (m'', visited) ∧
      ∀ y, (m'.region y).used = false → (m''.region y).used = false := by
  obtain ⟨hnext, -⟩ | ⟨z, hz, hnext, hzs, -⟩ := next_spec hround.whole hround.here
  · refine ⟨m', [x], ?_, fun y hy => hy⟩
    rw [walk, hbody]
    simp only [Option.bind_eq_bind, Option.bind_some, hnext]
    rw [walk]
    rfl
  · have hbound : m'.stop - (m'.region z).start ≤ fuel := by
      have := hp.covers.mem hx
      have := hround.stop
      rw [hround.last, hzs]
      omega
    obtain ⟨m'', visited, hwalk, hstill, -⟩ := walk_visits hb hround.whole hz hbound
    refine ⟨m'', x :: visited, ?_, fun y hy => Bool.eq_false_of_not_eq_true fun hy' => ?_⟩
    · rw [walk, hbody]
      simp only [Option.bind_eq_bind, Option.bind_some, hnext, hwalk]
    · rw [hstill y hy'] at hy
      cases hy

lemma purgeWalk_visits (h : DropsReferences own unref) (hp : Partition m (ys ++ x :: zs))
    (hfuel : m.stop - (m.region x).start ≤ fuel) :
    ∃ m' visited, walk (purgeOne unref) fuel m (some x) = some (m', visited) ∧
      (visited = x :: zs ∨ FreesOwn own m m' (ys ++ x :: zs)) := by
  induction fuel generalizing m ys x zs with
  | zero =>
    have hx : x ∈ ys ++ x :: zs := by simp
    have := hp.covers.mem hx
    omega
  | succ fuel ih =>
    have hx : x ∈ ys ++ x :: zs := by simp
    have hlt := hp.covers.mem hx
    obtain ⟨m₁, xs₁, hbody, hround⟩ := purgeOne_keeps h m _ x hp hx
    obtain hsame | ⟨y, hy, hown, hused, hfreed⟩ := purgeOne_recounted h hp hx hbody
    · obtain ⟨-, -, -, hnext, -⟩ := isList_append_cons_iff.1 hsame.whole.linked
      cases zs with
      | nil =>
        refine ⟨m₁, [x], ?_, .inl rfl⟩
        rw [walk, hbody]
        simp only [Option.bind_eq_bind, Option.bind_some, hnext, List.head?_nil]
        rw [walk]
        rfl
      | cons z zs =>
        have hp₁ : Partition m₁ ((ys ++ [x]) ++ z :: zs) := by simpa using hsame.whole
        have hbound : m₁.stop - (m₁.region z).start ≤ fuel := by
          obtain ⟨_, -, hxs, -, hzs, -⟩ := covers_append.1 hp.covers
          rw [hsame.last, hsame.start, hzs]
          omega
        obtain ⟨m', visited, hwalk, hall⟩ := ih hp₁ hbound
        refine ⟨m', x :: visited, ?_, hall.imp (congrArg _) ?_⟩
        · rw [walk, hbody]
          simp only [Option.bind_eq_bind, Option.bind_some, hnext, List.head?_cons, hwalk]
        · rintro ⟨y, hy, hown, hused, hfreed⟩
          exact ⟨y, by simpa using hy, hown, by rw [← hsame.used, hused], hfreed⟩
    · obtain ⟨m', visited, hwalk, hrest⟩ := walk_freed (purgeOne_keeps h) hp hx hbody hround hfuel
      exact ⟨m', visited, hwalk, .inr ⟨y, hy, hown, hused, hrest y hfreed⟩⟩

lemma purge_first (h : DropsReferences own unref) (hp : Partition m xs) :
    ∃ m' visited, walk (purgeOne unref) (m.stop - m.start) m xs.head? = some (m', visited) ∧
      (visited = xs ∨ FreesOwn own m m' xs) := by
  cases xs with
  | nil =>
    refine ⟨m, [], ?_, .inl rfl⟩
    rw [List.head?_nil, walk]
  | cons x xs => exact @purgeWalk_visits own m [] xs x _ unref h hp (by rw [hp.covers.1])

lemma copyWalk_visits (h : IsList m.list (ys ++ zs).head? (ys ++ zs)) (hfuel : zs.length ≤ fuel) :
    ∃ ret visited, copyWalk copyMapped copyShared m fuel zs.head? = some (ret, visited) ∧ visited <+: zs ∧
      (visited = zs ∨ ∃ y ∈ visited, copyOne copyMapped copyShared m y ≠ OK) := by
  induction zs generalizing ys fuel with
  | nil =>
    refine ⟨OK, [], ?_, List.prefix_rfl, .inl rfl⟩
    rw [List.head?_nil, copyWalk]
  | cons x zs ih =>
    obtain ⟨fuel, rfl⟩ : ∃ k, fuel = k + 1 := ⟨fuel - 1, by simp only [List.length_cons] at hfuel; omega⟩
    obtain ⟨-, -, -, hnext, -⟩ := isList_append_cons_iff.1 h
    obtain ⟨ret, visited, hwalk, hpre, hall⟩ := @ih (ys ++ [x]) fuel (by simpa using h)
      (by simpa using hfuel)
    rw [List.head?_cons, copyWalk]
    by_cases hret : copyOne copyMapped copyShared m x = OK
    · rw [if_neg (not_not.2 hret), hnext, hwalk]
      refine ⟨ret, x :: visited, rfl, (List.prefix_cons_inj x).2 hpre, ?_⟩
      obtain rfl | ⟨y, hy, hne⟩ := hall
      · exact .inl rfl
      · exact .inr ⟨y, List.mem_cons_of_mem x hy, hne⟩
    · rw [if_pos hret]
      exact ⟨_, [x], rfl, (List.prefix_cons_inj x).2 List.nil_prefix, .inr ⟨x, List.mem_singleton_self x, hret⟩⟩

/-- For every used tree the region that is found starts nearest to the page. In every map the walks begin at the head
of the list: that of `copy_uvmem` goes up to the first copy that does not answer `OK`, and the others leave out no
used region but those freed on the way with the last reference that the process has to itself. Where none is freed so
`purge_uvmem` comes to the free regions too. -/
theorem findClosestUsedRegion_walks (hd : DropsReferences own unref) (copyMapped copyShared : ℕ → ℤ) :
    (∀ m t addr, Rep m.heap.links none m.usedRegions t → t ≠ nil → (inorder t).length ≤ m.usedNodes →
      ((inorder t).Pairwise fun a b => (m.region a).start < (m.region b).start) →
      (∀ y ∈ inorder t, (m.region y).start < 2 ^ 52) → addr < 2 ^ 64 →
      ∃ x ∈ inorder t, findClosestUsedRegion m addr = some (some x) ∧
        ∀ y ∈ inorder t, dist m (page addr) x ≤ dist m (page addr) y) ∧
    ∀ m xs, Partition m xs → (∀ y ∈ xs, (m.region y).used = true → (m.region y).start < 2 ^ 52) →
      findFirstRegion m = some xs.head? ∧
      (∃ ret visited, copyUvmem copyMapped copyShared m = some (ret, visited) ∧ visited <+: xs ∧
        (visited = xs ∨ ∃ y ∈ visited, copyOne copyMapped copyShared m y ≠ OK)) ∧
      (∃ m' visited, clearUvmem unref m = some (m', visited) ∧
        ∀ y ∈ xs, (m.region y).used = true → y ∈ visited ∨ own y ∧ (m'.region y).used = false) ∧
      ∃ m' visited, purgeUvmem unref m = some (m', visited) ∧ (visited = xs ∨ FreesOwn own m m' xs) ∧
        ∀ y ∈ xs, (m.region y).used = true → y ∈ visited ∨ own y ∧ (m'.region y).used = false := by
  constructor
  · intro m t addr ht hne hlen hsort hstart haddr
    exact findClosestUsedRegion_nearest ht hne (by rw [RegionMap.fuel]; omega) hsort hstart haddr
  · intro m xs hp hstart
    have hfirst := findFirstRegion_head hp hstart
    have hlen : xs.length ≤ m.fuel := by
      have := hp.count
      rw [RegionMap.fuel]
      omega
    refine ⟨hfirst, ?_, ?_, ?_⟩
    · rw [copyUvmem, hfirst]
      exact @copyWalk_visits m [] xs m.fuel copyMapped copyShared hp.linked hlen
    · rw [clearUvmem, hfirst]
      exact walk_first (clearOne_keeps hd) hp
    · rw [purgeUvmem, hfirst]
      obtain ⟨m', visited, hwalk, hall⟩ := purge_first hd hp
      obtain ⟨m'', visited', hwalk', hused⟩ := walk_first (purgeOne_keeps hd) hp
      obtain ⟨rfl, rfl⟩ := Prod.mk.inj (Option.some.inj (hwalk'.symm.trans hwalk))
      exact ⟨m'', visited', hwalk', hall, hused⟩

lemma dropsReferences_none : DropsReferences (fun _ => False) fun m _ => some m :=
  fun m _ _ _ _ _ => ⟨m, rfl, .none⟩

theorem findClosestUsedRegion_walks_twoUsed :
    ∃ xs t, Partition twoUsed xs ∧ Rep twoUsed.heap.links none twoUsed.usedRegions t ∧
      (∃ x ∈ inorder t, findClosestUsedRegion twoUsed 61440 = some (some x) ∧
        ∀ y ∈ inorder t, dist twoUsed (page 61440) x ≤ dist twoUsed (page 61440) y) ∧
      findFirstRegion twoUsed = some xs.head? ∧
      ∃ m', purgeUvmem (fun m _ => some m) twoUsed = some (m', xs) := by
  obtain ⟨xs, hp⟩ := twoUsed_partition
  have hstart : ∀ y ∈ xs, (twoUsed.region y).start < 2 ^ 52 := by
    intro y hy
    have hstop : twoUsed.stop < 2 ^ 52 := by decide
    have := hp.covers.mem hy
    omega
  obtain ⟨_, useds, ht, -, hu⟩ := hp.trees
  obtain ⟨t, hw, rfl⟩ := ht.used
  have hne : t ≠ nil := by
    rintro rfl
    have hroot : twoUsed.usedRegions ≠ none := by decide
    exact hroot hw.rep
  have hlen : (inorder t).length ≤ twoUsed.usedNodes :=
    (hw.nodup.subperm fun y hy => ((hu y).1 hy).1).length_le.trans hp.count
  obtain ⟨hnearest, hwalks⟩ := findClosestUsedRegion_walks dropsReferences_none (fun _ => OK) fun _ => OK
  obtain ⟨hfirst, -, -, m', visited, hpurge, hall, -⟩ := hwalks twoUsed xs hp fun y hy _ => hstart y hy
  have hvisited : visited = xs := hall.resolve_right fun ⟨y, _, hown, _⟩ => hown
  exact ⟨xs, t, hp, hw.rep, hnearest twoUsed t 61440 hw.rep hne hlen ht.usedSorted
    (fun y hy => hstart y ((hu y).1 hy).1) (by decide), hfirst, m', hvisited ▸ hpurge⟩

theorem walks_leave_out_regions : (∃ xs, Partition twoUsed xs ∧ 3 ∈ xs ∧ 5 ∈ xs) ∧
    copyUvmem (fun _ => ERR_OOMEM) (fun _ => OK) twoUsed = some (ERR_OOMEM, [1]) ∧
      (clearUvmem (fun m _ => some m) twoUsed).map Prod.snd = some [1, 3] := by
  refine ⟨?_, by decide, by decide⟩
  obtain ⟨xs, hp⟩ := twoUsed_partition
  have hnext : ∀ x z, x ∈ xs → twoUsed.list.next x = some z → z ∈ xs := by
    intro x z hx hz
    obtain ⟨hnone, -⟩ | ⟨z', hz', hsome, -⟩ := next_spec hp hx
    · rw [hz] at hnone
      cases hnone
    · rw [hz] at hsome
      rwa [Option.some.inj hsome]
  have h1 := (hp.used_root (a := 1) (by decide)).1
  have h3 := hnext 1 3 h1 (by decide)
  exact ⟨xs, hp, h3, hnext 3 5 h3 (by decide)⟩

end Kmi.Uvmem
