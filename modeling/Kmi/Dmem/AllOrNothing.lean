import Kmi.Dmem
import Kmi.Regions.Search
import Kmi.Uvmem.Growth

/-! When `alloc_devmem` gives a device mapping or leaves everything as it was. -/

namespace Kmi.Dmem

open Kmi.Mem Kmi.Vmem Kmi.Regions Kmi.Uvmem

def allocDevmemFreed (d : Devmem) (m : Space) (pre post : Option ℕ) (start bytes : ℕ) (flags : Flags)
    (answers : List Pages) : Option (Devmem × Space × ℕ × List (ℕ × ℕ)) :=
  match selectRegion d start with
  | none => some (d, m, 0, [])
  | some side => do
    let (region, v, bytes) ← allocRegion (d.root side) pre post bytes flags
    if v = 0 then some (d.setRoot region side, m, 0, [])
    else do
      let (m, ret) ← mapFixedRegion m v start bytes flags.toNat answers
      if ret ≠ OK then
        let (m, freed) ← unmapRegion m v bytes
        let (region, _) ← freeRegion region v
        some (d.setRoot region side, m, 0, freed)
      else some (d.setRoot region side, m, v, [])

lemma allocDevmem_eq (d : Devmem) (m : Space) (pre post : Option ℕ) (start bytes : ℕ) (flags : Flags)
    (answers : List Pages) : allocDevmem d m pre post start bytes flags answers =
      (allocDevmemFreed d m pre post start bytes flags answers).map fun r => (r.1, r.2.1, r.2.2.1) := by
  rw [allocDevmem, allocDevmemFreed]
  cases selectRegion d start with
  | none => rfl
  | some side =>
    dsimp only
    cases allocRegion (d.root side) pre post bytes flags with
    | none => rfl
    | some r =>
      simp only [Option.bind_eq_bind, Option.bind_some]
      split_ifs with hv
      · rfl
      · cases mapFixedRegion m r.2.1 start r.2.2 flags.toNat answers with
        | none => rfl
        | some s =>
          simp only [Option.bind_some]
          split_ifs with hret
          · cases unmapRegion s.1 r.2.1 r.2.2 with
            | none => rfl
            | some q =>
              simp only [Option.bind_some]
              cases freeRegion r.1 r.2.1 <;> rfl
          · rfl

def InRange (v size y : ℕ) : Prop := ∃ i < size, walkPage y = walkPage ((v + i) % 2 ^ 64)

def InUsed (u : RegionMap) (y : ℕ) : Prop :=
  ∃ p g, usedAt u p = some g ∧ g.start ≤ page y ∧ page y < g.stop

structure SameMap (m m' : RegionMap) : Prop where
  start : m'.start = m.start
  stop : m'.stop = m.stop
  used : ∀ p, usedAt m' p = usedAt m p

lemma SameMap.refl (m : RegionMap) : SameMap m m := ⟨rfl, rfl, fun _ => rfl⟩

structure Gives (m m' : Space) (u : RegionMap) (size v : ℕ) : Prop where
  ne : v ≠ 0
  free : ∀ i < size, statVpage m ((v + i) % 2 ^ 64) = none ∧ ¬ InUsed u ((v + i) % 2 ^ 64)
  others : ∀ y, ¬ InRange v size y → statVpage m' y = statVpage m y

structure Refuses (d d' : Devmem) (m m' : Space) (freed : List (ℕ × ℕ)) (v : ℕ) : Prop where
  null : v = 0
  stat : ∀ y, statVpage m' y = statVpage m y
  tables : ∀ a, IsTable m' a ↔ IsTable m a
  freed : freed = []
  regions : ∀ side, SameMap (d.root side) (d'.root side)

def Whole (d : Devmem) : Prop :=
  ∀ side, ∃ xs, Partition (d.root side) xs ∧ (d.root side).reserved = 0 ∧
    (d.root side).stop ≤ 2 ^ 53

def addrOf (p : ℕ) : ℕ := p * basePageSize % 2 ^ 64

structure Room (m : Space) (u : RegionMap) (start size : ℕ) (flags : Flags) (answers : List Pages)
    (v : ℕ) : Prop where
  mappable : ∃ m', mapFixedRegion m v start (alignUp size basePageSize) flags.toNat answers =
    some (m', OK)
  free : ∀ i < size, statVpage m ((v + i) % 2 ^ 64) = none ∧ ¬ InUsed u ((v + i) % 2 ^ 64)
  aligned : start % 4096 = 0

structure Blocked (m : Space) (start : ℕ) (flags : Flags) (pages : Pages) (v : ℕ) : Prop where
  free : statVpage m v = none
  error : (mapVpage m (start - start % 4096) v flags.toNat 0 pages).2 ≠ OK
  tables : createLeaf m pages = none ∨ ∃ b, Walks m (v % 2 ^ 39) 0 b

def Settles (d : Devmem) (m : Space) (u : RegionMap) (start size : ℕ) (flags : Flags)
    (answers : List Pages) : Prop :=
  size + 2 * basePageSize ≤ 2 ^ 64 ∧
    (selectRegion d start = none ∨ ∃ side, selectRegion d start = some side ∧
      ((∃ align, findFreeRegion (d.root side) (pagesOf size) = some (none, align)) ∨
        ∃ p, FoundAt (d.root side) size p ∧ addrOf p ≠ 0 ∧
          (Room m u start size flags answers (addrOf p) ∨
            Blocked m start flags (answers.headD []) (addrOf p) ∧ p < 2 ^ 52)))

/-- The two cases that are left open: the size wraps when it is rounded up, or a page of a
larger order lies behind the range of a device that does not start at a whole page. -/
def LeftOpen (d : Devmem) (m : Space) (start size : ℕ) : Prop :=
  2 ^ 64 < size + 2 * basePageSize ∨
    start % 4096 ≠ 0 ∧ ∃ side p x, selectRegion d start = some side ∧ FoundAt (d.root side) size p ∧
      statVpage m ((addrOf p + pagesOf size * basePageSize) % 2 ^ 64) = some x ∧ 0 < x.order

variable {d d' : Devmem} {m m' : Space} {u r r' : RegionMap} {xs : List ℕ} {pre post : Option ℕ}
  {start size v p y : ℕ} {flags : Flags} {answers : List Pages} {freed : List (ℕ × ℕ)} {side : Side}

lemma setRoot_root (d : Devmem) (r : RegionMap) (side : Side) : (d.setRoot r side).root side = r := by
  cases side <;> rfl

lemma setRoot_root_ne (d : Devmem) (r : RegionMap) {side side' : Side} (h : side' ≠ side) :
    (d.setRoot r side).root side' = d.root side' := by
  cases side <;> cases side' <;> first | rfl | exact absurd rfl h

lemma findFreeRegion_foundAt (h : Partition r xs) (hres : r.reserved = 0) (hstop : r.stop ≤ 2 ^ 53)
    (hpos : 0 < size) (hwrap : size + basePageSize ≤ 2 ^ 64) {x align : ℕ}
    (hfind : findFreeRegion r (pagesOf size) = some (some x, align)) :
    x ∈ xs ∧ (r.region x).used = false ∧
      (r.region x).start + align + pagesOf size ≤ (r.region x).stop := by
  have hb := basePageSize_eq
  have hpages := pagesOf_pos hpos hwrap
  have hlt : pagesOf size < 2 ^ 52 := by
    have hsize := (alignUp_page (by omega : size < 2 ^ 64)).2.1
    rw [alignUp_pagesOf hwrap, hb] at hsize
    omega
  have hclear : ∀ y ∈ r.spine, r.Clear (pagesOf size) y := by
    intro y hy
    have hle : (r.region y).start ≤ r.aligned (pagesOf size) y := start_le_aligned h hstop hy
    obtain ⟨hs, -⟩ := bounds_of_mem_spine h hy
    rw [RegionMap.Clear, RegionMap.limit, hres]
    omega
  have hsound : FindSound r xs (pagesOf size) := by
    rw [findSound_iff h hstop hpages (by omega) hlt]
    refine .inr ⟨fun y hy => .inl (hclear y (List.mem_of_getLast? hy)), fun y hy => ?_⟩
    obtain ⟨hs, -⟩ := bounds_of_mem_spine h (find?_roomy hy).1
    rw [RegionMap.limit, hres]
    omega
  obtain ⟨hx, hu, hend, -⟩ := hsound x align hfind
  exact ⟨hx, hu, hend⟩

lemma allocRegion_cases (h : Partition r xs) (hres : r.reserved = 0) (hstop : r.stop ≤ 2 ^ 53)
    (hpos : 0 < size) (hwrap : size + basePageSize ≤ 2 ^ 64) {bytes : ℕ}
    (ha : allocRegion r pre post size flags = some (r', v, bytes)) :
    bytes = pagesOf size * basePageSize ∧
      ((∃ align, findFreeRegion r (pagesOf size) = some (none, align)) ∧ r' = r ∧ v = 0 ∨
        ∃ q, FoundAt r size q ∧ v = addrOf q ∧ ∃ g, g.start = q ∧ NewUsed r r' g) := by
  have hbytes := (allocRegion_addr ha).2.2
  rw [alignUp_pagesOf hwrap] at hbytes
  refine ⟨hbytes, ?_⟩
  simp only [allocRegion, allocSharedRegion, page_alignUp, Option.bind_eq_bind,
    Option.bind_eq_some_iff, Prod.exists] at ha
  obtain ⟨found, align, hfind, ha⟩ := ha
  cases found with
  | none =>
    cases ha
    exact .inl ⟨⟨align, hfind⟩, rfl, rfl⟩
  | some x =>
    right
    simp only [Option.bind_eq_some_iff, Option.some.injEq, Prod.mk.injEq, Prod.exists] at ha
    obtain ⟨_, _, hcarve, rfl, rfl, -⟩ := ha
    obtain ⟨hx, hu, hend⟩ := findFreeRegion_foundAt h hres hstop hpos hwrap hfind
    obtain ⟨ys, zs, rfl⟩ := List.append_of_mem hx
    have hpages := pagesOf_pos hpos hwrap
    obtain ⟨hv, refcount, -, hc⟩ := partitionRegion_carved h hu (by omega) hpages hend hcarve
    refine ⟨_, ⟨x, align, hfind, rfl, hend⟩, hv, ⟨(r.region x).start + align + pagesOf size,
      (r.region x).start + align, 0, refcount, flags ||| MR_USED⟩, rfl, ?_⟩
    exact hc.newUsed h hx hu (used_of_or rfl) (Nat.le_add_right ..) (Nat.lt_add_of_pos_right hpages) hend

section Rollback

variable {g : Region} (hnew : NewUsed r r' g) (hp : g.start = p)

include hnew hp

lemma sameMap_freed {r₂ : RegionMap} {status : ℤ} (hlt : p < 2 ^ 52)
    (hf : freeRegion r' (addrOf p) = some (r₂, status)) : SameMap r r₂ := by
  have hb := basePageSize_eq
  have haddr : addrOf p = p * basePageSize := by
    rw [addrOf, Nat.mod_eq_of_lt (by rw [hb]; omega)]
  obtain ⟨ys, hpart⟩ := hnew.whole
  have hu : usedAt r' p = some g := by rw [hnew.used, if_pos hp.symm]
  obtain ⟨r₃, ys', hfree, -, hs, he, hused⟩ := freeRegion_usedAt hpart hu
  rw [haddr, hfree] at hf
  cases hf
  refine ⟨hs.trans hnew.start, he.trans hnew.stop, fun q => ?_⟩
  rw [hused, hnew.used, hp]
  split_ifs with hq
  · rw [hq, ← hp, hnew.free]
  · rfl

lemma not_sameMap_freed {r₂ : RegionMap} {status : ℤ} (hge : 2 ^ 52 ≤ p)
    (hf : freeRegion r' (addrOf p) = some (r₂, status)) : ¬ SameMap r r₂ := by
  have hb := basePageSize_eq
  intro hsame
  obtain ⟨ys, hpart⟩ := hnew.whole
  have hu : usedAt r' p = some g := by rw [hnew.used, if_pos hp.symm]
  have hal : addrOf p % 4096 = 0 ∧ page (addrOf p) < 2 ^ 52 := by
    rw [addrOf, page, hb]
    omega
  have hstill : usedAt r₂ p = some g := by
    cases hq : usedAt r' (page (addrOf p)) with
    | none =>
      have haligned : isAligned (addrOf p) basePageSize = true := by
        rw [isAligned, alignDown_page, hal.1]
        simp
      rw [freeRegion_none hpart haligned hq] at hf
      cases hf
      exact hu
    | some g' =>
      have haddr : addrOf p = page (addrOf p) * basePageSize := by
        rw [page, hb]
        omega
      obtain ⟨r₃, ys', hfree, -, -, -, hused⟩ := freeRegion_usedAt hpart hq
      rw [haddr, hfree] at hf
      cases hf
      rw [hused, if_neg (by omega), hu]
  rw [hsame.used, ← hp, hnew.free] at hstill
  cases hstill

end Rollback

lemma allocDevmemFreed_cases (hd : Whole d) (hpos : 0 < size)
    (hwrap : size + basePageSize ≤ 2 ^ 64)
    (h : allocDevmemFreed d m pre post start size flags answers = some (d', m', v, freed)) :
    selectRegion d start = none ∧ d' = d ∧ m' = m ∧ v = 0 ∧ freed = [] ∨
      ∃ side, selectRegion d start = some side ∧
        ((∃ align, findFreeRegion (d.root side) (pagesOf size) = some (none, align)) ∧
            d' = d.setRoot (d.root side) side ∧ m' = m ∧ v = 0 ∧ freed = [] ∨
          ∃ p g region, FoundAt (d.root side) size p ∧ g.start = p ∧
            NewUsed (d.root side) region g ∧
              (addrOf p = 0 ∧ d' = d.setRoot region side ∧ v = 0 ∨
                addrOf p ≠ 0 ∧ ∃ m₁ ret, mapFixedRegion m (addrOf p) start
                    (pagesOf size * basePageSize) flags.toNat answers = some (m₁, ret) ∧
                  (ret = OK ∧ m' = m₁ ∧ v = addrOf p ∨
                    ret ≠ OK ∧ v = 0 ∧
                      unmapRegion m₁ (addrOf p) (pagesOf size * basePageSize) = some (m', freed) ∧
                      ∃ region' status, freeRegion region (addrOf p) = some (region', status) ∧
                        d' = d.setRoot region' side))) := by
  rw [allocDevmemFreed] at h
  cases hside : selectRegion d start with
  | none =>
    rw [hside] at h
    cases h
    exact .inl ⟨rfl, rfl, rfl, rfl, rfl⟩
  | some side =>
    right
    refine ⟨side, rfl, ?_⟩
    rw [hside] at h
    simp only [Option.bind_eq_bind, Option.bind_eq_some_iff, Prod.exists] at h
    obtain ⟨region, a, bytes, halloc, h⟩ := h
    obtain ⟨xs, hpart, hres, hstop⟩ := hd side
    obtain ⟨rfl, ⟨hfind, rfl, rfl⟩ | ⟨p, hp, rfl, g, hg, hnew⟩⟩ :=
      allocRegion_cases hpart hres hstop hpos hwrap halloc
    · left
      rw [if_pos rfl] at h
      cases h
      exact ⟨hfind, rfl, rfl, rfl, rfl⟩
    · right
      refine ⟨p, g, region, hp, hg, hnew, ?_⟩
      split_ifs at h with hzero
      · cases h
        exact .inl ⟨hzero, rfl, rfl⟩
      · simp only [Option.bind_eq_some_iff, Prod.exists] at h
        obtain ⟨m₁, ret, hmap, h⟩ := h
        refine .inr ⟨hzero, m₁, ret, hmap, ?_⟩
        split_ifs at h with hret
        · simp only [Option.bind_eq_some_iff, Option.some.injEq, Prod.mk.injEq, Prod.exists] at h
          obtain ⟨_, _, hunmap, region', status, hfree, rfl, rfl, rfl, rfl⟩ := h
          exact .inr ⟨hret, rfl, hunmap, region', status, hfree, rfl⟩
        · cases h
          exact .inl ⟨not_not.1 hret, rfl, rfl⟩

lemma addrOf_page (p : ℕ) : addrOf p % 4096 = 0 ∧ addrOf p < 2 ^ 64 := by
  rw [addrOf, basePageSize_eq]
  omega

lemma walkPage_add (hv : v % 4096 = 0) (i : ℕ) :
    walkPage ((v + i) % 2 ^ 64) = (v / 4096 + i / 4096) % 2 ^ 27 := by
  rw [walkPage]
  omega

section Range

variable {n : ℕ} {m₁ : Space} {ret : ℤ} (hn : n = pagesOf size) (hpos : 0 < size)
  (hwrap : size + 2 * basePageSize ≤ 2 ^ 64) (hv : v % 4096 = 0)

include hn hpos hwrap

lemma range_bounds : 0 < n ∧ n * 4096 < size + 4096 ∧ size ≤ n * 4096 ∧ n * 4096 + 4096 < 2 ^ 64 := by
  have hb := basePageSize_eq
  rw [hn, pagesOf_eq (by omega)]
  omega

include hv in
lemma inRange_iff : InRange v size y ↔ ∃ j < n, walkPage y = (v / 4096 + j) % 2 ^ 27 := by
  obtain ⟨h₀, h₁, h₂, -⟩ := range_bounds hn hpos hwrap
  constructor
  · rintro ⟨i, hi, hy⟩
    rw [walkPage_add hv] at hy
    exact ⟨i / 4096, by omega, hy⟩
  · rintro ⟨j, hj, hy⟩
    have hle : j * 4096 + 4096 ≤ n * 4096 := Nat.succ_mul j 4096 ▸ Nat.mul_le_mul_right _ hj
    refine ⟨j * 4096, Nat.lt_of_add_lt_add_right (hle.trans_lt h₁), ?_⟩
    rw [walkPage_add hv, hy, Nat.mul_div_cancel _ (by norm_num)]

lemma stat_of_range {P : Option Stat → Prop} (hv : v % 4096 = 0)
    (hP : ∀ i < size, P (statVpage m ((v + i) % 2 ^ 64))) {j : ℕ} (hj : j < n)
    (hy : walkPage y = (v / 4096 + j) % 2 ^ 27) : P (statVpage m y) := by
  obtain ⟨i, hi, hyi⟩ := (inRange_iff (y := y) hn hpos hwrap hv).2 ⟨j, hj, hy⟩
  rw [statVpage_walkPage m hyi]
  exact hP i hi

lemma pagesAcross_eq : pagesAcross start (n * basePageSize) = if start % 4096 = 0 then n else n + 1 := by
  obtain ⟨-, -, -, h₃⟩ := range_bounds hn hpos hwrap
  rw [pagesAcross, basePageSize_eq]
  split_ifs <;> omega

include hv in
lemma mapFixedRegion_first {f : ℕ} (hstart : start < 2 ^ 64)
    (h : mapFixedRegion m v start (n * basePageSize) f answers = some (m₁, ret)) :
    (mapVpage m (start - start % 4096) v f 0 (answers.headD [])).2 ≠ OK ∧
        m₁ = (mapVpage m (start - start % 4096) v f 0 (answers.headD [])).1 ∧
        ret = (mapVpage m (start - start % 4096) v f 0 (answers.headD [])).2 ∨
      (mapVpage m (start - start % 4096) v f 0 (answers.headD [])).2 = OK ∧
        Grows (mapVpage m (start - start % 4096) v f 0 (answers.headD [])).1
          answers.tail.flatten m₁ := by
  obtain ⟨h₀, -, -, h₃⟩ := range_bounds hn hpos hwrap
  have hb : n * basePageSize % 4096 = 0 := by
    rw [basePageSize_eq]
    omega
  have hdown : v - v % 4096 = v := by omega
  have hne : (if start % 4096 = 0 then n * basePageSize else n * basePageSize + 4096) % 2 ^ 64 ≠ 0 := by
    rw [basePageSize_eq]
    split_ifs <;> omega
  rw [mapFixedRegion, alignRegion_eq hstart hb, alignDown_page, hdown] at h
  dsimp only at h
  generalize (if start % 4096 = 0 then n * basePageSize else n * basePageSize + 4096) % 2 ^ 64 = bytes
    at h hne
  exact mapFixedPages_first hne h

section Map

variable {f : ℕ} (hv : v % 4096 = 0) (hw : WellFormed m) (hfresh : FreshPages m answers.flatten)
  (hf : PageFlags f) (hstart : start < 2 ^ 64)
  (hmap : mapFixedRegion m v start (n * basePageSize) f answers = some (m₁, ret))

include hv hw hfresh hf hstart hmap

lemma mapFixedRegion_free (hfree : ∀ i < size, statVpage m ((v + i) % 2 ^ 64) = none)
    (hbehind : start % 4096 ≠ 0 → ∀ x, statVpage m ((v + n * basePageSize) % 2 ^ 64) = some x →
      x.order = 0) :
    ∃ k ≤ pagesAcross start (n * basePageSize), MapsFixed f m m₁ v (start - start % 4096) k ∧
      (ret = OK ↔ k = pagesAcross start (n * basePageSize)) := by
  have hb := basePageSize_eq
  have hdown : v - v % 4096 = v := by omega
  have hacross : pagesAcross start (n * basePageSize) = if start % 4096 = 0 then n else n + 1 :=
    pagesAcross_eq hn hpos hwrap
  have h := mapFixedRegion_spec hf hw hstart (by rw [hb]; omega) (fun j hj y hy x hx => ?_) hfresh hmap
  · rwa [hdown] at h
  · rw [hdown] at hy
    by_cases hj' : j < n
    · have hnone := stat_of_range (P := fun s => s = none) hn hpos hwrap hv hfree hj' hy
      rw [hnone] at hx
      cases hx
    · -- only a range that is not aligned reaches into the page behind it
      rw [hacross] at hj
      have hunal : start % 4096 ≠ 0 := by
        intro hal
        rw [if_pos hal] at hj
        exact hj' hj
      rw [if_neg hunal] at hj
      obtain rfl : j = n := by omega
      apply hbehind hunal x
      rw [statVpage_walkPage m (y := (v + j * basePageSize) % 2 ^ 64) (v := y), hx]
      rw [walkPage_add hv, hy, hb, Nat.mul_div_cancel _ (by norm_num)]

lemma gives_of_room (hok : ret = OK) (hal : start % 4096 = 0) (hne : v ≠ 0)
    (hfree : ∀ i < size, statVpage m ((v + i) % 2 ^ 64) = none ∧ ¬ InUsed u ((v + i) % 2 ^ 64)) :
    Gives m m₁ u size v := by
  obtain ⟨k, -, hm, hret⟩ := mapFixedRegion_free hn hpos hwrap hv hw hfresh hf hstart hmap
    (fun i hi => (hfree i hi).1) (fun hunal => absurd hal hunal)
  obtain rfl := hret.1 hok
  rw [pagesAcross_eq hn hpos hwrap, if_pos hal] at hm
  refine ⟨hne, hfree, fun y hy => hm.rest y fun j hj heq => hy ?_⟩
  exact (inRange_iff hn hpos hwrap hv).2 ⟨j, hj, heq⟩

lemma aligned_of_gives (hok : ret = OK) (hg : Gives m m₁ u size v)
    (hbehind : start % 4096 ≠ 0 → ∀ x, statVpage m ((v + n * basePageSize) % 2 ^ 64) = some x →
      x.order = 0) : start % 4096 = 0 := by
  by_contra hunal
  obtain ⟨k, -, hm, hret⟩ := mapFixedRegion_free hn hpos hwrap hv hw hfresh hf hstart hmap
    (fun i hi => (hg.free i hi).1) hbehind
  obtain rfl := hret.1 hok
  rw [pagesAcross_eq hn hpos hwrap, if_neg hunal] at hm
  have hpage : walkPage ((v + n * 4096) % 2 ^ 64) = (v / 4096 + n) % 2 ^ 27 := by
    rw [walkPage_add hv, Nat.mul_div_cancel _ (by norm_num)]
  have hout : ¬ InRange v size ((v + n * 4096) % 2 ^ 64) := by
    rw [inRange_iff hn hpos hwrap hv]
    rintro ⟨j, hj, hy⟩
    have := hm.le
    rw [hpage] at hy
    omega
  have hold := hm.old n (by omega) _ hpage
  rw [← hg.others _ hout, hm.new n (by omega) _ hpage] at hold
  cases hold

omit hf in
lemma same_of_blocked (hfree : statVpage m v = none)
    (herr : (mapVpage m (start - start % 4096) v f 0 (answers.headD [])).2 ≠ OK)
    (htables : createLeaf m (answers.headD []) = none ∨ ∃ b, Walks m (v % 2 ^ 39) 0 b) :
    m₁ = m ∧ ret ≠ OK := by
  obtain ⟨-, rfl, rfl⟩ | ⟨hok, -⟩ := mapFixedRegion_first hn hpos hwrap hv hstart hmap
  · obtain ⟨hsame, -⟩ | ⟨hno, -⟩ := mapVpage_fails_cases hw hfree (freshPages_first hfresh) herr
    · exact ⟨hsame, herr⟩
    · exact absurd htables hno
  · exact absurd hok herr

lemma blocked_of_refused (hlt : v < 2 ^ 64) (hret : ret ≠ OK)
    (hunmap : unmapRegion m₁ v (n * basePageSize) = some (m', freed)) (hnil : freed = [])
    (htables : ∀ a, IsTable m' a ↔ IsTable m a) :
    statVpage m v = none ∧
      (mapVpage m (start - start % 4096) v f 0 (answers.headD [])).2 ≠ OK ∧
      (createLeaf m (answers.headD []) = none ∨ ∃ b, Walks m (v % 2 ^ 39) 0 b) := by
  obtain ⟨h₀, -, -, h₃⟩ := range_bounds hn hpos hwrap
  have hb := basePageSize_eq
  rw [unmapRegion_eq hlt hv (by rw [hb]; exact Nat.mul_mod_left ..)
    (by rw [hb]; exact (Nat.le_add_right ..).trans_lt h₃)] at hunmap
  obtain ⟨hfreed, hsame⟩ := unmapPages_first (by rw [hb]; exact Nat.mul_ne_zero h₀.ne' (by decide))
    hunmap
  have hnone₁ := hfreed.1 hnil
  obtain rfl := hsame hnone₁
  have hgrows : ∀ x, statVpage m v = some x → statVpage m' v = some x := by
    intro x hx
    exact (mapFixedPages_grows (by rwa [mapFixedRegion] at hmap)).stat hfresh hx
  have hnone : statVpage m v = none := by
    cases hx : statVpage m v with
    | none => rfl
    | some x => rw [hgrows x hx] at hnone₁; cases hnone₁
  obtain ⟨herr, rfl, rfl⟩ | ⟨hok, hgrows'⟩ := mapFixedRegion_first hn hpos hwrap hv hstart hmap
  · refine ⟨hnone, herr, ?_⟩
    obtain ⟨-, h⟩ | ⟨-, a, hnew, hnew'⟩ := mapVpage_fails_cases hw hnone (freshPages_first hfresh) herr
    · exact h
    · exact absurd ((htables a).1 hnew') hnew
  · -- a first page that is mapped is there at the end
    have hspec := @mapBasePage_spec m v (start - start % 4096) f (answers.headD []) hf hw (by omega)
      (by omega) (fun x hx => by rw [hnone] at hx; cases hx) (freshPages_first hfresh)
    obtain ⟨-, ht, ⟨-, -, hstat⟩ | ⟨herr, -⟩⟩ := hspec
    · have hx := hstat v
      rw [if_pos rfl] at hx
      rw [hgrows'.stat (freshPages_rest hfresh ht) hx] at hnone₁
      cases hnone₁
    · exact absurd hok herr

end Map

end Range

lemma selected (hs : selectRegion d start = some side) {side' : Side}
    (hs' : selectRegion d start = some side') : side' = side :=
  Option.some.inj (hs'.symm.trans hs)

lemma not_sameMap_of_new {g : Region} (hnew : NewUsed r r' g) : ¬ SameMap r r' := by
  intro hsame
  have h := hsame.used g.start
  rw [hnew.used, if_pos rfl, hnew.free] at h
  cases h

lemma sameMap_setRoot (d : Devmem) (hsame : SameMap (d.root side) r) (side' : Side) :
    SameMap (d.root side') ((d.setRoot r side).root side') := by
  by_cases hs : side' = side
  · rw [hs, setRoot_root]
    exact hsame
  · rw [setRoot_root_ne d r hs]
    exact .refl _

/-- A device mapping is all or nothing exactly where it is a whole range that is free in the
process too, or its very first page fails, or nothing is found at all; two cases are left
open. -/
theorem allocDevmem_allOrNothing_iff (hd : Whole d) (hw : WellFormed m)
    (hfresh : FreshPages m answers.flatten) (hf : PageFlags flags.toNat) (hstart : start < 2 ^ 64)
    (hpos : 0 < size)
    (h : allocDevmemFreed d m pre post start size flags answers = some (d', m', v, freed)) :
    (Settles d m u start size flags answers → Gives m m' u size v ∨ Refuses d d' m m' freed v) ∧
      (Gives m m' u size v ∨ Refuses d d' m m' freed v →
        Settles d m u start size flags answers ∨ LeftOpen d m start size) := by
  have hb := basePageSize_eq
  obtain hopen | hwrap := lt_or_ge (2 ^ 64) (size + 2 * basePageSize)
  · exact ⟨fun hs => absurd hs.1 (by omega), fun _ => .inr (.inl hopen)⟩
  obtain ⟨hside, rfl, rfl, rfl, rfl⟩ | ⟨side, hside, hcases⟩ :=
    allocDevmemFreed_cases hd hpos (by omega) h
  · exact ⟨fun _ => .inr ⟨rfl, fun _ => rfl, fun _ => .rfl, rfl, fun _ => .refl _⟩,
      fun _ => .inl ⟨hwrap, .inl hside⟩⟩
  obtain ⟨hfind, rfl, rfl, rfl, rfl⟩ | ⟨p, g, region, hp, hg, hnew, hcases⟩ := hcases
  · exact ⟨fun _ => .inr ⟨rfl, fun _ => rfl, fun _ => .rfl, rfl, sameMap_setRoot d (.refl _)⟩,
      fun _ => .inl ⟨hwrap, .inr ⟨side, hside, .inl hfind⟩⟩⟩
  -- what the condition says of the page that was found
  have hcond : Settles d m u start size flags answers → addrOf p ≠ 0 ∧
      (Room m u start size flags answers (addrOf p) ∨
        Blocked m start flags (answers.headD []) (addrOf p) ∧ p < 2 ^ 52) := by
    rintro ⟨-, hno | ⟨side', hside', ⟨align, hnone⟩ | ⟨q, hq, hne, hrest⟩⟩⟩
    · rw [hside] at hno
      cases hno
    · obtain rfl := selected hside hside'
      obtain ⟨x, align', hfind, -⟩ := hp
      rw [hfind] at hnone
      cases hnone
    · obtain rfl := selected hside hside'
      obtain rfl := FoundAt.unique hp hq
      exact ⟨hne, hrest⟩
  obtain ⟨hal, hlt⟩ := addrOf_page p
  have hasize : alignUp size basePageSize = pagesOf size * basePageSize := alignUp_pagesOf (by omega)
  obtain ⟨hzero, rfl, rfl⟩ | ⟨hne, m₁, ret, hmap, hcases⟩ := hcases
  · refine ⟨fun hs => absurd hzero (hcond hs).1, ?_⟩
    rintro (hgives | hrefuses)
    · exact absurd rfl hgives.ne
    · have hsame := hrefuses.regions side
      rw [setRoot_root] at hsame
      exact absurd hsame (not_sameMap_of_new hnew)
  obtain ⟨hok, rfl, rfl⟩ | ⟨herr, rfl, hunmap, region', status, hfree, rfl⟩ := hcases
  · constructor
    · intro hs
      obtain ⟨-, hroom | ⟨hblocked, -⟩⟩ := hcond hs
      · exact .inl (gives_of_room rfl hpos hwrap hal hw hfresh hf hstart hmap hok hroom.aligned hne
          hroom.free)
      · exact absurd hok (same_of_blocked rfl hpos hwrap hal hw hfresh hstart hmap hblocked.free
          hblocked.error hblocked.tables).2
    · rintro (hgives | hrefuses)
      · by_cases hbehind : start % 4096 ≠ 0 → ∀ x,
            statVpage m ((addrOf p + pagesOf size * basePageSize) % 2 ^ 64) = some x → x.order = 0
        · have haligned := aligned_of_gives rfl hpos hwrap hal hw hfresh hf hstart hmap hok hgives
            hbehind
          refine .inl ⟨hwrap, .inr ⟨side, hside, .inr ⟨p, hp, hne, .inl ?_⟩⟩⟩
          exact ⟨⟨m', by rw [hasize, hmap, hok]⟩, hgives.free, haligned⟩
        · rw [Classical.not_imp, not_forall] at hbehind
          obtain ⟨hunal, x, hx⟩ := hbehind
          obtain ⟨hx, ho⟩ := Classical.not_imp.mp hx
          exact .inr (.inr ⟨hunal, side, p, x, hside, hp, hx, Nat.pos_of_ne_zero ho⟩)
      · exact absurd hrefuses.null hne
  · constructor
    · intro hs
      obtain ⟨-, hroom | ⟨hblocked, hpage⟩⟩ := hcond hs
      · obtain ⟨m₂, hm₂⟩ := hroom.mappable
        rw [hasize, hmap] at hm₂
        cases hm₂
        exact absurd rfl herr
      · obtain ⟨rfl, -⟩ := same_of_blocked rfl hpos hwrap hal hw hfresh hstart hmap hblocked.free
          hblocked.error hblocked.tables
        obtain ⟨h₀, -, -, h₃⟩ := range_bounds (n := pagesOf size) rfl hpos hwrap
        rw [unmapRegion_eq hlt hal (by rw [hb]; exact Nat.mul_mod_left ..)
          (by rw [hb]; exact (Nat.le_add_right ..).trans_lt h₃)] at hunmap
        obtain ⟨hfreed, hsame⟩ := unmapPages_first
          (by rw [hb]; exact Nat.mul_ne_zero h₀.ne' (by decide)) hunmap
        obtain rfl := hsame hblocked.free
        exact .inr ⟨rfl, fun _ => rfl, fun _ => .rfl, hfreed.2 hblocked.free,
          sameMap_setRoot d (sameMap_freed hnew hg hpage hfree)⟩
    · rintro (hgives | hrefuses)
      · exact absurd rfl hgives.ne
      · obtain ⟨hnone, hfails, htables⟩ := blocked_of_refused rfl hpos hwrap hal hw hfresh hf hstart
          hmap hlt herr hunmap hrefuses.freed hrefuses.tables
        refine .inl ⟨hwrap, .inr ⟨side, hside, .inr ⟨p, hp, hne, .inr ⟨⟨hnone, hfails, htables⟩, ?_⟩⟩⟩⟩
        by_contra hge
        have hsame := hrefuses.regions side
        rw [setRoot_root] at hsame
        exact not_sameMap_freed hnew hg (not_lt.1 hge) hfree hsame

lemma bootDevmem_whole : Whole bootDevmem := by
  intro side
  cases side with
  | preRam =>
    exact ⟨[1], (@initRegion_partition bootDevmem.preRam emptyMap 1 0 0x80000 0 OK rfl rfl
      (by decide) rfl).1, rfl, by decide +kernel⟩
  | postRam =>
    exact ⟨[2], (@initRegion_partition bootDevmem.postRam emptyMap 2 0x88000000 (2 ^ 64 - 0x88000) 0
      OK rfl rfl (by decide) rfl).1, rfl, by decide +kernel⟩

theorem allocDevmem_allOrNothing_iff_device :
    ∃ d' m', allocDevmemFreed bootDevmem freshVmem (some 3) (some 4) 0x90000000 4096 (deviceFlags 6)
      twoTables = some (d', m', 0x88000000, []) ∧ Gives freshVmem m' freshRegion 4096 0x88000000 := by
  have hret : (allocDevmemFreed bootDevmem freshVmem (some 3) (some 4) 0x90000000 4096 (deviceFlags 6)
      twoTables).map (fun r => (r.2.2.1, r.2.2.2)) = some (0x88000000, []) := by
    decide +kernel
  rw [Option.map_eq_some_iff] at hret
  obtain ⟨⟨d', m', v, freed⟩, h, hv⟩ := hret
  cases hv
  have hmap : (mapFixedRegion freshVmem 0x88000000 0x90000000 4096 (deviceFlags 6).toNat twoTables).map
      Prod.snd = some OK := by
    decide +kernel
  obtain ⟨⟨m₁, ret⟩, hmap, rfl⟩ := Option.map_eq_some_iff.1 hmap
  have hroom : Room freshVmem freshRegion 0x90000000 4096 (deviceFlags 6) twoTables 0x88000000 := by
    refine ⟨⟨m₁, hmap⟩, fun i hi => ⟨freshProcess_stat ?_, ?_⟩, by decide⟩
    · rw [UVMEM_END]
      omega
    · rintro ⟨p, g, hg, -⟩
      rw [freshRegion_usedAt] at hg
      cases hg
  have hsettles : Settles bootDevmem freshVmem freshRegion 0x90000000 4096 (deviceFlags 6) twoTables := by
    refine ⟨by decide, .inr ⟨.postRam, rfl, .inr ⟨0x88000, ⟨2, 0, ?_⟩, by decide, .inl hroom⟩⟩⟩
    decide +kernel
  obtain hgives | hrefuses := (allocDevmem_allOrNothing_iff bootDevmem_whole freshVmem_wellFormed
    twoTables_fresh (deviceFlags_toNat 6 ▸ sanitizeUvflags_pageFlags 6) (by norm_num) (by norm_num)
      h).1 hsettles
  · exact ⟨d', m', h, hgives⟩
  · cases hrefuses.null

def busyVmem : Space :=
  (mapVpage freshVmem 0xffffffc080700000 0x88000000 23 0 [0xffffffc080600000, 0xffffffc080601000]).1

theorem alloc_devmem_frees_process_page :
    ∃ d' m', allocDevmemFreed bootDevmem busyVmem (some 3) (some 4) 0x90000000 4096 (deviceFlags 6) [] =
        some (d', m', 0, [(0, 0xffffffc080700000)]) ∧
      statVpage busyVmem 0x88000000 = some ⟨0xffffffc080700000, 0, 0xd7⟩ ∧
      statVpage m' 0x88000000 = none ∧
      ¬ (Gives busyVmem m' freshRegion 4096 0 ∨
        Refuses bootDevmem d' busyVmem m' [(0, 0xffffffc080700000)] 0) := by
  have hret : (allocDevmemFreed bootDevmem busyVmem (some 3) (some 4) 0x90000000 4096 (deviceFlags 6)
      []).map (fun r => (statVpage r.2.1 0x88000000, r.2.2.1, r.2.2.2)) =
        some (none, 0, [(0, 0xffffffc080700000)]) := by
    decide +kernel
  rw [Option.map_eq_some_iff] at hret
  obtain ⟨⟨d', m', v, freed⟩, h, hv⟩ := hret
  obtain ⟨hstat, hv⟩ := Prod.mk.inj hv
  obtain ⟨rfl, rfl⟩ := Prod.mk.inj hv
  refine ⟨d', m', h, by decide +kernel, hstat, ?_⟩
  rintro (hgives | hrefuses)
  · exact hgives.ne rfl
  · cases hrefuses.freed

end Kmi.Dmem
