import Kmi.Shared.Runs
import Kmi.Uvmem.Copy

/-! What processes can rely on in every state of the system: what the counters count, which bytes
are shared, and what is left of a process that ends. -/

namespace Kmi.Shared

open Kmi.Library.Degree Kmi.Mem Kmi.Vmem Kmi.Regions Kmi.Uvmem

variable {s s' : System} {links links' : Finset Link} {c d o p q home page : ℕ} {g g' : Region} {call : Call}

def origin (g : Region) (p y : ℕ) : ℕ × ℕ :=
  if g.pid = 0 then (p, y) else (g.pid, g.refcount + (y - g.start * basePageSize))

section Bytes

variable (h : Sound s links) {y : ℕ} (hp : s.known p) (hg : usedAt (s.regions p) page = some g)
  (hy : InRegion g y)

include h hp hg hy

lemma Sound.own_byte (hown : g.pid = 0) : ∃ b, byteAt (s.vmem p) y = some b := by
  have hh := h.good.healthy p hp
  have hend := page_uvmemEnd
  obtain ⟨xs, hx⟩ : ∃ xs, Partition (s.regions p) xs := hh.valid.region
  have hstop := (usedAt_range hx hg).2.2.2
  rw [show (s.regions p).stop = _ from hh.valid.stop] at hstop
  obtain ⟨x, hx⟩ := (hh.backed page g hg hown).2.translated hy.1 hy.2
  have hlt := hy.2
  rw [basePageSize_eq] at hlt
  have hx' : statVpage (s.vmem p) y = some x := hx
  rw [byteAt, if_pos (by omega), physical, hx']
  exact ⟨_, rfl⟩

lemma Sound.origin_own : ∃ b, byteAt (s.vmem p) y = some b ∧ s.known (origin g p y).1 ∧
    s.view.Own (origin g p y).1 (origin g p y).2 b := by
  by_cases hpid : g.pid = 0
  · obtain ⟨b, hb⟩ := h.own_byte hp hg hy hpid
    rw [origin, if_pos hpid]
    exact ⟨b, hb, hp, page, g, hg, hpid, hy, hb⟩
  · obtain ⟨l, hl, rfl, rfl⟩ := h.good.counted.complete p page g hp hg hpid id
    obtain ⟨g₁, g', hlink⟩ := h.good.counted.linked l hl
    obtain rfl := Option.some.inj (hlink.reference.symm.trans hg)
    have hown := h.good.counted.owners l hl
    have hstart := ((h.good.healthy _ hp).tidy.places _ _ hlink.reference).1
    obtain ⟨i, rfl⟩ : ∃ i, y = l.page * basePageSize + i := ⟨y - l.page * basePageSize, by
      have := hy.1
      rw [hstart] at this
      omega⟩
    have hi : i < g₁.size * basePageSize := by
      have := hy.2
      rw [Region.size, hstart, Nat.sub_mul]
      omega
    have hin := inRegion_offset ((h.good.healthy _ hown).tidy.places _ _ hlink.region).1 (hlink.size ▸ hi)
    obtain ⟨b, hb⟩ := h.own_byte hown hlink.region hin hlink.own
    have hshow := h.mapped.shows l hl g₁ hp hlink.reference i hi
    rw [origin, if_neg hpid, hlink.pid, hlink.address, hstart, Nat.add_sub_cancel_left]
    exact ⟨b, hshow.trans hb, hown, l.home, g', hlink.region, hlink.own, hin, hb⟩

end Bytes

lemma Sound.shows (hs : Sound s links) (hr : s.References (d, page) o home) :
    ∃ g g', usedAt (s.regions d) page = some g ∧ usedAt (s.regions o) home = some g' ∧ s.known o ∧ g'.pid = 0 ∧
      g.size = g'.size ∧ ∀ i < g.size * basePageSize,
        byteAt (s.vmem d) (page * basePageSize + i) = byteAt (s.vmem o) (home * basePageSize + i) ∧
          (byteAt (s.vmem o) (home * basePageSize + i)).isSome := by
  obtain ⟨l, hl, hplace, he⟩ := hs.references_iff.1 hr
  obtain ⟨rfl, rfl⟩ := Prod.mk.inj he
  obtain ⟨rfl, rfl⟩ := Prod.mk.inj hplace
  obtain ⟨g, g', hlink⟩ := hs.good.counted.linked l hl
  have hown := hs.good.counted.owners l hl
  refine ⟨g, g', hlink.reference, hlink.region, hown, hlink.own, hlink.size, fun i hi =>
    ⟨hs.mapped.shows l hl g (hs.users l hl) hlink.reference i hi, ?_⟩⟩
  have hin := inRegion_offset ((hs.good.healthy _ hown).tidy.places _ _ hlink.region).1 (hlink.size ▸ hi)
  obtain ⟨b, hb⟩ := hs.own_byte hown hlink.region hin hlink.own
  rw [hb]
  rfl

/-! A process that refers to memory of its own. -/

def nobody : System :=
  ⟨fun _ => false, fun _ => ⟨0, 0, false, ⟨emptyMap, ⟨createVmem 0, fun _ _ => 0⟩⟩⟩, fun _ => 0, []⟩

def after (s : System) (c : Call) : System := ((step 0 s c).map Prod.fst).getD s

def alone : System := after nobody (.create 2 true emptyMap 1 0 fun _ _ => 0)

def settledIn : System := after alone (.reqFixmem 2 (some 2) (some 3) 0x10000 4096 6
  [⟨0xffffffc180000000, [0xffffffc100000000, 0xffffffc100001000]⟩])

def sharing : System := after settledIn (.reqSharedmem 2 (some 4) (some 5) 4096 6 [⟨0xffffffc180001000, []⟩])

def circle : System := after sharing (.refSharedmem 2 (some 6) (some 7) 2 0x11000 6 [[]])

lemma Reached.after (h : Reached s) (ho : Orderly s call) (hc : ∀ fuel, step fuel s call = step 0 s call) :
    Reached (after s call) := by
  obtain ⟨links, hs⟩ := h.sound
  obtain ⟨s', -, r, hres, -⟩ := call_stepped hs ho
  have hnext := h.next ho hres
  obtain ⟨n, hn⟩ := hres
  have hrun : step n s call = some (s', r) := hn n le_rfl
  rw [hc] at hrun
  rw [Shared.after, hrun]
  exact hnext

lemma nobody_reached : Reached nobody := ⟨nobody, fun _ => rfl, .refl⟩

lemma alone_reached : Reached alone :=
  nobody_reached.after ⟨by decide, by decide, rfl, rfl, rfl, fun _ => rfl⟩ fun _ => rfl

lemma view_used (s : System) (p page : ℕ) : s.view.used p page = usedAt (s.regions p) page := rfl

lemma known_two {t : ℕ → Bool} (ht : t = Function.update (fun _ => false) 2 true) (hp : t p = true) : p = 2 := by
  rw [ht, Function.update_apply] at hp
  split_ifs at hp with heq
  exact heq

lemma alone_orderly : Orderly alone (.reqFixmem 2 (some 2) (some 3) 0x10000 4096 6
    [⟨0xffffffc180000000, [0xffffffc100000000, 0xffffffc100001000]⟩]) := by
  have hused : ∀ page, usedAt (alone.regions 2) page = none := usedAt_unused rfl
  have hvmem : alone.vmem 2 = ⟨createVmem 0, fun _ _ => 0⟩ := rfl
  have hpages : granted ⟨createVmem 0, fun _ _ => 0⟩ (16 * basePageSize) (pagesOf 4096 * basePageSize) maxOrder
      (uvflags 6) [⟨0xffffffc180000000, [0xffffffc100000000, 0xffffffc100001000]⟩] = [(0, 0xffffffc180000000)] := by
    rfl
  refine ⟨⟨by decide, by decide, fun p g hg => ?_⟩, ⟨⟨by decide, rfl⟩, rfl,
    ⟨by decide, by decide, 2, 3, rfl, rfl, rfl, rfl, by decide⟩, fun y _ hy => ?_,
    ⟨by decide, createVmem_fresh (fun _ => rfl) (by decide) (by decide) (by decide)⟩, ?_, ?_⟩⟩
  · rw [hused] at hg
    cases hg
  · rw [hvmem]
    exact createVmem_stat (hy.trans (by decide))
  · rw [hvmem]
    exact hpages ▸ List.pairwise_singleton _ _
  · rintro f - p y b hp ⟨page, g, hg, -⟩
    obtain rfl := known_two rfl hp.2
    change usedAt (alone.regions 2) page = some g at hg
    rw [hused] at hg
    cases hg

lemma settledIn_reached : Reached settledIn := alone_reached.after alone_orderly fun _ => rfl

lemma settledIn_vmem : settledIn.vmem 2 = onePage := rfl

lemma settledIn_free : settledIn.view.Free [(0, 0xffffffc180001000)] := by
  rintro f hf p y b hp ⟨page, g, hg, -, hy, hb⟩
  obtain rfl := known_two rfl hp.2
  obtain rfl := List.mem_singleton.1 hf
  obtain ⟨links, hs⟩ := settledIn_reached.sound
  have hv := (hs.good.healthy 2 hp).valid
  obtain ⟨xs, hx⟩ : ∃ xs, Partition (settledIn.regions 2) xs := hv.region
  have hstop := (usedAt_range hx hg).2.2.2
  rw [show (settledIn.regions 2).stop = _ from hv.stop] at hstop
  have hend := page_uvmemEnd
  have hlt := hy.2
  rw [basePageSize_eq] at hlt
  have huser : y < UVMEM_END := by
    rw [UVMEM_END]
    omega
  obtain ⟨-, hb⟩ := physical_of_byteAt (show byteAt (settledIn.vmem 2) y = some b from hb)
  rw [settledIn_vmem, physical, onePage_stat huser] at hb
  split_ifs at hb
  · have heq := Option.some.inj hb
    have hsize : orderSize 0 = 4096 := by decide
    dsimp only at heq ⊢
    rw [hsize] at heq
    omega
  · cases hb

lemma settledIn_facts : granted (settledIn.vmem 2) (17 * basePageSize) (pagesOf 4096 * basePageSize) 0 (uvflags 6)
    [⟨0xffffffc180001000, []⟩] = [(0, 0xffffffc180001000)] ∧ statVpage (settledIn.vmem 2) 0x11000 = none ∧
    findFreeRegion (settledIn.regions 2) (pagesOf 4096) = some (some 3, 0) ∧
    ((settledIn.regions 2).region 3).start = 17 ∧ 17 + pagesOf 4096 ≤ ((settledIn.regions 2).region 3).stop ∧
    settledIn.known 2 ∧ (settledIn.tcb 2).rid = 2 ∧ (settledIn.regions 2).taken 4 = false ∧
    (settledIn.regions 2).taken 5 = false := by
  decide +kernel

lemma settledIn_orderly : Orderly settledIn (.reqSharedmem 2 (some 4) (some 5) 4096 6 [⟨0xffffffc180001000, []⟩]) := by
  obtain ⟨hpages, hnone, hfind, hstart, hstop, hknown, hrid, hpre, hpost⟩ := settledIn_facts
  refine ⟨17, ⟨3, 0, hfind, by rw [hstart], hstop⟩, ⟨hknown, hrid, ⟨by decide, by decide, 4, 5, rfl, rfl, hpre, hpost,
    by decide⟩, fun y hy hy' => ?_, ⟨by decide, by decide, by decide, fun p hp => absurd hp List.not_mem_nil⟩, ?_, ?_⟩⟩
  · rw [show pagesOf 4096 = 1 from rfl, basePageSize_eq] at hy'
    rw [basePageSize_eq] at hy
    have hpage : walkPage y = walkPage 0x11000 := by
      rw [walkPage, walkPage]
      omega
    rw [statVpage_walkPage _ hpage, hnone]
  · exact hpages ▸ List.pairwise_singleton _ _
  · exact hpages ▸ settledIn_free

lemma sharing_reached : Reached sharing := settledIn_reached.after settledIn_orderly fun _ => rfl

lemma sharing_facts : (usedAt (sharing.regions 2) 17).map (fun g => (g.pid, g.size, g.flags &&& MR_SHARED)) =
    some (0, 1, MR_SHARED) ∧ statVpage (sharing.vmem 2) 0x12000 = none ∧
    findFreeRegion (sharing.regions 2) (pagesOf (1 * basePageSize)) = some (some 5, 0) ∧
    ((sharing.regions 2).region 5).start = 18 ∧
    18 + pagesOf (1 * basePageSize) ≤ ((sharing.regions 2).region 5).stop ∧ sharing.known 2 ∧
    (sharing.tcb 2).rid = 2 ∧ (sharing.tcb 2).shared = true ∧ (sharing.regions 2).taken 6 = false ∧
    (sharing.regions 2).taken 7 = false := by
  decide +kernel

lemma sharing_region : ∃ g, usedAt (sharing.regions 2) 17 = some g ∧ g.pid = 0 ∧ g.size = 1 ∧
    g.flags &&& MR_SHARED = MR_SHARED := by
  obtain ⟨g, hg, heq⟩ := Option.map_eq_some_iff.1 sharing_facts.1
  simp only [Prod.mk.injEq] at heq
  exact ⟨g, hg, heq⟩

lemma sharing_orderly : Orderly sharing (.refSharedmem 2 (some 6) (some 7) 2 0x11000 6 [[]]) := by
  obtain ⟨-, hnone, hfind, hstart, hstop, hknown, hrid, -, hpre, hpost⟩ := sharing_facts
  obtain ⟨g, hg, hpid, hsize, -⟩ := sharing_region
  refine ⟨hknown, hrid, fun g' hg' hshared _ _ => .inr ⟨18, by decide, ?_⟩⟩
  have hpage : Regions.page 0x11000 = 17 := by decide
  rw [hpage] at hg' ⊢
  obtain rfl := Option.some.inj (hg.symm.trans hg')
  refine ⟨hknown, hknown, hrid, (view_used ..).trans hg', hpid, hshared, ⟨6, 7, rfl, rfl, hpre, hpost, by decide⟩, ?_,
    fun y hy hy' => ?_, uvflags_toNat 6 ▸ sanitizeUvflags_pageFlags 6, ?_⟩
  · rw [hsize]
    exact ⟨5, 0, hfind, by rw [hstart], hstop⟩
  · rw [hsize, basePageSize_eq] at hy'
    rw [basePageSize_eq] at hy
    have hpage : walkPage y = walkPage 0x12000 := by
      rw [walkPage, walkPage]
      omega
    rw [statVpage_walkPage _ hpage, hnone]
  · exact ⟨by decide, by decide, fun p hp => absurd hp List.not_mem_nil⟩

lemma circle_reached : Reached circle := sharing_reached.after sharing_orderly fun _ => rfl

lemma circle_facts : circle.known 2 ∧ (circle.tcb 2).rid = 2 ∧ (circle.tcb 2).refcount = 2 ∧ circle.holds 2 = 0 ∧
    (usedAt (circle.regions 2) 17).map (fun g => (g.pid, g.refcount, g.start, g.stop)) = some (0, 2, 17, 18) ∧
    (usedAt (circle.regions 2) 18).map (fun g => (g.pid, g.refcount, g.start, g.stop)) =
      some (2, 17 * basePageSize, 18, 19) := by
  decide +kernel

lemma circle_known : circle.known 2 := circle_facts.1

lemma circle_rid : (circle.tcb 2).rid = 2 := circle_facts.2.1

lemma circle_region : ∃ g, usedAt (circle.regions 2) 17 = some g ∧ g.pid = 0 ∧ g.refcount = 2 ∧ g.start = 17 ∧
    g.stop = 18 := by
  obtain ⟨g, hg, heq⟩ := Option.map_eq_some_iff.1 circle_facts.2.2.2.2.1
  simp only [Prod.mk.injEq] at heq
  exact ⟨g, hg, heq⟩

lemma circle_reference : ∃ g, usedAt (circle.regions 2) 18 = some g ∧ g.pid = 2 ∧ g.refcount = 17 * basePageSize ∧
    g.start = 18 ∧ g.stop = 19 := by
  obtain ⟨g, hg, heq⟩ := Option.map_eq_some_iff.1 circle_facts.2.2.2.2.2
  simp only [Prod.mk.injEq] at heq
  exact ⟨g, hg, heq⟩

lemma circle_references : circle.References (2, 18) 2 17 := by
  obtain ⟨g, hg, hpid, hcount, -⟩ := circle_reference
  exact ⟨circle_known, g, hg, by rw [hpid]; decide, hpid, hcount⟩

theorem region_refcount (h : Reached s) (hp : s.known p) (hg : usedAt (s.regions p) page = some g)
    (hown : g.pid = 0) : g.refcount = 1 + Set.ncard {e | s.References e p page} := by
  obtain ⟨links, hs⟩ := h.sound
  exact hs.region_count hp hg hown

theorem region_refcount_circle : Set.ncard {e | circle.References e 2 17} = 1 := by
  obtain ⟨g, hg, hpid, hcount, -⟩ := circle_region
  have h := region_refcount circle_reached circle_known hg hpid
  omega

theorem process_refcount (h : Reached s) (hp : s.known p) : 0 < (s.tcb p).refcount ∧
    (s.tcb p).refcount = (if (s.tcb p).rid = p then 1 else 0) + s.holds p +
      Set.ncard {e | ∃ home, s.References e p home} := by
  obtain ⟨links, hs⟩ := h.sound
  have hthreads : (s.tcb p).refcount = s.view.alive p + s.holds p + degree links Link.owner p + 0 :=
    hs.good.counted.threads p hp
  refine ⟨hs.good.counted.needed p hp, ?_⟩
  rw [hthreads, degree_eq_ncard hs.places_inj fun e => hs.owner_iff, add_zero, View.alive]
  congr 2
  change ((if (s.tcb p).rid = p then 1 else 0 : ℕ) : ℤ) = _
  split_ifs <;> rfl

theorem process_refcount_circle : Set.ncard {e | ∃ home, circle.References e 2 home} = 1 := by
  obtain ⟨-, h⟩ := process_refcount circle_reached circle_known
  obtain ⟨-, -, hcount, hholds, -⟩ := circle_facts
  rw [hcount, circle_rid, hholds, if_pos rfl] at h
  omega

theorem reference_shows (h : Reached s) (hr : s.References (d, page) o home) :
    ∃ g g', usedAt (s.regions d) page = some g ∧ usedAt (s.regions o) home = some g' ∧ s.known o ∧ g'.pid = 0 ∧
      g.size = g'.size ∧ ∀ i < g.size * basePageSize,
        byteAt (s.vmem d) (page * basePageSize + i) = byteAt (s.vmem o) (home * basePageSize + i) ∧
          (byteAt (s.vmem o) (home * basePageSize + i)).isSome := by
  obtain ⟨links, hs⟩ := h.sound
  exact hs.shows hr

theorem reference_shows_circle : ∃ g g', usedAt (circle.regions 2) 18 = some g ∧
    usedAt (circle.regions 2) 17 = some g' ∧ circle.known 2 ∧ g'.pid = 0 ∧ g.size = g'.size ∧
    ∀ i < g.size * basePageSize,
      byteAt (circle.vmem 2) (18 * basePageSize + i) = byteAt (circle.vmem 2) (17 * basePageSize + i) ∧
        (byteAt (circle.vmem 2) (17 * basePageSize + i)).isSome :=
  reference_shows circle_reached circle_references

/-- No two addresses of regions in use lead to the same byte, but for those that stand for the
same address of the same process. -/
theorem bytes_eq_iff {y y' : ℕ} (h : Reached s) (hp : s.known p) (hq : s.known q)
    (hg : usedAt (s.regions p) page = some g) (hg' : usedAt (s.regions q) home = some g') (hy : InRegion g y)
    (hy' : InRegion g' y') : byteAt (s.vmem p) y = byteAt (s.vmem q) y' ↔ origin g p y = origin g' q y' := by
  obtain ⟨links, hs⟩ := h.sound
  obtain ⟨b, hb, hk, ho⟩ := hs.origin_own hp hg hy
  obtain ⟨b', hb', hk', ho'⟩ := hs.origin_own hq hg' hy'
  rw [hb, hb']
  constructor
  · intro heq
    obtain rfl := Option.some.inj heq
    obtain ⟨hpp, hyy⟩ := hs.mapped.distinct _ _ _ _ b hk hk' ho ho'
    exact Prod.ext hpp hyy
  · intro heq
    obtain ⟨_, _, _, _, _, hbyte⟩ := ho
    obtain ⟨_, _, _, _, _, hbyte'⟩ := ho'
    rw [← hbyte, ← hbyte', heq]

theorem bytes_eq_iff_circle : byteAt (circle.vmem 2) 0x12345 = byteAt (circle.vmem 2) 0x11345 := by
  obtain ⟨g, hg, hpid, -, hstart, hstop⟩ := circle_region
  obtain ⟨g', hg', hpid', hcount', hstart', hstop'⟩ := circle_reference
  apply (bytes_eq_iff circle_reached circle_known circle_known hg' hg _ _).2
  · rw [origin, origin, if_neg (by rw [hpid']; decide), if_pos hpid, hpid', hcount', hstart', basePageSize_eq]
  · rw [InRegion, hstart', hstop', basePageSize_eq]
    omega
  · rw [InRegion, hstart, hstop, basePageSize_eq]
    omega

def System.Unused (s : System) (f : ℕ × ℕ) : Prop :=
  ∀ p page g, s.known p → usedAt (s.regions p) page = some g → ∀ y b, InRegion g y →
    byteAt (s.vmem p) y = some b → b < f.2 ∨ f.2 + orderSize f.1 ≤ b

lemma Sound.unused (h : Sound s links) {pages : List (ℕ × ℕ)} (hf : s.view.Free pages) {f : ℕ × ℕ} (hm : f ∈ pages) :
    s.Unused f := by
  intro p page g hp hg y b hy hb
  obtain ⟨b', hb', hk, ho⟩ := h.origin_own hp hg hy
  obtain rfl := Option.some.inj (hb.symm.trans hb')
  exact hf f hm _ _ b hk ho

lemma circle_orderly : Orderly circle (.exit 2) := ⟨circle_known, circle_rid⟩

theorem circle_stays {P : ℕ → Prop} (h : Reached s)
    (hP : ∀ p, P p → s.known p ∧ ∃ e home, P e.1 ∧ s.References e p home)
    (hrun : Runs (fun c => ∀ p, c.frees p → ¬ P p) s s') : ∀ p, P p → s'.known p := by
  obtain ⟨links, hs⟩ := h.sound
  obtain ⟨links', -, hclosed⟩ := Runs.closed hs (hs.closed_iff.2 hP) hrun
  exact fun p hp => (hclosed p hp).1

theorem circle_stays_exit : ∃ s' r, Results circle (.exit 2) s' r ∧ s'.known 2 := by
  obtain ⟨links, hs⟩ := circle_reached.sound
  obtain ⟨s', -, r, hres, -⟩ := call_stepped hs circle_orderly
  refine ⟨s', r, hres, @circle_stays circle s' (· = 2) circle_reached ?_ ?_ 2 rfl⟩
  · rintro p rfl
    exact ⟨circle_known, (2, 18), 17, rfl, circle_references⟩
  · exact .single ⟨.exit 2, r, fun _ => False.elim, circle_orderly, hres⟩

/-- Where the own thread of a process ends, exactly those are left that a thread or a call needs,
or that refer to each other. -/
theorem exit_leaves (h : Reached s) (hp : s.known p) (hrid : (s.tcb p).rid = p) (hinit : p ≠ 1) :
    ∃ s', Results s (.exit p) s' (statusVm OK, 0) ∧ ∀ q, s'.known q ↔
      ∃ P : ℕ → Prop, P q ∧ ∀ x, P x → s.known x ∧ ((s.tcb x).rid = x ∧ x ≠ p ∨ 0 < s.holds x ∨
        ∃ e home, P e.1 ∧ s.References e x home) := by
  obtain ⟨links, hs⟩ := h.sound
  obtain ⟨s', links', hres, -, hknown⟩ := exit_stepped hs hp hrid hinit
  refine ⟨s', hres, fun q => (hknown q).trans (exists_congr fun P => ?_)⟩
  have hneed : ∀ x, s.known x → (((endThread s p).tcb x).rid ≠ 0 ↔ (s.tcb x).rid = x ∧ x ≠ p) := by
    intro x hx
    rw [endThread_tcb]
    split_ifs with hxp
    · simp [hxp]
    · have hcases := hs.good.counted.rids x hx
      change (s.tcb x).rid = x ∨ (s.tcb x).rid = 0 at hcases
      have hpos := hx.1
      constructor
      · exact fun hne => ⟨hcases.resolve_right hne, hxp⟩
      · rintro ⟨heq, -⟩
        omega
  have hlinks : ∀ x, (∃ l ∈ links, l.owner = x ∧ P l.user) ↔ ∃ e home, P e.1 ∧ s.References e x home := by
    intro x
    constructor
    · rintro ⟨l, hl, rfl, hu⟩
      exact ⟨(l.user, l.page), l.home, hu, hs.references_iff.2 ⟨l, hl, rfl, rfl⟩⟩
    · rintro ⟨e, home, he, hr⟩
      obtain ⟨l, hl, hplace, rfl⟩ := hs.references_iff.1 hr
      exact ⟨l, hl, (Prod.mk.inj hplace).1, he⟩
  constructor
  · rintro ⟨hsup, hq⟩
    refine ⟨hq, fun x hx => ⟨hsup.known x hx, ?_⟩⟩
    have hn := hsup.needed x hx
    rw [hneed x (hsup.known x hx), hlinks] at hn
    exact hn
  · rintro ⟨hq, hsup⟩
    refine ⟨⟨fun x hx => (hsup x hx).1, fun x hx => ?_⟩, hq⟩
    rw [hneed x (hsup x hx).1, hlinks]
    exact (hsup x hx).2

theorem exit_leaves_circle : ∃ s', Results circle (.exit 2) s' (statusVm OK, 0) ∧ s'.known 2 := by
  obtain ⟨s', hres, hknown⟩ := exit_leaves circle_reached circle_known circle_rid (by decide)
  refine ⟨s', hres, (hknown 2).2 ⟨(· = 2), rfl, ?_⟩⟩
  rintro x rfl
  exact ⟨circle_known, .inr (.inr ⟨(2, 18), 17, rfl, circle_references⟩)⟩

theorem freeMem_keeps_shared (h : Reached s) (hlive : (s.tcb d).rid = d ∨ 0 < s.holds d)
    (hr : s.References (d, page) o home) :
    ∃ s' g, usedAt (s.regions d) page = some g ∧
      Results s (.freeMem d (page * basePageSize)) s' (statusVm OK, 0) ∧ s'.known d ∧
      usedAt (s'.regions d) page = none ∧ ∀ i < g.size * basePageSize,
        byteAt (s'.vmem d) (page * basePageSize + i) = byteAt (s.vmem o) (home * basePageSize + i) ∧
          (byteAt (s.vmem o) (home * basePageSize + i)).isSome := by
  obtain ⟨links, hs⟩ := h.sound
  obtain ⟨g, g', hg, -, -, -, -, hshow⟩ := hs.shows hr
  obtain ⟨hk, g₁, hg₁, hpid, -⟩ := hr
  obtain rfl := Option.some.inj (hg₁.symm.trans hg)
  have hg₂ : usedAt (s.regions d) (Regions.page (page * basePageSize)) = some g₁ := by rwa [page_mul]
  obtain ⟨s', links', hres, -, -, -, hnone, hkept⟩ := freeMem_reference hs hk hg₂ hpid hlive
  obtain ⟨hknown, hvmem, -⟩ := hkept d hk hlive
  rw [page_mul] at hnone
  exact ⟨s', g₁, hg, hres, hknown, hnone, fun i hi => hvmem ▸ hshow i hi⟩

theorem freeMem_keeps_shared_circle : ∃ s' g, usedAt (circle.regions 2) 18 = some g ∧
    Results circle (.freeMem 2 (18 * basePageSize)) s' (statusVm OK, 0) ∧ s'.known 2 ∧
    usedAt (s'.regions 2) 18 = none ∧ ∀ i < g.size * basePageSize,
      byteAt (s'.vmem 2) (18 * basePageSize + i) = byteAt (circle.vmem 2) (17 * basePageSize + i) ∧
        (byteAt (circle.vmem 2) (17 * basePageSize + i)).isSome :=
  freeMem_keeps_shared circle_reached (.inl circle_rid) circle_references

/-- Where that was the only reference, the owner can free the region, whose pages anybody may get
then. The addresses of the reference still lead to them. -/
theorem freeMem_reaches_freed (h : Reached s) (hd : (s.tcb d).rid = d ∨ 0 < s.holds d)
    (ho : (s.tcb o).rid = o ∨ 0 < s.holds o) (hr : s.References (d, page) o home)
    (honly : ∀ e, s.References e o home → e = (d, page)) :
    ∃ s' s'' g pages, usedAt (s.regions d) page = some g ∧
      Results s (.freeMem d (page * basePageSize)) s' (statusVm OK, 0) ∧
      Results s' (.freeMem o (home * basePageSize)) s'' (statusVm OK, 0) ∧ s''.freed = s'.freed ++ pages ∧
      usedAt (s''.regions d) page = none ∧ ∀ i < g.size * basePageSize, ∃ f ∈ pages, ∃ b,
        byteAt (s''.vmem d) (page * basePageSize + i) = some b ∧ f.2 ≤ b ∧ b < f.2 + orderSize f.1 := by
  obtain ⟨links, hs⟩ := h.sound
  obtain ⟨g, g', hg, hg', hown, hpid', hsize, hshow⟩ := hs.shows hr
  obtain ⟨hk, g₁, hg₁, hpid, -⟩ := hr
  obtain rfl := Option.some.inj (hg₁.symm.trans hg)
  have hg₂ : usedAt (s.regions d) (Regions.page (page * basePageSize)) = some g₁ := by rwa [page_mul]
  have hdiff : ¬ (o = d ∧ home = page) := by
    rintro ⟨rfl, rfl⟩
    obtain rfl := Option.some.inj (hg'.symm.trans hg)
    exact hpid hpid'
  obtain ⟨s', links', hres, hstep, hsub, hgone, hnone, hkept⟩ := freeMem_reference hs hk hg₂ hpid hd
  rw [page_mul] at hgone hnone hkept
  have hs' : Sound s' links' := hstep.sound
  obtain ⟨-, hvmem, -⟩ := hkept d hk hd
  obtain ⟨hknown, hvmem', hused⟩ := hkept o hown ho
  obtain ⟨k, hk', hsame⟩ := hused home g' hdiff hg'
  have hkpid : k.pid = 0 := hsame.pid.symm.trans hpid'
  -- nobody refers to the region any more
  have hcount : ¬ 1 < k.refcount := by
    rw [hs'.good.counted.counts o home k hknown hk' hkpid, degree_eq_zero.2]
    · omega
    · intro l hl hplace
      exact hgone l hl (honly _ (hs.references_iff.2 ⟨l, hsub hl, hplace, rfl⟩))
  have hk₂ : usedAt (s'.regions o) (Regions.page (home * basePageSize)) = some k := by
    rw [page_mul]
    exact hk'
  have hkstart : k.start = home := ((hs'.good.healthy o hknown).tidy.places home k hk').1
  obtain ⟨s'', ps, hres', -, hfreed, htiles, hrest, hbytes⟩ := freeMem_own hs' hknown hk₂ hkpid hcount
  refine ⟨s', s'', g₁, ps, hg, hres, hres', hfreed, ?_, fun i hi => ?_⟩
  · rw [← view_used, hrest d page, hnone]
    rintro ⟨rfl, hpage⟩
    exact hdiff ⟨rfl, hkstart.symm.trans hpage.symm⟩
  · obtain ⟨heq, hsome⟩ := hshow i hi
    obtain ⟨b, hb⟩ := Option.isSome_iff_exists.1 hsome
    have hin := inRegion_offset ((hs.good.healthy d hk).tidy.places page g₁ hg).1 hi
    have hin' := inRegion_offset ((hs.good.healthy o hown).tidy.places home g' hg').1 (hsize ▸ hi)
    rw [← hsame.start, ← hsame.stop, hvmem'] at htiles
    obtain ⟨f, hf, hlo, hhi⟩ := tiles_mem htiles hin'.1 hin'.2 hb
    refine ⟨f, hf, b, ?_, hlo, hhi⟩
    have hbyte := hbytes d (page * basePageSize + i) (by
      rintro rfl hin₂
      exact (hs.good.healthy d hk).tidy.elsewhere hg hg' (fun he => hdiff ⟨rfl, he.symm⟩) hin (hsame.inRegion hin₂))
    change s''.view.byte d (page * basePageSize + i) = some b
    rw [hbyte]
    change byteAt (s'.vmem d) (page * basePageSize + i) = some b
    rw [hvmem, heq, hb]

lemma circle_only (e : ℕ × ℕ) (he : circle.References e 2 17) : e = (2, 18) := by
  obtain ⟨links, hs⟩ := circle_reached.sound
  obtain ⟨g, hg, hpid, hcount, -⟩ := circle_region
  have h := hs.region_count circle_known hg hpid
  obtain ⟨a, ha⟩ := Set.ncard_eq_one.1 (show Set.ncard {e | circle.References e 2 17} = 1 by omega)
  have he' : e ∈ {e | circle.References e 2 17} := he
  have hthis : (2, 18) ∈ {e | circle.References e 2 17} := circle_references
  rw [ha, Set.mem_singleton_iff] at he' hthis
  rw [he', hthis]

theorem freeMem_reaches_freed_circle : ∃ s' s'' g pages, usedAt (circle.regions 2) 18 = some g ∧
    Results circle (.freeMem 2 (18 * basePageSize)) s' (statusVm OK, 0) ∧
    Results s' (.freeMem 2 (17 * basePageSize)) s'' (statusVm OK, 0) ∧ s''.freed = s'.freed ++ pages ∧
    usedAt (s''.regions 2) 18 = none ∧ ∀ i < g.size * basePageSize, ∃ f ∈ pages, ∃ b,
      byteAt (s''.vmem 2) (18 * basePageSize + i) = some b ∧ f.2 ≤ b ∧ b < f.2 + orderSize f.1 :=
  freeMem_reaches_freed circle_reached (.inl circle_rid) (.inl circle_rid) circle_references circle_only

theorem refSharedmem_status {pre post : Option ℕ} {tid addr flags : ℕ} {answers : List Pages} (h : Reached s)
    (ho : Orderly s (.refSharedmem c pre post tid addr flags answers)) (hcap : (s.tcb c).shared = true)
    (htid : s.known tid) (hz : s.zombie tid = false) (hg : usedAt (s.regions c) (Regions.page addr) = some g')
    (hshared : g'.flags &&& MR_SHARED ≠ 0) :
    ∃ s' status v, Results s (.refSharedmem c pre post tid addr flags answers) s' (status, v) ∧
      (v ≠ 0 ∧ status = statusVm OK ∧ s'.References (tid, Regions.page v) c (Regions.page addr) ∨
        v = 0 ∧ s'.view = s.view ∧ (status = statusVm OK ↔ Full (s.regions tid) (g'.size * basePageSize))) := by
  obtain ⟨links, hs⟩ := h.sound
  obtain ⟨hc, -, hshare⟩ := ho
  have hb := basePageSize_eq
  obtain hfull | ⟨first, hfirst, hsharing⟩ := hshare g' hg hshared htid hz
  · have hv := (hs.good.healthy c hc).valid
    obtain ⟨xs, hp⟩ : ∃ xs, Partition (s.regions c) xs := hv.region
    have hstop := (usedAt_range hp hg).2.2.2
    rw [show (s.regions c).stop = _ from hv.stop] at hstop
    refine ⟨s, statusVm OK, 0, refSharedmem_full hcap htid hz ⟨xs, hp⟩ hg hstop hshared hfull, .inr ⟨rfl, rfl, ?_⟩⟩
    exact iff_of_true rfl hfull
  · obtain ⟨s', r, hres, -, -, hcase⟩ := refSharedmem_stepped hs hcap hz hfirst hsharing
    refine ⟨s', r.1, r.2, hres, ?_⟩
    obtain ⟨rfl, hs'⟩ | ⟨hcode, hzero, -, hview⟩ := hcase
    · left
      dsimp only
      rw [page_mul]
      refine ⟨?_, rfl, hs'.references_iff.2 ⟨_, Finset.mem_insert_self .., rfl, rfl⟩⟩
      rw [hb]
      omega
    · refine .inr ⟨hzero, hview, iff_of_false ?_ ?_⟩
      · intro hok
        rw [hok] at hcode
        exact absurd hcode (by decide)
      · rintro ⟨align, hnone⟩
        obtain ⟨x, align', hfound, -⟩ := hsharing.found
        rw [hnone] at hfound
        cases hfound

theorem refSharedmem_status_sharing : ∃ s' status v,
    Results sharing (.refSharedmem 2 (some 6) (some 7) 2 0x11000 6 [[]]) s' (status, v) ∧
      (v ≠ 0 ∧ status = statusVm OK ∧ s'.References (2, Regions.page v) 2 17 ∨
        v = 0 ∧ s'.view = sharing.view ∧ (status = statusVm OK ↔ Full (sharing.regions 2) (1 * basePageSize))) := by
  obtain ⟨-, -, -, -, -, hknown, hrid, hcap, -⟩ := sharing_facts
  obtain ⟨g, hg, -, hsize, hflags⟩ := sharing_region
  have hpage : Regions.page 0x11000 = 17 := by decide
  have hz : sharing.zombie 2 = false := by
    rw [System.zombie, hrid]
    rfl
  have h := @refSharedmem_status sharing 2 g (some 6) (some 7) 2 0x11000 6 [[]] sharing_reached sharing_orderly
    hcap hknown hz (hpage ▸ hg) (by rw [hflags]; decide)
  rw [hpage, hsize] at h
  exact h

end Kmi.Shared
