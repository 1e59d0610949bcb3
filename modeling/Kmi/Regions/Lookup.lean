import Kmi.Regions.Search

/-! The used region that an address is in. -/

namespace Kmi.Regions

open BinaryTree Kmi.Library.PointerTree Kmi.SpTree Kmi.Mem

def findAddrRegion (m : RegionMap) (addr : ℕ) : Option (Option ℕ) := do
  let ref := page addr
  match ← findClosestUsedRegion m addr with
  | none => some none
  | some x =>
    if ref < (m.region x).start ∨ ref > (m.region x).stop ∨ !(m.region x).used then some none
    else some (some x)

def Floor (m : RegionMap) (us : List ℕ) (ref f : ℕ) : Prop :=
  f ∈ us ∧ (m.region f).start ≤ ref ∧
    ∀ y ∈ us, (m.region y).start ≤ ref → (m.region y).start ≤ (m.region f).start

def Ceiling (m : RegionMap) (us : List ℕ) (ref c : ℕ) : Prop :=
  c ∈ us ∧ ref < (m.region c).start ∧
    ∀ y ∈ us, ref < (m.region y).start → (m.region c).start ≤ (m.region y).start

/-- The walk keeps `f` against `c`; of two starts at the same distance the one higher up
in the tree is kept, and that is `f` when it has a right child. -/
def Nearer (m : RegionMap) (ref f c : ℕ) : Prop :=
  ref - (m.region f).start < (m.region c).start - ref ∨
    ref - (m.region f).start = (m.region c).start - ref ∧ m.heap.links.right f ≠ none

def dist (m : RegionMap) (ref x : ℕ) : ℕ := ((ref : ℤ) - (m.region x).start).natAbs

structure Passed (m : RegionMap) (us : List ℕ) (ref : ℕ) (lo hi best : Option ℕ) (md : ℕ)
    (n : Option ℕ) : Prop where
  low : ∀ f, lo = some f → f ∈ us ∧ (m.region f).start < ref ∧
    (m.heap.links.right f = n ∨ m.heap.links.right f ≠ none)
  high : ∀ c, hi = some c → c ∈ us ∧ ref < (m.region c).start
  bestNone : best = none → lo = none ∧ hi = none ∧ ∀ y ∈ us, dist m ref y < md
  bestSome : ∀ b, best = some b → (lo = some b ∨ hi = some b) ∧ md = dist m ref b
  nearer : ∀ f c, lo = some f → hi = some c →
    (dist m ref f < dist m ref c → best = some f) ∧
    (dist m ref c < dist m ref f → best = some c) ∧
    (dist m ref f = dist m ref c →
      best = some f ∧ m.heap.links.right f ≠ none ∨ best = some c ∧ m.heap.links.right f = n)

variable {m : RegionMap} {us xs : List ℕ} {ref md a : ℕ} {lo hi best : Option ℕ}

lemma dist_of_le {x : ℕ} (h : (m.region x).start ≤ ref) : dist m ref x = ref - (m.region x).start := by
  unfold dist
  omega

lemma dist_of_ge {x : ℕ} (h : ref ≤ (m.region x).start) : dist m ref x = (m.region x).start - ref := by
  unfold dist
  omega

def keep (m : RegionMap) (ref a : ℕ) (best : Option ℕ) (md : ℕ) : Option ℕ × ℕ :=
  if dist m ref a < md then (some a, dist m ref a) else (best, md)

lemma Passed.left (h : Passed m us ref lo hi best md (some a)) (ha : a ∈ us)
    (hlt : ref < (m.region a).start)
    (hhi : ∀ c, hi = some c → (m.region a).start < (m.region c).start) :
    Passed m us ref lo (some a) (keep m ref a best md).1 (keep m ref a best md).2
      (m.heap.links.left a) := by
  have hda := dist_of_ge (m := m) hlt.le
  have hfar : ∀ c, hi = some c → dist m ref a < dist m ref c := by
    intro c hc
    rw [hda, dist_of_ge (h.high c hc).2.le]
    have := hhi c hc
    omega
  have hright : ∀ f, lo = some f → m.heap.links.right f ≠ none := by
    intro f hf
    obtain ⟨-, -, hr | hr⟩ := h.low f hf
    · rw [hr]
      simp
    · exact hr
  -- the remembered start is the low one whenever that is no farther than the node
  have hkeep : ∀ f, lo = some f → dist m ref f ≤ dist m ref a → best = some f := by
    intro f hf hle
    cases hc : hi with
    | none =>
      cases hb : best with
      | none =>
        obtain ⟨hno, -⟩ := h.bestNone hb
        simp [hno] at hf
      | some b =>
        obtain ⟨hb' | hb', -⟩ := h.bestSome b hb
        · rw [← hb', hf]
        · simp [hc] at hb'
    | some c =>
      have := hfar c hc
      exact (h.nearer f c hf hc).1 (by omega)
  refine ⟨fun f hf => ⟨(h.low f hf).1, (h.low f hf).2.1, .inr (hright f hf)⟩, ?_, ?_, ?_, ?_⟩
  · rintro c ⟨rfl⟩
    exact ⟨ha, hlt⟩
  · intro hnone
    rw [keep] at hnone
    split_ifs at hnone with hd
    obtain ⟨-, -, hall⟩ := h.bestNone hnone
    exact absurd (hall a ha) hd
  · intro b hb
    rw [keep] at hb ⊢
    split_ifs at hb ⊢ with hd
    · obtain rfl := Option.some.inj hb
      exact ⟨.inr rfl, rfl⟩
    · obtain ⟨hlo | hhi', hmd⟩ := h.bestSome b hb
      · exact ⟨.inl hlo, hmd⟩
      · have := hfar b hhi'
        omega
  · rintro f c hf ⟨rfl⟩
    rw [keep]
    refine ⟨fun hlt => ?_, fun hlt => ?_, fun heq => .inl ?_⟩
    · have hb := hkeep f hf hlt.le
      have := (h.bestSome f hb).2
      rw [if_neg (by omega)]
      exact hb
    · have hd : dist m ref a < md := by
        cases hb : best with
        | none => exact (h.bestNone hb).2.2 a ha
        | some b =>
          obtain ⟨hlo | hhi', hmd⟩ := h.bestSome b hb
          · obtain rfl := Option.some.inj (hlo.symm.trans hf)
            omega
          · have := hfar b hhi'
            omega
      rw [if_pos hd]
    · have hb := hkeep f hf heq.le
      have := (h.bestSome f hb).2
      rw [if_neg (by omega)]
      exact ⟨hb, hright f hf⟩

lemma Passed.right (h : Passed m us ref lo hi best md (some a)) (ha : a ∈ us)
    (hlt : (m.region a).start < ref)
    (hlo : ∀ f, lo = some f → (m.region f).start < (m.region a).start) :
    Passed m us ref (some a) hi (keep m ref a best md).1 (keep m ref a best md).2
      (m.heap.links.right a) := by
  have hda := dist_of_le (m := m) hlt.le
  have hfar : ∀ f, lo = some f → dist m ref a < dist m ref f := by
    intro f hf
    rw [hda, dist_of_le (h.low f hf).2.1.le]
    have := hlo f hf
    have := (h.low f hf).2.1
    omega
  have hkeep : ∀ c, hi = some c → dist m ref c ≤ dist m ref a → best = some c := by
    intro c hc hle
    cases hf : lo with
    | none =>
      cases hb : best with
      | none =>
        obtain ⟨-, hno, -⟩ := h.bestNone hb
        simp [hno] at hc
      | some b =>
        obtain ⟨hb' | hb', -⟩ := h.bestSome b hb
        · simp [hf] at hb'
        · rw [← hb', hc]
    | some f =>
      have := hfar f hf
      exact (h.nearer f c hf hc).2.1 (by omega)
  refine ⟨?_, h.high, ?_, ?_, ?_⟩
  · rintro f ⟨rfl⟩
    exact ⟨ha, hlt, .inl rfl⟩
  · intro hnone
    rw [keep] at hnone
    split_ifs at hnone with hd
    obtain ⟨-, -, hall⟩ := h.bestNone hnone
    exact absurd (hall a ha) hd
  · intro b hb
    rw [keep] at hb ⊢
    split_ifs at hb ⊢ with hd
    · obtain rfl := Option.some.inj hb
      exact ⟨.inl rfl, rfl⟩
    · obtain ⟨hlo' | hhi, hmd⟩ := h.bestSome b hb
      · have := hfar b hlo'
        omega
      · exact ⟨.inr hhi, hmd⟩
  · rintro f c ⟨rfl⟩ hc
    rw [keep]
    refine ⟨fun hlt => ?_, fun hlt => ?_, fun heq => .inr ?_⟩
    · have hd : dist m ref a < md := by
        cases hb : best with
        | none => exact (h.bestNone hb).2.2 a ha
        | some b =>
          obtain ⟨hlo' | hhi, hmd⟩ := h.bestSome b hb
          · have := hfar b hlo'
            omega
          · obtain rfl := Option.some.inj (hhi.symm.trans hc)
            omega
      rw [if_pos hd]
    · have hb := hkeep c hc hlt.le
      have := (h.bestSome c hb).2
      rw [if_neg (by omega)]
      exact hb
    · have hb := hkeep c hc heq.ge
      have := (h.bestSome c hb).2
      rw [if_neg (by omega)]
      exact ⟨hb, rfl⟩

structure Closest (m : RegionMap) (us : List ℕ) (ref : ℕ) (b : Option ℕ) : Prop where
  floor : ∀ f, Floor m us ref f → (b = some f ↔ ∀ c, Ceiling m us ref c → Nearer m ref f c)
  other : ∀ y, b = some y → Floor m us ref y ∨ ref < (m.region y).start

lemma nearer_iff {f c : ℕ} (hf : (m.region f).start ≤ ref) (hc : ref ≤ (m.region c).start) :
    Nearer m ref f c ↔ dist m ref f < dist m ref c ∨
      dist m ref f = dist m ref c ∧ m.heap.links.right f ≠ none := by
  rw [Nearer, dist_of_le hf, dist_of_ge hc]

lemma Passed.closest (h : Passed m us ref lo hi best md none)
    (hinj : ∀ x ∈ us, ∀ y ∈ us, (m.region x).start = (m.region y).start → x = y)
    (hcover : ∀ y ∈ us, (∃ f, lo = some f ∧ (m.region y).start ≤ (m.region f).start) ∨
      ∃ c, hi = some c ∧ (m.region c).start ≤ (m.region y).start) : Closest m us ref best := by
  have hfloor : ∀ f, lo = some f → Floor m us ref f := by
    intro f hf
    obtain ⟨hmem, hlt, -⟩ := h.low f hf
    refine ⟨hmem, hlt.le, fun y hy hle => ?_⟩
    obtain ⟨f', hf', hyf⟩ | ⟨c, hc, hcy⟩ := hcover y hy
    · obtain rfl := Option.some.inj (hf.symm.trans hf')
      exact hyf
    · have := (h.high c hc).2
      omega
  have hceil : ∀ c, hi = some c → Ceiling m us ref c := by
    intro c hc
    obtain ⟨hmem, hlt⟩ := h.high c hc
    refine ⟨hmem, hlt, fun y hy hle => ?_⟩
    obtain ⟨f, hf, hyf⟩ | ⟨c', hc', hcy⟩ := hcover y hy
    · have := (h.low f hf).2.1
      omega
    · obtain rfl := Option.some.inj (hc.symm.trans hc')
      exact hcy
  have hlow : ∀ f, Floor m us ref f → lo = some f := by
    rintro f ⟨hmem, hle, hmax⟩
    obtain ⟨g, hg, hfg⟩ | ⟨c, hc, hcf⟩ := hcover f hmem
    · obtain ⟨hgm, hgr, -⟩ := hfloor g hg
      rw [hg, hinj f hmem g hgm (le_antisymm hfg (hmax g hgm hgr))]
    · have := (h.high c hc).2
      omega
  have hhigh : ∀ c, Ceiling m us ref c → hi = some c := by
    rintro c ⟨hmem, hlt, hmin⟩
    obtain ⟨f, hf, hcf⟩ | ⟨g, hg, hgc⟩ := hcover c hmem
    · have := (h.low f hf).2.1
      omega
    · obtain ⟨hgm, hgr, -⟩ := hceil g hg
      rw [hg, hinj c hmem g hgm (le_antisymm (hmin g hgm hgr) hgc)]
  refine ⟨fun f hf => ⟨fun hb c hc => ?_, fun hall => ?_⟩, fun y hy => ?_⟩
  · obtain ⟨hltc, heqc, htie⟩ := h.nearer f c (hlow f hf) (hhigh c hc)
    rw [nearer_iff hf.2.1 hc.2.1.le]
    have hfc : f ≠ c := by
      rintro rfl
      have := hf.2.1
      have := hc.2.1
      omega
    obtain hlt | heq | hgt := lt_trichotomy (dist m ref f) (dist m ref c)
    · exact .inl hlt
    · obtain ⟨-, hr⟩ | ⟨hb', -⟩ := htie heq
      · exact .inr ⟨heq, hr⟩
      · exact absurd (Option.some.inj (hb.symm.trans hb')) hfc
    · exact absurd (Option.some.inj (hb.symm.trans (heqc hgt))) hfc
  · have hlo := hlow f hf
    cases hb : best with
    | none =>
      obtain ⟨hno, -⟩ := h.bestNone hb
      simp [hno] at hlo
    | some b =>
      obtain ⟨hb' | hb', -⟩ := h.bestSome b hb
      · rw [← hb', hlo]
      · have hc := hceil b hb'
        obtain ⟨hltc, -, htie⟩ := h.nearer f b hlo hb'
        obtain hlt | ⟨heq, hr⟩ := (nearer_iff hf.2.1 hc.2.1.le).1 (hall b hc)
        · rw [← hb, hltc hlt]
        · obtain ⟨hbest, -⟩ | ⟨-, hnone⟩ := htie heq
          · rw [← hb, hbest]
          · exact absurd hnone hr
  · obtain ⟨hlo | hhi, -⟩ := h.bestSome y hy
    · exact .inl (hfloor y hlo)
    · exact .inr (hceil y hhi).2.1

lemma closest_of_start_eq (ha : a ∈ us) (heq : (m.region a).start = ref)
    (hinj : ∀ x ∈ us, ∀ y ∈ us, (m.region x).start = (m.region y).start → x = y) :
    Closest m us ref (some a) := by
  refine ⟨fun f hf => ?_, fun y hy => .inl ?_⟩
  · obtain ⟨hmem, hle, hmax⟩ := hf
    have := hmax a ha heq.le
    obtain rfl := hinj f hmem a ha (by omega)
    refine iff_of_true rfl fun c hc => .inl ?_
    have := hc.2.1
    omega
  · obtain rfl := Option.some.inj hy
    exact ⟨ha, heq.le, fun z _ hz => by omega⟩

lemma findClosest_cons {fuel n : ℕ} : findClosest m ref (fuel + 1) (some n) best md =
    if dist m ref n = 0 then some (some n)
    else if ref < (m.region n).start then
      findClosest m ref fuel (m.heap.links.left n) (keep m ref n best md).1 (keep m ref n best md).2
    else
      findClosest m ref fuel (m.heap.links.right n) (keep m ref n best md).1
        (keep m ref n best md).2 := by
  rw [findClosest]
  rfl

lemma findClosest_closest {fuel : ℕ} {t : BinaryTree ℕ} {up n : Option ℕ}
    (ht : Rep m.heap.links up n t) (hfuel : (inorder t).length ≤ fuel)
    (hsort : (inorder t).Pairwise fun a b => (m.region a).start < (m.region b).start)
    (hinj : ∀ x ∈ us, ∀ y ∈ us, (m.region x).start = (m.region y).start → x = y)
    (hsub : ∀ y ∈ inorder t, y ∈ us) (hp : Passed m us ref lo hi best md n)
    (hlo : ∀ f, lo = some f → ∀ y ∈ inorder t, (m.region f).start < (m.region y).start)
    (hhi : ∀ c, hi = some c → ∀ y ∈ inorder t, (m.region y).start < (m.region c).start)
    (hcover : ∀ y ∈ us, y ∈ inorder t ∨
      (∃ f, lo = some f ∧ (m.region y).start ≤ (m.region f).start) ∨
      ∃ c, hi = some c ∧ (m.region c).start ≤ (m.region y).start) :
    ∃ b, findClosest m ref fuel n best md = some b ∧ Closest m us ref b := by
  induction t generalizing fuel up n lo hi best md with
  | nil =>
    obtain rfl : n = none := ht
    refine ⟨best, by rw [findClosest], hp.closest hinj fun y hy => ?_⟩
    exact (hcover y hy).resolve_left (by simp)
  | node a l r ihl ihr =>
    obtain ⟨rfl, rfl, hl, hr⟩ := ht
    simp only [inorder_node, List.pairwise_append, List.pairwise_cons, List.mem_cons] at hsort
    obtain ⟨hsl, ⟨hsar, hsr⟩, hslr⟩ := hsort
    simp only [inorder_node, List.length_append, List.length_cons] at hfuel
    have ha : a ∈ us := hsub a (by simp)
    obtain ⟨fuel, rfl⟩ : ∃ k, fuel = k + 1 := ⟨fuel - 1, by omega⟩
    rw [findClosest_cons]
    split_ifs with hz hlt
    · refine ⟨some a, rfl, closest_of_start_eq ha ?_ hinj⟩
      unfold dist at hz
      omega
    · -- the right subtree starts behind the node, which is the nearest on that side now
      apply ihl hl (by omega) hsl (fun y hy => hsub y (by simp [hy]))
        (hp.left ha hlt fun c hc => hhi c hc a (by simp))
      · exact fun f hf y hy => hlo f hf y (by simp [hy])
      · rintro c ⟨rfl⟩ y hy
        exact hslr y hy a (.inl rfl)
      · intro y hy
        obtain hmem | hf | ⟨c, hc, hcy⟩ := hcover y hy
        · simp only [inorder_node, List.mem_append, List.mem_cons] at hmem
          obtain hmem | rfl | hmem := hmem
          · exact .inl hmem
          · exact .inr (.inr ⟨y, rfl, le_rfl⟩)
          · exact .inr (.inr ⟨a, rfl, (hsar y hmem).le⟩)
        · exact .inr (.inl hf)
        · exact .inr (.inr ⟨a, rfl, (hhi c hc a (by simp)).le.trans hcy⟩)
    · have hgt : (m.region a).start < ref := by
        unfold dist at hz
        omega
      apply ihr hr (by omega) hsr (fun y hy => hsub y (by simp [hy]))
        (hp.right ha hgt fun f hf => hlo f hf a (by simp))
      · rintro f ⟨rfl⟩ y hy
        exact hsar y hy
      · exact fun c hc y hy => hhi c hc y (by simp [hy])
      · intro y hy
        obtain hmem | ⟨f, hf, hyf⟩ | hc := hcover y hy
        · simp only [inorder_node, List.mem_append, List.mem_cons] at hmem
          obtain hmem | rfl | hmem := hmem
          · exact .inr (.inl ⟨a, rfl, (hslr y hmem a (.inl rfl)).le⟩)
          · exact .inr (.inl ⟨y, rfl, le_rfl⟩)
          · exact .inl hmem
        · exact .inr (.inl ⟨a, rfl, hyf.trans (hlo f hf a (by simp)).le⟩)
        · exact .inr (.inr hc)

def usedIn (m : RegionMap) (xs : List ℕ) : List ℕ := xs.filter fun x => (m.region x).used

lemma mem_usedIn {x : ℕ} : x ∈ usedIn m xs ↔ x ∈ xs ∧ (m.region x).used = true :=
  List.mem_filter

lemma Partition.start_injective (h : Partition m xs) :
    ∀ x ∈ usedIn m xs, ∀ y ∈ usedIn m xs, (m.region x).start = (m.region y).start → x = y := by
  intro x hx y hy heq
  have hxs := (mem_usedIn.1 hx).1
  have hys := (mem_usedIn.1 hy).1
  have hbx := h.covers.mem hxs
  have hby := h.covers.mem hys
  exact h.covers.eq_of_mem hxs hys (p := (m.region x).start) (by omega) (by omega)

lemma findClosestUsedRegion_closest {addr : ℕ} (h : Partition m xs) (hstop : m.stop ≤ 2 ^ 52)
    (haddr : addr < 2 ^ 64) :
    ∃ b, findClosestUsedRegion m addr = some b ∧
      ((m.usedRegions = none ∧ b = m.freeRegions) ∨
        Closest m (usedIn m xs) (page addr) b) := by
  obtain ⟨frees, useds, ht, hf, hu⟩ := h.trees
  cases hroot : m.usedRegions with
  | none => exact ⟨m.freeRegions, by rw [findClosestUsedRegion, hroot], .inl ⟨rfl, rfl⟩⟩
  | some a =>
    have hlen := h.length_lt ht.used.nodup fun y hy => ((hu y).1 hy).1
    obtain ⟨t, hw, rfl⟩ := ht.used
    rw [hroot] at hw
    have hpage : page addr < 2 ^ 52 := by
      have hb := basePageSize_eq
      rw [page, hb]
      omega
    have hstart : Passed m (usedIn m xs) (page addr) none none none (2 ^ 64 - 1) (some a) := by
      refine ⟨by simp, by simp, fun _ => ⟨rfl, rfl, fun y hy => ?_⟩, by simp, by simp⟩
      have := h.covers.mem (mem_usedIn.1 hy).1
      unfold dist
      omega
    obtain ⟨b, hfind, hb⟩ := findClosest_closest hw.rep hlen.le ht.usedSorted h.start_injective
      (fun y hy => mem_usedIn.2 ((hu y).1 hy)) hstart (by simp) (by simp)
      (fun y hy => .inl ((hu y).2 (mem_usedIn.1 hy)))
    exact ⟨b, by rw [findClosestUsedRegion, hroot]; exact hfind, .inr hb⟩

lemma floor_of_contains {x ref : ℕ} (h : Partition m xs) (hx : x ∈ usedIn m xs)
    (hs : (m.region x).start ≤ ref) (he : ref < (m.region x).stop) :
    Floor m (usedIn m xs) ref x := by
  refine ⟨hx, hs, fun y hy hle => ?_⟩
  by_contra hlt
  have hby := h.covers.mem (mem_usedIn.1 hy).1
  obtain rfl := h.covers.eq_of_mem (mem_usedIn.1 hx).1 (mem_usedIn.1 hy).1
    (p := (m.region y).start) (by omega) (by omega)
  exact hlt le_rfl

def Locates (m : RegionMap) (xs : List ℕ) (addr : ℕ) : Prop :=
  ∃ r, findAddrRegion m addr = some r ∧ ∀ x, r = some x ↔
    x ∈ xs ∧ (m.region x).used = true ∧ (m.region x).start ≤ page addr ∧
      page addr < (m.region x).stop

def LookupExact (m : RegionMap) (xs : List ℕ) (ref : ℕ) : Prop :=
  ∀ f, Floor m (usedIn m xs) ref f → ref ≤ (m.region f).stop →
    (ref < (m.region f).stop ↔ ∀ c, Ceiling m (usedIn m xs) ref c → Nearer m ref f c)

lemma findAddrRegion_closest {addr : ℕ} (h : Partition m xs) (hstop : m.stop ≤ 2 ^ 52)
    (haddr : addr < 2 ^ 64) :
    ∃ r, findAddrRegion m addr = some r ∧ ∀ x, r = some x ↔
      Floor m (usedIn m xs) (page addr) x ∧ page addr ≤ (m.region x).stop ∧
        ∀ c, Ceiling m (usedIn m xs) (page addr) c → Nearer m (page addr) x c := by
  obtain ⟨b, hfind, hb⟩ := findClosestUsedRegion_closest h hstop haddr
  simp only [findAddrRegion, hfind, Option.bind_eq_bind, Option.bind_some]
  obtain ⟨hroot, rfl⟩ | hclosest := hb
  · -- without a used region the search is handed a free one
    obtain ⟨frees, useds, ht, hf, hu⟩ := h.trees
    have hnil := ht.used
    rw [hroot, holds_nil_iff] at hnil
    have hempty : ∀ x, ¬ Floor m (usedIn m xs) (page addr) x := by
      rintro x ⟨hx, -⟩
      have := (hu x).2 (mem_usedIn.1 hx)
      simp [hnil] at this
    cases hfree : m.freeRegions with
    | none => exact ⟨none, rfl, fun x => by simp [hempty x]⟩
    | some a =>
      have hroot := ht.free
      rw [hfree] at hroot
      have hua := ((hf a).1 hroot.root_mem).2
      exact ⟨none, by simp [hua], fun x => by simp [hempty x]⟩
  · cases b with
    | none =>
      refine ⟨none, rfl, fun x => ?_⟩
      simp only [reduceCtorEq, false_iff]
      rintro ⟨hx, -, hnear⟩
      exact absurd ((hclosest.floor x hx).2 hnear) (by simp)
    | some y =>
      by_cases hy : Floor m (usedIn m xs) (page addr) y ∧ page addr ≤ (m.region y).stop
      · obtain ⟨⟨hmem, hle, hmax⟩, hend⟩ := hy
        refine ⟨some y, ?_, fun x => ⟨?_, ?_⟩⟩
        · have hyu := (mem_usedIn.1 hmem).2
          simp only [hyu, Bool.not_true, Bool.false_eq_true, or_false]
          exact if_neg (by omega)
        · rintro ⟨rfl⟩
          exact ⟨⟨hmem, hle, hmax⟩, hend, (hclosest.floor y ⟨hmem, hle, hmax⟩).1 rfl⟩
        · rintro ⟨hx, -, hnear⟩
          exact (hclosest.floor x hx).2 hnear
      · refine ⟨none, ?_, fun x => ?_⟩
        · apply if_pos
          obtain hfl | hlt := hclosest.other y rfl
          · exact .inr (.inl (not_le.1 fun hle => hy ⟨hfl, hle⟩))
          · exact .inl hlt
        · simp only [reduceCtorEq, false_iff]
          rintro ⟨hx, hend, hnear⟩
          obtain rfl := Option.some.inj ((hclosest.floor x hx).2 hnear)
          exact hy ⟨hx, hend⟩

theorem findAddrRegion_locates_iff {addr : ℕ} (h : Partition m xs) (hstop : m.stop ≤ 2 ^ 52)
    (haddr : addr < 2 ^ 64) : Locates m xs addr ↔ LookupExact m xs (page addr) := by
  obtain ⟨r, hfind, hr⟩ := findAddrRegion_closest h hstop haddr
  have hcontains : ∀ x, (x ∈ xs ∧ (m.region x).used = true ∧ (m.region x).start ≤ page addr ∧
      page addr < (m.region x).stop) ↔
        Floor m (usedIn m xs) (page addr) x ∧ page addr < (m.region x).stop := by
    intro x
    constructor
    · rintro ⟨hx, hu, hs, he⟩
      exact ⟨floor_of_contains h (mem_usedIn.2 ⟨hx, hu⟩) hs he, he⟩
    · rintro ⟨⟨hx, hs, -⟩, he⟩
      exact ⟨(mem_usedIn.1 hx).1, (mem_usedIn.1 hx).2, hs, he⟩
  constructor
  · rintro ⟨r', hfind', hloc⟩ f hf hle
    obtain rfl := Option.some.inj (hfind.symm.trans hfind')
    constructor
    · intro hlt
      exact ((hr f).1 ((hloc f).2 ((hcontains f).2 ⟨hf, hlt⟩))).2.2
    · intro hnear
      exact ((hcontains f).1 ((hloc f).1 ((hr f).2 ⟨hf, hle, hnear⟩))).2
  · intro hexact
    refine ⟨r, hfind, fun x => ?_⟩
    rw [hr, hcontains]
    constructor
    · rintro ⟨hx, hle, hnear⟩
      exact ⟨hx, (hexact x hx hle).2 hnear⟩
    · rintro ⟨hx, hlt⟩
      exact ⟨hx, hlt.le, (hexact x hx hlt.le).1 hlt⟩

lemma Partition.used_root {a : ℕ} (h : Partition m xs) (hroot : m.usedRegions = some a) :
    a ∈ xs ∧ (m.region a).used = true := by
  obtain ⟨frees, useds, ht, -, hu⟩ := h.trees
  have hholds := ht.used
  rw [hroot] at hholds
  exact (hu a).1 hholds.root_mem

lemma Partition.used_single {a f : ℕ} (h : Partition m xs) (hroot : m.usedRegions = some a)
    (hl : m.heap.links.left a = none) (hr : m.heap.links.right a = none)
    (hf : f ∈ usedIn m xs) : f = a := by
  obtain ⟨frees, useds, ht, -, hu⟩ := h.trees
  have hmem := (hu f).2 (mem_usedIn.1 hf)
  obtain ⟨t, hw, rfl⟩ := ht.used
  have hrep := hw.rep
  rw [hroot] at hrep
  cases t with
  | nil => cases hrep
  | node b l r =>
    obtain ⟨hb, -, hleft, hright⟩ := hrep
    obtain rfl := Option.some.inj hb
    rw [hl] at hleft
    rw [hr] at hright
    rw [hleft.ptr_eq_none.1 rfl, hright.ptr_eq_none.1 rfl] at hmem
    simpa using hmem

theorem findAddrRegion_locates_iff_second_page :
    ∃ xs, Partition belowCarved xs ∧ findAddrRegion belowCarved 4096 = some (some 1) ∧
      Locates belowCarved xs 4096 := by
  obtain ⟨xs, hp⟩ := belowCarved_partition
  refine ⟨xs, hp, by decide, (findAddrRegion_locates_iff hp (by decide) (by decide)).2 ?_⟩
  intro f hf _
  obtain rfl := hp.used_single (a := 1) (by decide) (by decide) (by decide) hf.1
  refine iff_of_true (by decide) fun c hc => ?_
  obtain rfl := hp.used_single (a := 1) (by decide) (by decide) (by decide) hc.1
  exact absurd hc.2.1 (by decide)

def twoUsed : RegionMap :=
  ((allocFixedRegion belowCarved (some 4) (some 5) 65536 16384 0).map Prod.fst).getD emptyMap

lemma twoUsed_partition : ∃ xs, Partition twoUsed xs :=
  (@Run.alloc belowCarved twoUsed (some 4) (some 5) 65536 16384 0 65536 16384 0 belowCarved_run
    (by decide) (by decide) (by decide) (by decide) rfl).partition.1

/-- The page behind a region is taken for a page of it, and a page of it is not found when
the next region starts nearer. -/
theorem findAddrRegion_wrong :
    (∃ xs, Partition belowCarved xs ∧ ¬ Locates belowCarved xs 65536) ∧
      ∃ xs, Partition twoUsed xs ∧ ¬ Locates twoUsed xs 61440 := by
  obtain ⟨xs, hp⟩ := belowCarved_partition
  obtain ⟨ys, hq⟩ := twoUsed_partition
  refine ⟨⟨xs, hp, ?_⟩, ys, hq, ?_⟩
  · rintro ⟨r, hr, hloc⟩
    have hfound : findAddrRegion belowCarved 65536 = some (some 1) := by decide
    obtain rfl := Option.some.inj (hfound.symm.trans hr)
    obtain ⟨-, -, -, hstop⟩ := (hloc 1).1 rfl
    exact absurd hstop (by decide)
  · rintro ⟨r, hr, hloc⟩
    have hfound : findAddrRegion twoUsed 61440 = some none := by decide
    obtain rfl := Option.some.inj (hfound.symm.trans hr)
    obtain ⟨hmem, hused⟩ := hq.used_root (a := 1) (by decide)
    cases (hloc 1).2 ⟨hmem, hused, by decide, by decide⟩

end Kmi.Regions
