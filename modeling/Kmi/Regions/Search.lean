import Kmi.Regions.Runs

/-! Where `find_free_region` looks, and when what it finds can be carved. -/

namespace Kmi.Regions

open BinaryTree Kmi.Library.PointerTree Kmi.Library.LinkedList Kmi.SpTree Kmi.Mem

def rightSpine (l : Links ℕ) : ℕ → Option ℕ → List ℕ
  | _, none => []
  | 0, some _ => []
  | fuel + 1, some n => n :: rightSpine l fuel (l.right n)

namespace RegionMap

variable (m : RegionMap) (size x : ℕ)

def spine : List ℕ := rightSpine m.heap.links m.fuel m.freeRegions

def limit : ℕ := m.start + m.reserved

def aligned : ℕ := alignUp (m.region x).start (page (poAlign (size * basePageSize)))

def Clear : Prop := m.limit ≤ m.aligned size x

def Fits : Prop := m.Clear size x ∧ size ≤ (m.region x).stop - m.aligned size x

def Roomy : Prop := m.Clear size x ∧ size ≤ (m.region x).size

instance : DecidablePred (m.Clear size) := fun _ => inferInstanceAs (Decidable (_ ≤ _))

instance : DecidablePred (m.Fits size) := fun _ => inferInstanceAs (Decidable (_ ∧ _))

instance : DecidablePred (m.Roomy size) := fun _ => inferInstanceAs (Decidable (_ ∧ _))

def Spurned : Prop :=
  size < sub64 (m.region x).size (sub64 m.reserved (m.region x).start)

instance : DecidablePred (m.Spurned size) := fun _ => inferInstanceAs (Decidable (_ < _))

def atLast (best : Option ℕ) : Option ℕ → Option ℕ × ℕ
  | none => (best, 0)
  | some x =>
    if m.Clear size x ∨ m.Spurned size x then (best, 0)
    else if size ≤ sub64 ((m.region x).stop - m.aligned size x)
        (sub64 m.reserved (m.region x).start) then (some x, m.aligned size x - (m.region x).start)
    else (some x, sub64 (m.region x).stop size)

end RegionMap

variable {m : RegionMap} {xs : List ℕ} {size x : ℕ}

lemma rightSpine_some {l : Links ℕ} {fuel n : ℕ} :
    rightSpine l (fuel + 1) (some n) = n :: rightSpine l fuel (l.right n) := rfl

lemma findFree_of_fits {fuel : ℕ} {n best : Option ℕ}
    (hx : (rightSpine m.heap.links fuel n).find? (m.Fits size) = some x) :
    findFree m size (page (poAlign (size * basePageSize))) fuel n best =
      some (some x, m.aligned size x - (m.region x).start) := by
  induction fuel generalizing n best with
  | zero => cases n <;> simp [rightSpine] at hx
  | succ fuel ih =>
    cases n with
    | none => simp [rightSpine] at hx
    | some n =>
      rw [rightSpine_some, List.find?_cons] at hx
      rw [findFree]
      dsimp only
      by_cases hclear : m.Clear size n
      · have hnot : ¬ m.aligned size n < m.start + m.reserved := not_lt.2 hclear
        rw [RegionMap.aligned] at hnot
        rw [if_neg hnot]
        by_cases hfit : size ≤ (m.region n).stop - m.aligned size n
        · obtain rfl : n = x := by simpa [RegionMap.Fits, hclear, hfit] using hx
          exact if_pos hfit
        · rw [RegionMap.aligned] at hfit
          rw [if_neg hfit]
          apply ih
          simpa [RegionMap.Fits, RegionMap.aligned, hfit] using hx
      · have hlt : m.aligned size n < m.start + m.reserved := not_le.1 hclear
        rw [RegionMap.aligned] at hlt
        rw [if_pos hlt]
        have hx : (rightSpine m.heap.links fuel (m.heap.links.right n)).find? (m.Fits size) =
            some x := by
          simpa [RegionMap.Fits, hclear] using hx
        cases hr : m.heap.links.right n with
        | none => cases fuel <;> simp [hr, rightSpine] at hx
        | some r =>
          rw [hr] at hx
          exact ih hx

lemma getLast?_cons_rightSpine {l : Links ℕ} {fuel r a : ℕ} :
    (a :: rightSpine l (fuel + 1) (some r)).getLast? =
      (rightSpine l (fuel + 1) (some r)).getLast? := by
  rw [rightSpine_some, List.getLast?_cons_cons]

lemma findFree_of_not_fits {fuel : ℕ} {t : BinaryTree ℕ} {up n best : Option ℕ}
    (ht : Rep m.heap.links up n t) (hfuel : (inorder t).length < fuel)
    (hnone : ∀ x ∈ rightSpine m.heap.links fuel n, ¬ m.Fits size x) :
    findFree m size (page (poAlign (size * basePageSize))) fuel n best =
      some (m.atLast size (best.or ((rightSpine m.heap.links fuel n).find? (m.Roomy size)))
        (rightSpine m.heap.links fuel n).getLast?) := by
  induction t generalizing fuel up n best with
  | nil =>
    obtain rfl : n = none := ht
    simp [findFree, rightSpine, RegionMap.atLast]
  | node a l r _ ihr =>
    obtain ⟨rfl, -, -, hr⟩ := ht
    simp only [inorder_node, List.length_append, List.length_cons] at hfuel
    obtain ⟨fuel, rfl⟩ : ∃ k, fuel = k + 1 := ⟨fuel - 1, by omega⟩
    rw [rightSpine_some] at hnone ⊢
    have hfit := hnone a (List.mem_cons_self ..)
    have hrest : ∀ x ∈ rightSpine m.heap.links fuel (m.heap.links.right a), ¬ m.Fits size x :=
      fun x hx => hnone x (List.mem_cons_of_mem _ hx)
    have hgo := fun best => @ihr fuel (some a) (m.heap.links.right a) best hr (by omega) hrest
    rw [findFree]
    dsimp only
    by_cases hclear : m.Clear size a
    · have hlimit : ¬ m.aligned size a < m.start + m.reserved := not_lt.2 hclear
      have hlong : ¬ size ≤ (m.region a).stop - m.aligned size a := fun h => hfit ⟨hclear, h⟩
      rw [RegionMap.aligned] at hlimit hlong
      rw [if_neg hlimit, if_neg hlong, hgo]
      have hbest : (if best = none ∧ size ≤ (m.region a).stop - (m.region a).start then some a
          else best).or ((rightSpine m.heap.links fuel (m.heap.links.right a)).find?
            (m.Roomy size)) = best.or ((a :: rightSpine m.heap.links fuel
              (m.heap.links.right a)).find? (m.Roomy size)) := by
        rw [List.find?_cons]
        cases best with
        | some b => simp
        | none =>
          by_cases hroom : size ≤ (m.region a).stop - (m.region a).start
          · simp [RegionMap.Roomy, Region.size, hclear, hroom]
          · simp [RegionMap.Roomy, Region.size, hroom]
      rw [hbest]
      cases hn : m.heap.links.right a with
      | none => cases fuel <;> simp [rightSpine, RegionMap.atLast, hclear]
      | some b =>
        obtain ⟨fuel, rfl⟩ : ∃ k, fuel = k + 1 := ⟨fuel - 1, by
          cases r with
          | nil => exact absurd (hn.symm.trans hr) (by simp)
          | node b l r => simp at hfuel; omega⟩
        rw [getLast?_cons_rightSpine]
    · have hlimit : m.aligned size a < m.start + m.reserved := not_le.1 hclear
      rw [RegionMap.aligned] at hlimit
      rw [if_pos hlimit, List.find?_cons]
      have hroom : ¬ m.Roomy size a := fun h => hclear h.1
      simp only [hroom, decide_false]
      cases hn : m.heap.links.right a with
      | none =>
        have hnil : rightSpine m.heap.links fuel none = [] := by cases fuel <;> rfl
        simp only [hnil, List.find?_nil, Option.or_none, List.getLast?_singleton,
          RegionMap.atLast, hclear, false_or, RegionMap.Spurned, Region.size, apply_ite some]
        rfl
      | some b =>
        obtain ⟨fuel, rfl⟩ : ∃ k, fuel = k + 1 := ⟨fuel - 1, by
          cases r with
          | nil => exact absurd (hn.symm.trans hr) (by simp)
          | node b l r => simp at hfuel; omega⟩
        rw [getLast?_cons_rightSpine]
        have := hgo best
        rwa [hn] at this

lemma mem_of_mem_rightSpine {l : Links ℕ} {fuel : ℕ} {t : BinaryTree ℕ} {up n : Option ℕ}
    (ht : Rep l up n t) (hx : x ∈ rightSpine l fuel n) : x ∈ inorder t := by
  induction t generalizing fuel up n with
  | nil =>
    obtain rfl : n = none := ht
    cases fuel <;> simp [rightSpine] at hx
  | node a s r _ ihr =>
    obtain ⟨rfl, -, -, hr⟩ := ht
    cases fuel with
    | zero => simp [rightSpine] at hx
    | succ fuel =>
      obtain rfl | hx := List.mem_cons.1 hx
      · simp
      · simp [ihr hr hx]

lemma poAlign_cases (s : ℕ) : poAlign s = 0 ∨ poAlign s = 2 ^ 21 ∨ poAlign s = 2 ^ 30 := by
  have h₁ : orderSize 1 = 2 ^ 21 := by decide
  have h₂ : orderSize 2 = 2 ^ 30 := by decide
  unfold poAlign
  split_ifs <;> simp [h₁, h₂]

lemma le_alignUp {val a : ℕ} (hv : val + a < 2 ^ 64) : val ≤ alignUp val a := by
  unfold alignUp
  split_ifs with h
  · exact le_rfl
  · have hle : alignDown val a ≤ val := by
      unfold alignDown
      split_ifs <;> omega
    have ha : 0 < a := by
      rcases Nat.eq_zero_or_pos a with rfl | ha
      · simp [alignDown] at h
      · exact ha
    rw [Nat.mod_eq_of_lt (by omega), alignDown, if_neg (by omega)]
    have := Nat.mod_lt val ha
    omega

lemma alignUp_zero {a : ℕ} : alignUp 0 a = 0 := by
  simp [alignUp, alignDown]

lemma findFreeRegion_of_fits (hx : m.spine.find? (m.Fits size) = some x) :
    findFreeRegion m size = some (some x, m.aligned size x - (m.region x).start) :=
  findFree_of_fits hx

section Partition

variable (h : Partition m xs) (hstop : m.stop ≤ 2 ^ 53)

include h

lemma free_of_mem_spine (hx : x ∈ m.spine) : x ∈ xs ∧ (m.region x).used = false := by
  obtain ⟨frees, useds, ht, hf, -⟩ := h.trees
  obtain ⟨t, hw, rfl⟩ := ht.free
  rw [← hf]
  exact mem_of_mem_rightSpine hw.rep hx

lemma bounds_of_mem_spine (hx : x ∈ m.spine) :
    m.start ≤ (m.region x).start ∧ (m.region x).start < (m.region x).stop ∧
      (m.region x).stop ≤ m.stop :=
  h.covers.mem (free_of_mem_spine h hx).1

include hstop in
lemma start_le_aligned (hx : x ∈ m.spine) : (m.region x).start ≤ m.aligned size x := by
  have hb := bounds_of_mem_spine h hx
  have hp := basePageSize_eq
  apply le_alignUp
  rw [page, hp]
  obtain h₀ | h₀ | h₀ := poAlign_cases (size * 4096) <;> rw [h₀] <;> omega

lemma findFreeRegion_of_not_fits (hnone : ∀ x ∈ m.spine, ¬ m.Fits size x) :
    findFreeRegion m size =
      some (m.atLast size (m.spine.find? (m.Roomy size)) m.spine.getLast?) := by
  obtain ⟨frees, useds, ht, hf, -⟩ := h.trees
  have hlen := h.length_lt ht.free.nodup fun y hy => ((hf y).1 hy).1
  obtain ⟨t, hw, rfl⟩ := ht.free
  exact @findFree_of_not_fits m size m.fuel t none m.freeRegions none hw.rep hlen hnone

end Partition

/-- What `find_free_region` finds is a free region with room for the pages behind the
offset, above the reserved pages. -/
def FindSound (m : RegionMap) (xs : List ℕ) (size : ℕ) : Prop :=
  ∀ x align, findFreeRegion m size = some (some x, align) →
    x ∈ xs ∧ (m.region x).used = false ∧
      (m.region x).start + align + size ≤ (m.region x).stop ∧
      m.limit ≤ (m.region x).start + align

/-- `alloc_region` hands out no reserved page and stays inside the free block. -/
def AllocSound (m : RegionMap) (xs : List ℕ) (size : ℕ) : Prop :=
  ∀ bytes pre post flags m' addr asize, page (alignUp bytes basePageSize) = size →
    allocRegion m pre post bytes flags = some (m', addr, asize) →
    (addr = 0 ∧ m' = m) ∨ ∃ x ∈ xs, (m.region x).used = false ∧
      (m.region x).start ≤ page addr ∧ page addr + size ≤ (m.region x).stop ∧
      m.limit ≤ page addr

/-- Either there is an aligned place, or the last block does not get into the branch for
reserved pages and the block remembered starts above them. -/
def SearchSafe (m : RegionMap) (size : ℕ) : Prop :=
  (∃ x ∈ m.spine, m.Fits size x) ∨
    ((∀ x, m.spine.getLast? = some x → m.Clear size x ∨ m.Spurned size x) ∧
      ∀ x, m.spine.find? (m.Roomy size) = some x → m.limit ≤ (m.region x).start)

lemma find?_fits (hx : ∃ x ∈ m.spine, m.Fits size x) :
    ∃ x, m.spine.find? (m.Fits size) = some x ∧ x ∈ m.spine ∧ m.Fits size x := by
  obtain ⟨y, hy, hfit⟩ := hx
  cases hf : m.spine.find? (m.Fits size) with
  | none =>
    have := List.find?_eq_none.1 hf y hy
    exact absurd hfit (by simpa using this)
  | some x => exact ⟨x, rfl, List.mem_of_find?_eq_some hf, by simpa using List.find?_some hf⟩

lemma find?_roomy (hx : m.spine.find? (m.Roomy size) = some x) : x ∈ m.spine ∧ m.Roomy size x :=
  ⟨List.mem_of_find?_eq_some hx, by simpa using List.find?_some hx⟩

section Sound

variable (h : Partition m xs) (hstop : m.stop ≤ 2 ^ 53) (hsize : 0 < size)

include h hstop hsize

lemma fits_sound (hx : x ∈ m.spine) (hfit : m.Fits size x) :
    (m.region x).start + (m.aligned size x - (m.region x).start) = m.aligned size x ∧
      m.aligned size x + size ≤ (m.region x).stop := by
  have hle : (m.region x).start ≤ m.aligned size x := start_le_aligned h hstop hx
  obtain ⟨-, hroom⟩ := hfit
  omega

lemma atLast_unsound {align : ℕ} {best : Option ℕ} (hres : m.reserved < 2 ^ 52) (hx : x ∈ m.spine)
    (hsz : size < 2 ^ 52) (hclear : ¬ m.Clear size x) (hspurned : ¬ m.Spurned size x)
    (hl : m.atLast size best (some x) = (some x, align)) :
    ¬ ((m.region x).start + align + size ≤ (m.region x).stop ∧
      m.limit ≤ (m.region x).start + align) := by
  rintro ⟨hend, hlimit⟩
  have hle : (m.region x).start ≤ m.aligned size x := start_le_aligned h hstop hx
  obtain ⟨hs, hne, he⟩ := bounds_of_mem_spine h hx
  have hlow : m.aligned size x < m.limit := not_le.1 hclear
  rw [RegionMap.atLast, if_neg (not_or.2 ⟨hclear, hspurned⟩)] at hl
  rw [RegionMap.Spurned, Region.size] at hspurned
  split_ifs at hl with hb
  · obtain rfl := (Prod.mk.inj hl).2
    omega
  · obtain rfl := (Prod.mk.inj hl).2
    -- only a block from page 0 on could keep the run inside, and that one is aligned
    have hsub : sub64 (m.region x).stop size = (m.region x).stop - size := by
      unfold sub64 at hend ⊢
      omega
    rw [hsub] at hend hlimit
    have hzero : (m.region x).start = 0 := by omega
    have haligned : m.aligned size x = 0 := by
      rw [RegionMap.aligned, hzero, alignUp_zero]
    rw [RegionMap.limit] at hlow hlimit
    rw [hzero] at hs hspurned hb
    rw [haligned] at hb
    unfold sub64 at hspurned hb
    omega

lemma findSound_iff (hres : m.reserved < 2 ^ 52) (hsz : size < 2 ^ 52) :
    FindSound m xs size ↔ SearchSafe m size := by
  by_cases hfits : ∃ x ∈ m.spine, m.Fits size x
  · obtain ⟨y, hf, hy, hfit⟩ := find?_fits hfits
    refine ⟨fun _ => .inl hfits, fun _ x align heq => ?_⟩
    rw [findFreeRegion_of_fits hf] at heq
    obtain ⟨hx, rfl⟩ := Prod.mk.inj (Option.some.inj heq)
    obtain rfl := Option.some.inj hx
    obtain ⟨hstart, hend⟩ := fits_sound h hstop hsize hy hfit
    obtain ⟨hmem, hfree⟩ := free_of_mem_spine h hy
    rw [hstart]
    exact ⟨hmem, hfree, hend, hfit.1⟩
  · have hnone : ∀ x ∈ m.spine, ¬ m.Fits size x := fun x hx hfit => hfits ⟨x, hx, hfit⟩
    have heq := findFreeRegion_of_not_fits h hnone
    constructor
    · intro hsound
      have hlast : ∀ x, m.spine.getLast? = some x → m.Clear size x ∨ m.Spurned size x := by
        intro x hx
        by_contra hno
        rw [not_or] at hno
        rw [hx] at heq
        obtain ⟨align, hl⟩ : ∃ align, m.atLast size (m.spine.find? (m.Roomy size)) (some x) =
            (some x, align) := by
          rw [RegionMap.atLast, if_neg (not_or.2 hno)]
          split_ifs <;> exact ⟨_, rfl⟩
        rw [hl] at heq
        exact atLast_unsound h hstop hsize hres (List.mem_of_getLast? hx) hsz hno.1 hno.2 hl
          (hsound x align heq).2.2
      refine .inr ⟨hlast, fun x hx => ?_⟩
      have hbest : m.atLast size (m.spine.find? (m.Roomy size)) m.spine.getLast? = (some x, 0) := by
        rw [hx]
        cases hl : m.spine.getLast? with
        | none => rfl
        | some y => exact if_pos (hlast y hl)
      rw [hbest] at heq
      simpa using (hsound x 0 heq).2.2.2
    · rintro (hfit | ⟨hlast, hbest⟩)
      · exact absurd hfit hfits
      intro x align hfind
      rw [heq] at hfind
      have hend : m.atLast size (m.spine.find? (m.Roomy size)) m.spine.getLast? =
          (m.spine.find? (m.Roomy size), 0) := by
        cases hl : m.spine.getLast? with
        | none => rfl
        | some y => exact if_pos (hlast y hl)
      rw [hend] at hfind
      obtain ⟨hx, rfl⟩ := Prod.mk.inj (Option.some.inj hfind)
      obtain ⟨hspine, -, hroom⟩ := find?_roomy hx
      obtain ⟨hmem, hfree⟩ := free_of_mem_spine h hspine
      obtain ⟨-, hne, -⟩ := bounds_of_mem_spine h hspine
      rw [Region.size] at hroom
      refine ⟨hmem, hfree, by omega, ?_⟩
      simpa using hbest x hx

end Sound

lemma allocSound_of_findSound (h : Partition m xs) (hstop : m.stop ≤ 2 ^ 52) (hsize : 0 < size)
    (hsound : FindSound m xs size) : AllocSound m xs size := by
  intro bytes pre post flags m' addr asize hpages halloc
  simp only [allocRegion, allocSharedRegion, hpages, Option.bind_eq_bind,
    Option.bind_eq_some_iff] at halloc
  obtain ⟨⟨r, align⟩, hfind, halloc⟩ := halloc
  cases r with
  | none =>
    obtain ⟨rfl, hrest⟩ := Prod.mk.inj (Option.some.inj halloc)
    exact .inl ⟨(Prod.mk.inj hrest).1.symm, rfl⟩
  | some x =>
    obtain ⟨hx, hfree, hend, hlimit⟩ := hsound x align hfind
    obtain ⟨⟨m₁, v⟩, hcarve, heq⟩ := Option.bind_eq_some_iff.1 halloc
    obtain ⟨rfl, hrest⟩ := Prod.mk.inj (Option.some.inj heq)
    obtain ⟨rfl, -⟩ := Prod.mk.inj hrest
    obtain ⟨ys, zs, rfl⟩ := List.append_of_mem hx
    have hle := h.covers.mem hx
    obtain ⟨hv, -⟩ := partitionRegion_carved h hfree (by omega) hsize hend hcarve
    have hpage : page v = (m.region x).start + align := by
      have hb := basePageSize_eq
      dsimp only at hv
      rw [hv, page, hb]
      omega
    refine .inr ⟨x, hx, hfree, ?_⟩
    rw [hpage]
    exact ⟨by omega, hend, hlimit⟩

/-- The search is sound exactly where it does not have to fall back on a block that
reaches into the reserved pages; then so is the allocation. -/
theorem findFreeRegion_sound_iff (h : Partition m xs) (hstop : m.stop ≤ 2 ^ 52)
    (hres : m.reserved < 2 ^ 52) (hsize : 0 < size) (hsz : size < 2 ^ 52) :
    (FindSound m xs size ↔ SearchSafe m size) ∧ (SearchSafe m size → AllocSound m xs size) := by
  have hiff : FindSound m xs size ↔ SearchSafe m size :=
    findSound_iff h (by omega) hsize hres hsz
  exact ⟨hiff, fun hsafe => allocSound_of_findSound h hstop hsize (hiff.2 hsafe)⟩

def uvmemArena : RegionMap :=
  ((initRegion emptyMap (some 1) 0 (248 * 2 ^ 30) 65536).map Prod.fst).getD emptyMap

lemma uvmemArena_partition : Partition uvmemArena [1] :=
  (@initRegion_partition uvmemArena emptyMap 1 0 (248 * 2 ^ 30) 65536 OK rfl rfl (by decide) rfl).1

def belowCarved : RegionMap :=
  ((allocFixedRegion uvmemArena (some 2) (some 3) 0 65536 0).map Prod.fst).getD emptyMap

lemma belowCarved_run : Run belowCarved := by
  have hrun : Run uvmemArena := @Run.init emptyMap uvmemArena 1 0 (248 * 2 ^ 30) 65536 OK rfl rfl
    (by decide) (by decide) (by decide) rfl
  exact @Run.alloc uvmemArena belowCarved (some 2) (some 3) 0 65536 0 0 65536 0 hrun (by decide)
    (by decide) (by decide) (by decide) rfl

lemma belowCarved_partition : ∃ xs, Partition belowCarved xs := belowCarved_run.partition.1

theorem findFreeRegion_sound_iff_carved :
    ∃ xs, Partition belowCarved xs ∧ findFreeRegion belowCarved 4 = some (some 3, 0) ∧
      FindSound belowCarved xs 4 ∧ AllocSound belowCarved xs 4 := by
  obtain ⟨xs, hp⟩ := belowCarved_partition
  obtain ⟨hiff, halloc⟩ := @findFreeRegion_sound_iff belowCarved xs 4 hp (by decide) (by decide)
    (by decide) (by decide)
  have hsafe : SearchSafe belowCarved 4 := .inl ⟨3, by decide, by decide⟩
  exact ⟨xs, hp, by decide, hiff.2 hsafe, halloc hsafe⟩

theorem findFreeRegion_reserved_pages :
    Partition uvmemArena [1] ∧ uvmemArena.reserved = 16 ∧
      findFreeRegion uvmemArena (248 * 2 ^ 18 - 10) = some (some 1, 10) ∧
      ¬ FindSound uvmemArena [1] (248 * 2 ^ 18 - 10) := by
  have hfind : findFreeRegion uvmemArena (248 * 2 ^ 18 - 10) = some (some 1, 10) := by decide
  refine ⟨uvmemArena_partition, by decide, hfind, fun hsound => ?_⟩
  have hlimit := (hsound 1 10 hfind).2.2.2
  exact absurd hlimit (by decide)

/-- A free block is found with the pages inside it, and the allocation returns their
address, which is not 0. -/
def Served (m : RegionMap) (xs : List ℕ) (size : ℕ) : Prop :=
  ∃ x align, findFreeRegion m size = some (some x, align) ∧ x ∈ xs ∧ (m.region x).used = false ∧
    (m.region x).start + align + size ≤ (m.region x).stop ∧ 0 < (m.region x).start + align ∧
    ∀ bytes pre post flags, page (alignUp bytes basePageSize) = size → m.taken pre = false →
      m.taken post = false → post ≠ pre → ∃ m', allocRegion m (some pre) (some post) bytes flags =
        some (m', ((m.region x).start + align) * basePageSize, alignUp bytes basePageSize)

def Brim (m : RegionMap) (size x : ℕ) : Prop :=
  ¬ m.Clear size x ∧ (m.region x).stop = size + m.reserved

def SearchFinds (m : RegionMap) (size last : ℕ) : Prop :=
  (∃ x, m.spine.find? (m.Fits size) = some x ∧ 0 < m.aligned size x) ∨
    (∀ x ∈ m.spine, ¬ m.Fits size x) ∧
      (¬ Brim m size last ∧ (∃ x ∈ m.spine, m.Roomy size x) ∨
        Brim m size last ∧ 0 < (m.region last).start ∧
          (m.aligned size last = (m.region last).start ∨
            size < m.aligned size last - (m.region last).start))

section Complete

variable (h : Partition m xs) (hstop : m.stop ≤ 2 ^ 52) (hsize : 0 < size)

include h hstop hsize

lemma served_of_find {align : ℕ} (hfind : findFreeRegion m size = some (some x, align))
    (hx : x ∈ m.spine) (hend : (m.region x).start + align + size ≤ (m.region x).stop)
    (hpos : 0 < (m.region x).start + align) : Served m xs size := by
  obtain ⟨hmem, hfree⟩ := free_of_mem_spine h hx
  obtain ⟨-, -, hle⟩ := bounds_of_mem_spine h hx
  refine ⟨x, align, hfind, hmem, hfree, hend, hpos, ?_⟩
  intro bytes pre post flags hpages hpre hpost hne
  obtain ⟨ys, zs, rfl⟩ := List.append_of_mem hmem
  obtain ⟨⟨m', v⟩, hcarve⟩ := @partitionRegion_exists m ys zs x pre post size align 0 flags h hfree
    (by omega) hsize hend hpre hpost hne
  obtain ⟨hv, -⟩ := partitionRegion_carved h hfree (by omega) hsize hend hcarve
  have haddr : v = ((m.region x).start + align) * basePageSize := by
    have hb := basePageSize_eq
    dsimp only at hv
    rw [hv, hb]
    omega
  refine ⟨m', ?_⟩
  simp only [allocRegion, allocSharedRegion, hpages, hfind, hcarve, haddr, Option.bind_eq_bind,
    Option.bind_some]

lemma spurned_iff {last : ℕ} (hres : m.reserved < 2 ^ 52) (hlast : last ∈ m.spine)
    (hroom : max (m.region last).start m.limit + size ≤ (m.region last).stop) :
    m.Spurned size last ↔ (m.region last).stop ≠ size + m.reserved := by
  obtain ⟨hs, hne, he⟩ := bounds_of_mem_spine h hlast
  rw [RegionMap.limit] at hroom
  rw [RegionMap.Spurned, Region.size]
  unfold sub64
  omega

lemma served_brim_iff {last : ℕ} (hres : m.reserved < 2 ^ 52) (hlast : m.spine.getLast? = some last)
    (hroom : max (m.region last).start m.limit + size ≤ (m.region last).stop)
    (hnone : ∀ x ∈ m.spine, ¬ m.Fits size x) (hbrim : Brim m size last) :
    Served m xs size ↔ 0 < (m.region last).start ∧
      (m.aligned size last = (m.region last).start ∨
        size < m.aligned size last - (m.region last).start) := by
  have hmem := List.mem_of_getLast? hlast
  obtain ⟨hclear, hstopEq⟩ := hbrim
  obtain ⟨hs, hne, he⟩ := bounds_of_mem_spine h hmem
  have hle : (m.region last).start ≤ m.aligned size last := start_le_aligned h (by omega) hmem
  have hlow : m.aligned size last < m.limit := not_le.1 hclear
  have hspurned : ¬ m.Spurned size last := by
    rw [spurned_iff h hstop hsize hres hmem hroom]
    exact not_not.2 hstopEq
  have hfind := findFreeRegion_of_not_fits h hnone
  rw [hlast, RegionMap.atLast, if_neg (not_or.2 ⟨hclear, hspurned⟩)] at hfind
  have hzero : (m.region last).start = 0 → m.aligned size last = 0 := by
    intro h₀
    rw [RegionMap.aligned, h₀, alignUp_zero]
  have hstart : m.start = 0 := by
    rw [RegionMap.limit] at hroom
    omega
  have htest : size ≤ sub64 ((m.region last).stop - m.aligned size last)
      (sub64 m.reserved (m.region last).start) ↔ m.aligned size last = (m.region last).start ∨
        size < m.aligned size last - (m.region last).start := by
    rw [RegionMap.limit] at hlow
    unfold sub64
    omega
  constructor
  · rintro ⟨x, align, hfound, -, -, hend, hpos, -⟩
    rw [hfind] at hfound
    split_ifs at hfound with hb
    · obtain ⟨hx, rfl⟩ := Prod.mk.inj (Option.some.inj hfound)
      obtain rfl := Option.some.inj hx
      refine ⟨?_, htest.1 hb⟩
      by_contra hno
      have := hzero (by omega)
      omega
    · obtain ⟨hx, rfl⟩ := Prod.mk.inj (Option.some.inj hfound)
      obtain rfl := Option.some.inj hx
      have hsub : sub64 (m.region last).stop size = (m.region last).stop - size := by
        unfold sub64
        omega
      rw [hsub] at hend
      have h₀ : (m.region last).start = 0 := by omega
      exact absurd (htest.2 (.inl ((hzero h₀).trans h₀.symm))) hb
  · rintro ⟨hpos, hb⟩
    rw [if_pos (htest.2 hb)] at hfind
    rw [RegionMap.limit] at hlow
    exact served_of_find h hstop hsize hfind hmem (by omega) (by omega)

theorem findFreeRegion_complete_iff {last : ℕ} (hres : m.reserved < 2 ^ 52)
    (hlast : m.spine.getLast? = some last)
    (hroom : max (m.region last).start m.limit + size ≤ (m.region last).stop) :
    Served m xs size ↔ SearchFinds m size last := by
  have hmem := List.mem_of_getLast? hlast
  by_cases hfits : ∃ x ∈ m.spine, m.Fits size x
  · obtain ⟨y, hf, hy, hfit⟩ := find?_fits hfits
    have hfind := findFreeRegion_of_fits hf
    obtain ⟨hstart, hend⟩ := fits_sound h (by omega) hsize hy hfit
    constructor
    · rintro ⟨x, align, hfound, -, -, -, hpos, -⟩
      rw [hfind] at hfound
      obtain ⟨hx, rfl⟩ := Prod.mk.inj (Option.some.inj hfound)
      obtain rfl := Option.some.inj hx
      exact .inl ⟨y, hf, hstart ▸ hpos⟩
    · rintro (⟨x, hx, hpos⟩ | ⟨hnone, -⟩)
      · obtain rfl := Option.some.inj (hx.symm.trans hf)
        exact served_of_find h hstop hsize hfind hy (by omega) (by omega)
      · exact absurd hfit (hnone y hy)
  · have hnone : ∀ x ∈ m.spine, ¬ m.Fits size x := fun x hx hfit => hfits ⟨x, hx, hfit⟩
    have hno : ¬ ∃ x, m.spine.find? (m.Fits size) = some x ∧ 0 < m.aligned size x := by
      rintro ⟨x, hx, -⟩
      exact hnone x (List.mem_of_find?_eq_some hx) (by simpa using List.find?_some hx)
    by_cases hbrim : Brim m size last
    · rw [served_brim_iff h hstop hsize hres hlast hroom hnone hbrim]
      exact ⟨fun hb => .inr ⟨hnone, .inr ⟨hbrim, hb⟩⟩, fun hs => by
        obtain hf | ⟨-, ⟨hb, -⟩ | ⟨-, hb⟩⟩ := hs
        · exact absurd hf hno
        · exact absurd hbrim hb
        · exact hb⟩
    · have hbest : m.atLast size (m.spine.find? (m.Roomy size)) (some last) =
          (m.spine.find? (m.Roomy size), 0) := by
        apply if_pos
        by_cases hclear : m.Clear size last
        · exact .inl hclear
        · refine .inr ((spurned_iff h hstop hsize hres hmem hroom).2 fun heq => ?_)
          exact hbrim ⟨hclear, heq⟩
      have hfind := findFreeRegion_of_not_fits h hnone
      rw [hlast, hbest] at hfind
      constructor
      · rintro ⟨x, align, hfound, -⟩
        rw [hfind] at hfound
        obtain ⟨hx, -⟩ := Prod.mk.inj (Option.some.inj hfound)
        exact .inr ⟨hnone, .inl ⟨hbrim, x, find?_roomy hx⟩⟩
      · rintro (hf | ⟨-, ⟨-, y, hy, hroomy⟩ | ⟨hb, -⟩⟩)
        · exact absurd hf hno
        · cases hf : m.spine.find? (m.Roomy size) with
          | none =>
            have := List.find?_eq_none.1 hf y hy
            exact absurd hroomy (by simpa using this)
          | some x =>
            obtain ⟨hx, hclear, hlong⟩ := find?_roomy hf
            rw [hf] at hfind
            obtain ⟨-, hne, -⟩ := bounds_of_mem_spine h hx
            rw [Region.size] at hlong
            apply served_of_find h hstop hsize hfind hx (by omega)
            -- a block from page 0 on is aligned, so it would fit
            by_contra h₀
            have hs : (m.region x).start = 0 := by omega
            apply hnone x hx
            refine ⟨hclear, ?_⟩
            rw [RegionMap.aligned, hs, alignUp_zero]
            omega
        · exact absurd hb hbrim

end Complete

theorem findFreeRegion_complete_iff_carved : ∃ xs, Served belowCarved xs 4 := by
  obtain ⟨xs, hp⟩ := belowCarved_partition
  have hfinds : SearchFinds belowCarved 4 3 := .inl ⟨3, by decide, by decide⟩
  exact ⟨xs, (findFreeRegion_complete_iff hp (by decide) (by decide) (by decide) (by decide)
    (by decide)).2 hfinds⟩

theorem findFreeRegion_fresh_fails :
    Partition uvmemArena [1] ∧ uvmemArena.spine.getLast? = some 1 ∧
      max (uvmemArena.region 1).start uvmemArena.limit + 1 ≤ (uvmemArena.region 1).stop ∧
      findFreeRegion uvmemArena 1 = some (none, 0) ∧ ¬ Served uvmemArena [1] 1 := by
  have hfind : findFreeRegion uvmemArena 1 = some (none, 0) := by decide
  refine ⟨uvmemArena_partition, by decide, by decide, hfind, ?_⟩
  rintro ⟨x, align, hfound, -⟩
  rw [hfind] at hfound
  cases hfound

end Kmi.Regions
