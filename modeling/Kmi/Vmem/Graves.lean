import Kmi.Vmem.PartialMap
import Kmi.Vmem.Threads

/-! The gravestones of a top-level table over whole runs: what `clone_uvmem` has to
see is never behind an empty entry. -/

namespace Kmi.Vmem

open Kmi.Mem

variable {b : Table} {m m' : Space} {idx n pte : ℕ}

def GravesBelow (m : Space) : Prop :=
  ∀ v x, vmToIndex v maxOrder < CSTACK_PAGE → statVpage m v = some x →
    ∀ i < vmToIndex v maxOrder, m.root i ≠ 0

def Graved (b : Table) : Prop :=
  ∀ j < CSTACK_PAGE, unused (b j) = false → ∀ i < j, b i ≠ 0

lemma Graved.gravesBelow (h : Graved m.root) : GravesBelow m :=
  fun _ _ hj hx => h _ hj (statVpage_used hx)

lemma addGravesBelow_of_le (b : Table) {i : ℕ} (h : n ≤ i) : addGravesBelow b n i = b i := by
  induction n generalizing b with
  | zero => rfl
  | succ n ih =>
    rw [addGravesBelow]
    split_ifs
    · rw [ih _ (by omega), Function.update_of_ne (by omega)]
    · rfl

lemma addGravesBelow_ne_zero {i : ℕ} (h : b i ≠ 0) : addGravesBelow b n i ≠ 0 := by
  induction n generalizing b with
  | zero => exact h
  | succ n ih =>
    rw [addGravesBelow]
    split_ifs
    · apply ih
      rw [Function.update_apply]
      split_ifs
      · decide
      · exact h
    · exact h

lemma addGravesBelow_fills (h : ∀ j < n, unused (b j) = false → ∀ i < j, b i ≠ 0) {i : ℕ}
    (hi : i < n) : addGravesBelow b n i ≠ 0 := by
  induction n generalizing b with
  | zero => omega
  | succ n ih =>
    rw [addGravesBelow]
    split_ifs with hu
    · obtain rfl | hne := eq_or_ne i n
      · rw [addGravesBelow_of_le _ le_rfl, Function.update_self]
        decide
      · apply ih _ (by omega)
        intro j hj
        rw [Function.update_of_ne (by omega)]
        intro hused k hk
        rw [Function.update_of_ne (by omega)]
        exact h j (by omega) hused k hk
    · obtain rfl | hne := eq_or_ne i n
      · intro hz
        rw [hz] at hu
        exact hu rfl
      · exact h n (by omega) (by simpa using hu) i (by omega)

lemma Graved.update (h : Graved b) (hp : pte ≠ 0) (hu : unused pte = true ∨ ∀ i < idx, b i ≠ 0) :
    Graved (Function.update b idx pte) := by
  intro j hj hused i hi
  rw [Function.update_apply]
  split_ifs with hidx
  · exact hp
  · obtain rfl | hne := eq_or_ne j idx
    · rw [Function.update_self] at hused
      obtain hu | hu := hu
      · rw [hu] at hused
        cases hused
      · exact hu i hi
    · rw [Function.update_of_ne hne] at hused
      exact h j hj hused i hi

lemma Graved.addGraves (h : Graved b) (hidx : idx < CSTACK_PAGE) (hp : pte ≠ 0) :
    Graved (addGraves (Function.update b idx pte) idx) := by
  rw [Vmem.addGraves, if_neg (by omega)]
  have hfill : ∀ i < idx, addGravesBelow (Function.update b idx pte) idx i ≠ 0 := by
    intro i hi
    apply addGravesBelow_fills _ hi
    intro j hj
    rw [Function.update_of_ne (by omega)]
    intro hused k hk
    rw [Function.update_of_ne (by omega)]
    exact h j (by omega) hused k hk
  intro j hj hused i hi
  obtain hlt | hge := lt_or_ge i idx
  · exact hfill i hlt
  · apply addGravesBelow_ne_zero
    rw [addGravesBelow_of_le _ (by omega), Function.update_of_ne (by omega)] at hused
    rw [Function.update_apply]
    split_ifs
    · exact hp
    · exact h j hj hused i hi

lemma Graved.addGraves_self (h : Graved b) (hidx : idx < CSTACK_PAGE) (hp : b idx ≠ 0) :
    Graved (Vmem.addGraves b idx) := by
  have := h.addGraves hidx hp
  rwa [Function.update_eq_self] at this

lemma removeGravesBelow_spec (b : Table) (n : ℕ) :
    ∃ k ≤ n, (∀ i, k ≤ i → i < n → b i = GRAVESTONE) ∧
      ∀ i, removeGravesBelow b n i = if k ≤ i ∧ i < n then 0 else b i := by
  induction n generalizing b with
  | zero => exact ⟨0, le_rfl, fun i _ hi => by omega, fun i => by rw [if_neg (by omega)]; rfl⟩
  | succ n ih =>
    rw [removeGravesBelow]
    split_ifs with h
    · obtain ⟨k, hk, hg, hi⟩ := ih (Function.update b n 0)
      refine ⟨k, by omega, fun i hki hin => ?_, fun i => ?_⟩
      · obtain rfl | hne := eq_or_ne i n
        · exact h
        · rw [← hg i hki (by omega), Function.update_of_ne hne]
      · rw [hi i]
        obtain rfl | hne := eq_or_ne i n
        · rw [if_neg (by omega), if_pos (by omega), Function.update_self]
        · rw [Function.update_of_ne hne]
          congr 1
          apply propext
          omega
    · exact ⟨n + 1, le_rfl, fun i _ hi => by omega, fun i => by rw [if_neg (by omega)]⟩

lemma Graved.removeGraves (h : Graved b) (idx : ℕ) : Graved (Vmem.removeGraves b idx) := by
  rw [Vmem.removeGraves]
  split_ifs with hidx hnext
  · exact h
  · exact h
  · obtain ⟨k, hk, hg, hi⟩ := removeGravesBelow_spec b (idx + 1)
    intro j hj hused i hij
    rw [hi j] at hused
    split_ifs at hused with hjk
    · cases hused
    · rw [hi i, if_neg]
      · exact h j hj hused i hij
      · intro hik
        have hjidx : idx + 1 ≤ j := by omega
        obtain rfl | hne := eq_or_ne j (idx + 1)
        · rw [not_not.1 hnext] at hused
          cases hused
        · exact h j hj hused (idx + 1) (by omega) (not_not.1 hnext)

section Map

variable {paddr vaddr flags order a : ℕ} {pages rest : Pages}

structure ProperPages (pages : Pages) : Prop where
  aligned : ∀ p ∈ pages, p < 2 ^ 64 ∧ p % 4096 = 0
  nodup : (pages.filter (· ≠ 0)).Nodup

lemma toPte_ne_zero {p f : ℕ} (hf : f ≠ 0) : toPte p f ≠ 0 := by
  rw [toPte, ne_eq, Nat.or_eq_zero_iff]
  exact fun h => hf h.2

lemma vpFlags_ne_zero (flags : ℕ) : vpFlags (flags ||| (VM_A ||| VM_D)) ≠ 0 := by
  rw [vpFlags, Nat.and_or_distrib_right, ne_eq, Nat.or_eq_zero_iff]
  exact fun h => absurd h.2 (by decide)

lemma mapWalk_unused {left top : ℕ} {t : Option ℕ} (hu : unused (m.leaf t (vmToIndex vaddr top)) = true)
    (hp : ProperPages pages) :
    pages.headD 0 = 0 ∧ mapWalk vaddr (left + 1) top t pages m = (m, none) ∨
      ∃ a rest, pages = a :: rest ∧ a ≠ 0 ∧ mapWalk vaddr (left + 1) top t pages m =
        mapWalk vaddr left (top - 1) (some a) rest (linked m t (vmToIndex vaddr top) a) := by
  rw [mapWalk, if_pos hu]
  obtain ⟨hz, hc⟩ | ⟨a, rest, rfl, ha, hc⟩ := createLeaf_cases m pages
  · rw [hc]
    exact .inl ⟨hz, rfl⟩
  · obtain ⟨hlt, hal⟩ := hp.aligned a (List.mem_cons_self ..)
    refine .inr ⟨a, rest, rfl, ha, ?_⟩
    rw [hc]
    dsimp only
    rw [leaf_setLeaf, if_pos ⟨rfl, rfl⟩, pteAddr_toPte (by decide) hlt hal]
    rfl

lemma ProperPages.tail (hp : ProperPages (a :: rest)) : ProperPages rest := by
  refine ⟨fun p hm => hp.aligned p (List.mem_cons_of_mem _ hm), ?_⟩
  exact hp.nodup.sublist ((List.sublist_cons_self a rest).filter _)

lemma mapVpage_of_walk {left : ℕ} {t : Option ℕ} (paddr flags : ℕ) (hl : maxOrder - order = left)
    (hwalk : mapWalk vaddr left maxOrder none pages m = (m', some t))
    (hu : unused (m'.leaf t (vmToIndex vaddr order)) = true) :
    ∃ pte ≠ 0, (mapVpage m paddr vaddr flags order pages).1.root =
      addGraves (m'.setLeaf t (vmToIndex vaddr order) pte).root (vmToIndex vaddr maxOrder) := by
  refine ⟨toPte (pa paddr) _, toPte_ne_zero (vpFlags_ne_zero flags), ?_⟩
  rw [mapVpage, hl, hwalk]
  dsimp only
  rw [if_pos hu]

lemma mapVpage_root_unused (paddr flags : ℕ) (hu : unused (m.root (vmToIndex vaddr maxOrder)) = true)
    (ho : order ≤ maxOrder) (hp : ProperPages pages) :
    (mapVpage m paddr vaddr flags order pages).1.root = m.root ∨
      (∃ pte ≠ 0, (mapVpage m paddr vaddr flags order pages).1.root =
        addGraves (Function.update m.root (vmToIndex vaddr maxOrder) pte) (vmToIndex vaddr maxOrder)) ∨
      (order = 0 ∧ pages.headD 0 ≠ 0 ∧ pages.tail.headD 0 = 0) ∧
        ∃ pte ≠ 0, (mapVpage m paddr vaddr flags order pages).1.root =
          Function.update m.root (vmToIndex vaddr maxOrder) pte := by
  have hbranch : ∀ a, toPte a VM_V ≠ 0 := fun a => toPte_ne_zero (by decide)
  obtain rfl | rfl | rfl : order = 2 ∨ order = 1 ∨ order = 0 := by
    rw [maxOrder] at ho
    omega
  · obtain ⟨pte, hpte, hroot⟩ := @mapVpage_of_walk m m vaddr 2 pages 0 none paddr flags rfl rfl hu
    exact .inr (.inl ⟨pte, hpte, hroot⟩)
  · obtain ⟨-, hwalk⟩ | ⟨a, rest, rfl, ha, hwalk⟩ := @mapWalk_unused m vaddr pages 0 maxOrder none hu hp
    · left
      rw [mapVpage, show maxOrder - 1 = 0 + 1 from rfl, hwalk]
    · have hz := @linked_leaf_new m a (vmToIndex vaddr maxOrder) none (by simp) (vmToIndex vaddr 1)
      obtain ⟨pte, -, hroot⟩ := mapVpage_of_walk paddr flags (show maxOrder - 1 = 0 + 1 from rfl) hwalk
        (by rw [hz]; rfl)
      exact .inr (.inl ⟨_, hbranch _, hroot⟩)
  · obtain ⟨-, hwalk⟩ | ⟨a, rest, rfl, ha, hwalk⟩ := @mapWalk_unused m vaddr pages 1 maxOrder none hu hp
    · left
      rw [mapVpage, show maxOrder - 0 = 1 + 1 from rfl, hwalk]
    · have hz := @linked_leaf_new m a (vmToIndex vaddr maxOrder) none (by simp) (vmToIndex vaddr 1)
      obtain ⟨hnone, hwalk'⟩ | ⟨a', rest', rfl, ha', hwalk'⟩ :=
        @mapWalk_unused (linked m none (vmToIndex vaddr maxOrder) a) vaddr rest 0 1 (some a)
          (by rw [hz]; rfl) hp.tail
      · refine .inr (.inr ⟨⟨rfl, ha, hnone⟩, _, hbranch (pa a), ?_⟩)
        rw [mapVpage, show maxOrder - 0 = 1 + 1 from rfl, hwalk, show maxOrder - 1 = 1 from rfl, hwalk']
        rfl
      · have hne : some a ≠ some a' := by
          rintro ⟨rfl⟩
          have hnd := hp.nodup
          simp [ha] at hnd
        have hz' := @linked_leaf_new (linked m none (vmToIndex vaddr maxOrder) a) a' (vmToIndex vaddr 1)
          (some a) hne (vmToIndex vaddr 0)
        obtain ⟨pte, -, hroot⟩ := mapVpage_of_walk paddr flags (show maxOrder - 0 = 1 + 1 from rfl)
          (hwalk.trans hwalk') (by rw [hz']; rfl)
        exact .inr (.inl ⟨_, hbranch _, hroot⟩)

lemma mapVpage_root_used (paddr flags : ℕ) (hu : unused (m.root (vmToIndex vaddr maxOrder)) = false)
    (ho : order ≤ maxOrder) (pages : Pages) :
    (mapVpage m paddr vaddr flags order pages).1.root = m.root ∨
      (mapVpage m paddr vaddr flags order pages).1.root = addGraves m.root (vmToIndex vaddr maxOrder) := by
  have hroot : (mapWalk vaddr (maxOrder - order) maxOrder none pages m).1.root = m.root := by
    obtain h | ⟨h, -⟩ := mapWalk_root vaddr (maxOrder - order) maxOrder pages m
    · exact h
    · rw [hu] at h
      cases h
  have hsome : ∀ t, (mapWalk vaddr (maxOrder - order) maxOrder none pages m).2 = some t →
      order ≠ maxOrder → t.isSome := by
    intro t ht hne
    obtain ⟨left, hl⟩ := Nat.exists_eq_succ_of_ne_zero (show maxOrder - order ≠ 0 by omega)
    rw [hl] at ht
    exact mapWalk_branch _ _ _ _ _ ht
  rw [mapVpage]
  cases hwalk : mapWalk vaddr (maxOrder - order) maxOrder none pages m with
  | mk m' branch =>
    rw [hwalk] at hroot hsome
    cases branch with
    | none => exact .inl hroot
    | some t =>
      dsimp only
      split_ifs with hslot
      · obtain rfl | hne := eq_or_ne order maxOrder
        · rw [Nat.sub_self, mapWalk] at hwalk
          cases hwalk
          rw [show m.leaf none = m.root from rfl, hu] at hslot
          cases hslot
        · obtain ⟨a, rfl⟩ := Option.isSome_iff_exists.1 (hsome t rfl hne)
          refine .inr ?_
          change addGraves m'.root _ = _
          rw [hroot]
      · exact .inl hroot

end Map

def UserCall : PageCall → Prop
  | .map _ vaddr _ order pages => vaddr < UVMEM_END ∧ order ≤ maxOrder ∧ ProperPages pages
  | .unmap _ => True

def LosesGraves (m : Space) : PageCall → Prop
  | .map _ vaddr _ order pages =>
    unused (m.root (vmToIndex vaddr maxOrder)) = true ∧
      (∃ i < vmToIndex vaddr maxOrder, m.root i = 0) ∧
      order = 0 ∧ pages.headD 0 ≠ 0 ∧ pages.tail.headD 0 = 0
  | .unmap _ => False

inductive TableRuns (cond : Space → PageCall → Prop) : Space → Prop
  | create (kvmem : ℕ) (low : ℕ → Table) : TableRuns cond ⟨createVmem kvmem, low⟩
  | call {m : Space} (c : PageCall) : TableRuns cond m → UserCall c → cond m c →
      TableRuns cond (c.run m)

lemma Graved.map {paddr vaddr flags order : ℕ} {pages : Pages} (h : Graved m.root)
    (hc : UserCall (.map paddr vaddr flags order pages))
    (hl : ¬ LosesGraves m (.map paddr vaddr flags order pages)) :
    Graved (mapVpage m paddr vaddr flags order pages).1.root := by
  obtain ⟨hv, ho, hp⟩ := hc
  have hidx := vmToIndex_lt hv
  cases hu : unused (m.root (vmToIndex vaddr maxOrder)) with
  | true =>
    obtain hr | ⟨pte, hpte, hr⟩ | ⟨hlast, pte, hpte, hr⟩ := mapVpage_root_unused paddr flags hu ho hp
    · rw [hr]
      exact h
    · rw [hr]
      exact h.addGraves hidx hpte
    · rw [hr]
      apply h.update hpte
      right
      intro i hi hz
      exact hl ⟨hu, ⟨i, hi, hz⟩, hlast⟩
  | false =>
    obtain hr | hr := mapVpage_root_used paddr flags hu ho pages
    · rw [hr]
      exact h
    · rw [hr]
      apply h.addGraves_self hidx
      intro hz
      rw [hz] at hu
      cases hu

lemma Graved.unmap (h : Graved m.root) (v : ℕ) : Graved (unmapVpage m v).1.root := by
  rw [unmapVpage]
  cases findVmem m v maxOrder none with
  | none => exact h
  | some x =>
    obtain ⟨t, idx, o⟩ := x
    apply Graved.removeGraves
    obtain hr | ⟨-, hr⟩ := setLeaf_root m t idx GRAVESTONE
    · rw [hr]
      exact h
    · rw [hr]
      exact h.update (by decide) (.inl rfl)

lemma TableRuns.graved (h : TableRuns (fun m c => ¬ LosesGraves m c) m) : Graved m.root := by
  induction h with
  | create kvmem low =>
    intro j hj hused
    dsimp only at hused
    rw [createVmem_user kvmem hj] at hused
    cases hused
  | call c _ hc hl ih =>
    cases c with
    | map paddr vaddr flags order pages => exact ih.map hc hl
    | unmap vaddr => exact ih.unmap vaddr

theorem run_gravesBelow (h : TableRuns (fun m c => ¬ LosesGraves m c) m) : GravesBelow m :=
  h.graved.gravesBelow

def gigaPage : PageCall := .map 0x80000000 0x80000000 0x17 2 []

lemma gigaPage_userCall : UserCall gigaPage :=
  ⟨by decide, le_rfl, by simp, by simp⟩

theorem run_gravesBelow_giga_page :
    (statVpage (gigaPage.run ⟨createVmem 0, fun _ _ => 0⟩) 0x80000000).isSome ∧
      GravesBelow (gigaPage.run ⟨createVmem 0, fun _ _ => 0⟩) := by
  refine ⟨by decide +kernel, run_gravesBelow (.call gigaPage (.create 0 _) gigaPage_userCall ?_)⟩
  rintro ⟨-, -, h, -⟩
  cases h

theorem failed_map_hides_page :
    ∃ m, TableRuns (fun _ _ => True) m ∧ ¬ GravesBelow m := by
  have hcall : UserCall (.map 0x200000 0x40000000 0x17 0 [0x1000]) :=
    ⟨by decide, by decide, by decide, by decide⟩
  refine ⟨_, .call gigaPage (.call _ (.create 0 fun _ _ => 0) hcall trivial) gigaPage_userCall trivial,
    fun h => ?_⟩
  obtain ⟨x, hx⟩ := Option.isSome_iff_exists.1 (show (statVpage (gigaPage.run (PageCall.run
    ⟨createVmem 0, fun _ _ => 0⟩ (.map 0x200000 0x40000000 0x17 0 [0x1000]))) 0x80000000).isSome by
      decide +kernel)
  exact h 0x80000000 x (by decide) hx 0 (by decide) (by decide +kernel)

end Kmi.Vmem
