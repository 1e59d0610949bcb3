import Kmi.Vmem.Holders

/-! Destroying a space in which every table can be reached frees all of its tables. -/

namespace Kmi.Vmem

open Kmi.Mem

variable {Q : ℕ → ℕ → Prop} {R : ℕ → Prop} {m : Space} {level : ℕ → Option ℕ} {low : ℕ → Table}
  {a c o i v vaddr order left pte paddr flags : ℕ} {b : Option ℕ} {pages : Pages} {freed : List ℕ}

def Hung (R : ℕ → Prop) (level : ℕ → Option ℕ) (m : Space) : Prop :=
  ∀ a o, level a = some o → o < maxOrder ∧ ∃ b i, HasLevel level (o + 1) b ∧ (b = none → R i) ∧
    i < 512 ∧ isBranch (m.leaf b i) = true ∧ pteAddr (m.leaf b i) = a

lemma isBranch_used (h : isBranch pte = true) : unused pte = false := by
  have hs := isBranch_stops h
  rw [stops, Bool.or_eq_false_iff] at hs
  exact hs.1

lemma isBranch_of_unused (h : unused pte = true) : isBranch pte = false := by
  rw [← Bool.not_eq_true]
  intro hb
  rw [isBranch_used hb] at h
  cases h

lemma isBranch_of_leaf (h : isLeaf pte = true) : isBranch pte = false := by
  rw [← Bool.not_eq_true]
  intro hb
  have hs := isBranch_stops hb
  rw [stops, h, Bool.or_true] at hs
  cases hs

lemma toPte_isBranch (a : ℕ) : isBranch (toPte a VM_V) = true := by
  rw [isBranch, isActive, pteFlags_toPte (by decide)]
  decide

lemma vmToIndex_lt_512 (v o : ℕ) : vmToIndex v o < 512 := Nat.mod_lt _ (by norm_num)

lemma Hung.link (h : Hung R level m) (hb : HasLevel level (o + 1) b) (hR : b = none → R i)
    (hi : i < 512) (hu : unused (m.leaf b i) = true) (ha : level a = none) (halt : a < 2 ^ 64)
    (hal : a % 4096 = 0) : Hung R (Function.update level a (some o)) (linked m b i a) := by
  have hkeep : ∀ b' o', HasLevel level o' b' → HasLevel (Function.update level a (some o)) o' b' := by
    intro b' o' hb'
    cases b' with
    | none => exact hb'
    | some c => exact (Function.update_of_ne (fun hc => hb'.ne ha (congrArg some hc)) _ _).trans hb'
  intro c o' hc
  by_cases hca : c = a
  · subst hca
    rw [Function.update_self] at hc
    cases hc
    refine ⟨?_, b, i, hkeep b _ hb, hR, hi, ?_, linked_entry halt hal⟩
    · cases b with
      | none =>
        have : o + 1 = maxOrder := hb
        omega
      | some d =>
        have := (h d _ hb).1
        omega
    · rw [linked_leaf (hb.ne ha) (hb.ne ha), if_pos ⟨rfl, rfl⟩]
      exact toPte_isBranch _
  · rw [Function.update_of_ne hca] at hc
    obtain ⟨ho', b', j, hb', hR', hj, hbranch, haddr⟩ := h c o' hc
    have hsame : (linked m b i a).leaf b' j = m.leaf b' j := by
      rw [linked_leaf (hb.ne ha) (hb'.ne ha), if_neg]
      rintro ⟨rfl, rfl⟩
      rw [isBranch_of_unused hu] at hbranch
      cases hbranch
    rw [← hsame] at hbranch haddr
    exact ⟨ho', b', j, hkeep b' _ hb', hR', hj, hbranch, haddr⟩

lemma Hung.setLeaf (h : Hung R level m) (hold : isBranch (m.leaf b i) = false) (pte : ℕ) :
    Hung R level (m.setLeaf b i pte) := by
  intro c o' hc
  obtain ⟨ho', b', j, hb', hR', hj, hbranch, haddr⟩ := h c o' hc
  have hsame : (m.setLeaf b i pte).leaf b' j = m.leaf b' j := by
    rw [leaf_setLeaf, if_neg]
    rintro ⟨rfl, rfl⟩
    rw [hold] at hbranch
    cases hbranch
  rw [← hsame] at hbranch haddr
  exact ⟨ho', b', j, hb', hR', hj, hbranch, haddr⟩

lemma Hung.setRoot {root' : Table} (h : Hung R level m) (hs : ∀ i, SameEntry (m.root i) (root' i)) :
    Hung R level { m with root := root' } := by
  intro c o' hc
  obtain ⟨ho', b', j, hb', hR', hj, hbranch, haddr⟩ := h c o' hc
  have hsame := (root_sameEntry hs b' j).eq_of_not_stops (isBranch_stops hbranch)
  rw [hsame] at hbranch haddr
  exact ⟨ho', b', j, hb', hR', hj, hbranch, haddr⟩

/-- What links to new tables, pages and gravestones keep, `map_vpage` and `unmap_vpage`
keep as well. -/
structure Stable (Q : ℕ → ℕ → Prop) (R : ℕ → Prop) (P : (ℕ → Option ℕ) → Space → Prop) : Prop where
  link : ∀ {level m b i o a}, P level m → Levelled Q R level m → HasLevel level (o + 1) b →
    (b = none → R i) → i < 512 → unused (m.leaf b i) = true → level a = none → a < 2 ^ 64 →
    a % 4096 = 0 → P (Function.update level a (some o)) (linked m b i a)
  setLeaf : ∀ {level m b i pte}, P level m → isBranch (m.leaf b i) = false → isBranch pte = false →
    P level (m.setLeaf b i pte)
  setRoot : ∀ {level m root'}, P level m → (∀ i, SameEntry (m.root i) (root' i)) →
    P level { m with root := root' }

section Stable

variable {P : (ℕ → Option ℕ) → Space → Prop}

lemma Stable.mapWalk (hs : Stable Q R P) (hh : P level m) (h : Levelled Q R level m)
    (hb : HasLevel level (order + left) b) (hv : R (vmToIndex vaddr maxOrder))
    (hclear : ∀ x, findVmem m vaddr (order + left) b = some x → x.2.2 ≤ order)
    (hp : NewTables level pages) :
    P (addLevels level (mapTables vaddr left (order + left) b pages m))
      (Vmem.mapWalk vaddr left (order + left) b pages m).1 := by
  induction left generalizing m b pages level with
  | zero => exact hh
  | succ left ih =>
    rw [← add_assoc] at hb hclear ⊢
    rw [Vmem.mapWalk, mapTables]
    split_ifs with hu
    · obtain ⟨-, hc⟩ | ⟨a, rest, rfl, ha, hc⟩ := createLeaf_cases m pages
      · simp only [hc]
        exact hh
      · obtain ⟨halt, hal⟩ := hp.aligned a (List.mem_cons_self ..)
        have hfresh := hp.fresh a (List.mem_cons_self ..) ha
        have hroot : b = none → R (vmToIndex vaddr (order + left + 1)) := by
          rintro rfl
          have htop : order + left + 1 = maxOrder := hb
          rwa [htop]
        have hlink := hs.link hh h hb hroot (vmToIndex_lt_512 _ _) hu hfresh halt hal
        have hlev := (@Relevelled.link Q R m level (order + left)
          (vmToIndex vaddr (order + left + 1)) a b h hb hfresh halt hal).levelled
        have hr := @ih (linked m b (vmToIndex vaddr (order + left + 1)) a)
          (Function.update level a (some (order + left))) (some a) rest hlink hlev
          (Function.update_self ..) (fun x hx => by
            rw [findVmem_empty (fun j => linked_leaf_new (hb.ne hfresh) j)] at hx
            cases hx) (hp.tail ha)
        simp only [hc]
        change P (addLevels (Function.update level a (some (order + left)))
            (mapTables vaddr left (order + left) (some (pteAddr
              ((linked m b (vmToIndex vaddr (order + left + 1)) a).leaf b _))) rest (linked m b _ a)))
          (Vmem.mapWalk vaddr left (order + left) (some (pteAddr
            ((linked m b (vmToIndex vaddr (order + left + 1)) a).leaf b _))) rest (linked m b _ a)).1
        rw [linked_entry halt hal]
        exact hr
    · have hused : unused (m.leaf b (vmToIndex vaddr (order + left + 1))) = false := by simpa using hu
      obtain ⟨hlev, hfind⟩ := h.next hb hv hused fun x hx => (hclear x hx).trans (Nat.le_add_right ..)
      rw [hfind] at hclear
      exact ih hh h hlev hclear hp

lemma mapped_not_branch (paddr flags : ℕ) :
    isBranch (toPte (pa paddr) (vpFlags (flags ||| (VM_A ||| VM_D)))) = false := by
  have hbits : vpFlags (flags ||| (VM_A ||| VM_D)) &&& (0xff - VM_V) ≠ 0 := by
    intro hz
    have hA : (vpFlags (flags ||| (VM_A ||| VM_D)) &&& (0xff - VM_V)).testBit 6 = true := by
      rw [vpFlags, Nat.testBit_and, Nat.testBit_and, Nat.testBit_or]
      have h₁ : (VM_A ||| VM_D).testBit 6 = true := by decide
      have h₂ : Nat.testBit 0xff 6 = true := by decide
      have h₃ : Nat.testBit (0xff - VM_V) 6 = true := by decide
      rw [h₁, h₂, h₃, Bool.or_true]
      rfl
    rw [hz, Nat.zero_testBit] at hA
    cases hA
  have hflags : pteFlags (toPte (pa paddr) (vpFlags (flags ||| (VM_A ||| VM_D)))) =
      vpFlags (flags ||| (VM_A ||| VM_D)) := pteFlags_toPte (Nat.and_le_right.trans_lt (by decide))
  rw [isBranch, hflags, Bool.and_eq_false_iff]
  right
  simpa using hbits

lemma Stable.mapVpage (hs : Stable Q R P) (hh : P level m) (h : Levelled Q R level m)
    (hv : R (vmToIndex vaddr maxOrder)) (ho : order ≤ maxOrder) (hp : NewTables level pages)
    (hclear : ∀ x, statVpage m vaddr = some x → x.order ≤ order) :
    P (addLevels level (mapTables vaddr (maxOrder - order) maxOrder none pages m))
      (Vmem.mapVpage m paddr vaddr flags order pages).1 := by
  have hsum : order + (maxOrder - order) = maxOrder := Nat.add_sub_cancel' ho
  have hw := @Stable.mapWalk Q R m level vaddr order (maxOrder - order) none pages P hs hh h hsum hv
    (by
      rw [hsum]
      intro x hx
      exact hclear ⟨pteAddr (m.leaf x.1 x.2.1), x.2.2, pteFlags (m.leaf x.1 x.2.1)⟩
        (by rw [statVpage, hx])) hp
  rw [hsum] at hw
  rw [Vmem.mapVpage]
  cases hr : Vmem.mapWalk vaddr (maxOrder - order) maxOrder none pages m with
  | mk m' branch =>
    rw [hr] at hw
    cases branch with
    | none => exact hw
    | some branch =>
      dsimp only
      split_ifs with hu
      · have hset := hs.setLeaf hw (isBranch_of_unused hu) (mapped_not_branch paddr flags)
        exact hs.setRoot hset (addGraves_sameEntry _ _)
      · exact hw

lemma Stable.unmapVpage (hs : Stable Q R P) (hh : P level m) : P level (Vmem.unmapVpage m vaddr).1 := by
  rw [Vmem.unmapVpage]
  cases hf : findVmem m vaddr maxOrder none with
  | none => exact hh
  | some x =>
    obtain ⟨b, idx, o⟩ := x
    obtain ⟨-, -, -, hleaf⟩ := findVmem_walks .top hf
    have hset := hs.setLeaf hh (isBranch_of_leaf hleaf) (by decide : isBranch GRAVESTONE = false)
    exact hs.setRoot hset (removeGraves_sameEntry _ _)

end Stable

lemma hung_stable (Q : ℕ → ℕ → Prop) (R : ℕ → Prop) : Stable Q R (Hung R) := by
  refine ⟨?_, ?_, ?_⟩
  · intro level m b i o a hh _ hb hR hi hu ha halt hal
    exact hh.link hb hR hi hu ha halt hal
  · intro level m b i pte hh hold _
    exact hh.setLeaf hold pte
  · intro level m root' hh hs
    exact hh.setRoot hs

lemma mapVpage_hung (hh : Hung R level m) (h : Levelled Q R level m) (hv : R (vmToIndex vaddr maxOrder))
    (ho : order ≤ maxOrder) (hp : NewTables level pages)
    (hclear : ∀ x, statVpage m vaddr = some x → x.order ≤ order) :
    Hung R (addLevels level (mapTables vaddr (maxOrder - order) maxOrder none pages m))
      (mapVpage m paddr vaddr flags order pages).1 :=
  (hung_stable Q R).mapVpage hh h hv ho hp hclear

lemma unmapVpage_hung (hh : Hung R level m) : Hung R level (unmapVpage m vaddr).1 :=
  (hung_stable (fun _ _ => True) R).unmapVpage hh

lemma createVmem_hung (kvmem : ℕ) (low : ℕ → Table) : Hung R (fun _ => none) ⟨createVmem kvmem, low⟩ := by
  intro a o ha
  cases ha

lemma mapM_mem {α β : Type} {f : α → Option β} {l : List α} {ls : List β} {y : α}
    (h : l.mapM f = some ls) (hy : y ∈ l) : ∃ z ∈ ls, f y = some z := by
  induction l generalizing ls with
  | nil => cases hy
  | cons x l ih =>
    rw [List.mapM_cons] at h
    simp only [Option.bind_eq_bind, Option.bind_eq_some_iff, Option.pure_def, Option.some.injEq] at h
    obtain ⟨z, hz, ls', hls, rfl⟩ := h
    obtain rfl | hy := List.mem_cons.1 hy
    · exact ⟨z, List.mem_cons_self .., hz⟩
    · obtain ⟨w, hw, hfw⟩ := ih hls hy
      exact ⟨w, List.mem_cons_of_mem _ hw, hfw⟩

lemma destroyBranch_self {fuel : ℕ} (h : destroyBranch low fuel a = some freed) : a ∈ freed := by
  cases fuel with
  | zero => cases h
  | succ fuel =>
    simp only [destroyBranch, Option.bind_eq_bind, Option.bind_eq_some_iff, Option.some.injEq] at h
    obtain ⟨below, -, rfl⟩ := h
    exact List.mem_append_right _ (List.mem_singleton_self a)

lemma destroyBranch_below {fuel : ℕ} (h : destroyBranch low fuel a = some freed) (hc : c ∈ freed)
    (hi : i < 512) (hb : isBranch (low c i) = true) : pteAddr (low c i) ∈ freed := by
  induction fuel generalizing a freed with
  | zero => cases h
  | succ fuel ih =>
    simp only [destroyBranch, Option.bind_eq_bind, Option.bind_eq_some_iff, Option.some.injEq] at h
    obtain ⟨below, hbelow, rfl⟩ := h
    rw [List.mem_append, List.mem_singleton] at hc
    obtain hc | rfl := hc
    · obtain ⟨j, hj, z, hz, hcz⟩ := mapM_some_mem hbelow hc
      obtain ⟨w, hw, hzw⟩ := mapM_mem hbelow hj
      rw [hz] at hzw
      cases hzw
      split_ifs at hz with hbj
      · exact List.mem_append_left _ (List.mem_flatten.2 ⟨z, hw, ih hz hcz⟩)
      · cases hz
        cases hcz
    · obtain ⟨z, hz, hdz⟩ := mapM_mem hbelow (List.mem_range.2 hi)
      rw [if_pos hb] at hdz
      exact List.mem_append_left _ (List.mem_flatten.2 ⟨z, hz, destroyBranch_self hdz⟩)

lemma destroyEntries_below {first : ℕ} (h : destroyEntries m first = some freed) (hc : c ∈ freed)
    (hi : i < 512) (hb : isBranch (m.low c i) = true) : pteAddr (m.low c i) ∈ freed := by
  simp only [destroyEntries, Option.bind_eq_bind, Option.bind_eq_some_iff, Option.some.injEq] at h
  obtain ⟨below, hbelow, rfl⟩ := h
  obtain ⟨j, hj, z, hz, hcz⟩ := mapM_some_mem hbelow hc
  obtain ⟨w, hw, hzw⟩ := mapM_mem hbelow hj
  rw [hz] at hzw
  cases hzw
  split_ifs at hz with hbj
  · exact List.mem_flatten.2 ⟨z, hw, destroyBranch_below hz hcz hi hb⟩
  · cases hz
    cases hcz

lemma Hung.destroyVmem (hh : Hung (· < KERNEL_PAGE) level m)
    (h : Levelled Q (· < KERNEL_PAGE) level m) :
    ∃ freed, Vmem.destroyVmem m = some freed ∧ ∀ a o, level a = some o → a ∈ freed := by
  obtain ⟨freed, hfreed, htop⟩ := @Levelled.frees Q (· < KERNEL_PAGE) m level 0 h fun i _ hi => hi
  refine ⟨freed, hfreed, ?_⟩
  have hall : ∀ n a o, o + n = maxOrder → level a = some o → a ∈ freed := by
    intro n
    induction n with
    | zero =>
      intro a o ho ha
      have := (hh a o ha).1
      omega
    | succ n ih =>
      intro a o ho ha
      obtain ⟨-, b, i, hb, hR, hi, hbranch, haddr⟩ := hh a o ha
      rw [← haddr]
      cases b with
      | none => exact htop i (Nat.zero_le i) (hR rfl) hbranch
      | some c => exact destroyEntries_below hfreed (ih c (o + 1) (by omega) hb) hi hbranch
  intro a o ha
  have hlt := (hh a o ha).1
  exact hall (maxOrder - o) a o (by omega) ha

end Kmi.Vmem
