import Kmi.Vmem.PartialMap

/-! Which pages are the tables of a space, and of what orders. What the entries of pages may
be in a table of an order is left open. -/

namespace Kmi.Vmem

open Kmi.Mem

def mapTables (vaddr : ℕ) : ℕ → ℕ → Option ℕ → Pages → Space → List (ℕ × ℕ)
  | 0, _, _, _, _ => []
  | left + 1, top, branch, pages, m =>
    let idx := vmToIndex vaddr top
    if unused (m.leaf branch idx) then
      match createLeaf m pages with
      | none => []
      | some (m, leaf, rest) =>
        let m := m.setLeaf branch idx leaf
        (pages.headD 0, top - 1) ::
          mapTables vaddr left (top - 1) (some (pteAddr (m.leaf branch idx))) rest m
    else mapTables vaddr left (top - 1) (some (pteAddr (m.leaf branch idx))) pages m

def addLevels (level : ℕ → Option ℕ) : List (ℕ × ℕ) → ℕ → Option ℕ
  | [] => level
  | (a, o) :: rest => addLevels (Function.update level a (some o)) rest

structure NewTables (level : ℕ → Option ℕ) (pages : Pages) : Prop where
  aligned : ∀ p ∈ pages, p < 2 ^ 64 ∧ p % 4096 = 0
  nodup : (pages.filter (· ≠ 0)).Nodup
  fresh : ∀ p ∈ pages, p ≠ 0 → level p = none

def HasLevel (level : ℕ → Option ℕ) (o : ℕ) : Option ℕ → Prop
  | none => o = maxOrder
  | some a => level a = some o

variable {Q : ℕ → ℕ → Prop} {R : ℕ → Prop} {m : Space} {level level' : ℕ → Option ℕ}
  {v o i a vaddr order left pte : ℕ} {b : Option ℕ} {pages : Pages}

def Entry (Q : ℕ → ℕ → Prop) (level : ℕ → Option ℕ) (o pte : ℕ) : Prop :=
  unused pte = true ∨ (isLeaf pte = true ∧ Q o pte) ∨
    ∃ a o', o = o' + 1 ∧ level a = some o' ∧ a < 2 ^ 64 ∧ a % 4096 = 0 ∧ pte = toPte (pa a) VM_V

structure Levelled (Q : ℕ → ℕ → Prop) (R : ℕ → Prop) (level : ℕ → Option ℕ) (m : Space) : Prop where
  root : ∀ i, R i → Entry Q level maxOrder (m.root i)
  low : ∀ a o, level a = some o → ∀ i, Entry Q level o (m.low a i)

lemma Entry.mono (h : Entry Q level o pte) (hle : ∀ a o, level a = some o → level' a = some o) :
    Entry Q level' o pte := by
  obtain h | h | ⟨a, o', ho, ha, hrest⟩ := h
  · exact .inl h
  · exact .inr (.inl h)
  · exact .inr (.inr ⟨a, o', ho, hle a o' ha, hrest⟩)

lemma Entry.congr {pte' : ℕ} (h : Entry Q level o pte) (hs : SameEntry pte pte') :
    Entry Q level o pte' := by
  obtain rfl | ⟨-, hu⟩ := hs
  · exact h
  · exact .inl hu

lemma Levelled.entry (h : Levelled Q R level m) (hb : HasLevel level o b)
    (hv : R (vmToIndex v maxOrder)) : Entry Q level o (m.leaf b (vmToIndex v o)) := by
  cases b with
  | none =>
    obtain rfl : o = maxOrder := hb
    exact h.root _ hv
  | some a => exact h.low a o hb _

lemma Levelled.setLeaf (h : Levelled Q R level m) (hb : HasLevel level o b) (he : Entry Q level o pte) :
    Levelled Q R level (m.setLeaf b i pte) := by
  refine ⟨fun j hj => ?_, fun a o' ha j => ?_⟩
  · change Entry Q level maxOrder ((m.setLeaf b i pte).leaf none j)
    rw [leaf_setLeaf]
    split_ifs with hc
    · obtain ⟨rfl, -⟩ := hc
      obtain rfl : o = maxOrder := hb
      exact he
    · exact h.root j hj
  · change Entry Q level o' ((m.setLeaf b i pte).leaf (some a) j)
    rw [leaf_setLeaf]
    split_ifs with hc
    · obtain ⟨rfl, -⟩ := hc
      obtain rfl : o' = o := Option.some.inj (ha.symm.trans hb)
      exact he
    · exact h.low a o' ha j

lemma Levelled.setRoot {root' : Table} (h : Levelled Q R level m)
    (hs : ∀ i, SameEntry (m.root i) (root' i)) : Levelled Q R level { m with root := root' } :=
  ⟨fun i hi => (h.root i hi).congr (hs i), h.low⟩

lemma branch_not_unused (a : ℕ) : unused (toPte a VM_V) = false ∧ isLeaf (toPte a VM_V) = false := by
  have h := branch_stops a
  rwa [stops, Bool.or_eq_false_iff] at h

lemma Levelled.link (h : Levelled Q R level m) (hb : HasLevel level (o + 1) b) (ha : level a = none)
    (halt : a < 2 ^ 64) (hal : a % 4096 = 0) :
    Levelled Q R (Function.update level a (some o)) (linked m b i a) ∧
      ∀ c o', level c = some o' → Function.update level a (some o) c = some o' := by
  have hmono : ∀ c o', level c = some o' → Function.update level a (some o) c = some o' := by
    intro c o' hc
    have hne : c ≠ a := by
      rintro rfl
      rw [ha] at hc
      cases hc
    rwa [Function.update_of_ne hne]
  have hb' : HasLevel (Function.update level a (some o)) (o + 1) b := by
    cases b with
    | none => exact hb
    | some c => exact hmono c _ hb
  have hzero : Levelled Q R (Function.update level a (some o))
      { m with low := Function.update m.low a fun _ => 0 } := by
    refine ⟨fun j hj => (h.root j hj).mono hmono, fun c o' hc j => ?_⟩
    by_cases hca : c = a
    · subst hca
      simp only [Function.update_self]
      exact .inl rfl
    · rw [Function.update_of_ne hca] at hc
      simp only [Function.update_of_ne hca]
      exact (h.low c o' hc j).mono hmono
  refine ⟨?_, hmono⟩
  apply hzero.setLeaf hb'
  exact .inr (.inr ⟨a, o, rfl, Function.update_self .., halt, hal, rfl⟩)

lemma NewTables.tail {rest : Pages} (h : NewTables level (a :: rest)) (ha : a ≠ 0) :
    NewTables (Function.update level a (some o)) rest := by
  have hnd := h.nodup
  rw [List.filter_cons_of_pos (by simpa using ha), List.nodup_cons] at hnd
  refine ⟨fun p hp => h.aligned p (List.mem_cons_of_mem _ hp), hnd.2, fun p hp hp0 => ?_⟩
  have hne : p ≠ a := by
    rintro rfl
    exact hnd.1 (List.mem_filter.2 ⟨hp, by simpa using hp0⟩)
  rw [Function.update_of_ne hne]
  exact h.fresh p (List.mem_cons_of_mem _ hp) hp0

lemma findVmem_empty {top : ℕ} (h : ∀ i, m.low a i = 0) : findVmem m v top (some a) = none := by
  cases top with
  | zero => rw [findVmem, if_pos (by rw [Space.leaf, h]; rfl)]
  | succ top => rw [findVmem, if_pos (by rw [Space.leaf, h]; rfl)]

lemma setLeaf_low {c : ℕ} (hb : b ≠ some c) : (m.setLeaf b i pte).low c = m.low c := by
  cases b with
  | none => rfl
  | some a => exact Function.update_of_ne (fun h => hb (congrArg some h.symm)) _ _

lemma HasLevel.ne {c : ℕ} (hb : HasLevel level o b) (hc : level c = none) : b ≠ some c := by
  rintro rfl
  rw [HasLevel, hc] at hb
  cases hb

structure Relevelled (Q : ℕ → ℕ → Prop) (R : ℕ → Prop) (level level' : ℕ → Option ℕ) (m m' : Space) :
    Prop where
  levelled : Levelled Q R level' m'
  mono : ∀ a o, level a = some o → level' a = some o
  frame : ∀ a, level' a = none → m'.low a = m.low a

lemma Relevelled.refl (h : Levelled Q R level m) : Relevelled Q R level level m m :=
  ⟨h, fun _ _ h => h, fun _ _ => rfl⟩

lemma Relevelled.trans {level'' : ℕ → Option ℕ} {m' m'' : Space} (h : Relevelled Q R level level' m m')
    (h' : Relevelled Q R level' level'' m' m'') : Relevelled Q R level level'' m m'' := by
  refine ⟨h'.levelled, fun a o ha => h'.mono a o (h.mono a o ha), fun a ha => ?_⟩
  have hmid : level' a = none := by
    cases hl : level' a with
    | none => rfl
    | some o =>
      rw [h'.mono a o hl] at ha
      cases ha
  rw [h'.frame a ha, h.frame a hmid]

lemma Relevelled.link (h : Levelled Q R level m) (hb : HasLevel level (o + 1) b) (ha : level a = none)
    (halt : a < 2 ^ 64) (hal : a % 4096 = 0) :
    Relevelled Q R level (Function.update level a (some o)) m (linked m b i a) := by
  obtain ⟨hl, hmono⟩ := @Levelled.link Q R m level o i a b h hb ha halt hal
  refine ⟨hl, hmono, fun c hc => ?_⟩
  have hne : c ≠ a := by
    rintro rfl
    rw [Function.update_self] at hc
    cases hc
  rw [Function.update_of_ne hne] at hc
  rw [linked, setLeaf_low (hb.ne hc)]
  exact Function.update_of_ne hne _ _

structure WalkLevelled (Q : ℕ → ℕ → Prop) (R : ℕ → Prop) (level level' : ℕ → Option ℕ) (m : Space)
    (order : ℕ) (r : Space × Option (Option ℕ)) : Prop where
  tables : Relevelled Q R level level' m r.1
  reached : ∀ b, r.2 = some b → HasLevel level' order b

lemma Levelled.next (h : Levelled Q R level m) (hb : HasLevel level (o + 1) b)
    (hv : R (vmToIndex vaddr maxOrder)) (hu : unused (m.leaf b (vmToIndex vaddr (o + 1))) = false)
    (hclear : ∀ x, findVmem m vaddr (o + 1) b = some x → x.2.2 ≤ o) :
    level (pteAddr (m.leaf b (vmToIndex vaddr (o + 1)))) = some o ∧
      findVmem m vaddr (o + 1) b =
        findVmem m vaddr o (some (pteAddr (m.leaf b (vmToIndex vaddr (o + 1))))) := by
  have hu' : ¬ unused (m.leaf b (vmToIndex vaddr (o + 1))) = true := by simp [hu]
  obtain he | ⟨hleaf, -⟩ | ⟨a, o', ho, hlev, halt, hal, he⟩ := h.entry hb hv
  · rw [hu] at he
    cases he
  · have := hclear (b, vmToIndex vaddr (o + 1), o + 1) (by rw [findVmem, if_neg hu', if_pos hleaf])
    dsimp only at this
    omega
  · obtain rfl : o = o' := by omega
    have haddr : pteAddr (m.leaf b (vmToIndex vaddr (o + 1))) = a := by
      rw [he, pteAddr_toPte (by decide) halt hal]
    rw [haddr]
    refine ⟨hlev, ?_⟩
    rw [findVmem, if_neg hu', if_neg (by rw [he, (branch_not_unused _).2]; decide), haddr]

lemma linked_entry {a : ℕ} (halt : a < 2 ^ 64) (hal : a % 4096 = 0) :
    pteAddr ((linked m b i a).leaf b i) = a := by
  rw [linked, leaf_setLeaf, if_pos ⟨rfl, rfl⟩, pteAddr_toPte (by decide) halt hal]

lemma mapWalk_levelled (h : Levelled Q R level m) (hb : HasLevel level (order + left) b)
    (hv : R (vmToIndex vaddr maxOrder))
    (hclear : ∀ x, findVmem m vaddr (order + left) b = some x → x.2.2 ≤ order)
    (hp : NewTables level pages) :
    WalkLevelled Q R level (addLevels level (mapTables vaddr left (order + left) b pages m)) m order
      (mapWalk vaddr left (order + left) b pages m) := by
  induction left generalizing m b pages level with
  | zero =>
    refine ⟨.refl h, fun b' hb' => ?_⟩
    cases hb'
    exact hb
  | succ left ih =>
    rw [← add_assoc] at hb hclear ⊢
    rw [mapWalk, mapTables]
    split_ifs with hu
    · obtain ⟨-, hc⟩ | ⟨a, rest, rfl, ha, hc⟩ := createLeaf_cases m pages
      · simp only [hc]
        exact ⟨.refl h, fun b' hb' => by cases hb'⟩
      · obtain ⟨halt, hal⟩ := hp.aligned a (List.mem_cons_self ..)
        have hfresh := hp.fresh a (List.mem_cons_self ..) ha
        have hlink := @Relevelled.link Q R m level (order + left)
          (vmToIndex vaddr (order + left + 1)) a b h hb hfresh halt hal
        have hr := @ih (linked m b (vmToIndex vaddr (order + left + 1)) a)
          (Function.update level a (some (order + left))) (some a) rest hlink.levelled
          (Function.update_self ..) (fun x hx => by
            rw [findVmem_empty (fun j => linked_leaf_new (hb.ne hfresh) j)] at hx
            cases hx) (hp.tail ha)
        simp only [hc]
        change WalkLevelled Q R level (addLevels (Function.update level a (some (order + left)))
            (mapTables vaddr left (order + left) (some (pteAddr
              ((linked m b (vmToIndex vaddr (order + left + 1)) a).leaf b _))) rest (linked m b _ a))) m order
          (mapWalk vaddr left (order + left) (some (pteAddr
            ((linked m b (vmToIndex vaddr (order + left + 1)) a).leaf b _))) rest (linked m b _ a))
        rw [linked_entry halt hal]
        exact ⟨hlink.trans hr.tables, hr.reached⟩
    · have hused : unused (m.leaf b (vmToIndex vaddr (order + left + 1))) = false := by simpa using hu
      obtain ⟨hlev, hfind⟩ := h.next hb hv hused fun x hx => (hclear x hx).trans (Nat.le_add_right ..)
      rw [hfind] at hclear
      exact ih h hlev hclear hp

lemma mapped_isLeaf {paddr flags : ℕ} (hV : flags &&& VM_V ≠ 0) :
    isLeaf (toPte (pa paddr) (vpFlags (flags ||| (VM_A ||| VM_D)))) = true ∧
      pteFlags (toPte (pa paddr) (vpFlags (flags ||| (VM_A ||| VM_D)))) =
        flags &&& 0xff ||| (VM_A ||| VM_D) := by
  have hmask : vpFlags (flags ||| (VM_A ||| VM_D)) = vpFlags ((flags &&& 0xff) ||| (VM_A ||| VM_D)) := by
    simp only [vpFlags, Nat.and_or_distrib_right, Nat.and_assoc, Nat.and_self]
  have hf : flags &&& 0xff < 256 := Nat.and_le_right.trans_lt (by decide)
  have hVlow : flags &&& 0xff &&& VM_V ≠ 0 := by
    rwa [Nat.and_assoc, show 0xff &&& VM_V = VM_V from rfl]
  obtain ⟨-, hentry⟩ := page_entry hf hVlow
  obtain ⟨-, hleaf, hflags⟩ := hentry (pa paddr)
  rw [hmask]
  exact ⟨hleaf, hflags⟩

lemma mapVpage_levelled {paddr flags : ℕ} (h : Levelled Q R level m) (hv : R (vmToIndex vaddr maxOrder))
    (ho : order ≤ maxOrder) (hp : NewTables level pages) (hV : flags &&& VM_V ≠ 0)
    (hQ : Q order (toPte (pa paddr) (vpFlags (flags ||| (VM_A ||| VM_D)))))
    (hclear : ∀ x, statVpage m vaddr = some x → x.order ≤ order) :
    Relevelled Q R level (addLevels level (mapTables vaddr (maxOrder - order) maxOrder none pages m)) m
      (mapVpage m paddr vaddr flags order pages).1 := by
  have hsum : order + (maxOrder - order) = maxOrder := Nat.add_sub_cancel' ho
  have hw := @mapWalk_levelled Q R m level vaddr order (maxOrder - order) none pages h hsum hv
    (by
      rw [hsum]
      intro x hx
      exact hclear ⟨pteAddr (m.leaf x.1 x.2.1), x.2.2, pteFlags (m.leaf x.1 x.2.1)⟩
        (by rw [statVpage, hx])) hp
  rw [hsum] at hw
  rw [mapVpage]
  cases hr : mapWalk vaddr (maxOrder - order) maxOrder none pages m with
  | mk m' branch =>
    rw [hr] at hw
    cases branch with
    | none => exact hw.tables
    | some branch =>
      dsimp only
      split_ifs with hu
      · have hb := hw.reached branch rfl
        have hset := @Levelled.setLeaf Q R m' _ order (vmToIndex vaddr order) _ branch hw.tables.levelled
          hb (.inr (.inl ⟨(@mapped_isLeaf paddr flags hV).1, hQ⟩))
        refine ⟨hset.setRoot (addGraves_sameEntry _ _), hw.tables.mono, fun a ha => ?_⟩
        rw [← hw.tables.frame a ha]
        exact setLeaf_low (hb.ne ha)
      · exact hw.tables

lemma Walks.levelled (h : Levelled Q R level m) (hv : R (vmToIndex v maxOrder)) (hw : Walks m v o b) :
    HasLevel level o b := by
  induction hw with
  | top => rfl
  | @down o b _ hs ih =>
    rw [stops, Bool.or_eq_false_iff] at hs
    obtain he | ⟨he, -⟩ | ⟨a, o', ho, hlev, halt, hal, he⟩ := h.entry ih hv
    · rw [hs.1] at he
      cases he
    · rw [hs.2] at he
      cases he
    · obtain rfl : o = o' := by omega
      rw [he, pteAddr_toPte (by decide) halt hal]
      exact hlev

lemma unmapVpage_levelled (h : Levelled Q R level m) (hv : R (vmToIndex vaddr maxOrder)) :
    Relevelled Q R level level m (unmapVpage m vaddr).1 := by
  rw [unmapVpage]
  cases hf : findVmem m vaddr maxOrder none with
  | none => exact .refl h
  | some x =>
    obtain ⟨b, idx, o⟩ := x
    obtain ⟨hw, -⟩ := findVmem_walks .top hf
    have hb := hw.levelled h hv
    exact ⟨(h.setLeaf hb (.inl rfl)).setRoot (removeGraves_sameEntry _ _), fun _ _ h => h,
      fun a ha => setLeaf_low (hb.ne ha)⟩

lemma createVmem_levelled (kvmem : ℕ) (low : ℕ → Table) :
    Levelled (fun _ _ => True) (· < KERNEL_PAGE) (fun _ => none) ⟨createVmem kvmem, low⟩ := by
  refine ⟨fun i hi => ?_, fun a o ha => by cases ha⟩
  have hs := createVmem_stops kvmem hi.ne
  rw [stops, Bool.or_eq_true] at hs
  exact hs.imp_right fun h => .inl ⟨h, trivial⟩

lemma createVmem_small (kvmem : ℕ) (low : ℕ → Table) :
    Levelled (fun o _ => o = 0) (· < KSTART_PAGE) (fun _ => none) ⟨createVmem kvmem, low⟩ := by
  refine ⟨fun i hi => .inl ?_, fun a o ha => by cases ha⟩
  change unused (createVmem kvmem i) = true
  rw [createVmem, if_pos hi]
  rfl

lemma addLevels_append (level : ℕ → Option ℕ) (l l' : List (ℕ × ℕ)) :
    addLevels level (l ++ l') = addLevels (addLevels level l) l' := by
  induction l generalizing level with
  | nil => rfl
  | cons x l ih => exact ih _

end Kmi.Vmem
