import Kmi.Vmem.Walk

/-! `map_vpage` and `unmap_vpage` as updates of the partial map that `stat_vpage`
reads. -/

namespace Kmi.Vmem

open Kmi.Mem

variable {m m' : Space} {v v' o o' a p f i vaddr paddr flags order left top : ℕ} {b b' : Option ℕ}
  {pages : Pages}

lemma va_pa (hp : p < 2 ^ 64) : va (pa p) = p := by
  simp only [va, pa, VM_DMAP]
  omega

lemma toPte_eq (hf : f < 2 ^ 10) : toPte p f = p / 4096 * 1024 + f := by
  rw [toPte, ← Nat.shiftLeft_add_eq_or_of_lt hf, Nat.shiftRight_eq_div_pow, Nat.shiftLeft_eq]

lemma pteFlags_eq (pte : ℕ) : pteFlags pte = pte % 256 :=
  Nat.and_two_pow_sub_one_eq_mod pte 8

lemma pteFlags_toPte (hf : f < 256) : pteFlags (toPte p f) = f := by
  rw [pteFlags_eq, toPte_eq (by omega)]
  omega

lemma pteAddr_toPte (hf : f < 256) (hp : p < 2 ^ 64) (hal : p % 4096 = 0) :
    pteAddr (toPte (pa p) f) = p := by
  have hpaddr : ptePaddr (toPte (pa p) f) = pa p := by
    rw [ptePaddr, ptePpn, toPte_eq (by omega), Nat.shiftRight_eq_div_pow, Nat.shiftLeft_eq]
    simp only [pa, VM_DMAP]
    omega
  rw [pteAddr, hpaddr, va_pa hp]

lemma isLeaf_iff (pte : ℕ) : isLeaf pte = true ↔ pte % 2 = 1 ∧ pte % 256 ≠ 1 := by
  have h : ∀ f < 256, ((f &&& VM_V ≠ 0 ∧ f &&& (0xff - VM_V) ≠ 0) ↔ f % 2 = 1 ∧ f ≠ 1) := by
    decide +kernel
  rw [isLeaf, isActive, pteFlags_eq, Bool.and_eq_true, decide_eq_true_eq, decide_eq_true_eq,
    h _ (Nat.mod_lt _ (by decide))]
  omega

lemma unused_iff (pte : ℕ) : unused pte = true ↔ pte = 32 ∨ pte = 0 := by
  rw [unused, Bool.or_eq_true, decide_eq_true_eq, decide_eq_true_eq]
  rfl

lemma branch_stops (a : ℕ) : stops (toPte a VM_V) = false := by
  have h : toPte a VM_V = a / 4096 * 1024 + 1 := toPte_eq (by decide)
  rw [stops, Bool.or_eq_false_iff, ← Bool.not_eq_true, ← Bool.not_eq_true, unused_iff, isLeaf_iff, h]
  omega

lemma page_entry (hf : flags < 256) (hv : flags &&& VM_V ≠ 0) :
    flags ||| (VM_A ||| VM_D) < 256 ∧
      ∀ p, unused (toPte p (vpFlags (flags ||| (VM_A ||| VM_D)))) = false ∧
        isLeaf (toPte p (vpFlags (flags ||| (VM_A ||| VM_D)))) = true ∧
        pteFlags (toPte p (vpFlags (flags ||| (VM_A ||| VM_D)))) = flags ||| (VM_A ||| VM_D) := by
  have h : ∀ f < 256, f &&& VM_V ≠ 0 → vpFlags (f ||| (VM_A ||| VM_D)) = f ||| (VM_A ||| VM_D) ∧
      f ||| (VM_A ||| VM_D) < 256 ∧ (f ||| (VM_A ||| VM_D)) % 2 = 1 ∧ f ||| (VM_A ||| VM_D) ≠ 1 := by
    decide +kernel
  obtain ⟨hvp, hlt, hodd, hne⟩ := h flags hf hv
  refine ⟨hlt, fun p => ?_⟩
  rw [hvp]
  refine ⟨?_, ?_, pteFlags_toPte hlt⟩
  · rw [← Bool.not_eq_true, unused_iff, toPte_eq (by omega)]
    omega
  · rw [isLeaf_iff, toPte_eq (by omega)]
    omega

lemma Walks.branch (h : Walks m v (o + 1) b) (he : m.leaf b (vmToIndex v (o + 1)) = toPte (pa a) VM_V)
    (ha : a < 2 ^ 64) (hal : a % 4096 = 0) : Walks m v o (some a) := by
  have hd := h.down (by rw [he]; exact branch_stops _)
  rwa [he, pteAddr_toPte (by decide) ha hal] at hd

structure FreshPages (m : Space) (pages : Pages) : Prop where
  aligned : ∀ p ∈ pages, p < 2 ^ 64 ∧ p % 4096 = 0
  nodup : (pages.filter (· ≠ 0)).Nodup
  fresh : ∀ p ∈ pages, p ≠ 0 → ∀ v < 2 ^ 39, ∀ o, ¬ Walks m v o (some p)

def linked (m : Space) (b : Option ℕ) (i a : ℕ) : Space :=
  { m with low := Function.update m.low a fun _ => 0 }.setLeaf b i (toPte (pa a) VM_V)

lemma linked_leaf (_ : b ≠ some a) (hb' : b' ≠ some a) (j : ℕ) :
    (linked m b i a).leaf b' j = if b' = b ∧ j = i then toPte (pa a) VM_V else m.leaf b' j := by
  rw [linked, leaf_setLeaf]
  split_ifs
  · rfl
  · cases b' with
    | none => rfl
    | some a' =>
      have hne : a' ≠ a := by simpa using hb'
      simp [Space.leaf, Function.update_of_ne hne]

lemma linked_leaf_new (hb : b ≠ some a) (j : ℕ) : (linked m b i a).leaf (some a) j = 0 := by
  rw [linked, leaf_setLeaf, if_neg]
  · simp [Space.leaf]
  · rintro ⟨h, -⟩
    exact hb h.symm

section Link

variable (hw : WellFormed m) (hv : v < 2 ^ 39) (h : Walks m v (o + 1) b)
  (hu : unused (m.leaf b (vmToIndex v (o + 1))) = true) (ha : a < 2 ^ 64) (hal : a % 4096 = 0)
  (hf : ∀ v < 2 ^ 39, ∀ o, ¬ Walks m v o (some a))

include hv h hf in
lemma link_ne : b ≠ some a := by
  rintro rfl
  exact hf v hv _ h

include hv h hu hf in
lemma Walks.link (hv' : v' < 2 ^ 39) (h' : Walks m v' o' b') :
    Walks (linked m b (vmToIndex v (o + 1)) a) v' o' b' := by
  induction h' with
  | top => exact .top
  | @down o' b' h' hs ih =>
    have hb' : b' ≠ some a := by
      rintro rfl
      exact hf v' hv' _ h'
    have heq : (linked m b (vmToIndex v (o + 1)) a).leaf b' (vmToIndex v' (o' + 1)) =
        m.leaf b' (vmToIndex v' (o' + 1)) := by
      rw [linked_leaf (link_ne hv h hf) hb', if_neg]
      rintro ⟨rfl, hi⟩
      rw [hi, stops, hu] at hs
      cases hs
    rw [← heq] at hs ⊢
    exact .down ih hs

include hw hv h ha hal hf in
lemma walks_linked_cases (hv' : v' < 2 ^ 39)
    (h' : Walks (linked m b (vmToIndex v (o + 1)) a) v' o' b') :
    Walks m v' o' b' ∨ b' = some a ∧ o' = o ∧ pageOf v' (o + 1) = pageOf v (o + 1) := by
  induction h' with
  | top => exact .inl .top
  | @down o' b' h' hs ih =>
    obtain hm | ⟨rfl, -⟩ := ih
    · have hb' : b' ≠ some a := by
        rintro rfl
        exact hf v' hv' _ hm
      rw [linked_leaf (link_ne hv h hf) hb'] at hs ⊢
      split_ifs at hs ⊢ with hi
      · obtain ⟨rfl, hi⟩ := hi
        obtain ⟨ho, hp⟩ := hw.pageOf_eq hv' hv hm h hi
        obtain rfl : o' = o := by omega
        refine .inr ⟨?_, rfl, hp⟩
        rw [pteAddr_toPte (by decide) ha hal]
      · exact .inl (.down hm hs)
    · rw [linked_leaf_new (link_ne hv h hf)] at hs
      cases hs

include hw hv h ha hal hf in
lemma WellFormed.link : WellFormed (linked m b (vmToIndex v (o + 1)) a) := by
  refine ⟨fun {v₁ v₂ o₁ o₂ c} hv₁ hv₂ h₁ h₂ => ?_⟩
  obtain k₁ | ⟨hc₁, rfl, hp₁⟩ := walks_linked_cases hw hv h ha hal hf hv₁ h₁
  · obtain k₂ | ⟨hc₂, rfl, -⟩ := walks_linked_cases hw hv h ha hal hf hv₂ h₂
    · exact hw.one_path hv₁ hv₂ k₁ k₂
    · rw [hc₂] at k₁
      exact absurd k₁ (hf v₁ hv₁ _)
  · obtain k₂ | ⟨hc₂, rfl, hp₂⟩ := walks_linked_cases hw hv h ha hal hf hv₂ h₂
    · rw [hc₁] at k₂
      exact absurd k₂ (hf v₂ hv₂ _)
    · exact ⟨rfl, hp₁.trans hp₂.symm⟩

include hv h hu ha hal hf in
lemma Walks.link_new : Walks (linked m b (vmToIndex v (o + 1)) a) v o (some a) := by
  apply (Walks.link hv h hu hf hv h).branch _ ha hal
  rw [linked_leaf (link_ne hv h hf) (link_ne hv h hf), if_pos ⟨rfl, rfl⟩]

include hw hv h hu ha hal hf in
lemma statVpage_linked (hv' : v' < 2 ^ 39) :
    statVpage (linked m b (vmToIndex v (o + 1)) a) v' = statVpage m v' := by
  by_cases hp : pageOf v' (o + 1) = pageOf v (o + 1)
  · -- the page held nothing before, and the new table is empty
    have hidx := ((pageOf_eq_iff v' v (o + 1)).1 hp).2
    have hold := h.same_page hp.symm
    rw [← hidx] at hu ⊢
    have hnew := Walks.link_new hv' hold hu ha hal hf
    have hz := linked_leaf_new (i := vmToIndex v' (o + 1)) (m := m) (link_ne hv h hf) (vmToIndex v' o)
    rw [hnew.statVpage, hold.statVpage, statFrom_stops (by rw [hz]; rfl),
      statFrom_stops (by rw [stops, hu]; rfl), hz, entryStat, entryStat, if_pos hu]
    rfl
  · apply statVpage_congr_walk
    intro o' b' h'
    have hb' : b' ≠ some a := by
      rintro rfl
      exact hf v' hv' _ h'
    rw [linked_leaf (link_ne hv h hf) hb', if_neg]
    · exact .refl _
    · rintro ⟨rfl, hi⟩
      obtain ⟨ho, hpage⟩ := hw.pageOf_eq hv' hv h' h hi
      rw [ho] at hpage
      exact hp hpage

end Link

def NoLargerLeaf (m : Space) (v order : ℕ) : Prop :=
  ∀ o b, order < o → Walks m v o b → isLeaf (m.leaf b (vmToIndex v o)) = false

section Link

variable {rest : Pages} (hw : WellFormed m) (hv : v < 2 ^ 39) (h : Walks m v (o + 1) b)
  (hp : FreshPages m (a :: rest)) (ha : a ≠ 0)

include hw hv h hp ha in
lemma FreshPages.link : FreshPages (linked m b (vmToIndex v (o + 1)) a) rest := by
  obtain ⟨halt, hal⟩ := hp.aligned a (List.mem_cons_self ..)
  have hf := hp.fresh a (List.mem_cons_self ..) ha
  refine ⟨fun p hm => hp.aligned p (List.mem_cons_of_mem _ hm), ?_, fun p hm hp0 v' hv' o' h' => ?_⟩
  · have := hp.nodup
    rw [List.filter_cons_of_pos (by simpa using ha)] at this
    exact this.of_cons
  · obtain h' | ⟨hpa, -⟩ := walks_linked_cases hw hv h halt hal hf hv' h'
    · exact hp.fresh p (List.mem_cons_of_mem _ hm) hp0 v' hv' o' h'
    · have hnd := hp.nodup
      rw [List.filter_cons_of_pos (by simpa using ha)] at hnd
      apply (List.nodup_cons.1 hnd).1
      rw [← Option.some.inj hpa]
      exact List.mem_filter.2 ⟨hm, by simpa using hp0⟩

include hw hv h hp ha in
lemma NoLargerLeaf.link (hn : NoLargerLeaf m v order) :
    NoLargerLeaf (linked m b (vmToIndex v (o + 1)) a) v order := by
  obtain ⟨halt, hal⟩ := hp.aligned a (List.mem_cons_self ..)
  have hf := hp.fresh a (List.mem_cons_self ..) ha
  intro o' b' ho' h'
  obtain k' | ⟨rfl, -⟩ := walks_linked_cases hw hv h halt hal hf hv h'
  · have hb' : b' ≠ some a := by
      rintro rfl
      exact hf v hv _ k'
    rw [linked_leaf (link_ne hv h hf) hb']
    split_ifs
    · have := branch_stops (pa a)
      rw [stops, Bool.or_eq_false_iff] at this
      exact this.2
    · exact hn o' b' ho' k'
  · rw [linked_leaf_new (link_ne hv h hf)]
    rfl

end Link

lemma createLeaf_cases (m : Space) (pages : Pages) :
    pages.headD 0 = 0 ∧ createLeaf m pages = none ∨ ∃ a rest, pages = a :: rest ∧ a ≠ 0 ∧
      createLeaf m pages =
        some ({ m with low := Function.update m.low a fun _ => 0 }, toPte (pa a) VM_V, rest) := by
  cases pages with
  | nil => exact .inl ⟨rfl, rfl⟩
  | cons a rest =>
    rw [createLeaf]
    split_ifs with ha
    · exact .inl ⟨ha, rfl⟩
    · exact .inr ⟨a, rest, rfl, ha, rfl⟩

def TablesFrom (m : Space) (pages : Pages) (m' : Space) : Prop :=
  ∀ v < 2 ^ 39, ∀ o a, Walks m' v o (some a) → Walks m v o (some a) ∨ a ∈ pages

lemma TablesFrom.refl (m : Space) (pages : Pages) : TablesFrom m pages m := fun _ _ _ _ => .inl

lemma FreshPages.prefixed {rest : Pages} (h : FreshPages m (pages ++ rest)) : FreshPages m pages := by
  refine ⟨fun p hp => h.aligned p (List.mem_append_left _ hp), ?_, fun p hp =>
    h.fresh p (List.mem_append_left _ hp)⟩
  have := h.nodup
  rw [List.filter_append] at this
  exact this.of_append_left

lemma FreshPages.after {rest : Pages} (h : FreshPages m (pages ++ rest)) (ht : TablesFrom m pages m') :
    FreshPages m' rest := by
  refine ⟨fun p hp => h.aligned p (List.mem_append_right _ hp), ?_, fun p hp hp0 v hv o hw => ?_⟩
  · have := h.nodup
    rw [List.filter_append] at this
    exact this.of_append_right
  · obtain hw | hmem := ht v hv o p hw
    · exact h.fresh p (List.mem_append_right _ hp) hp0 v hv o hw
    · have := h.nodup
      rw [List.filter_append] at this
      have hz : decide (p ≠ 0) = true := by simpa using hp0
      exact List.disjoint_of_nodup_append this (List.mem_filter.2 ⟨hmem, hz⟩)
        (List.mem_filter.2 ⟨hp, hz⟩)

/-- The walk of `map_vpage` translates nothing anew, and where it gets to the order it
aims at it has come to the table of its address. -/
structure Reaches (m : Space) (v order : ℕ) (pages : Pages) (r : Space × Option (Option ℕ)) : Prop where
  wf : WellFormed r.1
  stat : ∀ v' < 2 ^ 39, statVpage r.1 v' = statVpage m v'
  walks : ∀ b, r.2 = some b → Walks r.1 v order b
  tables : TablesFrom m pages r.1

lemma mapWalk_reaches (hw : WellFormed m) (hv : v < 2 ^ 39) (h : Walks m v (order + left) b)
    (hn : NoLargerLeaf m v order) (hp : FreshPages m pages) :
    Reaches m v order pages (mapWalk v left (order + left) b pages m) := by
  induction left generalizing m b pages with
  | zero =>
    refine ⟨hw, fun _ _ => rfl, fun b' hb' => ?_, fun _ _ _ _ => .inl⟩
    cases hb'
    exact h
  | succ left ih =>
    rw [← add_assoc] at h ⊢
    rw [mapWalk]
    split_ifs with hu
    · obtain ⟨-, hc⟩ | ⟨a, rest, rfl, ha, hc⟩ := createLeaf_cases m pages
      · rw [hc]
        exact ⟨hw, fun _ _ => rfl, fun b' hb' => (by cases hb'), fun _ _ _ _ => .inl⟩
      · obtain ⟨halt, hal⟩ := hp.aligned a (List.mem_cons_self ..)
        have hf := hp.fresh a (List.mem_cons_self ..) ha
        have hnew := Walks.link_new hv h hu halt hal hf
        have hr := ih (hw.link hv h halt hal hf) hnew (hn.link hw hv h hp ha) (hp.link hw hv h ha)
        have hentry : pteAddr ((linked m b (vmToIndex v (order + left + 1)) a).leaf b
            (vmToIndex v (order + left + 1))) = a := by
          rw [linked, leaf_setLeaf, if_pos ⟨rfl, rfl⟩, pteAddr_toPte (by decide) halt hal]
        rw [hc]
        change Reaches m v order (a :: rest) (mapWalk v left (order + left) (some (pteAddr
          ((linked m b (vmToIndex v (order + left + 1)) a).leaf b _))) rest (linked m b _ a))
        rw [hentry]
        refine ⟨hr.wf, fun v' hv' => ?_, hr.walks, fun v' hv' o' a' h' => ?_⟩
        · rw [hr.stat v' hv', statVpage_linked hw hv h hu halt hal hf hv']
        · obtain h' | hmem := hr.tables v' hv' o' a' h'
          · obtain h' | ⟨ha', -⟩ := walks_linked_cases hw hv h halt hal hf hv' h'
            · exact .inl h'
            · obtain rfl := Option.some.inj ha'
              exact .inr (List.mem_cons_self ..)
          · exact .inr (List.mem_cons_of_mem _ hmem)
    · have hs : stops (m.leaf b (vmToIndex v (order + left + 1))) = false := by
        rw [stops, hn _ b (by omega) h, Bool.or_false]
        simpa using hu
      exact ih hw (h.down hs) hn hp

lemma root_sameEntry {root' : Table} (h : ∀ i, SameEntry (m.root i) (root' i)) (b : Option ℕ) (i : ℕ) :
    SameEntry (m.leaf b i) (({ m with root := root' } : Space).leaf b i) := by
  cases b with
  | none => exact h i
  | some a => exact .refl _

lemma WellFormed.setRoot {root' : Table} (hw : WellFormed m) (h : ∀ i, SameEntry (m.root i) (root' i)) :
    WellFormed { m with root := root' } :=
  hw.of_sameWay fun b i => (root_sameEntry h b i).sameWay

lemma statVpage_setRoot {root' : Table} (h : ∀ i, SameEntry (m.root i) (root' i)) (v : ℕ) :
    statVpage { m with root := root' } v = statVpage m v :=
  statVpage_congr_walk fun _ b _ => root_sameEntry h b _

lemma mapVpage_spec (hw : WellFormed m) (hf : flags < 256) (hV : flags &&& VM_V ≠ 0)
    (hp : paddr < 2 ^ 64) (hal : paddr % 4096 = 0) (hv : vaddr < 2 ^ 39) (ho : order ≤ maxOrder)
    (hn : NoLargerLeaf m vaddr order) (hfresh : FreshPages m pages) :
    WellFormed (mapVpage m paddr vaddr flags order pages).1 ∧
      TablesFrom m pages (mapVpage m paddr vaddr flags order pages).1 ∧
      ((mapVpage m paddr vaddr flags order pages).2 = OK ∧
          (∀ v < 2 ^ 39, statVpage (mapVpage m paddr vaddr flags order pages).1 v =
            if pageOf v order = pageOf vaddr order
            then some ⟨paddr, order, flags ||| (VM_A ||| VM_D)⟩ else statVpage m v) ∨
        ((mapVpage m paddr vaddr flags order pages).2 = ERR_INVAL ∨
            (mapVpage m paddr vaddr flags order pages).2 = ERR_OOMEM) ∧
          ∀ v < 2 ^ 39, statVpage (mapVpage m paddr vaddr flags order pages).1 v = statVpage m v) := by
  have hstart : Walks m vaddr (order + (maxOrder - order)) none := by
    rw [Nat.add_sub_cancel' ho]
    exact .top
  have hr := mapWalk_reaches hw hv hstart hn hfresh
  rw [Nat.add_sub_cancel' ho] at hr
  rw [mapVpage]
  cases hwalk : mapWalk vaddr (maxOrder - order) maxOrder none pages m with
  | mk m' branch =>
    rw [hwalk] at hr
    cases branch with
    | none => exact ⟨hr.wf, hr.tables, .inr ⟨.inr rfl, hr.stat⟩⟩
    | some branch =>
      dsimp only
      split_ifs with hu
      · obtain ⟨hlt, hentry⟩ := page_entry hf hV
        obtain ⟨hused, hleaf, hflags⟩ := hentry (pa paddr)
        have hold : stops (m'.leaf branch (vmToIndex vaddr order)) = true := by rw [stops, hu]; rfl
        have hnew : stops (toPte (pa paddr) (vpFlags (flags ||| (VM_A ||| VM_D)))) = true := by
          rw [stops, hleaf, Bool.or_true]
        have hset := hr.wf.of_sameWay (setLeaf_sameWay hold hnew)
        have hgraves := addGraves_sameEntry (m'.setLeaf branch (vmToIndex vaddr order)
          (toPte (pa paddr) (vpFlags (flags ||| (VM_A ||| VM_D))))).root (vmToIndex vaddr maxOrder)
        have haddr : pteAddr (toPte (pa paddr) (vpFlags (flags ||| (VM_A ||| VM_D)))) = paddr := by
          apply pteAddr_toPte _ hp hal
          exact (Nat.and_le_right).trans_lt (by decide)
        have hstat : entryStat (toPte (pa paddr) (vpFlags (flags ||| (VM_A ||| VM_D)))) order =
            some ⟨paddr, order, flags ||| (VM_A ||| VM_D)⟩ := by
          rw [entryStat, hused, haddr, hflags]
          rfl
        refine ⟨hset.setRoot hgraves, fun v hv' o a h' => ?_, .inl ⟨rfl, fun v hv' => ?_⟩⟩
        · apply hr.tables v hv' o a
          rw [← walks_iff_of_sameWay (setLeaf_sameWay hold hnew)]
          exact (walks_iff_of_sameWay fun b i => (root_sameEntry hgraves b i).sameWay).1 h'
        rw [statVpage_setRoot hgraves, hr.wf.statVpage_setLeaf hv hv' (hr.walks _ rfl) hold hnew,
          hr.stat v hv', hstat]
      · exact ⟨hr.wf, hr.tables, .inr ⟨.inl rfl, hr.stat⟩⟩

lemma mapVpage_ok_none (hw : WellFormed m) (hv : vaddr < 2 ^ 39) (ho : order ≤ maxOrder)
    (hn : NoLargerLeaf m vaddr order) (hfresh : FreshPages m pages) {paddr flags : ℕ}
    (hok : (mapVpage m paddr vaddr flags order pages).2 = OK) : statVpage m vaddr = none := by
  have hstart : Walks m vaddr (order + (maxOrder - order)) none := by
    rw [Nat.add_sub_cancel' ho]
    exact .top
  have hr := mapWalk_reaches hw hv hstart hn hfresh
  rw [Nat.add_sub_cancel' ho] at hr
  rw [mapVpage] at hok
  cases hwalk : mapWalk vaddr (maxOrder - order) maxOrder none pages m with
  | mk m' branch =>
    rw [hwalk] at hr hok
    cases branch with
    | none => exact absurd hok (show ERR_OOMEM ≠ OK by decide)
    | some branch =>
      dsimp only at hok
      split_ifs at hok with hu
      · have hstops : stops (m'.leaf branch (vmToIndex vaddr order)) = true := by rw [stops, hu]; rfl
        rw [← hr.stat vaddr hv, (hr.walks _ rfl).statVpage, statFrom_stops hstops, entryStat, hu]
        rfl
      · exact absurd hok (show ERR_INVAL ≠ OK by decide)

lemma Walks.findVmem (h : Walks m v o b) : findVmem m v maxOrder none = findVmem m v o b := by
  induction h with
  | top => rfl
  | @down o b _ hs ih =>
    rw [stops, Bool.or_eq_false_iff] at hs
    rw [ih, Vmem.findVmem, if_neg (by simp [hs.1]), if_neg (by simp [hs.2])]

lemma findVmem_walks {idx : ℕ} (h : Walks m v top b) (hf : findVmem m v top b = some (b', idx, o)) :
    Walks m v o b' ∧ idx = vmToIndex v o ∧ unused (m.leaf b' idx) = false ∧
      isLeaf (m.leaf b' idx) = true := by
  induction top generalizing b with
  | zero =>
    rw [findVmem] at hf
    split_ifs at hf with hu hl
    cases hf
    exact ⟨h, rfl, by simpa using hu, hl⟩
  | succ top ih =>
    rw [findVmem] at hf
    split_ifs at hf with hu hl
    · cases hf
      exact ⟨h, rfl, by simpa using hu, hl⟩
    · exact ih (h.down (by rw [stops, Bool.or_eq_false_iff]; exact ⟨by simpa using hu, by simpa using hl⟩)) hf

lemma unmapVpage_wellFormed (hw : WellFormed m) (vaddr : ℕ) : WellFormed (unmapVpage m vaddr).1 := by
  rw [unmapVpage]
  cases hf : findVmem m vaddr maxOrder none with
  | none => exact hw
  | some y =>
    obtain ⟨b, idx, o⟩ := y
    obtain ⟨hwalk, rfl, -, hleaf⟩ := findVmem_walks .top hf
    have hold : stops (m.leaf b (vmToIndex vaddr o)) = true := by rw [stops, hleaf, Bool.or_true]
    apply (hw.of_sameWay (@setLeaf_sameWay m GRAVESTONE b (vmToIndex vaddr o) hold rfl)).setRoot
    exact removeGraves_sameEntry _ _

lemma unmapVpage_spec (hw : WellFormed m) (hv : vaddr < 2 ^ 39) :
    WellFormed (unmapVpage m vaddr).1 ∧
      ((unmapVpage m vaddr).2 = ERR_NF ∧ statVpage m vaddr = none ∧ (unmapVpage m vaddr).1 = m ∨
        (unmapVpage m vaddr).2 = OK ∧ ∃ x, statVpage m vaddr = some x ∧
          ∀ v < 2 ^ 39, statVpage (unmapVpage m vaddr).1 v =
            if pageOf v x.order = pageOf vaddr x.order then none else statVpage m v) := by
  refine ⟨unmapVpage_wellFormed hw vaddr, ?_⟩
  rw [unmapVpage, statVpage]
  cases hf : findVmem m vaddr maxOrder none with
  | none => exact .inl ⟨rfl, rfl, rfl⟩
  | some y =>
    obtain ⟨b, idx, o⟩ := y
    obtain ⟨hwalk, rfl, -, hleaf⟩ := findVmem_walks .top hf
    have hold : stops (m.leaf b (vmToIndex vaddr o)) = true := by rw [stops, hleaf, Bool.or_true]
    have hgraves := removeGraves_sameEntry (m.setLeaf b (vmToIndex vaddr o) GRAVESTONE).root
      (vmToIndex vaddr maxOrder)
    refine .inr ⟨rfl, _, rfl, fun v hv' => ?_⟩
    dsimp only
    rw [statVpage_setRoot hgraves, hw.statVpage_setLeaf hv hv' hwalk hold rfl]
    rfl

lemma createVmem_stops (kvmem : ℕ) {i : ℕ} (hi : i ≠ KERNEL_PAGE) : stops (createVmem kvmem i) = true := by
  have hdmap : ∀ a, stops (toPte a (VM_V ||| VM_R ||| VM_W ||| VM_X ||| VM_G ||| VM_D ||| VM_A)) = true := by
    intro a
    have hleaf : isLeaf (toPte a (VM_V ||| VM_R ||| VM_W ||| VM_X ||| VM_G ||| VM_D ||| VM_A)) = true := by
      rw [isLeaf_iff, toPte_eq (by decide),
        show VM_V ||| VM_R ||| VM_W ||| VM_X ||| VM_G ||| VM_D ||| VM_A = 239 from rfl]
      omega
    rw [stops, hleaf, Bool.or_true]
  rw [createVmem]
  split_ifs
  · rfl
  · exact hdmap _
  · rfl

/-- The table as a partial map: a page put into it is one change of the map, a page
taken out of it another, and a refused call is none. -/
theorem vpage_partialMap (hw : WellFormed m) (hv : vaddr < 2 ^ 39) :
    (∀ paddr flags order pages, flags < 256 → flags &&& VM_V ≠ 0 → paddr < 2 ^ 64 → paddr % 4096 = 0 →
      order ≤ maxOrder → NoLargerLeaf m vaddr order → FreshPages m pages →
        ((mapVpage m paddr vaddr flags order pages).2 = OK →
          ∀ v < 2 ^ 39, statVpage (mapVpage m paddr vaddr flags order pages).1 v =
            if pageOf v order = pageOf vaddr order
            then some ⟨paddr, order, flags ||| (VM_A ||| VM_D)⟩ else statVpage m v) ∧
        ((mapVpage m paddr vaddr flags order pages).2 ≠ OK →
          ((mapVpage m paddr vaddr flags order pages).2 = ERR_INVAL ∨
            (mapVpage m paddr vaddr flags order pages).2 = ERR_OOMEM) ∧
          ∀ v < 2 ^ 39, statVpage (mapVpage m paddr vaddr flags order pages).1 v = statVpage m v)) ∧
    ((unmapVpage m vaddr).2 = OK ↔ (statVpage m vaddr).isSome) ∧
    ∀ x, statVpage m vaddr = some x → ∀ v < 2 ^ 39, statVpage (unmapVpage m vaddr).1 v =
      if pageOf v x.order = pageOf vaddr x.order then none else statVpage m v := by
  refine ⟨fun paddr flags order pages hf hV hp hal ho hn hfresh => ?_, ?_⟩
  · obtain ⟨-, -, ⟨hok, hstat⟩ | ⟨herr, hstat⟩⟩ := mapVpage_spec hw hf hV hp hal hv ho hn hfresh
    · exact ⟨fun _ => hstat, fun hne => absurd hok hne⟩
    · refine ⟨fun hok => ?_, fun _ => ⟨herr, hstat⟩⟩
      rw [hok] at herr
      exact absurd herr (by decide)
  · obtain ⟨-, ⟨herr, hnone, -⟩ | ⟨hok, x, hx, hstat⟩⟩ := unmapVpage_spec hw hv
    · rw [herr, hnone]
      exact ⟨by decide, fun x hx => by cases hx⟩
    · rw [hok, hx]
      refine ⟨by simp, fun y hy => ?_⟩
      cases hy
      exact hstat

def emptySpace : Space := ⟨fun _ => 0, fun _ _ => 0⟩

lemma emptySpace_walks (h : Walks emptySpace v o b) : b = none := by
  cases h with
  | top => rfl
  | @down o b _ hs =>
    cases b with
    | none => cases hs
    | some a => cases hs

theorem vpage_partialMap_empty :
    (mapVpage emptySpace 0x600000 0x10000 0x17 0 [0x1000, 0x2000]).2 = OK ∧
      statVpage (mapVpage emptySpace 0x600000 0x10000 0x17 0 [0x1000, 0x2000]).1 0x10fff =
        some ⟨0x600000, 0, 0xd7⟩ := by
  have hw : WellFormed emptySpace := by
    refine ⟨fun _ _ h _ => ?_⟩
    cases emptySpace_walks h
  have hn : NoLargerLeaf emptySpace 0x10000 0 := by
    intro o b _ h
    rw [emptySpace_walks h, show emptySpace.leaf none (vmToIndex 0x10000 o) = 0 from rfl]
    decide
  have hp : FreshPages emptySpace [0x1000, 0x2000] := by
    refine ⟨by decide, by decide, fun p _ _ v _ o h => ?_⟩
    cases emptySpace_walks h
  have hok : (mapVpage emptySpace 0x600000 0x10000 0x17 0 [0x1000, 0x2000]).2 = OK := by
    decide +kernel
  refine ⟨hok, ?_⟩
  rw [((vpage_partialMap hw (by norm_num)).1 0x600000 0x17 0 [0x1000, 0x2000] (by decide) (by decide)
    (by norm_num) (by norm_num) (by decide) hn hp).1 hok 0x10fff (by norm_num)]
  decide

end Kmi.Vmem
