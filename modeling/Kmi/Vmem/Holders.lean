import Kmi.Vmem.Machine

/-! The tables that are handed out to a holder make up its space: a call for one holder leaves
the tables of the others alone, and destroying a space frees tables of its holder only. -/

namespace Kmi.Vmem

open Kmi.Mem

variable {Q : ℕ → ℕ → Prop} {R : ℕ → Prop} {m m' : Space} {level : ℕ → Option ℕ}
  {owner owner' : ℕ → Option Holder} {holder : Holder} {low low' : ℕ → Table} {root : Table}
  {a o i v left top order vaddr pte kvmem : ℕ} {b : Option ℕ} {pages rest : Pages}
  {tables : List (ℕ × ℕ)} {freed : List ℕ}

def Holds (owner : ℕ → Option Holder) (holder : Holder) (R : ℕ → Prop) (m : Space) : Prop :=
  ∃ level, (∀ a o, level a = some o → owner a = some holder) ∧ Levelled (fun _ _ => True) R level m

def Spares (holder : Holder) (owner owner' : ℕ → Option Holder) (low low' : ℕ → Table) : Prop :=
  ∀ h ≠ holder, ∀ a, owner a = some h → owner' a = some h ∧ low' a = low a

lemma Holds.frame (h : Holds owner holder R ⟨root, low⟩)
    (hk : ∀ a, owner a = some holder → owner' a = some holder ∧ low' a = low a) :
    Holds owner' holder R ⟨root, low'⟩ := by
  obtain ⟨level, hown, hl⟩ := h
  refine ⟨level, fun a o ha => (hk a (hown a o ha)).1, hl.root, fun a o ha => ?_⟩
  change ∀ i, Entry _ level o (low' a i)
  rw [(hk a (hown a o ha)).2]
  exact hl.low a o ha

lemma Holds.spared {h : Holder} (hh : Holds owner h R ⟨root, low⟩) (hne : h ≠ holder)
    (hs : Spares holder owner owner' low low') : Holds owner' h R ⟨root, low'⟩ :=
  hh.frame (hs h hne)

structure NewPages (owner : ℕ → Option Holder) (pages : Pages) : Prop where
  aligned : ∀ p ∈ pages, p < 2 ^ 64 ∧ p % 4096 = 0
  nodup : (pages.filter (· ≠ 0)).Nodup
  fresh : ∀ p ∈ pages, p ≠ 0 → owner p = none

lemma NewPages.newTables (h : NewPages owner pages) (hl : ∀ a o, level a = some o → owner a = some holder) :
    NewTables level pages := by
  refine ⟨h.aligned, h.nodup, fun p hp hp0 => ?_⟩
  cases hlev : level p with
  | none => rfl
  | some o =>
    have hown := hl p o hlev
    rw [h.fresh p hp hp0] at hown
    cases hown

lemma mapTables_mem (h : a ∈ (mapTables v left top b pages m).map Prod.fst) : a ∈ pages ∧ a ≠ 0 := by
  induction left generalizing top b pages m with
  | zero => cases h
  | succ left ih =>
    rw [mapTables] at h
    split_ifs at h with hu
    · obtain ⟨-, hc⟩ | ⟨c, rest, rfl, hc0, hc⟩ := createLeaf_cases m pages
      · rw [hc] at h
        cases h
      · rw [hc] at h
        obtain rfl | h := List.mem_cons.1 h
        · exact ⟨List.mem_cons_self .., hc0⟩
        · exact ⟨List.mem_cons_of_mem _ (ih h).1, (ih h).2⟩
    · exact ih h

lemma addLevels_cases (h : addLevels level tables a = some o) :
    level a = some o ∨ a ∈ tables.map Prod.fst := by
  induction tables generalizing level with
  | nil => exact .inl h
  | cons x tables ih =>
    obtain ⟨c, o'⟩ := x
    obtain h | h := ih h
    · by_cases hc : a = c
      · exact .inr (hc ▸ List.mem_cons_self ..)
      · rw [Function.update_of_ne hc] at h
        exact .inl h
    · exact .inr (List.mem_cons_of_mem _ h)

lemma addLevels_other (ht : a ∉ tables.map Prod.fst) : addLevels level tables a = level a := by
  induction tables generalizing level with
  | nil => rfl
  | cons x tables ih =>
    obtain ⟨c, o⟩ := x
    rw [List.map_cons, List.mem_cons, not_or] at ht
    rw [addLevels, ih ht.2, Function.update_of_ne ht.1]

lemma addLevels_none (hl : level a = none) (ht : a ∉ tables.map Prod.fst) :
    addLevels level tables a = none :=
  (addLevels_other ht).trans hl

lemma addLevels_mem (ht : a ∈ tables.map Prod.fst) : ∃ o, addLevels level tables a = some o := by
  induction tables generalizing level with
  | nil => cases ht
  | cons x tables ih =>
    obtain ⟨c, o⟩ := x
    by_cases hm : a ∈ tables.map Prod.fst
    · exact ih hm
    · obtain rfl : a = c := (List.mem_cons.1 ht).resolve_right hm
      exact ⟨o, (addLevels_other hm).trans (Function.update_self ..)⟩

lemma Relevelled.holds {tables : List (ℕ × ℕ)}
    (h : Relevelled (fun _ _ => True) R level (addLevels level tables) m m')
    (hl : ∀ a o, level a = some o → owner a = some holder)
    (hnew : ∀ a ∈ tables.map Prod.fst, owner a = none) :
    Holds (handOut owner holder tables) holder R m' ∧
      Spares holder owner (handOut owner holder tables) m.low m'.low := by
  refine ⟨⟨_, fun a o ha => ?_, h.levelled⟩, fun g hg a ha => ?_⟩
  · rw [handOut]
    split_ifs with hm
    · rfl
    · exact hl a o ((addLevels_cases ha).resolve_right hm)
  · have hm : a ∉ tables.map Prod.fst := by
      intro hm
      rw [hnew a hm] at ha
      cases ha
    have hlev : level a = none := by
      cases hlev : level a with
      | none => rfl
      | some o =>
        rw [hl a o hlev] at ha
        exact absurd (Option.some.inj ha).symm hg
    rw [handOut, if_neg hm]
    exact ⟨ha, h.frame a (addLevels_none hlev hm)⟩

lemma Holds.mapVpage {paddr flags : ℕ} (h : Holds owner holder R m) (hv : R (vmToIndex vaddr maxOrder))
    (ho : order ≤ maxOrder) (hp : NewPages owner pages) (hV : flags &&& VM_V ≠ 0)
    (hclear : ∀ x, statVpage m vaddr = some x → x.order ≤ order) :
    Holds (handOut owner holder (mapTables vaddr (maxOrder - order) maxOrder none pages m)) holder R
        (Vmem.mapVpage m paddr vaddr flags order pages).1 ∧
      Spares holder owner (handOut owner holder (mapTables vaddr (maxOrder - order) maxOrder none pages m))
        m.low (Vmem.mapVpage m paddr vaddr flags order pages).1.low := by
  obtain ⟨level, hl, hlev⟩ := h
  have hr := @mapVpage_levelled _ R m level vaddr order pages paddr flags hlev hv ho (hp.newTables hl) hV
    trivial hclear
  exact hr.holds hl fun a ha => hp.fresh a (mapTables_mem ha).1 (mapTables_mem ha).2

lemma Spares.refl (holder : Holder) (owner : ℕ → Option Holder) (low : ℕ → Table) :
    Spares holder owner owner low low := fun _ _ _ ha => ⟨ha, rfl⟩

lemma Relevelled.holds_same (h : Relevelled (fun _ _ => True) R level level m m')
    (hl : ∀ a o, level a = some o → owner a = some holder) :
    Holds owner holder R m' ∧ Spares holder owner owner m.low m'.low := by
  refine ⟨⟨level, hl, h.levelled⟩, fun g hg a ha => ⟨ha, h.frame a ?_⟩⟩
  cases hlev : level a with
  | none => rfl
  | some o =>
    rw [hl a o hlev] at ha
    exact absurd (Option.some.inj ha).symm hg

lemma Holds.unmapVpage (h : Holds owner holder R m) (hv : R (vmToIndex vaddr maxOrder)) :
    Holds owner holder R (Vmem.unmapVpage m vaddr).1 ∧
      Spares holder owner owner m.low (Vmem.unmapVpage m vaddr).1.low := by
  obtain ⟨level, hl, hlev⟩ := h
  exact (unmapVpage_levelled hlev hv).holds_same hl

lemma unmapAll_levelled {vaddrs : List ℕ} (h : Levelled Q R level m)
    (hv : ∀ v ∈ vaddrs, R (vmToIndex v maxOrder)) :
    Relevelled Q R level level m (unmapAll m vaddrs) := by
  induction vaddrs generalizing m with
  | nil => exact .refl h
  | cons v vaddrs ih =>
    have hr := unmapVpage_levelled h (hv v (List.mem_cons_self ..))
    exact hr.trans (ih hr.levelled fun w hw => hv w (List.mem_cons_of_mem _ hw))

lemma isBranch_stops (h : isBranch pte = true) : stops pte = false := by
  rw [isBranch, Bool.and_eq_true, decide_eq_true_eq] at h
  rw [stops, Bool.or_eq_false_iff, isLeaf]
  refine ⟨?_, by simp [h.2]⟩
  rw [← Bool.not_eq_true, unused_iff]
  rintro (rfl | rfl)
  · exact absurd h.1 (by decide)
  · exact absurd h.1 (by decide)

lemma unmapAll_root {vaddrs : List ℕ} (h : stops (m.root i) = false) :
    (unmapAll m vaddrs).root i = m.root i := by
  induction vaddrs generalizing m with
  | nil => rfl
  | cons v vaddrs ih =>
    have hs := h
    rw [stops, Bool.or_eq_false_iff] at hs
    have hv := @unmapVpage_root m i v hs.1 fun _ => hs.2
    exact (ih (by rw [hv]; exact h)).trans hv

lemma Entry.branch (h : Entry Q level o pte) (hb : isBranch pte = true) :
    ∃ o', o = o' + 1 ∧ level (pteAddr pte) = some o' := by
  have hs := isBranch_stops hb
  rw [stops, Bool.or_eq_false_iff] at hs
  obtain h | ⟨h, -⟩ | ⟨a, o', ho, hlev, halt, hal, rfl⟩ := h
  · rw [hs.1] at h
    cases h
  · rw [hs.2] at h
    cases h
  · refine ⟨o', ho, ?_⟩
    rw [pteAddr_toPte (by decide) halt hal]
    exact hlev

lemma mapM_some_mem {α β : Type} {f : α → Option (List β)} {l : List α} {ls : List (List β)} {x : β}
    (h : l.mapM f = some ls) (hx : x ∈ ls.flatten) : ∃ y ∈ l, ∃ z, f y = some z ∧ x ∈ z := by
  induction l generalizing ls with
  | nil =>
    rw [List.mapM_nil] at h
    cases h
    cases hx
  | cons y l ih =>
    rw [List.mapM_cons] at h
    simp only [Option.bind_eq_bind, Option.bind_eq_some_iff, Option.pure_def, Option.some.injEq] at h
    obtain ⟨z, hz, ls', hls, rfl⟩ := h
    rw [List.flatten_cons, List.mem_append] at hx
    obtain hx | hx := hx
    · exact ⟨y, List.mem_cons_self .., z, hz, hx⟩
    · obtain ⟨y', hy', z', hz', hx'⟩ := ih hls hx
      exact ⟨y', List.mem_cons_of_mem _ hy', z', hz', hx'⟩

lemma destroyBranch_mem {fuel : ℕ} (h : Levelled Q R level m) (ha : level a = some o)
    (hd : destroyBranch m.low fuel a = some freed) {c : ℕ} (hc : c ∈ freed) : ∃ o', level c = some o' := by
  induction fuel generalizing a o freed with
  | zero => cases hd
  | succ fuel ih =>
    simp only [destroyBranch, Option.bind_eq_bind, Option.bind_eq_some_iff, Option.some.injEq] at hd
    obtain ⟨below, hbelow, rfl⟩ := hd
    rw [List.mem_append, List.mem_singleton] at hc
    obtain hc | rfl := hc
    · obtain ⟨i, -, z, hz, hcz⟩ := mapM_some_mem hbelow hc
      split_ifs at hz with hb
      · obtain ⟨o', -, hlev⟩ := (h.low a o ha i).branch hb
        exact ih hlev hz hcz
      · cases hz
        cases hcz
    · exact ⟨o, ha⟩

lemma Levelled.destroyEntries {first : ℕ} (h : Levelled Q R level m)
    (hR : ∀ i, first ≤ i → i < KERNEL_PAGE → R i) (hd : Vmem.destroyEntries m first = some freed)
    (hc : a ∈ freed) : ∃ o, level a = some o := by
  simp only [Vmem.destroyEntries, Option.bind_eq_bind, Option.bind_eq_some_iff, Option.some.injEq] at hd
  obtain ⟨below, hbelow, rfl⟩ := hd
  obtain ⟨i, hi, z, hz, hcz⟩ := mapM_some_mem hbelow hc
  rw [List.mem_range'_1] at hi
  split_ifs at hz with hb
  · obtain ⟨o', -, hlev⟩ := (h.root i (hR i hi.1 (by omega))).branch hb
    exact destroyBranch_mem h hlev hz hcz
  · cases hz
    cases hcz

lemma mapM_some {α β : Type} {f : α → Option β} {l : List α} (h : ∀ y ∈ l, ∃ z, f y = some z) :
    ∃ ls, l.mapM f = some ls ∧ ∀ y ∈ l, ∀ z, f y = some z → z ∈ ls := by
  induction l with
  | nil => exact ⟨[], List.mapM_nil, fun y hy => by cases hy⟩
  | cons y l ih =>
    obtain ⟨z, hz⟩ := h y (List.mem_cons_self ..)
    obtain ⟨ls, hls, hmem⟩ := ih fun w hw => h w (List.mem_cons_of_mem _ hw)
    refine ⟨z :: ls, ?_, fun w hw v hv => ?_⟩
    · rw [List.mapM_cons, hz, hls]
      rfl
    · obtain rfl | hw := List.mem_cons.1 hw
      · rw [hz] at hv
        cases hv
        exact List.mem_cons_self ..
      · exact List.mem_cons_of_mem _ (hmem w hw v hv)

lemma destroyBranch_frees {fuel : ℕ} (h : Levelled Q R level m) (ha : level a = some o) (ho : o < fuel) :
    ∃ freed, destroyBranch m.low fuel a = some freed ∧ a ∈ freed := by
  induction fuel generalizing a o with
  | zero => omega
  | succ fuel ih =>
    obtain ⟨below, hbelow, -⟩ := @mapM_some ℕ (List ℕ)
      (fun i => if isBranch (m.low a i) then destroyBranch m.low fuel (pteAddr (m.low a i)) else some [])
      (List.range 512) (fun i _ => by
        split_ifs with hb
        · obtain ⟨o', ho', hlev⟩ := (h.low a o ha i).branch hb
          obtain ⟨freed, hfreed, -⟩ := ih hlev (by omega)
          exact ⟨freed, hfreed⟩
        · exact ⟨[], rfl⟩)
    refine ⟨below.flatten ++ [a], ?_, List.mem_append_right _ (List.mem_singleton_self a)⟩
    rw [destroyBranch, hbelow]
    rfl

lemma Levelled.frees {first : ℕ} (h : Levelled Q R level m)
    (hR : ∀ i, first ≤ i → i < KERNEL_PAGE → R i) : ∃ freed, Vmem.destroyEntries m first = some freed ∧
      ∀ i, first ≤ i → i < KERNEL_PAGE → isBranch (m.root i) = true → pteAddr (m.root i) ∈ freed := by
  have hentry : ∀ i, first ≤ i → i < KERNEL_PAGE → isBranch (m.root i) = true →
      ∃ freed, destroyBranch m.low (maxOrder + 1) (pteAddr (m.root i)) = some freed ∧
        pteAddr (m.root i) ∈ freed := by
    intro i hi hi' hb
    obtain ⟨o, ho, hlev⟩ := (h.root i (hR i hi hi')).branch hb
    exact destroyBranch_frees h hlev (by omega)
  obtain ⟨below, hbelow, hmem⟩ := @mapM_some ℕ (List ℕ)
    (fun i => if isBranch (m.root i) then destroyBranch m.low (maxOrder + 1) (pteAddr (m.root i)) else some [])
    (List.range' first (KERNEL_PAGE - first)) (fun i hi => by
      rw [List.mem_range'_1] at hi
      split_ifs with hb
      · obtain ⟨freed, hfreed, -⟩ := hentry i hi.1 (by omega) hb
        exact ⟨freed, hfreed⟩
      · exact ⟨[], rfl⟩)
  refine ⟨below.flatten, ?_, fun i hi hi' hb => ?_⟩
  · rw [Vmem.destroyEntries, hbelow]
    rfl
  · obtain ⟨freed, hfreed, ha⟩ := hentry i hi hi' hb
    have hin := hmem i (List.mem_range'_1.2 ⟨hi, by omega⟩) freed (by rw [if_pos hb, hfreed])
    exact List.mem_flatten.2 ⟨freed, hin, ha⟩

lemma Holds.destroyEntries {first : ℕ} (h : Holds owner holder R m)
    (hR : ∀ i, first ≤ i → i < KERNEL_PAGE → R i) (hd : Vmem.destroyEntries m first = some freed) :
    ∀ a ∈ freed, owner a = some holder := by
  obtain ⟨level, hl, hlev⟩ := h
  intro a ha
  obtain ⟨o, ho⟩ := hlev.destroyEntries hR hd ha
  exact hl a o ho

lemma giveBack_spares (h : ∀ a ∈ freed, owner a = some holder) (low : ℕ → Table) :
    Spares holder owner (giveBack owner freed) low low := by
  intro g hg a ha
  refine ⟨?_, rfl⟩
  rw [giveBack, if_neg]
  · exact ha
  · intro hm
    rw [h a hm] at ha
    exact hg (Option.some.inj ha).symm

lemma Levelled.stat_page {x : Stat} (h : Levelled Q R level m) (hv : R (vmToIndex v maxOrder))
    (hx : statVpage m v = some x) : ∃ pte, x.addr = pteAddr pte ∧ isLeaf pte = true ∧ Q x.order pte := by
  rw [statVpage_eq, statFrom, Option.map_eq_some_iff] at hx
  obtain ⟨⟨b, idx, o⟩, hf, rfl⟩ := hx
  obtain ⟨hw, rfl, hu, hleaf⟩ := findVmem_walks .top hf
  obtain he | ⟨-, ho⟩ | ⟨a, o', -, -, -, -, he⟩ := h.entry (hw.levelled h hv) hv
  · rw [hu] at he
    cases he
  · exact ⟨_, rfl, hleaf, ho⟩
  · rw [he, (branch_not_unused _).2] at hleaf
    cases hleaf

lemma Levelled.stat_order {x : Stat} (h : Levelled (fun o _ => o = 0) R level m)
    (hv : R (vmToIndex v maxOrder)) (hx : statVpage m v = some x) : x.order = 0 := by
  obtain ⟨_, _, _, ho⟩ := h.stat_page hv hx
  exact ho

lemma NewTables.drop (h : NewTables level (pages ++ rest)) : NewTables level rest := by
  refine ⟨fun p hp => h.aligned p (List.mem_append_right _ hp), ?_, fun p hp =>
    h.fresh p (List.mem_append_right _ hp)⟩
  have hnd := h.nodup
  rw [List.filter_append] at hnd
  exact hnd.of_append_right

lemma NewTables.after (h : NewTables level (pages ++ rest)) :
    NewTables (addLevels level (mapTables v left top b pages m)) rest := by
  refine ⟨h.drop.aligned, h.drop.nodup, fun p hp hp0 => ?_⟩
  refine addLevels_none (h.drop.fresh p hp hp0) fun hm => ?_
  have hnd := h.nodup
  rw [List.filter_append] at hnd
  have hz : decide (p ≠ 0) = true := by simpa using hp0
  exact List.disjoint_of_nodup_append hnd (List.mem_filter.2 ⟨(mapTables_mem hm).1, hz⟩)
    (List.mem_filter.2 ⟨hp, hz⟩)

lemma NewTables.prefixed (h : NewTables level (pages ++ rest)) : NewTables level pages := by
  refine ⟨fun p hp => h.aligned p (List.mem_append_left _ hp), ?_, fun p hp =>
    h.fresh p (List.mem_append_left _ hp)⟩
  have hnd := h.nodup
  rw [List.filter_append] at hnd
  exact hnd.of_append_left

structure Image.UserOnly (image : Image) : Prop where
  sections : ∀ x ∈ image.sections, x.vaddr < UVMEM_END ∧ x.flags &&& VM_V ≠ 0
  mapped : ∀ v ∈ image.mapped, v < UVMEM_END

lemma user_top (hv : v < UVMEM_END) : vmToIndex v maxOrder < KSTART_PAGE :=
  (vmToIndex_lt hv).trans (by decide)

lemma mapSections_levelled {xs : List Mapping}
    (h : Levelled (fun _ _ => True) (· < KERNEL_PAGE) level m)
    (hsmall : Levelled (fun o _ => o = 0) (· < KSTART_PAGE) level m)
    (hx : ∀ x ∈ xs, x.vaddr < UVMEM_END ∧ x.flags &&& VM_V ≠ 0)
    (hp : NewTables level (xs.flatMap Mapping.pages)) :
    Relevelled (fun _ _ => True) (· < KERNEL_PAGE) level (addLevels level (sectionTables m xs)) m
      (mapSections m xs).1 := by
  induction xs generalizing m level with
  | nil => exact .refl h
  | cons x xs ih =>
    obtain ⟨hv, hV⟩ := hx x (List.mem_cons_self ..)
    rw [List.flatMap_cons] at hp
    have hclear : ∀ y, statVpage m x.vaddr = some y → y.order ≤ 0 :=
      fun y hy => (hsmall.stat_order (user_top hv) hy).le
    have hr := @mapVpage_levelled _ _ m level x.vaddr 0 x.pages x.paddr x.flags h
      ((user_top hv).trans (by decide)) (Nat.zero_le _) hp.prefixed hV trivial hclear
    have hrsmall := @mapVpage_levelled _ _ m level x.vaddr 0 x.pages x.paddr x.flags hsmall
      (user_top hv) (Nat.zero_le _) hp.prefixed hV rfl hclear
    have hrest := @NewTables.after m level x.vaddr maxOrder maxOrder none x.pages
      (xs.flatMap Mapping.pages) hp
    rw [mapSections, sectionTables, addLevels_append]
    generalize mapVpage m x.paddr x.vaddr x.flags 0 x.pages = r at hr hrsmall
    obtain ⟨m₁, res⟩ := r
    dsimp only
    split_ifs with hok
    · exact hr.trans (ih hr.levelled hrsmall.levelled
        (fun y hy => hx y (List.mem_cons_of_mem _ hy)) hrest)
    · exact hr

lemma sectionTables_mem {xs : List Mapping} (h : a ∈ (sectionTables m xs).map Prod.fst) :
    a ∈ xs.flatMap Mapping.pages ∧ a ≠ 0 := by
  induction xs generalizing m with
  | nil => cases h
  | cons x xs ih =>
    rw [sectionTables, List.map_append, List.mem_append] at h
    rw [List.flatMap_cons, List.mem_append]
    obtain h | h := h
    · exact ⟨.inl (mapTables_mem h).1, (mapTables_mem h).2⟩
    · generalize mapVpage m x.paddr x.vaddr x.flags 0 x.pages = r at h
      obtain ⟨m₁, res⟩ := r
      dsimp only at h
      split_ifs at h with hok
      · exact ⟨.inr (ih h).1, (ih h).2⟩
      · cases h

lemma Relevelled.setTable {table : Table} (h : Levelled Q R level m)
    (ha : HasLevel level o (some a))
    (ht : ∀ i, table i = m.low a i ∨ isLeaf (table i) = true ∧ Q o (table i)) :
    Relevelled Q R level level m { m with low := Function.update m.low a table } := by
  refine ⟨⟨h.root, fun c o' hc i => ?_⟩, fun _ _ h => h, fun c hc => ?_⟩
  · change Entry _ level o' (Function.update m.low a table c i)
    by_cases hca : c = a
    · rw [hca, Function.update_self]
      obtain ht | ht := ht i
      · rw [ht, ← hca]
        exact h.low c o' hc i
      · obtain rfl : o' = o := Option.some.inj (hc.symm.trans (hca ▸ ha))
        exact .inr (.inl ht)
    · rw [Function.update_of_ne hca]
      exact h.low c o' hc i
  · apply Function.update_of_ne
    rintro rfl
    rw [HasLevel, hc] at ha
    cases ha

lemma stackPage_isLeaf (p : ℕ) : isLeaf (toPte p (vpFlags rpcStackFlags)) = true := by
  rw [isLeaf_iff, show vpFlags rpcStackFlags = 199 from rfl, toPte_eq (by decide)]
  omega

lemma setupRpcStack_holds {page tid : ℕ} (hp : NewPages owner pages)
    (h : setupRpcStack ⟨createVmem kvmem, low⟩ page pages = some m) :
    Holds (handOut owner (.stack tid) (mapTables RPC_STACK_BASE maxOrder maxOrder none pages
        ⟨createVmem kvmem, low⟩)) (.stack tid) (· < KERNEL_PAGE) m ∧
      Spares (.stack tid) owner (handOut owner (.stack tid) (mapTables RPC_STACK_BASE maxOrder maxOrder
        none pages ⟨createVmem kvmem, low⟩)) low m.low := by
  have hidx : vmToIndex RPC_STACK_BASE maxOrder < KERNEL_PAGE := by decide
  have hnone : ∀ x, statVpage ⟨createVmem kvmem, low⟩ RPC_STACK_BASE = some x → x.order ≤ 0 := by
    intro x hx
    have hu := statVpage_used hx
    cases hu
  have hr := @mapVpage_levelled _ _ ⟨createVmem kvmem, low⟩ (fun _ => none) RPC_STACK_BASE 0 pages page
    rpcStackFlags (createVmem_levelled kvmem low) hidx (Nat.zero_le _)
    (@NewPages.newTables _ owner (.stack tid) pages hp fun _ _ h => by cases h) (by decide) trivial hnone
  rw [setupRpcStack] at h
  generalize mapVpage ⟨createVmem kvmem, low⟩ page RPC_STACK_BASE rpcStackFlags 0 pages = r at h hr
  obtain ⟨m₁, res⟩ := r
  dsimp only at h hr
  split_ifs at h
  split at h
  · rename_i a idx o hf
    cases h
    have hw := (findVmem_walks .top hf).1
    have hset := @Relevelled.setTable _ _ m₁ _ a o (fun i =>
      if i < 512 then toPte (pa (page + i * basePageSize)) (vpFlags rpcStackFlags) else m₁.low a i)
      hr.levelled (hw.levelled hr.levelled hidx) (by
        intro i
        split_ifs
        · exact .inr ⟨stackPage_isLeaf _, trivial⟩
        · exact .inl rfl)
    exact (hr.trans hset).holds (fun _ _ h => by cases h) fun a ha =>
      hp.fresh a (mapTables_mem ha).1 (mapTables_mem ha).2
  · cases h

end Kmi.Vmem
