import Kmi.Vmem.Destroy

/-! A space whose tables form a tree: destroying it frees every table below the entries
that it goes through, and each of them once. -/

namespace Kmi.Vmem

open Kmi.Mem

variable {Q : ℕ → ℕ → Prop} {R : ℕ → Prop} {m : Space} {level : ℕ → Option ℕ} {low : ℕ → Table}
  {a a' c o i first pte fuel : ℕ} {b : Option ℕ} {freed freed' : List ℕ}

def Single (R : ℕ → Prop) (level : ℕ → Option ℕ) (m : Space) : Prop :=
  ∀ o b i b' i', HasLevel level (o + 1) b → HasLevel level (o + 1) b' → (b = none → R i) →
    (b' = none → R i') → isBranch (m.leaf b i) = true → isBranch (m.leaf b' i') = true →
    pteAddr (m.leaf b i) = pteAddr (m.leaf b' i') → b = b' ∧ i = i'

lemma Levelled.branch (h : Levelled Q R level m) (hb : HasLevel level o b) (hR : b = none → R i)
    (hbranch : isBranch (m.leaf b i) = true) :
    ∃ o', o = o' + 1 ∧ level (pteAddr (m.leaf b i)) = some o' := by
  cases b with
  | none =>
    obtain rfl : o = maxOrder := hb
    exact (h.root i (hR rfl)).branch hbranch
  | some c => exact (h.low c o hb i).branch hbranch

lemma Single.link (hs : Single R level m) (h : Levelled Q R level m) (hb : HasLevel level (o + 1) b)
    (ha : level a = none) (halt : a < 2 ^ 64) (hal : a % 4096 = 0) :
    Single R (Function.update level a (some o)) (linked m b i a) := by
  have hcases : ∀ o' c j, HasLevel (Function.update level a (some o)) (o' + 1) c → (c = none → R j) →
      isBranch ((linked m b i a).leaf c j) = true → (c = b ∧ j = i) ∨
        (linked m b i a).leaf c j = m.leaf c j ∧ HasLevel level (o' + 1) c ∧
          isBranch (m.leaf c j) = true ∧ pteAddr (m.leaf c j) ≠ a := by
    intro o' c j hc hR hbranch
    have hca : c ≠ some a := by
      rintro rfl
      rw [linked_leaf_new (hb.ne ha)] at hbranch
      cases hbranch
    have hold : HasLevel level (o' + 1) c := by
      cases c with
      | none => exact hc
      | some d =>
        have hda : d ≠ a := fun he => hca (congrArg some he)
        exact (Function.update_of_ne hda _ _).symm.trans hc
    rw [linked_leaf (hb.ne ha) hca] at hbranch ⊢
    split_ifs at hbranch ⊢ with he
    · exact .inl he
    · refine .inr ⟨rfl, hold, hbranch, fun haddr => ?_⟩
      obtain ⟨o'', -, hlev⟩ := h.branch hold hR hbranch
      rw [haddr, ha] at hlev
      cases hlev
  intro o' c j c' j' hc hc' hR hR' hbranch hbranch' haddr
  obtain ⟨rfl, rfl⟩ | ⟨he, hold, hbr, hne⟩ := hcases o' c j hc hR hbranch
  · rw [linked_entry halt hal] at haddr
    obtain ⟨rfl, rfl⟩ | ⟨he', -, -, hne'⟩ := hcases o' c' j' hc' hR' hbranch'
    · exact ⟨rfl, rfl⟩
    · rw [he'] at haddr
      exact (hne' haddr.symm).elim
  · rw [he] at haddr
    obtain ⟨rfl, rfl⟩ | ⟨he', hold', hbr', -⟩ := hcases o' c' j' hc' hR' hbranch'
    · rw [linked_entry halt hal] at haddr
      exact (hne haddr).elim
    · rw [he'] at haddr
      exact hs o' c j c' j' hold hold' hR hR' hbr hbr' haddr

lemma Single.setLeaf (hs : Single R level m) (hpte : isBranch pte = false) :
    Single R level (m.setLeaf b i pte) := by
  have hsame : ∀ c j, isBranch ((m.setLeaf b i pte).leaf c j) = true →
      (m.setLeaf b i pte).leaf c j = m.leaf c j := by
    intro c j hbranch
    rw [leaf_setLeaf] at hbranch ⊢
    split_ifs at hbranch ⊢
    · rw [hpte] at hbranch
      cases hbranch
    · rfl
  intro o c j c' j' hc hc' hR hR' hbranch hbranch' haddr
  have he := hsame c j hbranch
  have he' := hsame c' j' hbranch'
  rw [he] at hbranch haddr
  rw [he'] at hbranch' haddr
  exact hs o c j c' j' hc hc' hR hR' hbranch hbranch' haddr

lemma Single.setRoot {root' : Table} (hs : Single R level m)
    (he : ∀ i, SameEntry (m.root i) (root' i)) : Single R level { m with root := root' } := by
  have hsame : ∀ c j, isBranch (({ m with root := root' } : Space).leaf c j) = true →
      ({ m with root := root' } : Space).leaf c j = m.leaf c j := by
    intro c j hbranch
    have hse := root_sameEntry he c j
    have hstops := isBranch_stops hbranch
    rw [← hse.stops] at hstops
    exact (hse.eq_of_not_stops hstops).symm
  intro o c j c' j' hc hc' hR hR' hbranch hbranch' haddr
  have hl := hsame c j hbranch
  have hl' := hsame c' j' hbranch'
  rw [hl] at hbranch haddr
  rw [hl'] at hbranch' haddr
  exact hs o c j c' j' hc hc' hR hR' hbranch hbranch' haddr

lemma single_stable (Q : ℕ → ℕ → Prop) (R : ℕ → Prop) : Stable Q R (Single R) := by
  refine ⟨?_, ?_, ?_⟩
  · intro level m b i o a hs h hb _ _ _ ha halt hal
    exact hs.link h hb ha halt hal
  · intro level m b i pte hs _ hpte
    exact hs.setLeaf hpte
  · intro level m root' hs he
    exact hs.setRoot he

lemma createVmem_single (kvmem : ℕ) (low : ℕ → Table) :
    Single (· < KERNEL_PAGE) (fun _ => none) ⟨createVmem kvmem, low⟩ := by
  intro o b i b' i' hb hb' hR hR' hbranch
  cases b with
  | some c => cases hb
  | none =>
    have hs := isBranch_stops hbranch
    rw [Space.leaf, createVmem_stops kvmem (hR rfl).ne] at hs
    cases hs

def Roots (first i : ℕ) : Prop := first ≤ i ∧ i < KERNEL_PAGE

structure Tree (first : ℕ) (level : ℕ → Option ℕ) (m : Space) : Prop where
  levelled : Levelled (fun _ _ => True) (Roots first) level m
  hung : Hung (Roots first) level m
  single : Single (Roots first) level m

inductive Below (m : Space) (first : ℕ) : ℕ → Prop
  | top {i : ℕ} : Roots first i → isBranch (m.root i) = true → Below m first (pteAddr (m.root i))
  | next {c i : ℕ} : Below m first c → i < 512 → isBranch (m.low c i) = true →
      Below m first (pteAddr (m.low c i))

lemma Tree.level_of_below (h : Tree first level m) (hb : Below m first a) : ∃ o, level a = some o := by
  induction hb with
  | top hi hbranch =>
    obtain ⟨o, -, hlev⟩ := (h.levelled.root _ hi).branch hbranch
    exact ⟨o, hlev⟩
  | next _ _ hbranch ih =>
    obtain ⟨o, ho⟩ := ih
    obtain ⟨o', -, hlev⟩ := (h.levelled.low _ o ho _).branch hbranch
    exact ⟨o', hlev⟩

lemma Tree.below_of_level (h : Tree first level m) (ha : level a = some o) : Below m first a := by
  have hall : ∀ n a o, o + n = maxOrder → level a = some o → Below m first a := by
    intro n
    induction n with
    | zero =>
      intro a o ho ha
      have := (h.hung a o ha).1
      omega
    | succ n ih =>
      intro a o ho ha
      obtain ⟨-, b, i, hb, hR, hi, hbranch, haddr⟩ := h.hung a o ha
      rw [← haddr]
      cases b with
      | none => exact .top (hR rfl) hbranch
      | some c => exact .next (ih c (o + 1) (by omega) hb) hi hbranch
  have hlt := (h.hung a o ha).1
  exact hall (maxOrder - o) a o (by omega) ha

lemma Tree.below_iff (h : Tree first level m) : Below m first a ↔ ∃ o, level a = some o := by
  constructor
  · exact h.level_of_below
  · rintro ⟨o, ho⟩
    exact h.below_of_level ho

lemma Below.destroyBranch (ha : Below m first a) (hd : Vmem.destroyBranch m.low fuel a = some freed)
    (hc : c ∈ freed) : Below m first c := by
  induction fuel generalizing a freed with
  | zero => cases hd
  | succ fuel ih =>
    simp only [Vmem.destroyBranch, Option.bind_eq_bind, Option.bind_eq_some_iff, Option.some.injEq] at hd
    obtain ⟨below, hbelow, rfl⟩ := hd
    rw [List.mem_append, List.mem_singleton] at hc
    obtain hc | rfl := hc
    · obtain ⟨i, hi, z, hz, hcz⟩ := mapM_some_mem hbelow hc
      split_ifs at hz with hb
      · exact ih (ha.next (List.mem_range.1 hi) hb) hz hcz
      · cases hz
        cases hcz
    · exact ha

lemma mem_destroyEntries (hd : destroyEntries m first = some freed) : a ∈ freed ↔ Below m first a := by
  have hd' := hd
  simp only [destroyEntries, Option.bind_eq_bind, Option.bind_eq_some_iff, Option.some.injEq] at hd'
  obtain ⟨below, hbelow, rfl⟩ := hd'
  constructor
  · intro ha
    obtain ⟨i, hi, z, hz, haz⟩ := mapM_some_mem hbelow ha
    rw [List.mem_range'_1] at hi
    split_ifs at hz with hb
    · exact (Below.top ⟨hi.1, by omega⟩ hb).destroyBranch hz haz
    · cases hz
      cases haz
  · intro ha
    induction ha with
    | @top i hi hb =>
      obtain ⟨hlo, hhi⟩ := hi
      obtain ⟨z, hz, hdz⟩ := mapM_mem hbelow (List.mem_range'_1.2 ⟨hlo, by omega⟩)
      rw [if_pos hb] at hdz
      exact List.mem_flatten.2 ⟨z, hz, destroyBranch_self hdz⟩
    | next _ hi hb ih => exact destroyEntries_below hd ih hi hb

lemma mapM_nodup {α β : Type} {f : α → Option (List β)} {l : List α} {ls : List (List β)}
    (h : l.mapM f = some ls) (hl : l.Nodup) (hone : ∀ y ∈ l, ∀ z, f y = some z → z.Nodup)
    (hapart : ∀ y ∈ l, ∀ y' ∈ l, ∀ z z' x, f y = some z → f y' = some z' → x ∈ z → x ∈ z' → y = y') :
    ls.flatten.Nodup := by
  induction l generalizing ls with
  | nil =>
    rw [List.mapM_nil] at h
    cases h
    exact List.nodup_nil
  | cons y l ih =>
    rw [List.mapM_cons] at h
    simp only [Option.bind_eq_bind, Option.bind_eq_some_iff, Option.pure_def, Option.some.injEq] at h
    obtain ⟨z, hz, ls', hls, rfl⟩ := h
    obtain ⟨hy, hl⟩ := List.nodup_cons.1 hl
    rw [List.flatten_cons]
    apply List.Nodup.append (hone y (List.mem_cons_self ..) z hz)
    · apply ih hls hl
      · intro y' hy'
        exact hone y' (List.mem_cons_of_mem _ hy')
      · intro y₁ h₁ y₂ h₂
        exact hapart y₁ (List.mem_cons_of_mem _ h₁) y₂ (List.mem_cons_of_mem _ h₂)
    · intro x hx hx'
      obtain ⟨y', hy', z', hz', hxz'⟩ := mapM_some_mem hls hx'
      have := hapart y (List.mem_cons_self ..) y' (List.mem_cons_of_mem _ hy') z z' x hz hz' hx hxz'
      exact hy (this ▸ hy')

lemma destroyBranch_entry (h : Levelled Q R level m) (ha : level a = some o)
    (hd : destroyBranch m.low fuel a = some freed) (hc : c ∈ freed) : c = a ∨ ∃ d ∈ freed, ∃ i o', o' < o ∧
      level d = some (o' + 1) ∧ level c = some o' ∧ isBranch (m.low d i) = true ∧ pteAddr (m.low d i) = c := by
  induction fuel generalizing a o freed with
  | zero => cases hd
  | succ fuel ih =>
    simp only [destroyBranch, Option.bind_eq_bind, Option.bind_eq_some_iff, Option.some.injEq] at hd
    obtain ⟨below, hbelow, rfl⟩ := hd
    rw [List.mem_append, List.mem_singleton] at hc
    obtain hc | rfl := hc
    · right
      obtain ⟨i, hi, z, hz, hcz⟩ := mapM_some_mem hbelow hc
      obtain ⟨w, hw, hzw⟩ := mapM_mem hbelow hi
      rw [hz] at hzw
      cases hzw
      split_ifs at hz with hb
      · obtain ⟨o₁, rfl, hlev⟩ := (h.low a o ha i).branch hb
        obtain hca | ⟨d, hdz, j, o', ho', hrest⟩ := ih hlev hz hcz
        · exact ⟨a, by simp, i, o₁, Nat.lt_succ_self _, ha, hca ▸ hlev, hb, hca.symm⟩
        · exact ⟨d, List.mem_append_left _ (List.mem_flatten.2 ⟨z, hw, hdz⟩), j, o', by omega, hrest⟩
      · cases hz
        cases hcz
    · exact .inl rfl

lemma destroyBranch_level (h : Levelled Q R level m) (ha : level a = some o)
    (hd : destroyBranch m.low fuel a = some freed) (hc : c ∈ freed) : ∃ o' ≤ o, level c = some o' := by
  obtain rfl | ⟨_, _, _, o', ho', _, hlev, _⟩ := destroyBranch_entry h ha hd hc
  · exact ⟨o, le_rfl, ha⟩
  · exact ⟨o', ho'.le, hlev⟩

lemma destroyBranch_apart {fuel' : ℕ} (h : Levelled Q R level m) (hs : Single R level m)
    (ha : level a = some o) (ha' : level a' = some o) (hd : destroyBranch m.low fuel a = some freed)
    (hd' : destroyBranch m.low fuel' a' = some freed') (hc : c ∈ freed) (hc' : c ∈ freed') : a = a' := by
  have hall : ∀ n c oc, level c = some oc → oc + n = o → c ∈ freed → c ∈ freed' → a = a' := by
    intro n
    induction n with
    | zero =>
      intro c oc hlev ho hc hc'
      have hself : ∀ {b fuel l}, level b = some o → destroyBranch m.low fuel b = some l → c ∈ l → c = b := by
        intro b fuel l hb hl hm
        obtain rfl | ⟨_, _, _, o', ho', _, hlev', _⟩ := destroyBranch_entry h hb hl hm
        · rfl
        · rw [hlev] at hlev'
          cases hlev'
          omega
      exact (hself ha hd hc).symm.trans (hself ha' hd' hc')
    | succ n ih =>
      intro c oc hlev ho hc hc'
      have hup : ∀ {b fuel l}, level b = some o → destroyBranch m.low fuel b = some l → c ∈ l →
          ∃ d ∈ l, ∃ i, level d = some (oc + 1) ∧ isBranch (m.low d i) = true ∧ pteAddr (m.low d i) = c := by
        intro b fuel l hb hl hm
        obtain rfl | ⟨d, hdl, i, o', -, hd, hlev', hbr, haddr⟩ := destroyBranch_entry h hb hl hm
        · rw [hlev] at hb
          cases hb
          omega
        · rw [hlev] at hlev'
          cases hlev'
          exact ⟨d, hdl, i, hd, hbr, haddr⟩
      obtain ⟨d, hdl, i, hd₁, hbr, haddr⟩ := hup ha hd hc
      obtain ⟨d', hdl', i', hd₁', hbr', haddr'⟩ := hup ha' hd' hc'
      obtain ⟨he, -⟩ := hs oc (some d) i (some d') i' hd₁ hd₁' (fun hn => by cases hn)
        (fun hn => by cases hn) hbr hbr' (haddr.trans haddr'.symm)
      cases he
      exact ih d (oc + 1) hd₁ (by omega) hdl hdl'
  obtain ⟨oc, hle, hlev⟩ := destroyBranch_level h ha hd hc
  exact hall (o - oc) c oc hlev (by omega) hc hc'

lemma destroyBranch_nodup (h : Levelled Q R level m) (hs : Single R level m) (ha : level a = some o)
    (hd : destroyBranch m.low fuel a = some freed) : freed.Nodup := by
  induction fuel generalizing a o freed with
  | zero => cases hd
  | succ fuel ih =>
    simp only [destroyBranch, Option.bind_eq_bind, Option.bind_eq_some_iff, Option.some.injEq] at hd
    obtain ⟨below, hbelow, rfl⟩ := hd
    rw [List.nodup_append_comm, List.singleton_append, List.nodup_cons]
    constructor
    · intro hmem
      obtain ⟨i, -, z, hz, haz⟩ := mapM_some_mem hbelow hmem
      split_ifs at hz with hb
      · obtain ⟨o₁, rfl, hlev⟩ := (h.low a o ha i).branch hb
        obtain ⟨o', ho', hlev'⟩ := destroyBranch_level h hlev hz haz
        rw [ha] at hlev'
        cases hlev'
        omega
      · cases hz
        cases haz
    · apply mapM_nodup hbelow List.nodup_range
      · intro i _ z hz
        split_ifs at hz with hb
        · obtain ⟨o₁, -, hlev⟩ := (h.low a o ha i).branch hb
          exact ih hlev hz
        · cases hz
          exact List.nodup_nil
      · intro i _ i' _ z z' x hz hz' hx hx'
        split_ifs at hz with hb
        · split_ifs at hz' with hb'
          · obtain ⟨o₁, ho₁, hlev⟩ := (h.low a o ha i).branch hb
            obtain ⟨o₁', ho₁', hlev'⟩ := (h.low a o ha i').branch hb'
            obtain rfl : o₁ = o₁' := by omega
            have haddr := destroyBranch_apart h hs hlev hlev' hz hz' hx hx'
            rw [ho₁] at ha
            exact (hs o₁ (some a) i (some a) i' ha ha (fun hn => by cases hn) (fun hn => by cases hn)
              hb hb' haddr).2
          · cases hz'
            cases hx'
        · cases hz
          cases hx

lemma Tree.destroyEntries_nodup (h : Tree first level m) (hd : destroyEntries m first = some freed) :
    freed.Nodup := by
  simp only [destroyEntries, Option.bind_eq_bind, Option.bind_eq_some_iff, Option.some.injEq] at hd
  obtain ⟨below, hbelow, rfl⟩ := hd
  have hroots : ∀ i ∈ List.range' first (KERNEL_PAGE - first), Roots first i := by
    intro i hi
    rw [List.mem_range'_1] at hi
    exact ⟨hi.1, by omega⟩
  apply mapM_nodup hbelow List.nodup_range'
  · intro i hi z hz
    split_ifs at hz with hb
    · obtain ⟨o, -, hlev⟩ := (h.levelled.root i (hroots i hi)).branch hb
      exact destroyBranch_nodup h.levelled h.single hlev hz
    · cases hz
      exact List.nodup_nil
  · intro i hi i' hi' z z' x hz hz' hx hx'
    split_ifs at hz with hb
    · split_ifs at hz' with hb'
      · obtain ⟨o, ho, hlev⟩ := (h.levelled.root i (hroots i hi)).branch hb
        obtain ⟨o', ho', hlev'⟩ := (h.levelled.root i' (hroots i' hi')).branch hb'
        obtain rfl : o = o' := by omega
        have haddr := destroyBranch_apart h.levelled h.single hlev hlev' hz hz' hx hx'
        exact (h.single o none i none i' ho.symm ho.symm (fun _ => hroots i hi) (fun _ => hroots i' hi')
          hb hb' haddr).2
      · cases hz'
        cases hx'
    · cases hz
      cases hx

theorem Tree.destroyEntries (h : Tree first level m) : ∃ freed, Vmem.destroyEntries m first = some freed ∧
    freed.Nodup ∧ ∀ a, a ∈ freed ↔ Below m first a := by
  obtain ⟨freed, hfreed, -⟩ := @Levelled.frees _ _ m level first h.levelled fun i hi hi' => ⟨hi, hi'⟩
  exact ⟨freed, hfreed, h.destroyEntries_nodup hfreed, fun a => mem_destroyEntries hfreed⟩

end Kmi.Vmem
