import Kmi.Uvmem.FixedMaps

/-! Mapping adds to the tables: it writes to no entry that is in use, whatever lies on the
way of the address. -/

namespace Kmi.Uvmem

open Kmi.Mem Kmi.Vmem

variable {m m₁ m' : Space} {v y o fuel start bytes flags : ℕ} {x : Stat} {b : Option ℕ}
  {pages pages' : Pages} {answers : List Pages}

def Grows (m : Space) (pages : Pages) (m' : Space) : Prop :=
  ∀ b i, (∀ a ∈ pages, a ≠ 0 → b ≠ some a) → unused (m.leaf b i) = false →
    m'.leaf b i = m.leaf b i

lemma Grows.refl (m : Space) (pages : Pages) : Grows m pages m := fun _ _ _ _ => rfl

lemma Grows.trans (h : Grows m pages m₁) (h' : Grows m₁ pages' m') :
    Grows m (pages ++ pages') m' := by
  intro b i hb hu
  have heq := h b i (fun a ha => hb a (List.mem_append_left _ ha)) hu
  rw [h' b i (fun a ha => hb a (List.mem_append_right _ ha)) (by rw [heq, hu]), heq]

lemma Grows.mono (h : Grows m pages m') (hs : ∀ a ∈ pages, a ∈ pages') : Grows m pages' m' :=
  fun b i hb => h b i fun a ha => hb a (hs a ha)

lemma setLeaf_grows {i pte : ℕ} (hu : unused (m.leaf b i) = true) : Grows m [] (m.setLeaf b i pte) := by
  intro b' j _ hu'
  rw [leaf_setLeaf, if_neg]
  rintro ⟨rfl, rfl⟩
  rw [hu] at hu'
  cases hu'

lemma linked_grows {i a : ℕ} (hu : unused (m.leaf b i) = true) (ha : a ≠ 0) :
    Grows m [a] (linked m b i a) := by
  intro b' j hb hu'
  rw [linked, leaf_setLeaf, if_neg]
  · cases b' with
    | none => rfl
    | some c =>
      have hne : c ≠ a := fun h => hb a (List.mem_singleton_self a) ha (congrArg some h)
      simp [Space.leaf, Function.update_of_ne hne]
  · rintro ⟨rfl, rfl⟩
    rw [hu] at hu'
    cases hu'

lemma mapWalk_grows (v left top : ℕ) (b : Option ℕ) (pages : Pages) (m : Space) :
    Grows m pages (mapWalk v left top b pages m).1 := by
  induction left generalizing top b pages m with
  | zero => exact .refl m pages
  | succ left ih =>
    rw [mapWalk]
    split_ifs with hu
    · obtain ⟨-, hc⟩ | ⟨a, rest, rfl, ha, hc⟩ := createLeaf_cases m pages
      · rw [hc]
        exact .refl m pages
      · rw [hc]
        exact (linked_grows hu ha).trans (ih (top - 1) (some (pteAddr
          ((linked m b (vmToIndex v top) a).leaf b (vmToIndex v top)))) rest
            (linked m b (vmToIndex v top) a))
    · exact ih _ _ _ _

lemma addGraves_grows (idx : ℕ) : Grows m [] { m with root := addGraves m.root idx } := by
  intro b i _ hu
  cases b with
  | none =>
    obtain h | ⟨h, -⟩ := addGraves_sameEntry m.root idx i
    · exact h.symm
    · rw [Space.leaf, h] at hu
      cases hu
  | some a => rfl

lemma mapVpage_grows (m : Space) (paddr v flags order : ℕ) (pages : Pages) :
    Grows m pages (mapVpage m paddr v flags order pages).1 := by
  have hwalk := mapWalk_grows v (maxOrder - order) maxOrder none pages m
  rw [mapVpage]
  generalize mapWalk v (maxOrder - order) maxOrder none pages m = r at hwalk
  obtain ⟨m₁, branch⟩ := r
  cases branch with
  | none => exact hwalk
  | some branch =>
    dsimp only at hwalk ⊢
    split_ifs with hu
    · have hset := hwalk.trans (@setLeaf_grows m₁ branch (vmToIndex v order)
        (toPte (pa paddr) (vpFlags (flags ||| (VM_A ||| VM_D)))) hu)
      have hgraves := hset.trans (addGraves_grows (vmToIndex v maxOrder))
      rwa [List.append_nil, List.append_nil] at hgraves
    · exact hwalk

lemma mapFixedPages_grows {ret : ℤ}
    (h : mapFixedPages flags fuel v start bytes answers m = some (m', ret)) :
    Grows m answers.flatten m' := by
  induction fuel generalizing m v start bytes answers with
  | zero => cases h
  | succ fuel ih =>
    rw [mapFixedPages] at h
    split_ifs at h with hz
    · cases h
      exact .refl _ _
    · have hfirst := mapVpage_grows m start v flags 0 (answers.headD [])
      generalize mapVpage m start v flags 0 (answers.headD []) = r at h hfirst
      obtain ⟨m₁, ret₁⟩ := r
      dsimp only at h hfirst
      have hcons : ∀ a ∈ answers.headD [] ++ answers.tail.flatten, a ∈ answers.flatten := by
        cases answers with
        | nil => exact fun a ha => ha
        | cons p rest =>
          rw [List.flatten_cons]
          exact fun a ha => ha
      split_ifs at h with herr
      · cases h
        exact hfirst.mono fun a ha => hcons a (List.mem_append_left _ ha)
      · exact (hfirst.trans (ih h)).mono hcons

section Fresh

variable (h : Grows m pages m') (hp : FreshPages m pages)

include h hp

lemma Grows.walks (hv : v < 2 ^ 39) (hw : Walks m v o b) : Walks m' v o b := by
  induction hw with
  | top => exact .top
  | @down o b hw hs ih =>
    have hu : unused (m.leaf b (vmToIndex v (o + 1))) = false := by
      rw [stops, Bool.or_eq_false_iff] at hs
      exact hs.1
    have heq := h b (vmToIndex v (o + 1)) (fun a ha h0 hb => by
      rw [hb] at hw
      exact hp.fresh a ha h0 v hv _ hw) hu
    rw [← heq] at hs ⊢
    exact .down ih hs

lemma Grows.stat (hx : statVpage m v = some x) : statVpage m' v = some x := by
  have hv : v % 2 ^ 39 < 2 ^ 39 := Nat.mod_lt _ (by norm_num)
  rw [← statVpage_mod] at hx ⊢
  obtain ⟨b, hw, hl, he⟩ := statVpage_eq_some.1 hx
  have heq := h b (vmToIndex (v % 2 ^ 39) x.order) (fun a ha h0 hb => by
    rw [hb] at hw
    exact hp.fresh a ha h0 _ hv _ hw) (isLeaf_used hl)
  rw [← heq] at hl he
  exact statVpage_eq_some.2 ⟨b, h.walks hp hv hw, hl, he⟩

end Fresh

def IsTable (m : Space) (a : ℕ) : Prop := ∃ v < 2 ^ 39, ∃ o, Walks m v o (some a)

lemma Walks.not_stops_above {o' : ℕ} {b' : Option ℕ} (h : Walks m v o b) (h' : Walks m v o' b')
    (hlt : o < o') : stops (m.leaf b' (vmToIndex v o')) = false := by
  obtain ⟨k, rfl⟩ : ∃ k, o' = o + k + 1 := ⟨o' - o - 1, by omega⟩
  induction k generalizing o b with
  | zero =>
    obtain ⟨b₁, hb₁, hs, -⟩ := h.inv (by have := h'.le; omega)
    rwa [hb₁.unique h'] at hs
  | succ k ih =>
    obtain ⟨b₁, hb₁, -⟩ := h.inv (by have := h'.le; omega)
    have hk : o + (k + 1) + 1 = o + 1 + k + 1 := by omega
    rw [hk] at h' ⊢
    exact ih hb₁ h' (by omega)

lemma mapWalk_cases {left : ℕ} (hw : WellFormed m) (hv : v < 2 ^ 39) (h : Walks m v (o + left) b)
    (hn : NoLargerLeaf m v o) (hp : FreshPages m pages) :
    (mapWalk v left (o + left) b pages m).1 = m ∧
        (createLeaf m pages = none ∨ ∃ b', Walks m v o b') ∨
      (createLeaf m pages ≠ none ∧ ∀ b', ¬ Walks m v o b') ∧
        ∃ a, ¬ IsTable m a ∧ IsTable (mapWalk v left (o + left) b pages m).1 a := by
  induction left generalizing b with
  | zero => exact .inl ⟨rfl, .inr ⟨b, h⟩⟩
  | succ left ih =>
    rw [← add_assoc] at h ⊢
    rw [mapWalk]
    split_ifs with hu
    · obtain ⟨-, hc⟩ | ⟨a, rest, rfl, ha, hc⟩ := createLeaf_cases m pages
      · rw [hc]
        exact .inl ⟨rfl, .inl rfl⟩
      · right
        obtain ⟨halt, hal⟩ := hp.aligned a (List.mem_cons_self ..)
        have hf := hp.fresh a (List.mem_cons_self ..) ha
        refine ⟨⟨by rw [hc]; exact Option.some_ne_none _, fun b' hb' => ?_⟩, a, ?_, ?_⟩
        · have := Walks.not_stops_above hb' h (by omega)
          rw [stops, hu] at this
          cases this
        · rintro ⟨v', hv', o', hw'⟩
          exact hf v' hv' o' hw'
        · rw [hc]
          exact ⟨v, hv, o + left, (mapWalk_grows v left (o + left) _ rest _).walks
            (hp.link hw hv h ha) hv (Walks.link_new hv h hu halt hal hf)⟩
    · have hs : stops (m.leaf b (vmToIndex v (o + left + 1))) = false := by
        rw [stops, hn _ b (by omega) h, Bool.or_false]
        simpa using hu
      exact ih (h.down hs)

lemma mapVpage_fails_cases {paddr : ℕ} (hw : WellFormed m) (hx : statVpage m v = none)
    (hp : FreshPages m pages) (herr : (mapVpage m paddr v flags 0 pages).2 ≠ OK) :
    (mapVpage m paddr v flags 0 pages).1 = m ∧
        (createLeaf m pages = none ∨ ∃ b, Walks m (v % 2 ^ 39) 0 b) ∨
      ¬ (createLeaf m pages = none ∨ ∃ b, Walks m (v % 2 ^ 39) 0 b) ∧
        ∃ a, ¬ IsTable m a ∧ IsTable (mapVpage m paddr v flags 0 pages).1 a := by
  have hv : v % 2 ^ 39 < 2 ^ 39 := Nat.mod_lt _ (by norm_num)
  rw [← statVpage_mod] at hx
  rw [← mapVpage_mod m paddr v flags pages (Nat.zero_le _)] at herr ⊢
  have hcases := @mapWalk_cases m (v % 2 ^ 39) 0 none pages maxOrder hw hv
    (by rw [Nat.zero_add]; exact .top) (noLargerLeaf_of_none hx) hp
  rw [Nat.zero_add] at hcases
  have hsame : (mapVpage m paddr (v % 2 ^ 39) flags 0 pages).1 =
      (mapWalk (v % 2 ^ 39) maxOrder maxOrder none pages m).1 := by
    rw [mapVpage, Nat.sub_zero] at herr ⊢
    generalize mapWalk (v % 2 ^ 39) maxOrder maxOrder none pages m = r at herr ⊢
    obtain ⟨m₁, branch⟩ := r
    cases branch with
    | none => rfl
    | some branch =>
      dsimp only at herr ⊢
      split_ifs at herr ⊢ with hu
      · exact absurd rfl herr
      · rfl
  rw [hsame, not_or, not_exists]
  exact hcases

lemma mapFixedPages_first {ret : ℤ} (hb : bytes ≠ 0)
    (h : mapFixedPages flags (fuel + 1) v start bytes answers m = some (m', ret)) :
    (mapVpage m start v flags 0 (answers.headD [])).2 ≠ OK ∧
        m' = (mapVpage m start v flags 0 (answers.headD [])).1 ∧
        ret = (mapVpage m start v flags 0 (answers.headD [])).2 ∨
      (mapVpage m start v flags 0 (answers.headD [])).2 = OK ∧
        Grows (mapVpage m start v flags 0 (answers.headD [])).1 answers.tail.flatten m' := by
  rw [mapFixedPages, if_neg hb] at h
  generalize mapVpage m start v flags 0 (answers.headD []) = r at h ⊢
  obtain ⟨m₁, ret₁⟩ := r
  dsimp only at h ⊢
  split_ifs at h with herr
  · cases h
    exact .inl ⟨herr, rfl, rfl⟩
  · exact .inr ⟨not_not.1 herr, mapFixedPages_grows h⟩

lemma unmapPages_first {freed : List (ℕ × ℕ)} (hb : bytes ≠ 0)
    (h : unmapPages (fuel + 1) v bytes m = some (m', freed)) :
    (freed = [] ↔ statVpage m v = none) ∧ (statVpage m v = none → m' = m) := by
  rw [unmapPages, if_neg hb] at h
  cases hx : statVpage m v with
  | none =>
    rw [hx] at h
    cases h
    exact ⟨by simp, fun _ => rfl⟩
  | some x =>
    rw [hx] at h
    simp only [Option.bind_eq_bind, Option.bind_eq_some_iff, Option.some.injEq, Prod.mk.injEq,
      Prod.exists] at h
    obtain ⟨_, _, -, -, rfl⟩ := h
    exact ⟨by simp, fun hno => by cases hno⟩

end Kmi.Uvmem
