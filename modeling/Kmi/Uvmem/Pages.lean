import Kmi.Uvmem.FixedMaps
import Kmi.Uvmem.Process

/-! The pages that `map_region` takes and `unmap_region` gives back. -/

namespace Kmi.Uvmem

open Kmi.Mem Kmi.Vmem

variable {m m' : Space} {y s c e start bytes flags order fuel : ℕ} {x : Stat}
  {answers : List Answer} {ps : List (ℕ × ℕ)} {ts : List Take}

def regionStart (start : ℕ) : ℕ := start - start % 4096

def regionEnd (start bytes : ℕ) : ℕ := (start + bytes + 4095) / 4096 * 4096

lemma regionStart_le_end : regionStart start ≤ regionEnd start bytes := by
  rw [regionStart, regionEnd]
  omega

lemma alignRegion_range (he : start + bytes ≤ 2 ^ 39) : alignRegion start bytes =
    (regionStart start, regionEnd start bytes - regionStart start) := by
  have hmod : (start + bytes) % 2 ^ 64 = start + bytes := Nat.mod_eq_of_lt (by omega)
  simp only [alignRegion, shift_page, hmod, sub64, basePageSize_eq, Prod.mk.injEq, regionStart, regionEnd,
    true_and]
  split_ifs <;> omega

lemma unmapRegion_range (he : start + bytes ≤ 2 ^ 39) : unmapRegion m start bytes =
    unmapPages (512 ^ 3 + 1) (regionStart start)
      (regionEnd (regionStart start) bytes - regionStart start) m := by
  have hmod : (start - start % 4096 + bytes) % 2 ^ 64 = start - start % 4096 + bytes :=
    Nat.mod_eq_of_lt (by omega)
  have hup : sub64 (alignUp (start - start % 4096 + bytes) basePageSize) (start - start % 4096) =
      regionEnd (regionStart start) bytes - regionStart start := by
    rw [sub64, alignUp, alignDown_page, basePageSize_eq, regionEnd, regionStart]
    split_ifs <;> omega
  rw [unmapRegion, alignDown_page, hmod, hup, regionStart]

def Apart (ts : List Take) : Prop :=
  ts.Pairwise fun a b => a.page + orderSize a.order ≤ b.page ∨ b.page + orderSize b.order ≤ a.page

def physical (m : Space) (v : ℕ) : Option ℕ :=
  (statVpage m v).map fun x => x.addr + v % orderSize x.order

structure Covers (flags : ℕ) (m m' : Space) (s e : ℕ) (ts : List Take) : Prop where
  backed : ∀ y, s ≤ y → y < e → ∃ x, statVpage m' y = some x ∧
    x.flags = flags ||| (VM_A ||| VM_D) ∧ ∃ t ∈ ts, t.order = x.order ∧ t.page = x.addr
  distinct : ∀ y y', s ≤ y → y < e → s ≤ y' → y' < e → physical m' y = physical m' y' → y = y'
  rest : ∀ y < 2 ^ 39, y < s ∨ e ≤ y → statVpage m' y = statVpage m y

def Undoes (m : Space) (start bytes : ℕ) (ts : List Take) : Prop :=
  ∃ m' freed, unmapRegion m start bytes = some (m', freed) ∧ freed.Perm (mappedPages ts) ∧
    ∀ y < 2 ^ 39, statVpage m' y =
      if regionStart start ≤ y ∧ y < regionEnd start bytes then none else statVpage m y

section Tiles

lemma Tiles.page_mem (h : Tiles m s e ps) (hs : s ≤ y) (he : y < e) :
    ∃ x, statVpage m y = some x ∧ x.order ≤ maxOrder ∧ (x.order, x.addr) ∈ ps := by
  induction h with
  | nil => omega
  | @cons v e x ps hx hal _ ih =>
    have ho := statVpage_order_le hx
    obtain hlt | hge := lt_or_ge y (v + orderSize x.order)
    · exact ⟨x, statVpage_page hx ((pageOf_eq_iff_mem ho hal).2 ⟨hs, hlt⟩), ho, List.mem_cons_self⟩
    · obtain ⟨z, hz, hzo, hmem⟩ := ih hge he
      exact ⟨z, hz, hzo, List.mem_cons_of_mem _ hmem⟩

lemma Tiles.distinct {y' : ℕ} (h : Tiles m s e ps)
    (hp : ps.Pairwise fun a b => a.2 + orderSize a.1 ≤ b.2 ∨ b.2 + orderSize b.1 ≤ a.2)
    (hs : s ≤ y) (he : y < e) (hs' : s ≤ y') (he' : y' < e) (hph : physical m y = physical m y') :
    y = y' := by
  induction h with
  | nil => omega
  | @cons v e x ps hx hal ht ih =>
    have ho := statVpage_order_le hx
    have hpos := orderSize_pos ho
    obtain ⟨hfirst, hrest⟩ := List.pairwise_cons.mp hp
    have hin : ∀ z, v ≤ z → z < v + orderSize x.order → physical m z = some (x.addr + (z - v)) := by
      intro z hz hz'
      rw [physical, statVpage_page hx ((pageOf_eq_iff_mem ho hal).2 ⟨hz, hz'⟩), Option.map_some]
      have hmod : z % orderSize x.order = z - v := by
        obtain ⟨k, hk⟩ := Nat.dvd_of_mod_eq_zero hal
        obtain ⟨d, rfl⟩ : ∃ d, z = v + d := ⟨z - v, by omega⟩
        rw [Nat.add_sub_cancel_left, hk, Nat.mul_add_mod, Nat.mod_eq_of_lt (by omega)]
      rw [hmod]
    have hout : ∀ z, v + orderSize x.order ≤ z → z < e → ∀ d < orderSize x.order,
        physical m z ≠ some (x.addr + d) := by
      intro z hz hz' d hd
      obtain ⟨w, hw, hwo, hmem⟩ := ht.page_mem hz hz'
      have hlt := Nat.mod_lt z (orderSize_pos hwo)
      have happart := hfirst _ hmem
      rw [physical, hw, Option.map_some]
      intro heq
      have := Option.some.inj heq
      dsimp only at happart
      omega
    obtain hlt | hge := lt_or_ge y (v + orderSize x.order)
    · obtain hlt' | hge' := lt_or_ge y' (v + orderSize x.order)
      · rw [hin y hs hlt, hin y' hs' hlt'] at hph
        have := Option.some.inj hph
        omega
      · rw [hin y hs hlt] at hph
        exact absurd hph.symm (hout y' hge' he' _ (by omega))
    · obtain hlt' | hge' := lt_or_ge y' (v + orderSize x.order)
      · rw [hin y' hs' hlt'] at hph
        exact absurd hph (hout y hge he _ (by omega))
      · exact ih hrest hge he hge' he'

lemma Tiles.last (h : Tiles m s e ps) (hlt : s < e) : ∃ c x qs, ps = qs ++ [(x.order, x.addr)] ∧
    Tiles m s c qs ∧ statVpage m c = some x ∧ c % orderSize x.order = 0 ∧
      e = c + orderSize x.order := by
  induction h with
  | nil => omega
  | @cons v e x ps hx hal ht ih =>
    obtain heq | hlt' := (ht.tiled.le).eq_or_lt
    · cases ht with
      | nil => exact ⟨v, x, [], rfl, .nil v, hx, hal, rfl⟩
      | cons hx' _ ht' =>
        have := ht'.tiled.le
        have := orderSize_pos (statVpage_order_le hx')
        omega
    · obtain ⟨c, z, qs, rfl, hqs, hz, hzal, he⟩ := ih hlt'
      exact ⟨c, z, _ :: qs, rfl, .cons hx hal hqs, hz, hzal, he⟩

end Tiles

lemma mapRegion_takes (hf : PageFlags flags) (ho : order ≤ maxOrder) (hw : WellFormed m)
    (he : start + bytes ≤ 2 ^ 39)
    (hsmall : OnlyBasePages m (regionStart start) (regionEnd start bytes))
    (ha : FreshAnswers m answers) :
    ∃ m' ret c, mapRegion m start bytes order flags answers = some (m', ret) ∧
      Lays flags m m' (regionStart start) c
        (mappedPages (regionTakes m start bytes order flags answers)) ∧
      c ≤ regionEnd start bytes ∧ (ret = OK ∧ c = regionEnd start bytes ∨ ret = ERR_MISC) := by
  have hend : regionStart start + (regionEnd start bytes - regionStart start) =
      regionEnd start bytes := Nat.add_sub_cancel' regionStart_le_end
  have hle : regionEnd start bytes ≤ 2 ^ 39 := by
    rw [regionEnd]
    omega
  have hs : regionStart start % 4096 = 0 := by
    rw [regionStart]
    omega
  have hb : (regionEnd start bytes - regionStart start) % 4096 = 0 := by
    rw [regionEnd, regionStart]
    omega
  rw [mapRegion, regionTakes, alignRegion_range he, basePageSize_eq]
  obtain ⟨m', ret, c, heq, hm, hc⟩ := mapPages_takes hf ho hw hs hb (by omega)
    (by rwa [hend]) ha (Nat.lt_succ_self _)
  rw [hend] at hc
  exact ⟨m', ret, c, heq, hm, hc⟩

lemma Apart.mapped (h : Apart ts) : (mappedPages ts).Pairwise fun a b =>
    a.2 + orderSize a.1 ≤ b.2 ∨ b.2 + orderSize b.1 ≤ a.2 :=
  List.pairwise_map.mpr (h.filter Take.mapped)

lemma mem_mappedPages {a : ℕ × ℕ} (h : a ∈ mappedPages ts) :
    ∃ t ∈ ts, t.mapped = true ∧ t.order = a.1 ∧ t.page = a.2 := by
  rw [mappedPages, List.mem_map] at h
  obtain ⟨t, ht, rfl⟩ := h
  obtain ⟨ht, hm⟩ := List.mem_filter.mp ht
  exact ⟨t, ht, hm, rfl, rfl⟩

lemma Lays.covers (h : Lays flags m m' s e (mappedPages ts)) (ha : Apart ts) :
    Covers flags m m' s e ts := by
  refine ⟨fun y hs he => ?_, fun y y' hs he hs' he' hph => ?_, h.rest⟩
  · obtain ⟨x, hx, -, hmem⟩ := h.tiles.page_mem hs he
    obtain ⟨t, ht, -, hto, htp⟩ := mem_mappedPages hmem
    exact ⟨x, hx, h.flags y hs he x hx, t, ht, hto, htp⟩
  · exact h.tiles.distinct ha.mapped hs he hs' he' hph

lemma undoes_of_ends (ht : Tiles m (regionStart start) (regionEnd start bytes) (mappedPages ts))
    (hw : WellFormed m) (he : start + bytes ≤ UVMEM_END)
    (hends : regionEnd (regionStart start) bytes = regionEnd start bytes) : Undoes m start bytes ts := by
  have hlen := ht.length_le
  have hse := @regionStart_le_end start bytes
  have hle : regionEnd start bytes ≤ UVMEM_END := by
    rw [UVMEM_END] at he ⊢
    rw [regionEnd]
    omega
  rw [UVMEM_END] at hle he
  obtain ⟨m', heq, hu⟩ := @unmapPages_tiles m (regionStart start) (regionEnd start bytes)
    (regionEnd start bytes - regionStart start) (512 ^ 3 + 1) _ ht hw (by omega) (by omega)
    (.inl (by omega)) (by omega)
  rw [← hends] at heq
  exact ⟨m', _, by rw [unmapRegion_range (by omega), heq], .refl _, hu.stat⟩

lemma unmapRegion_last (ht : Tiles m (regionStart start) (regionEnd start bytes) ps)
    (hw : WellFormed m) (he : start + bytes ≤ UVMEM_END)
    (hends : regionEnd (regionStart start) bytes ≠ regionEnd start bytes) :
    ∃ c x qs m₁ left, ps = qs ++ [(x.order, x.addr)] ∧ statVpage m c = some x ∧
      c % orderSize x.order = 0 ∧ regionStart start ≤ c ∧ regionEnd start bytes = c + orderSize x.order ∧
      Unmaps m m₁ (regionStart start) c ∧ unmapRegion m start bytes =
        (unmapPages (left + 2) c (orderSize x.order - 4096) m₁).map fun r => (r.1, qs ++ r.2) := by
  have hgap : regionEnd start bytes = regionEnd (regionStart start) bytes + 4096 := by
    rw [regionEnd, regionEnd, regionStart] at hends ⊢
    omega
  have hlt : regionStart start < regionEnd start bytes := by
    have := @regionStart_le_end (regionStart start) bytes
    have hss : regionStart (regionStart start) = regionStart start := by
      rw [regionStart, regionStart]
      omega
    omega
  have hle : regionEnd start bytes ≤ UVMEM_END := by
    rw [UVMEM_END] at he ⊢
    rw [regionEnd]
    omega
  rw [UVMEM_END] at hle he
  obtain ⟨c, x, qs, rfl, hqs, hx, hal, hec⟩ := ht.last hlt
  have hsize := orderSize_eq (statVpage_order_le hx)
  have hpow : 0 < 512 ^ x.order := by positivity
  have hlen := hqs.length_le
  have hsc := hqs.tiled.le
  obtain ⟨m₁, hu, hrest⟩ := @unmapPages_peel m (regionStart start) c
    (regionEnd (regionStart start) bytes - regionStart start) qs hqs hw (by omega) (by omega)
  refine ⟨c, x, qs, m₁, 512 ^ 3 - 1 - qs.length, rfl, hx, hal, hsc, hec, hu, ?_⟩
  have hfuel : 512 ^ 3 + 1 = 512 ^ 3 - 1 - qs.length + 2 + qs.length := by omega
  have hbytes : regionStart start + (regionEnd (regionStart start) bytes - regionStart start) - c =
      orderSize x.order - 4096 := by omega
  rw [unmapRegion_range (by omega), hfuel, hrest, hbytes]

lemma unmapPages_wraps {left : ℕ} (hx : statVpage m c = some x) (hne : x.order ≠ 0)
    (he : c + orderSize x.order < 2 ^ 39) :
    unmapPages (left + 2) c (orderSize x.order - 4096) m =
      (unmapPages (left + 1) (c + orderSize x.order) (2 ^ 64 - 4096) (unmapVpage m c).1).map
        fun r => (r.1, (x.order, x.addr) :: r.2) := by
  have hsize := orderSize_eq (statVpage_order_le hx)
  have hpow : 512 ≤ 512 ^ x.order := Nat.le_self_pow hne 512
  have hmod : (c + orderSize x.order) % 2 ^ 64 = c + orderSize x.order := Nat.mod_eq_of_lt (by omega)
  have hsub : sub64 (orderSize x.order - 4096) (orderSize x.order) = 2 ^ 64 - 4096 := by
    rw [sub64]
    omega
  rw [unmapPages, if_neg (by omega), hx]
  simp only [hmod, hsub]
  cases unmapPages (left + 1) (c + orderSize x.order) (2 ^ 64 - 4096) (unmapVpage m c).1 <;> rfl

lemma undoes_iff (ht : Tiles m (regionStart start) (regionEnd start bytes) (mappedPages ts))
    (hw : WellFormed m) (he : start + bytes ≤ UVMEM_END) :
    Undoes m start bytes ts ↔ regionEnd (regionStart start) bytes = regionEnd start bytes ∨
      (∃ x, statVpage m (regionEnd start bytes - 1) = some x ∧ x.order ≠ 0) ∧
        statVpage m (regionEnd start bytes) = none := by
  by_cases hends : regionEnd (regionStart start) bytes = regionEnd start bytes
  · exact ⟨fun _ => .inl hends, fun _ => undoes_of_ends ht hw he hends⟩
  obtain ⟨c, x, qs, m₁, left, hps, hx, hal, hsc, hec, hu, hrun⟩ := unmapRegion_last ht hw he hends
  have ho := statVpage_order_le hx
  have hsize := orderSize_eq ho
  have hpow : 0 < 512 ^ x.order := by positivity
  have hle : regionEnd start bytes ≤ UVMEM_END := by
    rw [UVMEM_END] at he ⊢
    rw [regionEnd]
    omega
  rw [UVMEM_END] at hle
  have hlast : statVpage m (regionEnd start bytes - 1) = some x :=
    statVpage_page hx ((pageOf_eq_iff_mem ho hal).2 (by omega))
  have hx₁ : statVpage m₁ c = some x := by
    rw [hu.stat c (by omega), if_neg (by omega), hx]
  have hend₁ : statVpage m₁ (regionEnd start bytes) = statVpage m (regionEnd start bytes) := by
    rw [hu.stat _ (by omega), if_neg (by omega)]
  have hstat₂ := unmapVpage_stat hu.wf hx₁
  have hin₂ : ∀ y < 2 ^ 39, statVpage (unmapVpage m₁ c).1 y =
      if c ≤ y ∧ y < c + orderSize x.order then none else statVpage m₁ y := by
    intro y hy
    rw [hstat₂, Nat.mod_eq_of_lt hy, Nat.mod_eq_of_lt (by omega : c < 2 ^ 39)]
    simp only [pageOf_eq_iff_mem ho hal]
  rw [hec] at hend₁ hle
  by_cases hne : x.order = 0
  · -- the last page is a base page, and stays
    refine ⟨?_, ?_⟩
    · rintro ⟨m', freed, hrun', -, hstat⟩
      have hzero : orderSize x.order - 4096 = 0 := by
        rw [hne]
        decide
      rw [hrun, hzero, unmapPages, if_pos rfl] at hrun'
      cases hrun'
      have := hstat c (by omega)
      rw [hx₁, if_pos ⟨hsc, by omega⟩] at this
      cases this
    · rintro (h | ⟨⟨z, hz, hzo⟩, -⟩)
      · exact absurd h hends
      · rw [hlast] at hz
        cases hz
        exact absurd hne hzo
  · have hbeyond : statVpage (unmapVpage m₁ c).1 (c + orderSize x.order) =
        statVpage m (c + orderSize x.order) := by
      rw [hin₂ _ (by omega), if_neg (by omega), hend₁]
    rw [unmapPages_wraps hx₁ hne (by omega)] at hrun
    constructor
    · rintro ⟨m', freed, hrun', -, hstat⟩
      refine .inr ⟨⟨x, hlast, hne⟩, ?_⟩
      cases hz : statVpage m (regionEnd start bytes) with
      | none => rfl
      | some z =>
        -- the page behind the range goes too
        rw [hec] at hz
        rw [hz] at hbeyond
        rw [hrun, unmapPages, if_neg (by norm_num), hbeyond] at hrun'
        simp only [Option.bind_eq_bind, Option.map_eq_some_iff, Option.bind_eq_some_iff] at hrun'
        obtain ⟨_, ⟨_, ⟨⟨m₃, freed₃⟩, hrec, hr⟩, hr'⟩, hr''⟩ := hrun'
        cases hr
        cases hr'
        cases hr''
        have hkept := hstat (c + orderSize x.order) (by omega)
        rw [hz, if_neg (by omega)] at hkept
        have hshrunk := unmapPages_shrinks (unmapVpage_wellFormed
          (unmapVpage_wellFormed hu.wf c) _) hrec hkept
        rw [unmapVpage_stat (unmapVpage_wellFormed hu.wf c) hbeyond, if_pos rfl] at hshrunk
        cases hshrunk
    · rintro (h | ⟨-, hnone⟩)
      · exact absurd h hends
      · rw [hec] at hnone
        rw [hnone] at hbeyond
        rw [unmapPages, if_neg (by norm_num), hbeyond] at hrun
        refine ⟨_, _, hrun, ?_, fun y hy => ?_⟩
        · rw [hps]
        · rw [hin₂ y hy, hu.stat y hy]
          split_ifs <;> first | rfl | omega

def RoundTrips (m : Space) (start bytes order flags : ℕ) (answers : List Answer) : Prop :=
  ∃ m' ret, mapRegion m start bytes order flags answers = some (m', ret) ∧ (ret = OK →
    Covers flags m m' (regionStart start) (regionEnd start bytes)
        (regionTakes m start bytes order flags answers) ∧
      Undoes m' start bytes (regionTakes m start bytes order flags answers))

theorem map_unmap_region_iff (hw : WellFormed m) (hf : PageFlags flags) (ho : order ≤ maxOrder)
    (he : start + bytes ≤ UVMEM_END)
    (hn : ∀ y, regionStart start ≤ y → y < regionEnd start bytes → statVpage m y = none)
    (ha : FreshAnswers m answers) (hd : Apart (regionTakes m start bytes order flags answers)) :
    RoundTrips m start bytes order flags answers ↔
      ∀ m', mapRegion m start bytes order flags answers = some (m', OK) →
        regionEnd (regionStart start) bytes = regionEnd start bytes ∨
        (∃ x, statVpage m' (regionEnd start bytes - 1) = some x ∧ x.order ≠ 0) ∧
          statVpage m (regionEnd start bytes) = none := by
  have hsmall : OnlyBasePages m (regionStart start) (regionEnd start bytes) := by
    intro y hy hy' x hx
    rw [hn y hy hy'] at hx
    cases hx
  have hend := he
  rw [UVMEM_END] at hend
  have hle : regionEnd start bytes < 2 ^ 39 := by
    rw [regionEnd]
    omega
  obtain ⟨m', ret, c, heq, hm, -, hret⟩ := mapRegion_takes hf ho hw (by omega) hsmall ha
  obtain ⟨rfl, rfl⟩ | rfl := hret
  · have hrest := hm.rest _ hle (.inr le_rfl)
    have hiff := undoes_iff hm.tiles hm.wf he
    rw [hrest] at hiff
    constructor
    · rintro ⟨m₁, ret, h₁, hok⟩ m₂ h₂
      rw [heq] at h₁ h₂
      cases h₁
      cases h₂
      exact hiff.mp (hok rfl).2
    · intro h
      exact ⟨m', OK, heq, fun _ => ⟨hm.covers hd, hiff.mpr (h m' heq)⟩⟩
  · constructor
    · intro _ m₂ h₂
      rw [heq] at h₂
      cases h₂
    · intro _
      exact ⟨m', ERR_MISC, heq, fun herr => absurd herr (by decide)⟩

def twoPages : List Answer := [⟨0x600000, [0x1000, 0x2000]⟩, ⟨0x601000, []⟩]

lemma emptySpace_wellFormed : WellFormed emptySpace := by
  refine ⟨fun _ _ h _ => ?_⟩
  cases emptySpace_walks h

lemma emptySpace_stat (v : ℕ) : statVpage emptySpace v = none := by
  rw [statVpage_eq, statFrom_stops rfl]
  rfl

lemma twoPages_fresh : FreshAnswers emptySpace twoPages := by
  refine ⟨by decide, by decide, by decide, fun p _ _ v _ o h => ?_⟩
  cases emptySpace_walks h

theorem map_unmap_region_iff_twoPages :
    RoundTrips emptySpace 0x10000 0x2000 maxOrder 0x17 twoPages := by
  apply (map_unmap_region_iff emptySpace_wellFormed ⟨by decide, by decide⟩ le_rfl (by decide)
    (fun y _ _ => emptySpace_stat y) twoPages_fresh ?_).mpr
  · intro m' _
    exact .inl (by decide)
  · change List.Pairwise _ _
    decide +kernel

theorem unaligned_leaves_page : WellFormed emptySpace ∧ FreshAnswers emptySpace twoPages ∧
    Apart (regionTakes emptySpace 0x10800 0x1000 maxOrder 0x17 twoPages) ∧
    ¬ RoundTrips emptySpace 0x10800 0x1000 maxOrder 0x17 twoPages := by
  refine ⟨emptySpace_wellFormed, twoPages_fresh, ?_, ?_⟩
  · change List.Pairwise _ _
    decide +kernel
  · rintro ⟨m', ret, heq, hok⟩
    have hrun : (mapRegion emptySpace 0x10800 0x1000 maxOrder 0x17 twoPages).map
        (fun r => (r.2, (unmapRegion r.1 0x10800 0x1000).map
          fun r => (statVpage r.1 0x11000).isSome)) = some (OK, some true) := by
      decide +kernel
    rw [heq, Option.map_some, Option.some.injEq, Prod.mk.injEq] at hrun
    obtain ⟨-, m₁, freed, heq₁, -, hstat⟩ := hok hrun.1
    have hgone := hstat 0x11000 (by norm_num)
    rw [if_pos (by decide)] at hgone
    have hleft := hrun.2
    simp [heq₁, hgone] at hleft

end Kmi.Uvmem
