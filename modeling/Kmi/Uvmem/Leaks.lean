import Kmi.Uvmem.Attempts
import Kmi.Uvmem.Pages
import Kmi.Uvmem.Runs

/-! Pages that `map_region` takes and nobody has. It goes on with a smaller order where a
page is refused, and frees none. -/

namespace Kmi.Uvmem

open Kmi.Mem Kmi.Vmem

variable {m m' : Space} {y s c e start bytes flags order : ℕ} {answers : List Answer}
  {ps : List (ℕ × ℕ)} {ts : List Take}

inductive Mapped : Space → Prop
  | create {kvmem : ℕ} {low : ℕ → Table} : KernelTable kvmem low → Mapped ⟨createVmem kvmem, low⟩
  | map {m m' : Space} {start bytes order flags : ℕ} {answers : List Answer} {ret : ℤ} : Mapped m →
      PageFlags flags → order ≤ maxOrder → start + bytes ≤ 2 ^ 39 →
      OnlyBasePages m (regionStart start) (regionEnd start bytes) → FreshAnswers m answers →
      mapRegion m start bytes order flags answers = some (m', ret) → Mapped m'
  | mapFixed {m m' : Space} {v start bytes flags : ℕ} {answers : List Pages} {ret : ℤ} : Mapped m →
      PageFlags flags → start < 2 ^ 64 → bytes % 4096 = 0 →
      (∀ j < pagesAcross start bytes, ∀ y, walkPage y = ((v - v % 4096) / 4096 + j) % 2 ^ 27 →
        ∀ x, statVpage m y = some x → x.order = 0) → FreshPages m answers.flatten →
      mapFixedRegion m v start bytes flags answers = some (m', ret) → Mapped m'
  | unmap {m m' : Space} {v bytes : ℕ} {freed : List (ℕ × ℕ)} : Mapped m →
      unmapRegion m v bytes = some (m', freed) → Mapped m'
  | elsewhere {m : Space} {low : ℕ → Table} : Mapped m →
      (∀ v < 2 ^ 39, ∀ o a, Walks m v o (some a) → low a = m.low a) → Mapped { m with low := low }

lemma Mapped.wellFormed (h : Mapped m) : WellFormed m := by
  induction h with
  | create hk => exact createVmem_wellFormed hk
  | map _ hf ho he hsmall ha heq ih =>
    obtain ⟨m', ret, c, heq', hm, -⟩ := mapRegion_takes hf ho ih he hsmall ha
    rw [heq] at heq'
    cases heq'
    exact hm.wf
  | mapFixed _ hf hs hb hsmall hp heq ih =>
    obtain ⟨k, -, hm, -⟩ := mapFixedRegion_spec hf ih hs hb hsmall hp heq
    exact hm.wf
  | unmap _ heq ih => exact unmapRegion_wellFormed ih heq
  | elsewhere _ hl ih => exact wellFormed_elsewhere ih hl

def NoLeak (m : Space) (start bytes order flags : ℕ) (answers : List Answer) : Prop :=
  ∃ m' ret, mapRegion m start bytes order flags answers = some (m', ret) ∧
    ∀ t ∈ regionTakes m start bytes order flags answers, ∃ y x, regionStart start ≤ y ∧
      y < regionEnd start bytes ∧ statVpage m' y = some x ∧ x.order = t.order ∧ x.addr = t.page

structure HandedOut (m : Space) (s e : ℕ) (answers : List Answer) : Prop where
  once : ((answers.map Answer.page).filter (· ≠ 0)).Nodup
  free : ∀ a ∈ answers, ∀ y, s ≤ y → y < e → ∀ x, statVpage m y = some x → x.addr ≠ a.page

lemma Tiles.mem_page {p : ℕ × ℕ} (h : Tiles m s e ps) (hp : p ∈ ps) :
    ∃ y x, s ≤ y ∧ y < e ∧ statVpage m y = some x ∧ x.order = p.1 ∧ x.addr = p.2 := by
  induction h with
  | nil => cases hp
  | @cons v e x ps hx _ ht ih =>
    have hpos := orderSize_pos (statVpage_order_le hx)
    have hle := ht.tiled.le
    obtain rfl | hp := List.mem_cons.mp hp
    · exact ⟨v, x, le_rfl, by omega, hx, rfl, rfl⟩
    · obtain ⟨y, z, hy, hy', hz⟩ := ih hp
      exact ⟨y, z, by omega, hy', hz⟩

section Call

variable (hw : WellFormed m) (hf : PageFlags flags) (ho : order ≤ maxOrder)
  (he : start + bytes ≤ 2 ^ 39) (hsmall : OnlyBasePages m (regionStart start) (regionEnd start bytes))
  (ha : FreshAnswers m answers)

include hw hf ho he hsmall ha

lemma NoLeak.mapped (hts : HandedOut m (regionStart start) (regionEnd start bytes) answers)
    (h : NoLeak m start bytes order flags answers) :
    ∀ t ∈ regionTakes m start bytes order flags answers, t.mapped = true := by
  obtain ⟨m', ret, c, heq, hm, hc, -⟩ := mapRegion_takes hf ho hw he hsmall ha
  have hle : regionEnd start bytes ≤ 2 ^ 39 := by
    rw [regionEnd]
    omega
  obtain ⟨m₁, ret₁, heq₁, hall⟩ := h
  rw [heq] at heq₁
  cases heq₁
  have hsub := @takes_sublist (alignRegion start bytes).1 (alignRegion start bytes).2 order
    ((alignRegion start bytes).2 / basePageSize + order + 1) answers flags m
  intro t ht
  obtain ⟨y, x, hs, hy, hx, -, hpage⟩ := hall t ht
  obtain hlt | hge := lt_or_ge y c
  · -- it lies in the range because it was mapped there, or another take had the same page
    obtain ⟨z, hz, -, hmem⟩ := hm.tiles.page_mem hs hlt
    rw [hx] at hz
    cases hz
    obtain ⟨t', ht', hmapped, -, hpage'⟩ := mem_mappedPages hmem
    have hsame : t' = t := List.inj_on_of_nodup_map (hts.once.sublist hsub) ht' ht (hpage'.trans hpage)
    exact hsame ▸ hmapped
  · rw [hm.rest y (by omega) (.inr hge)] at hx
    obtain ⟨a, ha', hpage'⟩ := List.mem_map.1 (List.mem_filter.1 (hsub.subset (List.mem_map_of_mem ht))).1
    exact absurd (hpage.trans hpage'.symm) (hts.free a ha' y hs hy x hx)

lemma NoLeak.of_mapped
    (hall : ∀ t ∈ regionTakes m start bytes order flags answers, t.mapped = true) :
    NoLeak m start bytes order flags answers := by
  obtain ⟨m', ret, c, heq, hm, hc, -⟩ := mapRegion_takes hf ho hw he hsmall ha
  refine ⟨m', ret, heq, fun t ht => ?_⟩
  have hmem : (t.order, t.page) ∈ mappedPages (regionTakes m start bytes order flags answers) :=
    List.mem_map.mpr ⟨t, List.mem_filter.mpr ⟨ht, hall t ht⟩, rfl⟩
  obtain ⟨y, x, hs, hy, hx⟩ := hm.tiles.mem_page hmem
  exact ⟨y, x, hs, by omega, hx⟩

end Call

/-- No page is lost exactly where `map_vpage` can map each page that the call gets: its
entry in the table before the call is not in use, and the tables for it are there or come. -/
theorem map_region_leaks_iff (h : Mapped m) (hf : PageFlags flags) (ho : order ≤ maxOrder)
    (he : start + bytes ≤ 2 ^ 39)
    (hsmall : OnlyBasePages m (regionStart start) (regionEnd start bytes))
    (ha : FreshAnswers m answers) (hts : HandedOut m (regionStart start) (regionEnd start bytes) answers) :
    NoLeak m start bytes order flags answers ↔ AllReady m (regionAttempts start bytes order answers) := by
  have hw := h.wellFormed
  have hend : regionStart start + (regionEnd start bytes - regionStart start) = regionEnd start bytes :=
    Nat.add_sub_cancel' regionStart_le_end
  have hle : regionEnd start bytes ≤ 2 ^ 39 := by
    rw [regionEnd]
    omega
  have hall : (∀ t ∈ regionTakes m start bytes order flags answers, t.mapped = true) ↔
      AllReady m (regionAttempts start bytes order answers) := by
    rw [regionTakes, regionAttempts, alignRegion_range he]
    exact takes_mapped_iff hf ho hw (by rwa [hend]) (by rwa [hend]) ha
  rw [← hall]
  exact ⟨fun hno => hno.mapped hw hf ho he hsmall ha hts, fun hall => .of_mapped hw hf ho he hsmall ha hall⟩

def newTable : Space := ⟨createVmem 0, fun _ _ => 0⟩

lemma newTable_mapped : Mapped newTable := .create fun _ => rfl

lemma newTable_onlyBasePages (hs : e ≤ UVMEM_END) : OnlyBasePages newTable s e := by
  intro y _ hy x hx
  rw [newTable, createVmem_stat (by omega)] at hx
  cases hx

lemma newTable_ready {t : Attempt} (ho : t.order ≤ maxOrder) (hv : t.addr < UVMEM_END)
    (ht : ∀ i < maxOrder - t.order, t.answer.tables.getD i 0 ≠ 0) (before : List Attempt) :
    Ready newTable before t := by
  have hroot : unused (newTable.root (vmToIndex t.addr maxOrder)) = true := by
    have hz : newTable.root (vmToIndex t.addr maxOrder) = 0 := createVmem_user 0 (vmToIndex_lt hv)
    rw [hz]
    rfl
  refine ⟨fun b hb => ?_, fun i hi _ _ => ht i hi⟩
  obtain heq | hlt := ho.eq_or_lt
  · rw [heq] at hb ⊢
    rwa [hb.unique .top]
  · -- no table hangs below the top one
    have hno := @not_hasTable_below newTable t.addr 0 maxOrder none (by rw [Nat.zero_add]; exact .top)
      (by rw [Nat.zero_add]; exact Bool.or_eq_true_iff.2 (.inl hroot)) t.order hlt
    rw [Nat.zero_add] at hno
    exact absurd ⟨b, hb⟩ hno

def gigabyteAndPage : List Answer :=
  gigabyte ++ [⟨0xffffffc080600000, [0xffffffc080100000, 0xffffffc080101000]⟩]

theorem map_region_leaks_iff_gigabyte :
    NoLeak newTable (2 ^ 30) (2 ^ 30 + 1) maxOrder 0x17 gigabyteAndPage := by
  have hsmall : OnlyBasePages newTable (regionStart (2 ^ 30)) (regionEnd (2 ^ 30) (2 ^ 30 + 1)) :=
    newTable_onlyBasePages (by decide)
  have hfresh : FreshAnswers newTable gigabyteAndPage :=
    ⟨by decide, createVmem_fresh (fun _ => rfl) (by decide) (by decide) (by decide)⟩
  apply (map_region_leaks_iff newTable_mapped ⟨by decide, by decide⟩ le_rfl (by norm_num) hsmall hfresh
    ⟨by decide, fun a _ y _ hy x hx => ?_⟩).mpr
  · have hattempts : regionAttempts (2 ^ 30) (2 ^ 30 + 1) maxOrder gigabyteAndPage =
        [⟨2, 2 ^ 30, ⟨0xffffffc080000000, []⟩⟩,
          ⟨0, 2 ^ 31, ⟨0xffffffc080600000, [0xffffffc080100000, 0xffffffc080101000]⟩⟩] := by
      rfl
    rw [hattempts]
    intro before t after heq
    have hmem : t ∈ before ++ t :: after := by simp
    rw [← heq] at hmem
    obtain rfl | rfl : t = _ ∨ t = _ := by simpa using hmem
    · exact newTable_ready (by decide) (by decide) (by decide) before
    · exact newTable_ready (by decide) (by decide) (by decide) before
  · rw [newTable, createVmem_stat (hy.trans_le (by decide))] at hx
    cases hx

def firstPage : List Answer := [⟨0xffffffc080600000, [0xffffffc080100000, 0xffffffc080101000]⟩]

lemma firstPage_fresh : FreshAnswers newTable firstPage :=
  ⟨by decide, createVmem_fresh (fun _ => rfl) (by decide) (by decide) (by decide)⟩

def lastPages : List Answer := [⟨0xffffffc080200000, []⟩, ⟨0xffffffc080800000, []⟩]

lemma lastPages_fresh (m : Space) : FreshAnswers m lastPages := by
  refine ⟨by decide, by decide, by decide, fun p hp => ?_⟩
  simp [lastPages] at hp

/-- The table that a base page at 0 needed is still there after its `unmap_region`, and in
the way of the page of two megabytes. -/
theorem emptied_table_leaks : ∃ m, Mapped m ∧ OnlyBasePages m 0 (2 ^ 21) ∧ FreshAnswers m lastPages ∧
    HandedOut m 0 (2 ^ 21) lastPages ∧
    statVpage m 0 = none ∧ ¬ NoLeak m 0 (2 ^ 21) 1 0x17 lastPages := by
  obtain ⟨m₁, ret, c, hmap, hm, -, -⟩ := @mapRegion_takes newTable 0 4096 0x17 0 firstPage
    ⟨by decide, by decide⟩ (Nat.zero_le _) newTable_mapped.wellFormed (by norm_num)
    (newTable_onlyBasePages (by decide)) firstPage_fresh
  have hrun : (mapRegion newTable 0 4096 0 0x17 firstPage).bind (fun r =>
      (unmapRegion r.1 0 4096).map fun u =>
        (statVpage u.1 0, (regionTakes u.1 0 (2 ^ 21) 1 0x17 lastPages).map fun t =>
          (t.page, t.mapped))) =
      some (none, [(0xffffffc080200000, false), (0xffffffc080800000, true)]) := by
    decide +kernel
  have hpages : mappedPages (regionTakes newTable 0 4096 0 0x17 firstPage) =
      [(0, 0xffffffc080600000)] := by decide +kernel
  rw [hmap, Option.bind_some, Option.map_eq_some_iff] at hrun
  obtain ⟨⟨m, freed⟩, hunmap, hrun⟩ := hrun
  rw [Prod.mk.injEq] at hrun
  obtain ⟨hnone, htakes⟩ := hrun
  have hmapped : Mapped m := .unmap (.map newTable_mapped ⟨by decide, by decide⟩ (Nat.zero_le _)
    (by norm_num) (newTable_onlyBasePages (by decide)) firstPage_fresh hmap) hunmap
  have hold : ∀ y < 2 ^ 21, ∀ x, statVpage m y = some x →
      x.order = 0 ∧ x.addr = 0xffffffc080600000 := by
    intro y hy x hx
    have hx₁ := unmapPages_shrinks hm.wf hunmap hx
    obtain hlt | hge := lt_or_ge y c
    · obtain ⟨z, hz, -, hmem⟩ := hm.tiles.page_mem (Nat.zero_le y) hlt
      rw [hx₁] at hz
      cases hz
      rw [hpages, List.mem_singleton, Prod.mk.injEq] at hmem
      exact hmem
    · rw [hm.rest y (by omega) (.inr hge), newTable, createVmem_stat (hy.trans (by decide))] at hx₁
      cases hx₁
  have hsmall : OnlyBasePages m 0 (2 ^ 21) := fun y _ hy x hx => (hold y hy x hx).1
  have hhanded : HandedOut m 0 (2 ^ 21) lastPages := by
    refine ⟨by decide, fun a ha y _ hy x hx => ?_⟩
    rw [(hold y hy x hx).2]
    obtain rfl | rfl : a = _ ∨ a = _ := by simpa [lastPages] using ha
    · decide
    · decide
  refine ⟨m, hmapped, hsmall, lastPages_fresh m, hhanded, hnone, fun hno => ?_⟩
  have hend : regionEnd 0 (2 ^ 21) = 2 ^ 21 := by decide
  have hall := @NoLeak.mapped m 0 (2 ^ 21) 0x17 1 lastPages hmapped.wellFormed
    ⟨by decide, by decide⟩ (by decide) (by norm_num) (by rwa [hend]) (lastPages_fresh m)
    (by rwa [hend]) hno
  have hlost : (0xffffffc080200000, false) ∈
      (regionTakes m 0 (2 ^ 21) 1 0x17 lastPages).map fun t => (t.page, t.mapped) := by
    rw [htakes]
    exact List.mem_cons_self
  obtain ⟨t, ht, hpair⟩ := List.mem_map.mp hlost
  rw [Prod.mk.injEq, hall t ht] at hpair
  cases hpair.2

end Kmi.Uvmem
