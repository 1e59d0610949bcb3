import Kmi.Uvmem.Model
import Kmi.Vmem.PartialMap

/-! The mapping loops as changes of the translations of a range of addresses. -/

namespace Kmi.Uvmem

open Kmi.Mem Kmi.Vmem

variable {m m' : Space} {v y s c e bytes flags order fuel : ℕ} {x : Stat} {pages pages' : Pages}
  {answers : List Answer}

lemma orderSize_shift (ho : order ≤ maxOrder) : orderSize order = 2 ^ orderShift order :=
  if_pos ho

lemma page_uvmemEnd : Regions.page UVMEM_END = 2 ^ 26 - 2 ^ 21 := by decide

lemma page_uvmemEnd_mul : Regions.page UVMEM_END * 4096 = UVMEM_END := by decide

lemma alignDown_page (v : ℕ) : alignDown v basePageSize = v - v % 4096 := by
  rw [alignDown, basePageSize_eq, if_neg (by norm_num)]

lemma unmapRegion_eq (hv : v < 2 ^ 64) (hal : v % 4096 = 0) (hb : bytes % 4096 = 0)
    (hlt : bytes < 2 ^ 64) : unmapRegion m v bytes = unmapPages (512 ^ 3 + 1) v bytes m := by
  have hdown : v - v % 4096 = v := by omega
  have hup : sub64 (alignUp ((v + bytes) % 2 ^ 64) basePageSize) v = bytes := by
    rw [sub64, alignUp, alignDown_page, basePageSize_eq, if_pos (by omega)]
    omega
  rw [unmapRegion, alignDown_page, hdown, hup]

lemma pageOf_eq_iff_mem (ho : order ≤ maxOrder) (hal : v % orderSize order = 0) :
    pageOf y order = pageOf v order ↔ v ≤ y ∧ y < v + orderSize order := by
  have hpos := orderSize_pos ho
  obtain ⟨k, rfl⟩ := Nat.dvd_of_mod_eq_zero hal
  rw [pageOf, pageOf, ← orderSize_shift ho, Nat.mul_div_cancel_left _ hpos,
    Nat.div_eq_iff hpos, Nat.mul_comm]
  omega

lemma isLeaf_used {pte : ℕ} (h : isLeaf pte = true) : unused pte = false := by
  rw [← Bool.not_eq_true, unused_iff]
  have := (isLeaf_iff pte).1 h
  omega

lemma statVpage_eq_some : statVpage m v = some x ↔ ∃ b, Walks m v x.order b ∧
    isLeaf (m.leaf b (vmToIndex v x.order)) = true ∧
      entryStat (m.leaf b (vmToIndex v x.order)) x.order = some x := by
  constructor
  · intro h
    rw [statVpage] at h
    cases hf : findVmem m v maxOrder none with
    | none =>
      rw [hf] at h
      cases h
    | some r =>
      obtain ⟨b, idx, o⟩ := r
      obtain ⟨hw, rfl, hu, hl⟩ := findVmem_walks .top hf
      rw [hf] at h
      obtain rfl := Option.some.inj h
      exact ⟨b, hw, hl, by rw [entryStat, hu]; rfl⟩
  · rintro ⟨b, hw, hl, he⟩
    rw [hw.statVpage, statFrom_stops (by rw [stops, hl, Bool.or_true]), he]

lemma statVpage_order_le (h : statVpage m v = some x) : x.order ≤ maxOrder := by
  obtain ⟨b, hw, -⟩ := statVpage_eq_some.1 h
  exact hw.le

lemma statVpage_page (h : statVpage m v = some x) (hp : pageOf y x.order = pageOf v x.order) :
    statVpage m y = some x := by
  obtain ⟨b, hw, hl, he⟩ := statVpage_eq_some.1 h
  have hidx := ((pageOf_eq_iff y v x.order).1 hp).2
  rw [← hidx] at hl he
  exact statVpage_eq_some.2 ⟨b, hw.same_page hp.symm, hl, he⟩

lemma noLargerLeaf_of_order (h : ∀ x, statVpage m v = some x → x.order ≤ order) :
    NoLargerLeaf m v order := by
  intro o b ho hw
  by_contra hl
  rw [Bool.not_eq_false] at hl
  have hx : statVpage m v = some ⟨pteAddr (m.leaf b (vmToIndex v o)), o,
      pteFlags (m.leaf b (vmToIndex v o))⟩ := by
    rw [hw.statVpage, statFrom_stops (by rw [stops, hl, Bool.or_true]), entryStat, isLeaf_used hl]
    rfl
  exact absurd (h _ hx) (by simpa using ho)

lemma noLargerLeaf_of_none (h : statVpage m v = none) : NoLargerLeaf m v order := by
  apply noLargerLeaf_of_order
  intro x hx
  rw [h] at hx
  cases hx

lemma vmToIndex_mod (v : ℕ) {o : ℕ} (ho : o ≤ maxOrder) : vmToIndex (v % 2 ^ 39) o = vmToIndex v o := by
  rw [vmToIndex, vmToIndex, Nat.shiftRight_eq_div_pow, Nat.shiftRight_eq_div_pow]
  have hcases : o = 0 ∨ o = 1 ∨ o = 2 := by
    rw [maxOrder] at ho
    omega
  obtain rfl | rfl | rfl := hcases
  · rw [show orderShift 0 = 12 from rfl]
    omega
  · rw [show orderShift 1 = 21 from rfl]
    omega
  · rw [show orderShift 2 = 30 from rfl]
    omega

lemma findVmem_mod (m : Space) (v : ℕ) {o : ℕ} (b : Option ℕ) (ho : o ≤ maxOrder) :
    findVmem m (v % 2 ^ 39) o b = findVmem m v o b := by
  induction o generalizing b with
  | zero => rw [findVmem, findVmem, vmToIndex_mod v ho]
  | succ o ih =>
    rw [findVmem, findVmem, vmToIndex_mod v ho]
    simp only [ih _ (by omega)]

lemma statVpage_mod (m : Space) (v : ℕ) : statVpage m (v % 2 ^ 39) = statVpage m v := by
  rw [statVpage, statVpage, findVmem_mod m v none le_rfl]

lemma mapWalk_mod (v left : ℕ) {o : ℕ} (b : Option ℕ) (pages : Pages) (m : Space) (ho : o ≤ maxOrder) :
    mapWalk (v % 2 ^ 39) left o b pages m = mapWalk v left o b pages m := by
  induction left generalizing o b pages m with
  | zero => rfl
  | succ left ih =>
    rw [mapWalk, mapWalk, vmToIndex_mod v ho]
    dsimp only
    split_ifs
    · cases createLeaf m pages with
      | none => rfl
      | some r => exact ih _ _ _ (by omega)
    · exact ih _ _ _ (by omega)

lemma mapVpage_mod (m : Space) (paddr v flags : ℕ) {order : ℕ} (pages : Pages) (ho : order ≤ maxOrder) :
    mapVpage m paddr (v % 2 ^ 39) flags order pages = mapVpage m paddr v flags order pages := by
  rw [mapVpage, mapVpage, mapWalk_mod v _ none pages m le_rfl, vmToIndex_mod v ho, vmToIndex_mod v le_rfl]

def target (m : Space) (y : ℕ) : Option ℕ :=
  (statVpage m y).map fun x => (x.addr + y % orderSize x.order) % 2 ^ 64

inductive Tiled (m : Space) : ℕ → ℕ → Prop
  | nil (v : ℕ) : Tiled m v v
  | cons {v e : ℕ} {x : Stat} : statVpage m v = some x → v % orderSize x.order = 0 →
      Tiled m (v + orderSize x.order) e → Tiled m v e

lemma Tiled.le (h : Tiled m s e) : s ≤ e := by
  induction h with
  | nil => exact le_rfl
  | cons _ _ _ ih => omega

lemma Tiled.translated (h : Tiled m s e) (hs : s ≤ y) (he : y < e) : ∃ x, statVpage m y = some x := by
  induction h with
  | nil => omega
  | @cons v e x hx hal _ ih =>
    obtain hlt | hge := lt_or_ge y (v + orderSize x.order)
    · exact ⟨x, statVpage_page hx ((pageOf_eq_iff_mem (statVpage_order_le hx) hal).2 ⟨hs, hlt⟩)⟩
    · exact ih hge he

lemma Tiled.congr (h : Tiled m s e) (hc : ∀ y, s ≤ y → y < e → statVpage m' y = statVpage m y) :
    Tiled m' s e := by
  induction h with
  | nil => exact .nil _
  | @cons v e x hx hal ht ih =>
    have hpos := orderSize_pos (statVpage_order_le hx)
    have hle := ht.le
    apply Tiled.cons _ hal
    · exact ih fun y hy => hc y (by omega)
    · rw [hc v le_rfl (by omega), hx]

lemma Tiled.aligned (h : Tiled m s e) (hs : s % 4096 = 0) : e % 4096 = 0 := by
  induction h with
  | nil => exact hs
  | @cons v e x hx hal _ ih =>
    apply ih
    have := orderSize_eq (statVpage_order_le hx)
    omega

inductive Tiles (m : Space) : ℕ → ℕ → List (ℕ × ℕ) → Prop
  | nil (v : ℕ) : Tiles m v v []
  | cons {v e : ℕ} {x : Stat} {ps : List (ℕ × ℕ)} : statVpage m v = some x →
      v % orderSize x.order = 0 → Tiles m (v + orderSize x.order) e ps →
      Tiles m v e ((x.order, x.addr) :: ps)

lemma Tiles.tiled {ps : List (ℕ × ℕ)} (h : Tiles m s e ps) : Tiled m s e := by
  induction h with
  | nil v => exact .nil v
  | cons hx hal _ ih => exact .cons hx hal ih

lemma Tiled.tiles (h : Tiled m s e) : ∃ ps, Tiles m s e ps := by
  induction h with
  | nil v => exact ⟨[], .nil v⟩
  | cons hx hal _ ih =>
    obtain ⟨ps, hps⟩ := ih
    exact ⟨_, .cons hx hal hps⟩

lemma Tiles.congr {ps : List (ℕ × ℕ)} (h : Tiles m s e ps)
    (hc : ∀ y, s ≤ y → y < e → statVpage m' y = statVpage m y) : Tiles m' s e ps := by
  induction h with
  | nil => exact .nil _
  | @cons v e x ps hx hal ht ih =>
    have hpos := orderSize_pos (statVpage_order_le hx)
    have hle := ht.tiled.le
    apply Tiles.cons _ hal
    · exact ih fun y hy => hc y (by omega)
    · rw [hc v le_rfl (by omega), hx]

structure FreshAnswers (m : Space) (answers : List Answer) : Prop where
  pages : ∀ a ∈ answers, a.page < 2 ^ 64 ∧ a.page % 4096 = 0
  tables : FreshPages m (answers.flatMap Answer.tables)

lemma FreshAnswers.rest {a : Answer} (h : FreshAnswers m (a :: answers))
    (ht : TablesFrom m a.tables m') : FreshAnswers m' answers := by
  refine ⟨fun b hb => h.pages b (List.mem_cons_of_mem _ hb), ?_⟩
  have := h.tables
  rw [List.flatMap_cons] at this
  exact this.after ht

def PageFlags (flags : ℕ) : Prop := flags < 256 ∧ flags &&& VM_V ≠ 0

lemma sanitizeUvflags_pageFlags (flags : ℕ) : PageFlags (sanitizeUvflags flags) := by
  have h : ∀ f < 15, PageFlags (f ||| VM_V ||| VM_U) := by
    unfold PageFlags
    decide
  exact h _ (Nat.lt_succ_of_le Nat.and_le_right)

lemma shift_page (n : ℕ) : (n >>> orderShift 0) <<< orderShift 0 = n - n % 4096 := by
  rw [Nat.shiftLeft_eq, Nat.shiftRight_eq_div_pow, show 2 ^ orderShift 0 = 4096 from rfl]
  omega

lemma alignRegion_aligned (hs : s % 4096 = 0) (hb : bytes % 4096 = 0) (he : s + bytes < 2 ^ 64) :
    alignRegion s bytes = (s, bytes) := by
  simp only [alignRegion, Nat.mod_eq_of_lt he, shift_page, sub64, Prod.mk.injEq]
  split_ifs <;> omega

def OnlyBasePages (m : Space) (s e : ℕ) : Prop :=
  ∀ y, s ≤ y → y < e → ∀ x, statVpage m y = some x → x.order = 0

structure TryEnds (flags order s bytes : ℕ) (answers : List Answer) (m m' : Space)
    (rest : List Answer) (mapped : Bool) : Prop where
  ends : tryPage m flags order s bytes answers = (m', rest, mapped)
  fresh : FreshAnswers m' rest
  wf : WellFormed m'
  refused : mapped = false → (∀ t ∈ tryTakes m flags order s bytes answers, t.mapped = false) ∧
    ∀ y < 2 ^ 39, statVpage m' y = statVpage m y
  taken : mapped = true → orderSize order ≤ bytes ∧ s % orderSize order = 0 ∧ ∃ page,
    tryTakes m flags order s bytes answers = [⟨order, page, true⟩] ∧
      ∀ y < 2 ^ 39, statVpage m' y = if s ≤ y ∧ y < s + orderSize order
        then some ⟨page, order, flags ||| (VM_A ||| VM_D)⟩ else statVpage m y

lemma tryEnds_idle {rest : List Answer} (hw : WellFormed m) (hrest : FreshAnswers m rest)
    (htry : tryPage m flags order s bytes answers = (m, rest, false))
    (hnone : tryTakes m flags order s bytes answers = []) :
    TryEnds flags order s bytes answers m m rest false := by
  refine ⟨htry, hrest, hw, fun _ => ⟨?_, fun _ _ => rfl⟩, fun h => by cases h⟩
  rw [hnone]
  intro t ht
  cases ht

lemma tryPage_spec (hf : PageFlags flags) (ho : order ≤ maxOrder) (hw : WellFormed m)
    (hb : bytes ≠ 0) (he : s + bytes ≤ 2 ^ 39) (hsmall : OnlyBasePages m s (s + bytes))
    (ha : FreshAnswers m answers) :
    ∃ m' rest mapped, TryEnds flags order s bytes answers m m' rest mapped := by
  by_cases hsize : orderSize order > bytes
  · exact ⟨m, answers, false, tryEnds_idle hw ha (if_pos hsize) (if_pos hsize)⟩
  by_cases hal : isAligned s (orderSize order) = true
  swap
  · exact ⟨m, answers, false, tryEnds_idle hw ha (by simp [tryPage, hsize, hal])
      (by simp [tryTakes, hsize, hal])⟩
  cases answers with
  | nil =>
    exact ⟨m, [], false, tryEnds_idle hw ha (by simp [tryPage, hsize, hal])
      (by simp [tryTakes, hsize, hal])⟩
  | cons a rest =>
    by_cases hz : a.page = 0
    · exact ⟨m, rest, false, tryEnds_idle hw (ha.rest (.refl m _))
        (by simp [tryPage, hsize, hal, hz]) (by simp [tryTakes, hsize, hal, hz])⟩
    have htry : tryPage m flags order s bytes (a :: rest) = ((mapVpage m a.page s flags order a.tables).1,
        rest, decide ((mapVpage m a.page s flags order a.tables).2 = OK)) := by
      simp [tryPage, hsize, hal, hz]
    have htake : tryTakes m flags order s bytes (a :: rest) =
        [⟨order, a.page, decide ((mapVpage m a.page s flags order a.tables).2 = OK)⟩] := by
      simp [tryTakes, htry, hsize, hal, hz]
    obtain ⟨hp, hpal⟩ := ha.pages a (List.mem_cons_self ..)
    have htables := ha.tables
    rw [List.flatMap_cons] at htables
    have hlarger : NoLargerLeaf m s order := by
      apply noLargerLeaf_of_order
      intro x hx
      rw [hsmall s le_rfl (by omega) x hx]
      exact Nat.zero_le order
    obtain ⟨hw', ht, hcase⟩ := mapVpage_spec hw hf.1 hf.2 hp hpal (by omega) ho hlarger
      htables.prefixed
    refine ⟨_, rest, _, htry, ha.rest ht, hw', ?_, ?_⟩
    · intro hno
      rw [htake, hno]
      refine ⟨fun t ht => by rw [List.mem_singleton.mp ht], ?_⟩
      obtain ⟨hok, -⟩ | ⟨-, hstat⟩ := hcase
      · simp [hok] at hno
      · exact hstat
    · intro hyes
      have hal := (isAligned_iff (orderSize_pos ho)).1 hal
      rw [htake, hyes]
      refine ⟨by omega, hal, a.page, rfl, fun y hy => ?_⟩
      obtain ⟨-, hstat⟩ | ⟨herr, -⟩ := hcase
      · rw [hstat y hy]
        simp only [pageOf_eq_iff_mem ho hal]
      · rw [decide_eq_true_eq] at hyes
        rw [hyes] at herr
        exact absurd herr (by decide)

def mappedPages (ts : List Take) : List (ℕ × ℕ) :=
  (ts.filter Take.mapped).map fun t => (t.order, t.page)

structure Lays (flags : ℕ) (m m' : Space) (s c : ℕ) (ps : List (ℕ × ℕ)) : Prop where
  wf : WellFormed m'
  tiles : Tiles m' s c ps
  flags : ∀ y, s ≤ y → y < c → ∀ x, statVpage m' y = some x → x.flags = flags ||| (VM_A ||| VM_D)
  rest : ∀ y < 2 ^ 39, y < s ∨ c ≤ y → statVpage m' y = statVpage m y

lemma mapPages_takes (hf : PageFlags flags) (ho : order ≤ maxOrder) (hw : WellFormed m)
    (hs : s % 4096 = 0) (hb : bytes % 4096 = 0) (he : s + bytes ≤ 2 ^ 39)
    (hsmall : OnlyBasePages m s (s + bytes)) (ha : FreshAnswers m answers)
    (hfuel : bytes / 4096 + order < fuel) :
    ∃ m' ret c, mapPages flags fuel order s bytes answers m = some (m', ret) ∧
      Lays flags m m' s c (mappedPages (takes flags fuel order s bytes answers m)) ∧
      c ≤ s + bytes ∧ (ret = OK ∧ c = s + bytes ∨ ret = ERR_MISC) := by
  induction fuel generalizing m s bytes order answers with
  | zero => omega
  | succ fuel ih =>
    rw [mapPages, takes]
    by_cases hz : bytes = 0
    · rw [if_pos hz, if_pos hz]
      refine ⟨m, OK, s, rfl, ⟨hw, .nil s, fun y h₁ h₂ => ?_, fun _ _ _ => rfl⟩, by omega,
        .inl ⟨rfl, by omega⟩⟩
      omega
    rw [if_neg hz, if_neg hz]
    obtain ⟨m₁, rest, mapped, htry, ha₁, hw₁, hrefused, htaken⟩ :=
      tryPage_spec hf ho hw hz he hsmall ha
    cases mapped with
    | false =>
      obtain ⟨hno, hstat⟩ := hrefused rfl
      have hnone : ∀ ts, mappedPages (tryTakes m flags order s bytes answers ++ ts) =
          mappedPages ts := by
        intro ts
        have hempty : (tryTakes m flags order s bytes answers).filter Take.mapped = [] := by
          apply List.filter_eq_nil_iff.mpr
          intro t ht
          rw [hno t ht]
          decide
        rw [mappedPages, List.filter_append, hempty, List.nil_append, mappedPages]
      simp only [htry, Bool.false_eq_true, if_false, hnone]
      split_ifs with hzero
      · refine ⟨m₁, ERR_MISC, s, rfl, ⟨hw₁, .nil s, fun y h₁ h₂ => ?_, fun y hy _ => hstat y hy⟩,
          by omega, .inr rfl⟩
        omega
      · -- the next smaller order goes on from the same page
        have hsmall₁ : OnlyBasePages m₁ s (s + bytes) := by
          intro y hy hy'
          rw [hstat y (by omega)]
          exact hsmall y hy hy'
        obtain ⟨m', ret, c, heq, hm, hc, hret⟩ := @ih m₁ s bytes (order - 1) rest (by omega) hw₁ hs
          hb he hsmall₁ ha₁ (by omega)
        refine ⟨m', ret, c, heq, ⟨hm.wf, hm.tiles, hm.flags, fun y hy hout => ?_⟩, hc, hret⟩
        rw [hm.rest y hy hout, hstat y hy]
    | true =>
      obtain ⟨hle, hal, page, htake, hstat⟩ := htaken rfl
      have hsize := orderSize_eq ho
      have hpos := orderSize_pos ho
      have hmod : (s + orderSize order) % 2 ^ 64 = s + orderSize order := Nat.mod_eq_of_lt (by omega)
      have hone : ∀ ts, mappedPages (tryTakes m flags order s bytes answers ++ ts) =
          (order, page) :: mappedPages ts := by
        intro ts
        rw [htake]
        rfl
      simp only [htry, if_true, hmod, hone]
      have hsmall₁ : OnlyBasePages m₁ (s + orderSize order)
          (s + orderSize order + (bytes - orderSize order)) := by
        intro y hy hy'
        rw [hstat y (by omega), if_neg (by omega)]
        exact hsmall y (by omega) (by omega)
      obtain ⟨m', ret, c, heq, hm, hc, hret⟩ := @ih m₁ (s + orderSize order) (bytes - orderSize order)
        order rest ho hw₁ (by omega) (by omega) (by omega) hsmall₁ ha₁ (by omega)
      have hsc := hm.tiles.tiled.le
      have hfirst : ∀ y, s ≤ y → y < s + orderSize order →
          statVpage m' y = some ⟨page, order, flags ||| (VM_A ||| VM_D)⟩ := by
        intro y hy hy'
        rw [hm.rest y (by omega) (by omega), hstat y (by omega), if_pos ⟨hy, hy'⟩]
      refine ⟨m', ret, c, heq, ⟨hm.wf, ?_, fun y hy hyc x hx => ?_, fun y hy hout => ?_⟩,
        by omega, ?_⟩
      · exact @Tiles.cons m' s c ⟨page, order, flags ||| (VM_A ||| VM_D)⟩ _
          (hfirst s le_rfl (by omega)) hal hm.tiles
      · obtain hlt | hge := lt_or_ge y (s + orderSize order)
        · rw [hfirst y hy hlt] at hx
          cases hx
          rfl
        · exact hm.flags y hge hyc x hx
      · rw [hm.rest y hy (by omega), hstat y hy, if_neg (by omega)]
      · exact hret.imp (fun h => ⟨h.1, by omega⟩) id

structure Maps (m m' : Space) (s c : ℕ) : Prop where
  wf : WellFormed m'
  tiled : Tiled m' s c
  rest : ∀ y < 2 ^ 39, y < s ∨ c ≤ y → statVpage m' y = statVpage m y

lemma mapPages_spec (hf : PageFlags flags) (ho : order ≤ maxOrder) (hw : WellFormed m)
    (hs : s % 4096 = 0) (hb : bytes % 4096 = 0) (he : s + bytes ≤ 2 ^ 39)
    (hn : ∀ y, s ≤ y → y < s + bytes → statVpage m y = none) (ha : FreshAnswers m answers)
    (hfuel : bytes / 4096 + order < fuel) :
    ∃ m' ret c, mapPages flags fuel order s bytes answers m = some (m', ret) ∧ Maps m m' s c ∧
      c ≤ s + bytes ∧ (ret = OK ∧ c = s + bytes ∨ ret = ERR_MISC) := by
  have hsmall : OnlyBasePages m s (s + bytes) := by
    intro y hy hy' x hx
    rw [hn y hy hy'] at hx
    cases hx
  obtain ⟨m', ret, c, heq, hm, hc⟩ := mapPages_takes hf ho hw hs hb he hsmall ha hfuel
  exact ⟨m', ret, c, heq, ⟨hm.wf, hm.tiles.tiled, hm.rest⟩, hc⟩

structure Unmaps (m m' : Space) (s c : ℕ) : Prop where
  wf : WellFormed m'
  stat : ∀ y < 2 ^ 39, statVpage m' y = if s ≤ y ∧ y < c then none else statVpage m y
  branches : ∀ i, unused (m.root i) = false → isLeaf (m.root i) = false → m'.root i = m.root i

lemma Unmaps.refl (hw : WellFormed m) (c : ℕ) : Unmaps m m c c := by
  refine ⟨hw, fun y _ => ?_, fun _ _ _ => rfl⟩
  rw [if_neg (by omega)]

lemma unmapPages_peel {ps : List (ℕ × ℕ)} (ht : Tiles m s c ps) (hw : WellFormed m)
    (hc : c ≤ s + bytes) (he : s + bytes ≤ 2 ^ 39) :
    ∃ m₁, Unmaps m m₁ s c ∧ ∀ fuel, unmapPages (fuel + ps.length) s bytes m =
      (unmapPages fuel c (s + bytes - c) m₁).map fun r => (r.1, ps ++ r.2) := by
  induction ps generalizing m s bytes with
  | nil =>
    cases ht
    refine ⟨m, .refl hw c, fun fuel => ?_⟩
    rw [List.length_nil, Nat.add_zero, Nat.add_sub_cancel_left]
    cases unmapPages fuel c bytes m <;> rfl
  | cons p ps ih =>
    cases ht with
    | @cons _ _ x _ hx hal ht =>
      have ho := statVpage_order_le hx
      have hpos := orderSize_pos ho
      have hle := ht.tiled.le
      obtain ⟨hw₁, ⟨-, hnone, -⟩ | ⟨-, x', hx', hstat⟩⟩ := @unmapVpage_spec m s hw (by omega)
      · rw [hx] at hnone
        cases hnone
      obtain rfl := Option.some.inj (hx.symm.trans hx')
      simp only [pageOf_eq_iff_mem ho hal] at hstat
      have hmod : (s + orderSize x.order) % 2 ^ 64 = s + orderSize x.order := Nat.mod_eq_of_lt (by omega)
      have hsub : sub64 bytes (orderSize x.order) = bytes - orderSize x.order := by
        rw [sub64]
        omega
      have hout : ∀ y, s + orderSize x.order ≤ y → y < 2 ^ 39 →
          statVpage (unmapVpage m s).1 y = statVpage m y := by
        intro y hy hlt
        rw [hstat y hlt, if_neg (by omega)]
      obtain ⟨m₁, hu, hrest⟩ := @ih (unmapVpage m s).1 (s + orderSize x.order)
        (bytes - orderSize x.order) (ht.congr fun y hy hy' => hout y hy (by omega)) hw₁ (by omega)
        (by omega)
      refine ⟨m₁, ⟨hu.wf, fun y hy => ?_, fun i hused hl => ?_⟩, fun fuel => ?_⟩
      · rw [hu.stat y hy, hstat y hy]
        split_ifs <;> first | rfl | omega
      · have hroot : (unmapVpage m s).1.root i = m.root i := by
          apply unmapVpage_root hused
          intro _
          exact hl
        rw [← hroot] at hused hl ⊢
        exact hu.branches i hused hl
      · have hleft : s + orderSize x.order + (bytes - orderSize x.order) - c = s + bytes - c := by
          omega
        rw [List.length_cons, ← Nat.add_assoc, unmapPages, if_neg (by omega), hx]
        simp only [hmod, hsub, hrest, hleft]
        cases unmapPages fuel c (s + bytes - c) m₁ <;> rfl

lemma unmapPages_tiles {ps : List (ℕ × ℕ)} (ht : Tiles m s c ps) (hw : WellFormed m)
    (he : s + bytes ≤ 2 ^ 39) (hc : c ≤ s + bytes)
    (hend : c = s + bytes ∨ statVpage m c = none) (hfuel : ps.length < fuel) :
    ∃ m', unmapPages fuel s bytes m = some (m', ps) ∧ Unmaps m m' s c := by
  obtain ⟨m', hu, hrest⟩ := unmapPages_peel ht hw hc he
  refine ⟨m', ?_, hu⟩
  obtain ⟨left, rfl⟩ : ∃ left, fuel = left + 1 + ps.length := ⟨fuel - ps.length - 1, by omega⟩
  rw [hrest, unmapPages]
  by_cases hz : s + bytes - c = 0
  · rw [if_pos hz, Option.map_some, List.append_nil]
  · have hnone : statVpage m' c = none := by
      rw [hu.stat c (by omega), if_neg (by omega)]
      exact hend.resolve_left (by omega)
    rw [if_neg hz, hnone, Option.map_some, List.append_nil]

lemma Tiles.length_le {ps : List (ℕ × ℕ)} (h : Tiles m s e ps) : s + ps.length * 4096 ≤ e := by
  induction h with
  | nil => simp
  | @cons v e x ps hx _ _ ih =>
    have hsize := orderSize_eq (statVpage_order_le hx)
    have hpow : 0 < 512 ^ x.order := by positivity
    rw [List.length_cons]
    omega

lemma unmapPages_spec (ht : Tiled m s c) (hw : WellFormed m) (he : s + bytes ≤ 2 ^ 39)
    (hc : c ≤ s + bytes) (hend : c = s + bytes ∨ statVpage m c = none)
    (hfuel : bytes / 4096 < fuel) :
    ∃ m' freed, unmapPages fuel s bytes m = some (m', freed) ∧ Unmaps m m' s c := by
  obtain ⟨ps, hps⟩ := ht.tiles
  have hlen := hps.length_le
  obtain ⟨m', heq, hu⟩ := unmapPages_tiles hps hw he hc hend (by omega : ps.length < fuel)
  exact ⟨m', ps, heq, hu⟩

end Kmi.Uvmem
