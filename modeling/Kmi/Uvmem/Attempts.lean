import Kmi.Uvmem.Supply

/-! Whether `map_vpage` maps each page that `map_region` takes is decided before the loop
starts: by the entries in use, the tables that are there and the pages for the others. -/

namespace Kmi.Uvmem

open Kmi.Mem Kmi.Vmem

variable {m m₁ : Space} {s bytes flags order fuel : ℕ} {a : Answer} {answers rest : List Answer}
  {before ts : List Attempt} {t u : Attempt}

structure Attempt where
  order : ℕ
  addr : ℕ
  answer : Answer

def asked (order start bytes : ℕ) (answers : List Answer) : Option Answer × List Answer :=
  if orderSize order > bytes then (none, answers)
  else if !isAligned start (orderSize order) then (none, answers)
  else
    match answers with
    | [] => (none, [])
    | a :: answers => (if a.page = 0 then none else some a, answers)

def attempts : ℕ → ℕ → ℕ → ℕ → List Answer → List Attempt
  | 0, _, _, _, _ => []
  | fuel + 1, order, start, bytes, answers =>
    if bytes = 0 then []
    else
      match asked order start bytes answers with
      | (some a, rest) =>
        ⟨order, start, a⟩ :: attempts fuel order ((start + orderSize order) % 2 ^ 64) (bytes - orderSize order) rest
      | (none, rest) => if order = 0 then [] else attempts fuel (order - 1) start bytes rest

def regionAttempts (start bytes order : ℕ) (answers : List Answer) : List Attempt :=
  let (start, bytes) := alignRegion start bytes
  attempts (bytes / basePageSize + order + 1) order start bytes answers

/-- The entry is not in use, and there is a page for each table that is missing on the way
to it and that no page before needs too. -/
def Ready (m : Space) (before : List Attempt) (t : Attempt) : Prop :=
  EmptyAt m t.addr t.order ∧ ∀ i < maxOrder - t.order, ¬ HasTable m t.addr (t.order + i) →
    (∀ u ∈ before, u.order ≤ t.order + i →
      pageOf u.addr (t.order + i + 1) ≠ pageOf t.addr (t.order + i + 1)) →
    t.answer.tables.getD i 0 ≠ 0

def AllReady (m : Space) (ts : List Attempt) : Prop :=
  ∀ before t after, ts = before ++ t :: after → Ready m before t

lemma allReady_nil : AllReady m [] := by
  intro before t after h
  cases before <;> cases h

lemma allReady_cons : AllReady m (t :: ts) ↔
    Ready m [] t ∧ ∀ before u after, ts = before ++ u :: after → Ready m (t :: before) u := by
  refine ⟨fun h => ⟨h [] t ts rfl, fun before u after he => h (t :: before) u after (by rw [he]; rfl)⟩, ?_⟩
  rintro ⟨hfirst, hrest⟩ before u after he
  cases before with
  | nil =>
    obtain ⟨rfl, -⟩ := List.cons.inj he
    exact hfirst
  | cons t' before =>
    rw [List.cons_append] at he
    obtain ⟨rfl, htail⟩ := List.cons.inj he
    exact hrest before u after htail

lemma asked_some (h : asked order s bytes answers = (some a, rest)) :
    ¬ orderSize order > bytes ∧ isAligned s (orderSize order) = true ∧ answers = a :: rest ∧ a.page ≠ 0 := by
  unfold asked at h
  split_ifs at h with hsize hal
  · cases h
  · cases h
  · rw [Bool.not_eq_true', Bool.not_eq_false] at hal
    cases answers with
    | nil => cases h
    | cons b answers =>
      obtain ⟨hb, rfl⟩ := Prod.mk.inj h
      split_ifs at hb with hz
      cases hb
      exact ⟨hsize, hal, rfl, hz⟩

lemma tryPage_some (flags : ℕ) (m : Space) (h : asked order s bytes answers = (some a, rest)) :
    tryPage m flags order s bytes answers = ((mapVpage m a.page s flags order a.tables).1, rest,
        decide ((mapVpage m a.page s flags order a.tables).2 = OK)) ∧
      tryTakes m flags order s bytes answers =
        [⟨order, a.page, decide ((mapVpage m a.page s flags order a.tables).2 = OK)⟩] := by
  obtain ⟨hsize, hal, rfl, hz⟩ := asked_some h
  have htry : tryPage m flags order s bytes (a :: rest) = ((mapVpage m a.page s flags order a.tables).1,
      rest, decide ((mapVpage m a.page s flags order a.tables).2 = OK)) := by
    simp [tryPage, hsize, hal, hz]
  exact ⟨htry, by simp [tryTakes, htry, hsize, hal, hz]⟩

lemma tryPage_none (flags : ℕ) (m : Space) (h : asked order s bytes answers = (none, rest)) :
    tryPage m flags order s bytes answers = (m, rest, false) ∧
      tryTakes m flags order s bytes answers = [] ∧ (rest = answers ∨ ∃ b, answers = b :: rest) := by
  unfold asked at h
  unfold tryPage tryTakes
  split_ifs at h ⊢ with hsize hal
  · cases h
    exact ⟨rfl, rfl, .inl rfl⟩
  · cases h
    exact ⟨rfl, rfl, .inl rfl⟩
  · cases answers with
    | nil =>
      cases h
      exact ⟨rfl, rfl, .inl rfl⟩
    | cons b answers =>
      obtain ⟨hb, rfl⟩ := Prod.mk.inj h
      split_ifs at hb with hz
      simp [hz]

lemma takes_sublist (flags : ℕ) (m : Space) : ((takes flags fuel order s bytes answers m).map Take.page).Sublist
    ((answers.map Answer.page).filter (· ≠ 0)) := by
  induction fuel generalizing order s bytes answers m with
  | zero => exact List.nil_sublist _
  | succ fuel ih =>
    rw [takes]
    by_cases hz : bytes = 0
    · rw [if_pos hz]
      exact List.nil_sublist _
    rw [if_neg hz]
    cases hasked : asked order s bytes answers with | mk o rest
    cases o with
    | none =>
      obtain ⟨htry, htakes, hrest⟩ := tryPage_none flags m hasked
      have hsub : ((rest.map Answer.page).filter (· ≠ 0)).Sublist ((answers.map Answer.page).filter (· ≠ 0)) := by
        obtain rfl | ⟨b, rfl⟩ := hrest
        · exact .refl _
        · exact (List.sublist_cons_self _ _).filter _
      rw [htry, htakes]
      simp only [List.nil_append, Bool.false_eq_true, if_false]
      split_ifs
      · exact List.nil_sublist _
      · exact (ih m).trans hsub
    | some a =>
      obtain ⟨htry, htakes⟩ := tryPage_some flags m hasked
      obtain ⟨-, -, rfl, ha⟩ := asked_some hasked
      rw [htry, htakes, List.map_cons, List.filter_cons_of_pos (by simpa using ha)]
      dsimp only
      rw [List.singleton_append, List.map_cons]
      refine List.Sublist.cons_cons _ ?_
      split_ifs
      · exact ih _
      · exact List.nil_sublist _
      · exact ih _

lemma attempts_bounds (he : s + bytes ≤ 2 ^ 39) :
    ∀ u ∈ attempts fuel order s bytes answers, u.order ≤ order ∧ s ≤ u.addr ∧ u.addr < s + bytes := by
  induction fuel generalizing order s bytes answers with
  | zero =>
    intro u hu
    cases hu
  | succ fuel ih =>
    intro u hu
    rw [attempts] at hu
    by_cases hz : bytes = 0
    · rw [if_pos hz] at hu
      cases hu
    rw [if_neg hz] at hu
    cases hasked : asked order s bytes answers with | mk o rest
    rw [hasked] at hu
    cases o with
    | some a =>
      obtain ⟨hsize, -⟩ := asked_some hasked
      obtain rfl | hu := List.mem_cons.1 hu
      · exact ⟨le_rfl, le_rfl, by dsimp only; omega⟩
      · rw [Nat.mod_eq_of_lt (by omega)] at hu
        have := ih (by omega) u hu
        omega
    | none =>
      by_cases hzero : order = 0
      · simp [hzero] at hu
      · simp only [hzero, if_false] at hu
        have := ih he u hu
        omega

lemma pageOf_ne {v y o i : ℕ} (ho : o ≤ maxOrder) (hi : i ≤ o) (hy : v + orderSize o ≤ y) :
    pageOf y i ≠ pageOf v i := by
  have hle : orderSize i ≤ orderSize o := by
    rw [orderSize_eq ho, orderSize_eq (hi.trans ho)]
    exact Nat.mul_le_mul_left _ (Nat.pow_le_pow_right (by norm_num) hi)
  have hpos := orderSize_pos (hi.trans ho)
  rw [pageOf, pageOf, ← orderSize_shift (hi.trans ho)]
  have hdiv : (v + orderSize i) / orderSize i = v / orderSize i + 1 := Nat.add_div_right v hpos
  have hmono : (v + orderSize i) / orderSize i ≤ y / orderSize i := Nat.div_le_div_right (by omega)
  omega

lemma Opened.ready (h : Opened t.addr t.order m t.answer.tables m₁) (hp : FreshPages m t.answer.tables)
    (hu : u.addr < 2 ^ 39) (ho : u.order ≤ t.order) (hne : pageOf u.addr u.order ≠ pageOf t.addr u.order) :
    Ready m₁ before u ↔ Ready m (t :: before) u := by
  rw [Ready, Ready, h.emptyAt hp hu ho hne, and_congr_right_iff]
  intro _
  refine forall_congr' fun i => forall_congr' fun hi => ?_
  rw [h.hasTable hp hu (by omega), not_or, List.forall_mem_cons]
  constructor
  · rintro hall hno ⟨hfirst, hrest⟩
    exact hall ⟨hno, fun ⟨hle, hpage⟩ => hfirst hle hpage.symm⟩ hrest
  · rintro hall ⟨hno, hfirst⟩ hrest
    exact hall hno ⟨fun hle hpage => hfirst ⟨hle, hpage.symm⟩, hrest⟩

lemma takes_mapped_iff (hf : PageFlags flags) (ho : order ≤ maxOrder) (hw : WellFormed m)
    (he : s + bytes ≤ 2 ^ 39) (hsmall : OnlyBasePages m s (s + bytes)) (ha : FreshAnswers m answers) :
    (∀ t ∈ takes flags fuel order s bytes answers m, t.mapped = true) ↔
      AllReady m (attempts fuel order s bytes answers) := by
  induction fuel generalizing m order s bytes answers with
  | zero => exact iff_of_true (fun t ht => by cases ht) allReady_nil
  | succ fuel ih =>
    rw [takes, attempts]
    by_cases hz : bytes = 0
    · rw [if_pos hz, if_pos hz]
      exact iff_of_true (fun t ht => by cases ht) allReady_nil
    rw [if_neg hz, if_neg hz]
    cases hasked : asked order s bytes answers with | mk o rest
    cases o with
    | none =>
      obtain ⟨htry, htakes, hrest⟩ := tryPage_none flags m hasked
      have ha' : FreshAnswers m rest := by
        obtain rfl | ⟨b, rfl⟩ := hrest
        · exact ha
        · exact ha.rest (.refl m _)
      rw [htry, htakes]
      simp only [List.nil_append, Bool.false_eq_true, if_false]
      by_cases hzero : order = 0
      · rw [if_pos hzero, if_pos hzero]
        exact iff_of_true (fun t ht => by cases ht) allReady_nil
      · rw [if_neg hzero, if_neg hzero]
        exact ih (by omega) hw he hsmall ha'
    | some a =>
      obtain ⟨htry, htakes⟩ := tryPage_some flags m hasked
      obtain ⟨hsize, hal, rfl, -⟩ := asked_some hasked
      rw [isAligned_iff (orderSize_pos ho)] at hal
      have hpos := orderSize_pos ho
      obtain ⟨hp, hpal⟩ := ha.pages a List.mem_cons_self
      have htables : FreshPages m a.tables := by
        have := ha.tables
        rw [List.flatMap_cons] at this
        exact this.prefixed
      have hlarger : NoLargerLeaf m s order := by
        apply noLargerLeaf_of_order
        intro x hx
        rw [hsmall s le_rfl (by omega) x hx]
        exact Nat.zero_le order
      have hs : s < 2 ^ 39 := by omega
      obtain ⟨hiff, hopens⟩ := @mapVpage_supplied m s a.page flags order a.tables hf hw hs ho hlarger htables
      obtain ⟨hw₁, ht, hcase⟩ := mapVpage_spec hw hf.1 hf.2 hp hpal hs ho hlarger htables
      have hgrows := mapVpage_grows m a.page s flags order a.tables
      have hready : (mapVpage m a.page s flags order a.tables).2 = OK ↔ Ready m [] ⟨order, s, a⟩ := by
        rw [hiff, Ready]
        simp
      rw [htry, htakes]
      generalize mapVpage m a.page s flags order a.tables = r at hopens hw₁ ht hcase hgrows hready
      obtain ⟨m₁, ret⟩ := r
      dsimp only at hopens hw₁ ht hcase hgrows hready ⊢
      rw [allReady_cons, ← hready]
      obtain ⟨rfl, hstat⟩ | ⟨herr, -⟩ := hcase
      · have hnew : statVpage m₁ s = some ⟨a.page, order, flags ||| (VM_A ||| VM_D)⟩ := by
          rw [hstat s hs, if_pos rfl]
        obtain ⟨b, hb, -⟩ := statVpage_eq_some.1 hnew
        have hopened : Opened s order m a.tables m₁ := ⟨hopens, hgrows, b, hb⟩
        have hmod : (s + orderSize order) % 2 ^ 64 = s + orderSize order := Nat.mod_eq_of_lt (by omega)
        have hsmall₁ : OnlyBasePages m₁ (s + orderSize order) (s + orderSize order + (bytes - orderSize order)) := by
          intro y hy hy' x hx
          rw [hstat y (by omega), if_neg] at hx
          · exact hsmall y (by omega) (by omega) x hx
          · rw [pageOf_eq_iff_mem ho hal]
            omega
        simp only [decide_true, if_true, hmod]
        rw [List.forall_mem_append, ih ho hw₁ (by omega) hsmall₁ (ha.rest ht)]
        refine and_congr (by simp) ?_
        refine forall_congr' fun before => forall_congr' fun u => forall_congr' fun after => ?_
        refine forall_congr' fun heq => ?_
        obtain ⟨huo, hus, hue⟩ := @attempts_bounds (s + orderSize order) (bytes - orderSize order) order fuel rest
          (by omega) u (by rw [heq]; simp)
        exact (@Opened.ready m m₁ before ⟨order, s, a⟩ u hopened) htables (by omega) huo (pageOf_ne ho huo hus)
      · have herr' : ret ≠ OK := by
          obtain rfl | rfl := herr <;> decide
        refine iff_of_false (fun hall => ?_) fun hall => herr' hall.1
        have := hall ⟨order, a.page, decide (ret = OK)⟩ (by simp)
        exact herr' (of_decide_eq_true this)

end Kmi.Uvmem
