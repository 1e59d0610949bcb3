import Kmi.Elf.Model
import Kmi.Uvmem.FixedMaps
import Kmi.Uvmem.Runs

/-! What a process sees of its image after `load_elf`. The pages of a segment are filled from
the address of its first page on, though its bytes belong where the segment starts. -/

namespace Kmi.Elf

open Kmi.Mem Kmi.Vmem Kmi.Regions Kmi.Uvmem

variable {image ram ram' : Bytes} {m m' : Space} {u u' : UserVmem} {p v y elf va vaz vf vfz flags fuel : ℕ}
  {runner ei_c phsize left bin : ℕ} {pages rest tables : Pages} {answers : List Answer}
  {sections : List SectionAnswers} {s : ProgramHeader}

def supply (answers : List Answer) : Pages := answers.flatMap fun a => a.page :: a.tables

def sectionsSupply (sections : List SectionAnswers) : Pages := sections.flatMap fun a => supply a.pages

def view (m : Space) (ram : Bytes) (y : ℕ) : Option (UInt8 × ℕ) :=
  (statVpage m y).map fun x => (ram (x.addr + y % orderSize x.order), x.flags)

structure Loading (m : Space) (pages : Pages) : Prop where
  wf : WellFormed m
  fresh : FreshPages m pages
  base : ∀ y < UVMEM_END, ∀ x, statVpage m y = some x → x.order = 0 ∧ x.addr % 4096 = 0 ∧ x.addr ∉ pages

lemma Loading.drop (h : Loading m (pages ++ rest)) : Loading m rest :=
  ⟨h.wf, h.fresh.after (.refl m pages), fun y hy x hx =>
    ⟨(h.base y hy x hx).1, (h.base y hy x hx).2.1, fun hm =>
      (h.base y hy x hx).2.2 (List.mem_append_right _ hm)⟩⟩

lemma uvmemEnd_lt (hy : y < UVMEM_END) : y < 2 ^ 38 := by
  rw [UVMEM_END] at hy
  omega

lemma walkPage_eq_iff (hy : y < UVMEM_END) (hv : v < UVMEM_END) :
    walkPage y = walkPage v ↔ y / 4096 = v / 4096 := by
  have := uvmemEnd_lt hy
  have := uvmemEnd_lt hv
  rw [walkPage, walkPage, Nat.mod_eq_of_lt (by omega), Nat.mod_eq_of_lt (by omega)]

section Place

variable (h : Loading m (p :: tables ++ rest)) (hp : p ≠ 0) (hf : PageFlags flags) (hv : v < UVMEM_END)
  (hok : (mapVpage m p v flags 0 tables).2 = OK)

include h hf hv hok

lemma Loading.place_stat (hy : y < UVMEM_END) : statVpage (mapVpage m p v flags 0 tables).1 y =
    if y / 4096 = v / 4096 then some ⟨p, 0, flags ||| (VM_A ||| VM_D)⟩ else statVpage m y := by
  have hal := h.fresh.aligned p (List.mem_cons_self ..)
  have htables : FreshPages m tables := by
    have hfresh := h.fresh
    rw [List.cons_append] at hfresh
    exact (@FreshPages.after _ _ [p] (tables ++ rest) hfresh (.refl m [p])).prefixed
  obtain ⟨-, -, ⟨-, -, hstat⟩ | ⟨herr, -⟩⟩ := mapBasePage_spec hf h.wf hal.1 hal.2
    (fun x hx => (h.base v hv x hx).1) htables
  · rw [hstat]
    simp only [walkPage_eq_iff hy hv]
  · exact absurd hok herr

include hp

lemma Loading.place : Loading (mapVpage m p v flags 0 tables).1 rest := by
  have hal := h.fresh.aligned p (List.mem_cons_self ..)
  have hrest : FreshPages m (tables ++ rest) :=
    @FreshPages.after _ _ [p] (tables ++ rest) h.fresh (.refl m [p])
  have hspec := mapBasePage_spec hf h.wf hal.1 hal.2 (fun x hx => (h.base v hv x hx).1) hrest.prefixed
  refine ⟨hspec.1, hrest.after hspec.2.1, fun y hy x hx => ?_⟩
  rw [h.place_stat hf hv hok hy] at hx
  split_ifs at hx with hpage
  · cases hx
    refine ⟨rfl, hal.2, fun hm => ?_⟩
    have hnodup := h.fresh.nodup
    rw [List.cons_append, List.filter_cons_of_pos (by simpa using hp), List.nodup_cons] at hnodup
    exact hnodup.1 (List.mem_filter.2 ⟨List.mem_append_right _ hm, by simpa using hp⟩)
  · obtain ⟨ho, ha, hm⟩ := h.base y hy x hx
    exact ⟨ho, ha, fun hm' => hm (List.mem_append_right _ hm')⟩

end Place

def fileByte (image : Bytes) (vf vfz n : ℕ) : UInt8 := if n < vfz then image ((vf + n) % 2 ^ 64) else 0

def filled (image ram : Bytes) (page vf vfz runner : ℕ) : Bytes :=
  if runner < vfz then
    memcpy (memset ram page 0 basePageSize) page image ((vf + runner) % 2 ^ 64)
      (min basePageSize (vfz - runner))
  else memset ram page 0 basePageSize

lemma filled_outside {x : ℕ} (hx : x < p ∨ p + 4096 ≤ x) : filled image ram p vf vfz runner x = ram x := by
  rw [filled, basePageSize_eq]
  split_ifs with hr
  · rw [memcpy, if_neg (by omega), memset, if_neg (by omega)]
  · rw [memset, if_neg (by omega)]

lemma filled_inside {i : ℕ} (hi : i < 4096) :
    filled image ram p vf vfz runner (p + i) = fileByte image vf vfz (runner + i) := by
  rw [filled, fileByte, basePageSize_eq]
  have hzero : memset ram p 0 4096 (p + i) = 0 := by
    rw [memset, if_pos (by omega)]
  split_ifs with hr hlast hlast
  · rw [memcpy, if_pos (by omega)]
    congr 1
    omega
  · rw [memcpy, if_neg (by omega), hzero]
  · omega
  · exact hzero

lemma Loading.place_view (h : Loading m (p :: tables ++ rest)) (hf : PageFlags flags) (hv : v < UVMEM_END)
    (hok : (mapVpage m p v flags 0 tables).2 = OK) (hy : y < UVMEM_END) :
    view (mapVpage m p v flags 0 tables).1 (filled image ram p vf vfz runner) y =
      if y / 4096 = v / 4096 then
        some (fileByte image vf vfz (runner + y % 4096), flags ||| (VM_A ||| VM_D))
      else view m ram y := by
  rw [view, h.place_stat hf hv hok hy]
  split_ifs with hpage
  · rw [Option.map_some, show orderSize 0 = 4096 from rfl, filled_inside (Nat.mod_lt _ (by norm_num))]
  · rw [view]
    cases hx : statVpage m y with
    | none => rfl
    | some x =>
      obtain ⟨ho, ha, hm⟩ := h.base y hy x hx
      have hne : x.addr ≠ p := fun heq => hm (heq ▸ List.mem_cons_self ..)
      have hal := (h.fresh.aligned p (List.mem_cons_self ..)).2
      rw [Option.map_some, Option.map_some, ho, show orderSize 0 = 4096 from rfl, filled_outside]
      omega

lemma elfMapPages_round {a : Answer} (hr : runner < vaz) (hp : a.page ≠ 0) :
    elfMapPages image va vaz vf vfz flags (fuel + 1) runner (a :: answers) m ram =
      if (mapVpage m a.page ((va + runner) % 2 ^ 64) flags 0 a.tables).2 ≠ OK then
        some ((mapVpage m a.page ((va + runner) % 2 ^ 64) flags 0 a.tables).1,
          filled image ram a.page vf vfz runner, ERR_OOMEM)
      else elfMapPages image va vaz vf vfz flags fuel ((runner + basePageSize) % 2 ^ 64) answers
        (mapVpage m a.page ((va + runner) % 2 ^ 64) flags 0 a.tables).1
        (filled image ram a.page vf vfz runner) := by
  rw [elfMapPages, if_neg (by omega), List.headD_cons]
  exact if_neg hp

lemma elfMapPages_end (hr : vaz ≤ runner) :
    elfMapPages image va vaz vf vfz flags (fuel + 1) runner answers m ram = some (m, ram, OK) := by
  rw [elfMapPages, if_pos hr]

lemma elfMapPages_none (hr : runner < vaz) (hp : (answers.headD ⟨0, []⟩).page = 0) :
    elfMapPages image va vaz vf vfz flags (fuel + 1) runner answers m ram = some (m, ram, ERR_OOMEM) := by
  rw [elfMapPages, if_neg (by omega)]
  exact if_pos hp

lemma elfMapPages_spec (hf : PageFlags flags) (hload : Loading m (supply answers ++ rest))
    (hend : va + vaz ≤ UVMEM_END) (hr : runner % 4096 = 0)
    (h : elfMapPages image va vaz vf vfz flags fuel runner answers m ram = some (m', ram', OK)) :
    Loading m' rest ∧ ∀ y < UVMEM_END, view m' ram' y =
      if (va + runner) / 4096 ≤ y / 4096 ∧ y / 4096 < va / 4096 + (vaz + 4095) / 4096 then
        some (fileByte image vf vfz (y - (va - va % 4096)), flags ||| (VM_A ||| VM_D))
      else view m ram y := by
  induction fuel generalizing runner answers m ram with
  | zero => cases h
  | succ fuel ih =>
    by_cases hdone : vaz ≤ runner
    · rw [elfMapPages_end hdone] at h
      cases h
      refine ⟨hload.drop, fun y hy => ?_⟩
      rw [if_neg (by omega)]
    rw [not_le] at hdone
    by_cases hpage : (answers.headD ⟨0, []⟩).page = 0
    · rw [elfMapPages_none hdone hpage] at h
      cases h
    cases answers with
    | nil => exact absurd rfl hpage
    | cons a answers =>
      rw [List.headD_cons] at hpage
      have hlt : va + runner < UVMEM_END := by omega
      have hlt' := uvmemEnd_lt hlt
      have hpages : supply (a :: answers) ++ rest = a.page :: a.tables ++ (supply answers ++ rest) := by
        rw [supply, List.flatMap_cons, List.append_assoc]
        rfl
      rw [hpages] at hload
      rw [elfMapPages_round hdone hpage, basePageSize_eq,
        Nat.mod_eq_of_lt (show va + runner < 2 ^ 64 by omega),
        Nat.mod_eq_of_lt (show runner + 4096 < 2 ^ 64 by omega)] at h
      split_ifs at h with hok
      · cases h
      · rw [ne_eq, not_not] at hok
        obtain ⟨hload', hview⟩ := ih (hload.place hpage hf hlt hok) (by omega) h
        refine ⟨hload', fun y hy => ?_⟩
        rw [hview y hy, hload.place_view hf hlt hok hy]
        split_ifs with h₁ h₂ h₃ h₄
        · rfl
        · omega
        · rw [show y - (va - va % 4096) = runner + y % 4096 by omega]
        · omega
        · omega
        · rfl

def Covers (s : ProgramHeader) (y : ℕ) : Prop :=
  s.p_vaddr / 4096 ≤ y / 4096 ∧ y / 4096 < s.p_vaddr / 4096 + (s.p_memsz + 4095) / 4096

instance (s : ProgramHeader) (y : ℕ) : Decidable (Covers s y) := by
  unfold Covers
  infer_instance

def segmentByte (image : Bytes) (bin : ℕ) (s : ProgramHeader) (n : ℕ) : UInt8 :=
  fileByte image ((bin + s.p_offset) % 2 ^ 64) s.p_filesz n

def segmentView (image : Bytes) (bin : ℕ) (s : ProgramHeader) (y : ℕ) : UInt8 × ℕ :=
  (segmentByte image bin s (y - (s.p_vaddr - s.p_vaddr % 4096)),
    elfToUvflags (s.p_flags % 2 ^ 8) ||| (VM_A ||| VM_D))

lemma elfToUvflags_pageFlags (f : ℕ) : PageFlags (elfToUvflags f) := by
  rw [elfToUvflags]
  split_ifs <;> exact ⟨by decide, by decide⟩

lemma elfMapSection_spec {a : SectionAnswers} (hload : Loading u.vmem (supply a.pages ++ rest))
    (hend : s.p_vaddr + s.p_memsz ≤ UVMEM_END)
    (h : elfMapSection image u ram s.p_vaddr s.p_memsz ((bin + s.p_offset) % 2 ^ 64) s.p_filesz
      (elfToUvflags (s.p_flags % 2 ^ 8)) a = some (u', ram', OK)) :
    Loading u'.vmem rest ∧ ∀ y < UVMEM_END, view u'.vmem ram' y =
      if Covers s y then some (segmentView image bin s y) else view u.vmem ram y := by
  simp only [elfMapSection, Option.bind_eq_bind, Option.bind_eq_some_iff, Prod.exists] at h
  obtain ⟨region, v, size, -, h⟩ := h
  split_ifs at h
  · cases h
  · simp only [Option.bind_eq_some_iff, Option.some.injEq, Prod.mk.injEq, Prod.exists] at h
    obtain ⟨vmem, ram₁, ret, hpages, rfl, rfl, rfl⟩ := h
    exact elfMapPages_spec (elfToUvflags_pageFlags _) hload hend rfl hpages

def programHeaders (image : Bytes) (ei_c phsize : ℕ) : ℕ → ℕ → List ProgramHeader
  | 0, _ => []
  | left + 1, runner =>
    programHeader ei_c image runner :: programHeaders image ei_c phsize left ((runner + phsize) % 2 ^ 64)

def loadHeaders (image : Bytes) (ei_c phsize left runner : ℕ) : List ProgramHeader :=
  (programHeaders image ei_c phsize left runner).filter fun p => p.p_type = PT_LOAD

def Apart (s s' : ProgramHeader) : Prop :=
  ∀ i < s.p_memsz, ∀ j < s'.p_memsz, (s.p_vaddr + i) / 4096 ≠ (s'.p_vaddr + j) / 4096

instance : Std.Symm Apart := ⟨fun _ _ h i hi j hj hpage => h j hj i hi hpage.symm⟩

structure WellLaid (segments : List ProgramHeader) : Prop where
  size : ∀ s ∈ segments, 0 < s.p_memsz ∧ s.p_filesz ≤ s.p_memsz
  arena : ∀ s ∈ segments, 4096 ≤ s.p_vaddr ∧ s.p_vaddr + s.p_memsz ≤ UVMEM_END
  apart : segments.Pairwise Apart

lemma Covers.touched (h : Covers s y) : ∃ i < s.p_memsz, (s.p_vaddr + i) / 4096 = y / 4096 := by
  obtain ⟨hle, hlt⟩ := h
  refine ⟨(y / 4096 - s.p_vaddr / 4096) * 4096, by omega, by omega⟩

structure Shows (image : Bytes) (bin : ℕ) (segments : List ProgramHeader) (m : Space) (ram : Bytes)
    (m' : Space) (ram' : Bytes) : Prop where
  new : ∀ s ∈ segments, ∀ y < UVMEM_END, Covers s y → view m' ram' y = some (segmentView image bin s y)
  rest : ∀ y < UVMEM_END, (∀ s ∈ segments, ¬ Covers s y) → view m' ram' y = view m ram y

lemma Shows.cons {m₁ : Space} {ram₁ : Bytes} {segments : List ProgramHeader}
    (hlaid : WellLaid (s :: segments))
    (hview : ∀ y < UVMEM_END, view m₁ ram₁ y =
      if Covers s y then some (segmentView image bin s y) else view m ram y)
    (h : Shows image bin segments m₁ ram₁ m' ram') : Shows image bin (s :: segments) m ram m' ram' := by
  refine ⟨fun s' hs' y hy hc => ?_, fun y hy hn => ?_⟩
  · rw [List.mem_cons] at hs'
    obtain rfl | hs' := hs'
    · have hother : ∀ s ∈ segments, ¬ Covers s y := by
        intro s hs hc'
        obtain ⟨i, hi, hpage⟩ := hc.touched
        obtain ⟨j, hj, hpage'⟩ := hc'.touched
        exact (List.pairwise_cons.1 hlaid.apart).1 s hs i hi j hj (hpage.trans hpage'.symm)
      rw [h.rest y hy hother, hview y hy, if_pos hc]
    · exact h.new s' hs' y hy hc
  · rw [h.rest y hy fun s hs => hn s (List.mem_cons_of_mem _ hs), hview y hy,
      if_neg (hn s (List.mem_cons_self ..))]

lemma WellLaid.tail {segments : List ProgramHeader} (h : WellLaid (s :: segments)) : WellLaid segments :=
  ⟨fun s hs => h.size s (List.mem_cons_of_mem _ hs), fun s hs => h.arena s (List.mem_cons_of_mem _ hs),
    (List.pairwise_cons.1 h.apart).2⟩

lemma loadHeaders_succ (htype : (programHeader ei_c image runner).p_type = PT_LOAD) :
    loadHeaders image ei_c phsize (left + 1) runner = programHeader ei_c image runner ::
      loadHeaders image ei_c phsize left ((runner + phsize) % 2 ^ 64) := by
  rw [loadHeaders, programHeaders, List.filter_cons_of_pos (by simpa using htype)]
  rfl

lemma loadHeaders_skip (htype : (programHeader ei_c image runner).p_type ≠ PT_LOAD) :
    loadHeaders image ei_c phsize (left + 1) runner =
      loadHeaders image ei_c phsize left ((runner + phsize) % 2 ^ 64) := by
  rw [loadHeaders, programHeaders, List.filter_cons_of_neg (by simpa using htype)]
  rfl

lemma sectionsSupply_head (sections : List SectionAnswers) : sectionsSupply sections =
    supply (sections.headD ⟨none, none, []⟩).pages ++ sectionsSupply sections.tail := by
  cases sections with
  | nil => rfl
  | cons a sections => rfl

lemma mapSegments_spec (hload : Loading u.vmem (sectionsSupply sections))
    (hlaid : WellLaid (loadHeaders image ei_c phsize left runner))
    (h : mapSegments image bin ei_c phsize left runner sections u ram = some (u', ram', OK)) :
    Shows image bin (loadHeaders image ei_c phsize left runner) u.vmem ram u'.vmem ram' := by
  induction left generalizing runner sections u ram with
  | zero =>
    cases h
    exact ⟨fun s hs => absurd hs (List.not_mem_nil), fun _ _ _ => rfl⟩
  | succ left ih =>
    rw [mapSegments] at h
    by_cases htype : (programHeader ei_c image runner).p_type = PT_LOAD
    · rw [loadHeaders_succ htype] at hlaid ⊢
      rw [if_neg (not_not.2 htype)] at h
      simp only [Option.bind_eq_bind, Option.bind_eq_some_iff, Prod.exists] at h
      obtain ⟨u₁, ram₁, ret, hsection, h⟩ := h
      split_ifs at h with hret
      · cases h
      · rw [ne_eq, not_not] at hret
        subst hret
        rw [sectionsSupply_head] at hload
        obtain ⟨hload₁, hview⟩ := elfMapSection_spec hload (hlaid.arena _ (List.mem_cons_self ..)).2 hsection
        exact .cons hlaid hview (ih hload₁ hlaid.tail h)
    · rw [loadHeaders_skip htype] at hlaid ⊢
      rw [if_pos htype] at h
      exact ih hload hlaid h

end Kmi.Elf
