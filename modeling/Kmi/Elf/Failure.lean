import Kmi.Elf.Image
import Kmi.Uvmem.Destroy

/-! What a load that fails leaves behind. `__map_exec` swaps an empty memory in, fills it, and
puts the old one back where a segment cannot be mapped. -/

namespace Kmi.Elf

open Kmi.Mem Kmi.Vmem Kmi.Regions Kmi.Uvmem

structure Ledger where
  taken : List (ℕ × ℕ)
  freed : List (ℕ × ℕ)

def Ledger.append (l l' : Ledger) : Ledger := ⟨l.taken ++ l'.taken, l.freed ++ l'.freed⟩

/-- What `alloc_page` hands out for a page of a segment and for the tables on the way to it. -/
def pageTakes (m : Space) (v : ℕ) (a : Answer) : List (ℕ × ℕ) :=
  (0, a.page) :: (mapTables v maxOrder maxOrder none a.tables m).map fun x => (0, x.1)

/-- The loop of `__elf_map_section`, which frees the page that it could not map. -/
def pagesLedger (va vaz flags : ℕ) : ℕ → ℕ → List Answer → Space → Ledger
  | 0, _, _, _ => ⟨[], []⟩
  | fuel + 1, runner, answers, m =>
    if vaz ≤ runner then ⟨[], []⟩
    else
      let a := answers.headD ⟨0, []⟩
      if a.page = 0 then ⟨[], []⟩
      else
        let v := (va + runner) % 2 ^ 64
        let (m', ret) := mapVpage m a.page v flags 0 a.tables
        if ret ≠ OK then ⟨pageTakes m v a, [(0, a.page)]⟩
        else Ledger.append ⟨pageTakes m v a, []⟩
          (pagesLedger va vaz flags fuel ((runner + basePageSize) % 2 ^ 64) answers.tail m')

def sectionLedger (u : UserVmem) (va vaz flags : ℕ) (a : SectionAnswers) : Ledger :=
  match allocFixedRegion u.region a.pre a.post va vaz (BitVec.ofNat 64 flags) with
  | none => ⟨[], []⟩
  | some (_, v, _) =>
    if v = 0 then ⟨[], []⟩ else pagesLedger va vaz flags (vaz / basePageSize + 2) 0 a.pages u.vmem

def segmentsLedger (image : Bytes) (bin ei_c phsize : ℕ) :
    ℕ → ℕ → List SectionAnswers → UserVmem → Bytes → Ledger
  | 0, _, _, _, _ => ⟨[], []⟩
  | left + 1, runner, answers, u, ram =>
    let p := programHeader ei_c image runner
    let next := (runner + phsize) % 2 ^ 64
    if p.p_type ≠ PT_LOAD then segmentsLedger image bin ei_c phsize left next answers u ram
    else
      let flags := elfToUvflags (p.p_flags % 2 ^ 8)
      let a := answers.headD ⟨none, none, []⟩
      let l := sectionLedger u p.p_vaddr p.p_memsz flags a
      match elfMapSection image u ram p.p_vaddr p.p_memsz ((bin + p.p_offset) % 2 ^ 64) p.p_filesz flags a with
      | none => l
      | some (u', ram', ret) =>
        if ret ≠ OK then l
        else l.append (segmentsLedger image bin ei_c phsize left next answers.tail u' ram')

/-- `t->proc.vmem`, the memory of the process, and what has been handed out and freed. -/
structure Ended where
  top : ℕ
  memory : UserVmem
  ledger : Ledger

/-- `struct uvmem` of `t` put back, with the nodes and the tables as they are now. -/
def putBack (t u : UserVmem) : UserVmem :=
  ⟨{ u.region with
      reserved := t.region.reserved, start := t.region.start, stop := t.region.stop,
      freeRegions := t.region.freeRegions, usedRegions := t.region.usedRegions },
    ⟨t.vmem.root, u.vmem.low⟩⟩

section Ends

-- what `destroy_uvmem` asks about shared regions, and the old and the new top-level table
variable (owner : ℕ → Bool) (unref : Region → Space → Space) (old new : ℕ)

/-- `__map_exec` with what it does when it fails. When it does not, it also destroys the old
memory, which is left out. -/
def mapExecEnds (image : Bytes) (kvmem : ℕ) (t : UserVmem) (ram : Bytes)
    (bin ei_c phstart phnum phsize : ℕ) (a : ExecAnswers) : Option (Ended × ℤ) :=
  if a.top = false then some (⟨old, t, ⟨[], []⟩⟩, ERR_OOMEM)
  else do
    let (region, ret) ← initUvmem t.region a.node
    let u : UserVmem := ⟨region, ⟨createVmem kvmem, t.vmem.low⟩⟩
    if ret ≠ OK then do
      let tables ← destroyVmem u.vmem
      some (⟨old, putBack t u, ⟨[(0, new)], tables.map (fun a => (0, a)) ++ [(0, new)]⟩⟩, ERR_OOMEM)
    else do
      let (u', _, ret) ← mapSegments image bin ei_c phsize phnum phstart a.sections u ram
      let l := segmentsLedger image bin ei_c phsize phnum phstart a.sections u ram
      if ret ≠ OK then do
        let (u', freed) ← destroyUvmem owner unref new u'
        some (⟨old, putBack t u', ⟨(0, new) :: l.taken, l.freed ++ freed⟩⟩, ERR_OOMEM)
      else some (⟨new, u', ⟨(0, new) :: l.taken, l.freed⟩⟩, OK)

def Executable (image : Bytes) (elf : ℕ) : Prop :=
  let ei_class := field image (elf + 4) 1
  field image elf 4 = cpuToBe32 EI_MAGIC ∧ (ei_class = ELFCLASS32 ∨ ei_class = ELFCLASS64) ∧
    (elfHeader ei_class image elf).e_type = ET_EXEC

instance (image : Bytes) (elf : ℕ) : Decidable (Executable image elf) := by
  unfold Executable
  infer_instance

/-- What `load_elf` leaves, and the address that it returns. -/
def loadElfEnds (image : Bytes) (kvmem : ℕ) (t : UserVmem) (ram : Bytes) (elf : ℕ) (a : ExecAnswers) :
    Option (Ended × ℕ) :=
  if Executable image elf then do
    let ei_c := field image (elf + 4) 1
    let h := elfHeader ei_c image elf
    let (e, status) ← mapExecEnds owner unref old new image kvmem t ram elf ei_c
      ((elf + h.e_phoff) % 2 ^ 64) h.e_phnum h.e_phentsize a
    if status ≠ OK then some (e, 0) else some (e, h.e_entry)
  else some (⟨old, t, ⟨[], []⟩⟩, 0)

end Ends

structure Restored (old : ℕ) (t : UserVmem) (e : Ended) : Prop where
  top : e.top = old
  root : e.memory.vmem.root = t.vmem.root
  stat : ∀ v < 2 ^ 39, statVpage e.memory.vmem v = statVpage t.vmem v
  nodes : SameNodes t.region e.memory.region
  trees : e.memory.region.freeRegions = t.region.freeRegions ∧
    e.memory.region.usedRegions = t.region.usedRegions
  arena : e.memory.region.start = t.region.start ∧ e.memory.region.stop = t.region.stop ∧
    e.memory.region.reserved = t.region.reserved
  released : ∀ p ∈ e.ledger.taken, p ∈ e.ledger.freed

variable {image ram ram' : Bytes} {m m' : Space} {u u' : UserVmem} {m₀ : RegionMap} {low : ℕ → Table}
  {p v y va vaz vf vfz flags fuel runner : ℕ} {level level' : ℕ → Option ℕ} {pool rest tables : Pages}
  {answers : List Answer} {ps : List (ℕ × ℕ)}

/-- A space that is being filled: its tables are among the pages that were handed out, and none
of those still to come is one. -/
structure Filling (pool : Pages) (low : ℕ → Table) (level : ℕ → Option ℕ) (m : Space) (rest : Pages) :
    Prop where
  known : Known level low m
  loading : Loading m rest
  tables : NewTables level rest
  handed : ∀ a o, level a = some o → a ∈ pool ∧ a ≠ 0
  later : ∀ p ∈ rest, p ∈ pool

lemma Filling.drop {pages : Pages} (h : Filling pool low level m (pages ++ rest)) :
    Filling pool low level m rest :=
  ⟨h.known, h.loading.drop, h.tables.drop, h.handed, fun p hp => h.later p (List.mem_append_right _ hp)⟩

lemma Loading.refuse (h : Loading m (p :: tables ++ rest)) (hf : PageFlags flags) (hv : v < UVMEM_END)
    (hret : (mapVpage m p v flags 0 tables).2 ≠ OK) : Loading (mapVpage m p v flags 0 tables).1 rest ∧
      ∀ y, statVpage (mapVpage m p v flags 0 tables).1 y = statVpage m y := by
  have hal := h.fresh.aligned p (List.mem_cons_self ..)
  have hrest : FreshPages m (tables ++ rest) :=
    @FreshPages.after _ _ [p] (tables ++ rest) h.fresh (.refl m [p])
  obtain ⟨hw, ht, ⟨hok, -⟩ | ⟨-, hstat⟩⟩ := mapBasePage_spec hf h.wf hal.1 hal.2
    (fun x hx => (h.base v hv x hx).1) hrest.prefixed
  · exact absurd hok hret
  refine ⟨⟨hw, hrest.after ht, fun y hy x hx => ?_⟩, hstat⟩
  rw [hstat] at hx
  obtain ⟨ho, ha, hm⟩ := h.base y hy x hx
  exact ⟨ho, ha, fun hm' => hm (List.mem_append_right _ hm')⟩

lemma Filling.round (h : Filling pool low level m (p :: tables ++ rest)) (hp : p ≠ 0)
    (hf : PageFlags flags) (hv : v < UVMEM_END) :
    Filling pool low (addLevels level (mapTables v maxOrder maxOrder none tables m))
        (mapVpage m p v flags 0 tables).1 rest ∧
      ∀ a o, level a = some o → addLevels level (mapTables v maxOrder maxOrder none tables m) a = some o := by
  have htop : vmToIndex v maxOrder < KERNEL_PAGE := (user_top hv).trans (by decide)
  have hclear : ∀ x, statVpage m v = some x → x.order ≤ 0 :=
    fun x hx => (h.loading.base v hv x hx).1.le
  have htables : NewTables level (tables ++ rest) := @NewTables.drop _ [p] _ h.tables
  have hpages := htables.prefixed
  have hr := @mapVpage_levelled _ _ m level v 0 tables p flags h.known.levelled htop (Nat.zero_le _)
    hpages hf.2 trivial hclear
  have hh := @mapVpage_hung _ _ m level v 0 p flags tables h.known.hung h.known.levelled htop
    (Nat.zero_le _) hpages hclear
  rw [Nat.sub_zero] at hr hh
  have hload : Loading (mapVpage m p v flags 0 tables).1 rest := by
    by_cases hok : (mapVpage m p v flags 0 tables).2 = OK
    · exact h.loading.place hp hf hv hok
    · exact (h.loading.refuse hf hv hok).1
  refine ⟨⟨⟨hload.wf, hr.levelled, hh, fun a ha => ?_⟩, hload, htables.after, fun a o ha => ?_,
    fun q hq => h.later q (List.mem_append_right _ hq)⟩, hr.mono⟩
  · rw [hr.frame a ha, h.known.frame]
    cases hl : level a with
    | none => rfl
    | some o =>
      rw [hr.mono a o hl] at ha
      cases ha
  · obtain ha | ha := addLevels_cases ha
    · exact h.handed a o ha
    · refine ⟨h.later a ?_, (mapTables_mem ha).2⟩
      exact List.mem_append_left _ (List.mem_cons_of_mem _ (mapTables_mem ha).1)

lemma pagesLedger_end (hr : vaz ≤ runner) :
    pagesLedger va vaz flags (fuel + 1) runner answers m = ⟨[], []⟩ := by
  rw [pagesLedger, if_pos hr]

lemma pagesLedger_none (hr : runner < vaz) (hp : (answers.headD ⟨0, []⟩).page = 0) :
    pagesLedger va vaz flags (fuel + 1) runner answers m = ⟨[], []⟩ := by
  rw [pagesLedger, if_neg (by omega)]
  exact if_pos hp

lemma pagesLedger_round {a : Answer} (hr : runner < vaz) (hp : a.page ≠ 0) :
    pagesLedger va vaz flags (fuel + 1) runner (a :: answers) m =
      if (mapVpage m a.page ((va + runner) % 2 ^ 64) flags 0 a.tables).2 ≠ OK then
        ⟨pageTakes m ((va + runner) % 2 ^ 64) a, [(0, a.page)]⟩
      else Ledger.append ⟨pageTakes m ((va + runner) % 2 ^ 64) a, []⟩
        (pagesLedger va vaz flags fuel ((runner + basePageSize) % 2 ^ 64) answers
          (mapVpage m a.page ((va + runner) % 2 ^ 64) flags 0 a.tables).1) := by
  rw [pagesLedger, if_neg (by omega), List.headD_cons]
  exact if_neg hp

/-- However a segment ends, its first pages are mapped, the others are not, and nothing else has
changed. -/
structure Fills (m m' : Space) (s e : ℕ) (ps : List (ℕ × ℕ)) : Prop where
  pages : ∃ c ≤ e, Tiles m' s c ps ∧ ∀ y, c ≤ y → y < e → statVpage m' y = none
  rest : ∀ y < UVMEM_END, y < s ∨ e ≤ y → statVpage m' y = statVpage m y

def Settled (l : Ledger) (level : ℕ → Option ℕ) (ps : List (ℕ × ℕ)) : Prop :=
  ∀ q ∈ l.taken, q ∈ l.freed ∨ q ∈ ps ∨ ∃ a o, level a = some o ∧ q = (0, a)

lemma Fills.nil {e : ℕ} (hle : y ≤ e) (hn : ∀ z, y ≤ z → z < e → statVpage m' z = none)
    (hrest : ∀ z < UVMEM_END, statVpage m' z = statVpage m z) : Fills m m' y e [] :=
  ⟨⟨y, hle, .nil y, hn⟩, fun z hz _ => hrest z hz⟩

lemma page_next (v : ℕ) : (v + 4096) / 4096 * 4096 = v / 4096 * 4096 + 4096 := by omega

lemma Fills.cons {m₁ : Space} {e : ℕ} {x : Stat} (h : Fills m₁ m' ((v + 4096) / 4096 * 4096) e ps)
    (hx : x.order = 0) (hv : v < UVMEM_END)
    (hstat : ∀ y < UVMEM_END, statVpage m₁ y = if y / 4096 = v / 4096 then some x else statVpage m y) :
    Fills m m' (v / 4096 * 4096) e ((x.order, x.addr) :: ps) := by
  rw [page_next] at h
  obtain ⟨⟨c, hle, ht, hn⟩, hrest⟩ := h
  have hcl := ht.tiled.le
  refine ⟨⟨c, hle, ?_, hn⟩, fun y hy hout => ?_⟩
  · have hfirst : statVpage m' (v / 4096 * 4096) = some x := by
      rw [hrest (v / 4096 * 4096) (by omega) (by omega), hstat (v / 4096 * 4096) (by omega),
        if_pos (by omega)]
    apply Tiles.cons hfirst
    · rw [hx]
      exact Nat.mul_mod_left _ _
    · rwa [hx]
  · rw [hrest y hy (hout.imp_left (Nat.lt_add_right _)), hstat y hy, if_neg (by omega)]

lemma pageTakes_settled {a : Answer} {q : ℕ × ℕ} (hq : q ∈ pageTakes m v a) :
    q = (0, a.page) ∨
      ∃ c o, addLevels level (mapTables v maxOrder maxOrder none a.tables m) c = some o ∧ q = (0, c) := by
  rw [pageTakes, List.mem_cons, List.mem_map] at hq
  obtain rfl | ⟨x, hx, rfl⟩ := hq
  · exact .inl rfl
  · obtain ⟨o, ho⟩ := @addLevels_mem level x.1 _ (List.mem_map.2 ⟨x, hx, rfl⟩)
    exact .inr ⟨x.1, o, ho, rfl⟩

lemma elfMapPages_ends (hf : PageFlags flags) (h : Filling pool low level m (supply answers ++ rest))
    (hend : va + vaz ≤ UVMEM_END) (hr : runner % 4096 = 0) (hle : runner < vaz + 4096)
    (hn : ∀ y, (va + runner) / 4096 * 4096 ≤ y → y < (va / 4096 + (vaz + 4095) / 4096) * 4096 →
      statVpage m y = none) (hfuel : vaz + 4095 < runner + fuel * 4096) :
    ∃ m' ram' ret level' ps, elfMapPages image va vaz vf vfz flags fuel runner answers m ram =
        some (m', ram', ret) ∧ Filling pool low level' m' rest ∧
      (∀ a o, level a = some o → level' a = some o) ∧
      Fills m m' ((va + runner) / 4096 * 4096) ((va / 4096 + (vaz + 4095) / 4096) * 4096) ps ∧
      Settled (pagesLedger va vaz flags fuel runner answers m) level' ps := by
  induction fuel generalizing runner answers m ram level with
  | zero => omega
  | succ fuel ih =>
    have hbig : UVMEM_END < 2 ^ 39 ∧ UVMEM_END % 4096 = 0 := by decide
    have hnil : ∀ l : Ledger, l = ⟨[], []⟩ → Settled l level [] := by
      rintro l rfl q hq
      cases hq
    by_cases hdone : vaz ≤ runner
    · refine ⟨m, ram, OK, level, [], elfMapPages_end hdone, h.drop, fun _ _ ha => ha,
        .nil (by omega) hn fun _ _ => rfl, hnil _ (pagesLedger_end hdone)⟩
    rw [not_le] at hdone
    by_cases hpage : (answers.headD ⟨0, []⟩).page = 0
    · exact ⟨m, ram, ERR_OOMEM, level, [], elfMapPages_none hdone hpage, h.drop, fun _ _ ha => ha,
        .nil (by omega) hn fun _ _ => rfl, hnil _ (pagesLedger_none hdone hpage)⟩
    cases answers with
    | nil => exact absurd rfl hpage
    | cons a answers =>
      rw [List.headD_cons] at hpage
      have hlt : va + runner < UVMEM_END := by omega
      have hpages : supply (a :: answers) ++ rest = a.page :: a.tables ++ (supply answers ++ rest) := by
        rw [supply, List.flatMap_cons, List.append_assoc]
        rfl
      rw [hpages] at h
      obtain ⟨hnext, hmono⟩ := h.round hpage hf hlt
      rw [elfMapPages_round hdone hpage, pagesLedger_round hdone hpage, basePageSize_eq,
        Nat.mod_eq_of_lt (show va + runner < 2 ^ 64 by omega),
        Nat.mod_eq_of_lt (show runner + 4096 < 2 ^ 64 by omega)]
      by_cases hok : (mapVpage m a.page (va + runner) flags 0 a.tables).2 = OK
      · have hstat := fun y hy => h.loading.place_stat hf hlt hok (y := y) hy
        have hn' : ∀ y, (va + (runner + 4096)) / 4096 * 4096 ≤ y →
            y < (va / 4096 + (vaz + 4095) / 4096) * 4096 →
            statVpage (mapVpage m a.page (va + runner) flags 0 a.tables).1 y = none := by
          intro y hy hy'
          rw [← Nat.add_assoc, page_next] at hy
          rw [hstat y (by omega), if_neg (by omega)]
          exact hn y ((Nat.le_add_right _ _).trans hy) hy'
        obtain ⟨m', ram', ret, level', ps, heq, hfill, hmono', hfills, hsettled⟩ := @ih
          (filled image ram a.page vf vfz runner) (mapVpage m a.page (va + runner) flags 0 a.tables).1
          (runner + 4096) _ answers hnext (by omega) (by omega) hn' (by omega)
        rw [← Nat.add_assoc] at hfills
        rw [if_neg (not_not.2 hok), if_neg (not_not.2 hok)]
        refine ⟨m', ram', ret, level', (0, a.page) :: ps, heq, hfill,
          fun c o hc => hmono' c o (hmono c o hc), hfills.cons rfl hlt hstat, ?_⟩
        intro q hq
        obtain hq | hq := List.mem_append.1 hq
        · obtain rfl | ⟨c, o, hc, rfl⟩ := @pageTakes_settled _ _ level a q hq
          · exact .inr (.inl (List.mem_cons_self ..))
          · exact .inr (.inr ⟨c, o, hmono' c o hc, rfl⟩)
        · exact (hsettled q hq).imp_right fun h => h.imp_left fun h => List.mem_cons_of_mem _ h
      · rw [if_pos hok, if_pos hok]
        have hsame := (h.loading.refuse hf hlt hok).2
        refine ⟨_, _, _, _, [], rfl, hnext.drop, hmono, .nil (by omega) (fun y hy hy' => ?_)
          fun y _ => hsame y, fun q hq => ?_⟩
        · rw [hsame, hn y hy hy']
        · obtain rfl | ⟨c, o, hc, rfl⟩ := @pageTakes_settled _ _ level a q hq
          · exact .inl (List.mem_singleton_self _)
          · exact .inr (.inr ⟨c, o, hc, rfl⟩)

structure Building (m₀ : RegionMap) (pool : Pages) (low : ℕ → Table) (level : ℕ → Option ℕ)
    (pages : ℕ → List (ℕ × ℕ)) (u : UserVmem) (rest : Pages) : Prop where
  owns : ∃ xs, Owns m₀ u.region xs
  start : u.region.start = 0
  stop : u.region.stop = page UVMEM_END
  filling : Filling pool low level u.vmem rest
  backed : ∀ p g, usedAt u.region p = some g → Backed u.vmem g (pages p)
  bare : ∀ y < UVMEM_END, (∀ p g, usedAt u.region p = some g → y < g.start * 4096 ∨ g.stop * 4096 ≤ y) →
    statVpage u.vmem y = none

def Held (r : RegionMap) (level : ℕ → Option ℕ) (pages : ℕ → List (ℕ × ℕ)) (q : ℕ × ℕ) : Prop :=
  (∃ p g, usedAt r p = some g ∧ q ∈ pages p) ∨ ∃ a o, level a = some o ∧ q = (0, a)

section Grow

variable {pages : ℕ → List (ℕ × ℕ)} {r : RegionMap} {g : Region} {xs : List ℕ}

lemma Building.untouched {later : Pages} (h : Building m₀ pool low level pages u later)
    (hg : NewUsed u.region r g) (hs : g.start * 4096 ≤ y) (he : y < g.stop * 4096) :
    statVpage u.vmem y = none := by
  obtain ⟨xs, hp⟩ := hg.whole
  have hstop := hg.bounds.2
  have hend := page_uvmemEnd_mul
  rw [h.stop] at hstop
  refine h.bare y (by omega) fun p g' hg' => ?_
  obtain ⟨hne, hused⟩ := hg.kept hg'
  have := usedAt_apart hp hused hg.self hne
  omega

lemma Building.grow {later : Pages} (h : Building m₀ pool low level pages u later)
    (hg : NewUsed u.region r g) (hr : Owns m₀ r xs) (hown : g.pid = 0)
    (hflags : g.flags &&& MR_NONBACKED = 0) (hfill : Filling pool low level' m' rest)
    (hf : Fills u.vmem m' (g.start * 4096) (g.stop * 4096) ps) :
    Building m₀ pool low level' (Function.update pages g.start ps) ⟨r, m'⟩ rest := by
  have hend := page_uvmemEnd_mul
  have hbound := hg.bounds.2
  rw [h.stop] at hbound
  refine ⟨⟨xs, hr⟩, hg.start.trans h.start, hg.stop.trans h.stop, hfill, fun p g' hg' => ?_,
    fun y hy hout => ?_⟩
  · rw [show usedAt r p = _ from hg.used p] at hg'
    split_ifs at hg' with hp
    · cases hg'
      rw [hp, Function.update_self]
      exact ⟨hown, hflags, fun y _ hy x hx => (hfill.loading.base y (by omega) x hx).1, hf.pages⟩
    · rw [Function.update_of_ne hp]
      refine (h.backed p g' hg').congr fun y hy hy' => ?_
      have hused := (hg.kept hg').2
      have hrange := (usedAt_range hr.whole hused).2.2.2
      rw [hg.stop, h.stop] at hrange
      have := usedAt_apart hr.whole hused hg.self hp
      exact hf.rest y (by omega) (by omega)
  · rw [hf.rest y hy (hout g.start g hg.self)]
    exact h.bare y hy fun p g' hg' => hout p g' (hg.kept hg').2

lemma Held.grow {q : ℕ × ℕ} (hg : NewUsed u.region r g)
    (hmono : ∀ a o, level a = some o → level' a = some o) (h : Held u.region level pages q) :
    Held r level' (Function.update pages g.start ps) q := by
  obtain ⟨p, g', hg', hq⟩ | ⟨a, o, ha, rfl⟩ := h
  · obtain ⟨hne, hused⟩ := hg.kept hg'
    exact .inl ⟨p, g', hused, by rwa [Function.update_of_ne hne]⟩
  · exact .inr ⟨a, o, hmono a o ha, rfl⟩

end Grow

lemma Building.mapSection {a : SectionAnswers} {pages : ℕ → List (ℕ × ℕ)} {ret : ℤ}
    (h : Building m₀ pool low level pages u (supply a.pages ++ rest)) (hf : PageFlags flags)
    (hb : (BitVec.ofNat 64 flags ||| MR_USED) &&& MR_NONBACKED = 0) (hpos : 0 < vaz)
    (hend : va + vaz ≤ UVMEM_END)
    (hs : elfMapSection image u ram va vaz vf vfz flags a = some (u', ram', ret)) :
    ∃ level' pages', Building m₀ pool low level' pages' u' rest ∧
      (∀ q, Held u.region level pages q → Held u'.region level' pages' q) ∧
      ∀ q ∈ (sectionLedger u va vaz flags a).taken,
        q ∈ (sectionLedger u va vaz flags a).freed ∨ Held u'.region level' pages' q := by
  have hstop := page_uvmemEnd
  have hwrap : vaz + basePageSize ≤ 2 ^ 64 := by
    rw [UVMEM_END] at hend
    rw [basePageSize_eq]
    omega
  have hfirst : page va = va / 4096 := rfl
  have hva : va < UVMEM_END := by omega
  have hin : page va < u.region.stop := by
    rw [h.stop, hfirst, hstop]
    rw [UVMEM_END] at hva
    omega
  simp only [elfMapSection, Option.bind_eq_bind, Option.bind_eq_some_iff, Prod.exists] at hs
  obtain ⟨region, v, size, halloc, hs⟩ := hs
  obtain ⟨xs, howns⟩ := h.owns
  obtain ⟨xs', howns', ⟨rfl, rfl⟩ | ⟨g, hnew, hgiven, hgs, hgv⟩⟩ := howns.allocFixed
    (by rw [h.stop, hstop]; norm_num) (by rw [h.start]; exact Nat.zero_le _) hin hpos hwrap halloc
  · rw [if_pos rfl] at hs
    cases hs
    refine ⟨level, pages, ⟨h.owns, h.start, h.stop, h.filling.drop, h.backed, h.bare⟩, fun _ hq => hq, ?_⟩
    rw [sectionLedger, halloc]
    intro q hq
    cases hq
  have hge : g.stop = va / 4096 + (vaz + 4095) / 4096 := by
    rw [hgiven.stop, hgs, pagesOf_eq hwrap, hfirst]
  have hnone : ∀ y, g.start * 4096 ≤ y → y < g.stop * 4096 → statVpage u.vmem y = none :=
    fun y hy hy' => h.untouched hnew hy hy'
  have hflags : g.flags &&& MR_NONBACKED = 0 := by rw [hgiven.flags, hb]
  rw [sectionLedger, halloc]
  by_cases hv : v = 0
  · -- the region at page 0 is there, and taken for a failure
    rw [if_pos hv] at hs
    cases hs
    have hfills : Fills u.vmem u.vmem (g.start * 4096) (g.stop * 4096) [] :=
      .nil (by omega) hnone fun _ _ => rfl
    refine ⟨level, _, h.grow hnew howns' hgiven.pid hflags h.filling.drop hfills,
      fun q hq => hq.grow hnew fun _ _ ha => ha, fun q hq => ?_⟩
    dsimp only at hq
    rw [if_pos hv] at hq
    cases hq
  · have halign : v = alignDown va basePageSize := by
      rw [hgv, alignDown_page, basePageSize_eq, hfirst]
      omega
    rw [if_neg hv, if_neg (not_not.2 halign), Option.bind_eq_some_iff] at hs
    obtain ⟨⟨vmem, ram₁, ret₁⟩, hpages, hs⟩ := hs
    cases hs
    rw [hge, hgs, hfirst] at hnone
    obtain ⟨m', _, _, level', ps, heq, hfill, hmono, hfills, hsettled⟩ := @elfMapPages_ends image ram u.vmem
      low va vaz vf vfz flags (vaz / basePageSize + 2) 0 level pool rest a.pages hf h.filling hend rfl (by omega)
      (fun y hy hy' => hnone y hy hy') (by rw [basePageSize_eq]; omega)
    rw [hpages] at heq
    cases heq
    rw [Nat.add_zero, ← hge, ← hfirst, ← hgs] at hfills
    refine ⟨level', _, h.grow hnew howns' hgiven.pid hflags hfill hfills,
      fun q hq => hq.grow hnew hmono, fun q hq => ?_⟩
    dsimp only at hq ⊢
    rw [if_neg hv] at hq ⊢
    obtain hq | hq | hq := hsettled q hq
    · exact .inl hq
    · exact .inr (.inl ⟨g.start, g, hnew.self, by rwa [Function.update_self]⟩)
    · exact .inr (.inr hq)

lemma elfToUvflags_backed (f : ℕ) :
    (BitVec.ofNat 64 (elfToUvflags f) ||| MR_USED) &&& MR_NONBACKED = 0 := by
  rw [elfToUvflags]
  split_ifs <;> decide

lemma Building.mapSegments {pages : ℕ → List (ℕ × ℕ)} {sections : List SectionAnswers} {ret : ℤ}
    {bin ei_c phsize left : ℕ} (h : Building m₀ pool low level pages u (sectionsSupply sections))
    (hsegs : ∀ s ∈ loadHeaders image ei_c phsize left runner,
      0 < s.p_memsz ∧ s.p_vaddr + s.p_memsz ≤ UVMEM_END)
    (hs : mapSegments image bin ei_c phsize left runner sections u ram = some (u', ram', ret)) :
    ∃ level' pages' rest, Building m₀ pool low level' pages' u' rest ∧
      (∀ q, Held u.region level pages q → Held u'.region level' pages' q) ∧
      ∀ q ∈ (segmentsLedger image bin ei_c phsize left runner sections u ram).taken,
        q ∈ (segmentsLedger image bin ei_c phsize left runner sections u ram).freed ∨
          Held u'.region level' pages' q := by
  induction left generalizing runner sections u ram level pages with
  | zero =>
    cases hs
    exact ⟨level, pages, _, h, fun _ hq => hq, fun q hq => absurd hq List.not_mem_nil⟩
  | succ left ih =>
    rw [Elf.mapSegments] at hs
    rw [segmentsLedger]
    dsimp only
    by_cases htype : (programHeader ei_c image runner).p_type = PT_LOAD
    · rw [loadHeaders_succ htype] at hsegs
      obtain ⟨hpos, hend⟩ := hsegs _ (List.mem_cons_self ..)
      rw [if_neg (not_not.2 htype), Option.bind_eq_bind, Option.bind_eq_some_iff] at hs
      obtain ⟨⟨u₁, ram₁, ret₁⟩, hsection, hs⟩ := hs
      rw [sectionsSupply_head] at h
      obtain ⟨level₁, pages₁, h₁, hkept, hledger⟩ := h.mapSection (elfToUvflags_pageFlags _)
        (elfToUvflags_backed _) hpos hend hsection
      rw [if_neg (not_not.2 htype), hsection]
      dsimp only at hs ⊢
      by_cases hret : ret₁ = OK
      · rw [if_neg (not_not.2 hret)] at hs ⊢
        obtain ⟨level', pages', rest, h', hkept', hledger'⟩ := ih h₁
          (fun s hm => hsegs s (List.mem_cons_of_mem _ hm)) hs
        refine ⟨level', pages', rest, h', fun q hq => hkept' q (hkept q hq), fun q hq => ?_⟩
        obtain hq | hq := List.mem_append.1 hq
        · obtain hq | hq := hledger q hq
          · exact .inl (List.mem_append_left _ hq)
          · exact .inr (hkept' q hq)
        · obtain hq | hq := hledger' q hq
          · exact .inl (List.mem_append_right _ hq)
          · exact .inr hq
      · rw [if_pos hret] at hs ⊢
        cases hs
        exact ⟨level₁, pages₁, _, h₁, hkept, hledger⟩
    · rw [loadHeaders_skip htype] at hsegs
      rw [if_pos htype] at hs ⊢
      exact ih h hsegs hs

/-- A `struct uvmem` of zeros, among the nodes that there are. -/
def cleared (m : RegionMap) : RegionMap :=
  { m with reserved := 0, start := 0, stop := 0, freeRegions := none, usedRegions := none }

lemma initUvmem_none (m : RegionMap) : initUvmem m none = some (cleared m, ERR_OOMEM) := rfl

lemma initUvmem_some {m r : RegionMap} {x : ℕ} {ret : ℤ} (h : initUvmem m (some x) = some (r, ret)) :
    ret = OK ∧ Owns (cleared m) r [x] ∧ r.start = 0 ∧ r.stop = page UVMEM_END ∧
      ∀ p, usedAt r p = none := by
  have h : initRegion (cleared m) (some x) UVMEM_START (UVMEM_END - UVMEM_START) SZ_64K =
      some (r, ret) := h
  obtain ⟨-, hstart, hstop⟩ := initRegion_partition rfl rfl (by decide) h
  refine ⟨?_, initRegion_owns rfl rfl (by decide) h, hstart, hstop, fun p => ?_⟩
  · rw [initRegion_eq (initRegion_free h), Option.bind_eq_some_iff] at h
    obtain ⟨r', -, hr⟩ := h
    cases hr
    rfl
  · have hused : r.usedRegions = none := by
      rw [initRegion_eq (initRegion_free h), Option.bind_eq_some_iff] at h
      obtain ⟨r', hi, hr⟩ := h
      cases hr
      simp only [insertFreeRegion, Option.bind_eq_bind, Option.bind_eq_some_iff, Prod.exists] at hi
      obtain ⟨root, heap, -, hi⟩ := hi
      cases hi
      rfl
    rw [usedAt, hused, findUsed]

/-- What the allocators hand out is in use nowhere, neither by the process nor by the memory that
is built for it. -/
structure HandedOut (kvmem old new : ℕ) (t : UserVmem) (a : ExecAnswers) : Prop where
  fresh : Fresh kvmem t a
  pages : FreshPages t.vmem (sectionsSupply a.sections)
  top : new ≠ old

section Load

variable {kvmem old new elf entry : ℕ} {t : UserVmem} {a : ExecAnswers} {r : Exec}
  {owner : ℕ → Bool} {unref : Region → Space → Space}

lemma HandedOut.building {region : RegionMap} {x : ℕ} {ret : ℤ} (h : HandedOut kvmem old new t a)
    (hi : initUvmem t.region (some x) = some (region, ret)) :
    Building (cleared t.region) (sectionsSupply a.sections) t.vmem.low (fun _ => none) (fun _ => [])
      ⟨region, ⟨createVmem kvmem, t.vmem.low⟩⟩ (sectionsSupply a.sections) := by
  obtain ⟨-, howns, hstart, hstop, hnone⟩ := initUvmem_some hi
  refine ⟨⟨_, howns⟩, hstart, hstop, ⟨⟨createVmem_wellFormed h.fresh.kernel, createVmem_levelled kvmem _,
    createVmem_hung kvmem _, fun _ _ => rfl⟩, h.fresh.loading, ⟨h.pages.aligned, h.pages.nodup,
      fun _ _ _ => rfl⟩, fun c o hc => (by cases hc), fun _ hp => hp⟩, fun p g hg => ?_,
    fun y hy _ => createVmem_stat hy⟩
  rw [show usedAt region p = none from hnone p] at hg
  cases hg

lemma HandedOut.stat {low' : ℕ → Table} (h : HandedOut kvmem old new t a)
    (hl : ∀ c o, level c = some o → c ∈ sectionsSupply a.sections ∧ c ≠ 0)
    (hlow : ∀ c, level c = none → low' c = t.vmem.low c) (hv : v < 2 ^ 39) :
    statVpage ⟨t.vmem.root, low'⟩ v = statVpage t.vmem v := by
  apply statVpage_congr_walk
  intro o b hw
  cases b with
  | none => exact .refl _
  | some c =>
    have hc : level c = none := by
      cases hlev : level c with
      | none => rfl
      | some o' =>
        obtain ⟨hm, hc0⟩ := hl c o' hlev
        exact absurd hw (h.pages.fresh c hm hc0 v hv o)
    change SameEntry (t.vmem.low c (vmToIndex v o)) (low' c (vmToIndex v o))
    rw [hlow c hc]
    exact .refl _

lemma putBack_restored {taken freed : List (ℕ × ℕ)} (h : HandedOut kvmem old new t a)
    (hn : SameNodes (cleared t.region) u.region) (hl : ∀ c o, level c = some o →
      c ∈ sectionsSupply a.sections ∧ c ≠ 0) (hlow : ∀ c, level c = none → u.vmem.low c = t.vmem.low c)
    (hfreed : ∀ q ∈ taken, q ∈ freed) : Restored old t ⟨old, putBack t u, ⟨taken, freed⟩⟩ :=
  ⟨rfl, rfl, fun _ hv => h.stat hl hlow hv, ⟨hn.taken, hn.usedNodes, hn.links, hn.list, hn.region⟩,
    ⟨rfl, rfl⟩, ⟨rfl, rfl, rfl⟩, hfreed⟩

lemma mapExecEnds_restored {bin ei_c phstart phnum phsize : ℕ} (h : HandedOut kvmem old new t a)
    (hsegs : ∀ s ∈ loadHeaders image ei_c phsize phnum phstart,
      0 < s.p_memsz ∧ s.p_vaddr + s.p_memsz ≤ UVMEM_END)
    (hr : mapExec image kvmem t ram bin ei_c phstart phnum phsize a = some r) :
    ∃ e, mapExecEnds owner unref old new image kvmem t ram bin ei_c phstart phnum phsize a =
        some (e, r.status) ∧ (r.status ≠ OK → Restored old t e) ∧ (r.status = OK → e.top = new) := by
  rw [mapExec] at hr
  rw [mapExecEnds]
  by_cases htop : a.top = false
  · rw [if_pos htop] at hr ⊢
    cases hr
    refine ⟨_, rfl, fun _ => ⟨rfl, rfl, fun _ _ => rfl, .refl _, ⟨rfl, rfl⟩, ⟨rfl, rfl, rfl⟩, ?_⟩, ?_⟩
    · intro q hq
      cases hq
    · exact fun hok => absurd hok (show ERR_OOMEM ≠ OK by decide)
  rw [if_neg htop, Option.bind_eq_bind, Option.bind_eq_some_iff] at hr
  obtain ⟨⟨region, ret⟩, hinit, hr⟩ := hr
  rw [if_neg htop, hinit, Option.bind_eq_bind, Option.bind_some]
  dsimp only at hr ⊢
  cases hnode : a.node with
  | none =>
    rw [hnode, initUvmem_none] at hinit
    cases hinit
    have hfail : ERR_OOMEM ≠ OK := by decide
    obtain ⟨tables, htables, -⟩ := (@createVmem_hung (· < KERNEL_PAGE) kvmem t.vmem.low).destroyVmem
      (createVmem_levelled kvmem _)
    rw [if_pos hfail] at hr ⊢
    cases hr
    rw [htables, Option.bind_eq_bind, Option.bind_some]
    refine ⟨_, rfl, fun _ => putBack_restored h (.refl _) (fun c o (hc : none = some o) => (by cases hc))
      (fun _ _ => rfl) fun q hq => List.mem_append_right _ hq, fun hok => absurd hok hfail⟩
  | some x =>
    rw [hnode] at hinit
    obtain ⟨rfl, -⟩ := initUvmem_some hinit
    rw [if_neg (not_not.2 rfl), Option.bind_eq_bind, Option.bind_eq_some_iff] at hr
    obtain ⟨⟨u, ram', ret⟩, hmap, hr⟩ := hr
    rw [if_neg (not_not.2 rfl), hmap, Option.bind_eq_bind, Option.bind_some]
    dsimp only at hr ⊢
    obtain ⟨level', pages, rest, hb, -, hledger⟩ := (h.building hinit).mapSegments hsegs hmap
    by_cases hret : ret = OK
    · rw [if_neg (not_not.2 hret)] at hr ⊢
      cases hr
      exact ⟨_, rfl, fun hno => absurd rfl hno, fun _ => rfl⟩
    · rw [if_pos hret] at hr ⊢
      cases hr
      obtain ⟨xs, howns⟩ := hb.owns
      have harena : u.region.start < u.region.stop := by
        rw [hb.start, hb.stop]
        decide
      obtain ⟨u', freed, hdestroy, hsame, hlow, htopfreed, htables, hpages⟩ :=
        @destroyUvmem_spec xs level' t.vmem.low owner unref _ u pages howns harena hb.stop
          hb.filling.known hb.backed new
      rw [hdestroy, Option.bind_eq_bind, Option.bind_some]
      refine ⟨_, rfl, fun _ => putBack_restored h hsame hb.filling.handed hlow fun q hq => ?_,
        fun hok => absurd hok (show ERR_OOMEM ≠ OK by decide)⟩
      obtain rfl | hq := List.mem_cons.1 hq
      · exact List.mem_append_right _ htopfreed
      · obtain hq | ⟨p, g, hg, hq⟩ | ⟨c, o, hc, rfl⟩ := hledger q hq
        · exact List.mem_append_left _ hq
        · exact List.mem_append_right _ (hpages p g hg q hq)
        · exact List.mem_append_right _ (htables c o hc)

/-- The image passes the checks, and `__map_exec` maps it. -/
def Loads (image : Bytes) (kvmem : ℕ) (t : UserVmem) (ram : Bytes) (elf : ℕ) (a : ExecAnswers) : Prop :=
  let ei_c := field image (elf + 4) 1
  let h := elfHeader ei_c image elf
  Executable image elf ∧ ∃ r, r.status = OK ∧
    mapExec image kvmem t ram elf ei_c ((elf + h.e_phoff) % 2 ^ 64) h.e_phnum h.e_phentsize a = some r

lemma loadElf_refuses (hx : ¬ Executable image elf) :
    loadElf image kvmem t ram elf a = some (⟨t, none, ram, OK⟩, 0) := by
  rw [loadElf]
  split_ifs with hmagic hclass
  · rfl
  · rfl
  · rw [prepareProc, if_neg]
    intro htype
    exact hx ⟨not_not.1 hmagic, by tauto, htype⟩

lemma loadElf_executable (hx : Executable image elf) : loadElf image kvmem t ram elf a =
    prepareExec image kvmem t ram (field image (elf + 4) 1) elf a := by
  obtain ⟨hmagic, hclass, htype⟩ := hx
  rw [loadElf, if_neg (not_not.2 hmagic), if_neg (by tauto), prepareProc, if_pos htype]

theorem loadElf_restored_iff
    (hsegs : ∀ s ∈ segments image elf, 0 < s.p_memsz ∧ s.p_vaddr + s.p_memsz ≤ UVMEM_END)
    (h : HandedOut kvmem old new t a) (hr : loadElf image kvmem t ram elf a = some (r, entry)) :
    ∃ e, loadElfEnds owner unref old new image kvmem t ram elf a = some (e, entry) ∧
      ((entry = 0 → Restored old t e) ↔
        (elfHeader (field image (elf + 4) 1) image elf).e_entry ≠ 0 ∨
          ¬ Loads image kvmem t ram elf a) := by
  by_cases hx : Executable image elf
  swap
  · rw [loadElf_refuses hx] at hr
    cases hr
    rw [loadElfEnds, if_neg hx]
    refine ⟨_, rfl, iff_of_true (fun _ => ?_) (.inr fun hl => hx hl.1)⟩
    refine ⟨rfl, rfl, fun _ _ => rfl, .refl _, ⟨rfl, rfl⟩, ⟨rfl, rfl, rfl⟩, fun q hq => ?_⟩
    cases hq
  rw [loadElf_executable hx, prepareExec, Option.bind_eq_bind, Option.bind_eq_some_iff] at hr
  obtain ⟨x, hexec, hr⟩ := hr
  obtain ⟨e, hends, hfail, hok⟩ := @mapExecEnds_restored _ _ _ old new _ _ _ owner unref _ _ _ _ _ h hsegs hexec
  rw [loadElfEnds, if_pos hx]
  dsimp only
  rw [hends, Option.bind_eq_bind, Option.bind_some]
  dsimp only
  have hloads : Loads image kvmem t ram elf a ↔ x.status = OK := by
    constructor
    · rintro ⟨-, x', hs, hexec'⟩
      rw [hexec] at hexec'
      cases hexec'
      exact hs
    · exact fun hs => ⟨hx, x, hs, hexec⟩
  rw [hloads]
  by_cases hs : x.status = OK
  · rw [if_neg (not_not.2 hs)] at hr ⊢
    cases hr
    refine ⟨e, rfl, ?_⟩
    constructor
    · intro hres
      refine .inl fun hzero => h.top ?_
      rw [← hok hs, (hres hzero).top]
    · rintro (hne | hno) hzero
      · exact absurd hzero hne
      · exact absurd hs hno
  · rw [if_pos hs] at hr ⊢
    cases hr
    exact ⟨e, rfl, iff_of_true (fun _ => hfail hs) (.inr hs)⟩

end Load

def oneTable : ExecAnswers :=
  ⟨true, some 2, [⟨some 3, some 4, [⟨0xffffffc080601000, [0xffffffc080602000]⟩]⟩]⟩

lemma smallAnswers_handedOut : HandedOut 0 0xffffffc080500000 0xffffffc080600000 freshProcess.memory
    smallAnswers :=
  ⟨smallAnswers_fresh, smallAnswers_fresh.pages, by decide⟩

lemma oneTable_handedOut : HandedOut 0 0xffffffc080500000 0xffffffc080600000 freshProcess.memory
    oneTable := by
  have hpages : FreshPages freshProcess.memory.vmem (sectionsSupply oneTable.sections) :=
    @FreshPages.prefixed _ _ [0xffffffc080603000] smallAnswers_fresh.pages
  exact ⟨⟨smallAnswers_fresh.kernel, hpages⟩, hpages, by decide⟩

theorem loadElf_restored_iff_one_table :
    ∃ r e, loadElf (smallImage 0) 0 freshProcess.memory (fun _ => 7) 0x40000 oneTable = some (r, 0) ∧
      loadElfEnds (fun _ => false) (fun _ m => m) 0xffffffc080500000 0xffffffc080600000 (smallImage 0) 0
        freshProcess.memory (fun _ => 7) 0x40000 oneTable = some (e, 0) ∧
      Restored 0xffffffc080500000 freshProcess.memory e := by
  have hret : (loadElf (smallImage 0) 0 freshProcess.memory (fun _ => 7) 0x40000 oneTable).map
      Prod.snd = some 0 := by
    decide +kernel
  rw [Option.map_eq_some_iff] at hret
  obtain ⟨⟨r, entry⟩, hr, rfl⟩ := hret
  have hsegs : ∀ s ∈ segments (smallImage 0) 0x40000,
      0 < s.p_memsz ∧ s.p_vaddr + s.p_memsz ≤ UVMEM_END := by
    decide +kernel
  obtain ⟨e, he, hiff⟩ := @loadElf_restored_iff _ _ 0 _ _ _ _ _ _ _ (fun _ => false) (fun _ m => m) hsegs
    oneTable_handedOut hr
  exact ⟨r, e, hr, he, hiff.2 (.inl (by decide +kernel)) rfl⟩

def zeroEntry : Bytes := fun x => if x = 0x4001a then 0 else smallImage 0 x

theorem zero_entry_not_restored :
    (∀ s ∈ segments zeroEntry 0x40000, 0 < s.p_memsz ∧ s.p_vaddr + s.p_memsz ≤ UVMEM_END) ∧
      HandedOut 0 0xffffffc080500000 0xffffffc080600000 freshProcess.memory smallAnswers ∧
      ∃ e, loadElfEnds (fun _ => false) (fun _ m => m) 0xffffffc080500000 0xffffffc080600000 zeroEntry 0
          freshProcess.memory (fun _ => 7) 0x40000 smallAnswers = some (e, 0) ∧
        ¬ Restored 0xffffffc080500000 freshProcess.memory e := by
  have hret : (loadElfEnds (fun _ => false) (fun _ m => m) 0xffffffc080500000 0xffffffc080600000 zeroEntry
      0 freshProcess.memory (fun _ => 7) 0x40000 smallAnswers).map
        (fun r => (r.2, (statVpage r.1.memory.vmem 0x20000).map Stat.addr)) =
      some (0, some 0xffffffc080601000) := by
    decide +kernel
  rw [Option.map_eq_some_iff] at hret
  obtain ⟨⟨e, entry⟩, he, hstat⟩ := hret
  rw [Prod.mk.injEq] at hstat
  obtain ⟨rfl, hstat⟩ := hstat
  refine ⟨by decide +kernel, smallAnswers_handedOut, e, he, fun hres => ?_⟩
  rw [hres.stat 0x20000 (by decide), freshProcess_stat (by decide)] at hstat
  cases hstat

end Kmi.Elf
