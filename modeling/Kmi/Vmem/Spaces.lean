import Kmi.Vmem.Agree
import Kmi.Vmem.Owned

/-! The spaces of processes and of RPC stacks that are in memory together, and what the
pages of that memory are used for. -/

namespace Kmi.Vmem

open Kmi.Mem

inductive Use where
  | kernel
  | root (h : Holder)
  | table (h : Holder) (order : ℕ)
  | data
deriving DecidableEq

structure Spaces where
  space : Holder → Option (ℕ × Table)
  low : ℕ → Table
  use : ℕ → Option Use

def kernelTable (kvmem : ℕ) : ℕ := pteAddr (toPte kvmem VM_V)

def Holder.first : Holder → ℕ
  | .proc _ => 0
  | .stack _ => CSTACK_PAGE

def levelOf (use : ℕ → Option Use) (h : Holder) (a : ℕ) : Option ℕ :=
  match use a with
  | some (.table h' o) => if h' = h then some o else none
  | _ => none

def useTables (use : ℕ → Option Use) (h : Holder) : List (ℕ × ℕ) → ℕ → Option Use
  | [] => use
  | (a, o) :: tables => useTables (Function.update use a (some (.table h o))) h tables

/-- The pages that `destroy_vmem` passes to `free_page`, that of the table itself last. -/
def destroyVmemPages (page : ℕ) (m : Space) : Option (List ℕ) := do
  if page = 0 then some []
  else
    let freed ← destroyVmem m
    some (freed ++ [page])

def destroyRpcmemPages (page : ℕ) (m : Space) : Option (List ℕ) := do
  if page = 0 then some []
  else
    let freed ← destroyRpcmem m
    some (freed ++ [page])

def destroyPages : Holder → ℕ → Space → Option (List ℕ)
  | .proc _ => destroyVmemPages
  | .stack _ => destroyRpcmemPages

def initSpaces (kvmem : ℕ) (low : ℕ → Table) : Spaces :=
  ⟨fun _ => none, low, fun a => if a = kernelTable kvmem then some .kernel else none⟩

def Spaces.create (w : Spaces) (kvmem : ℕ) (h : Holder) (page : ℕ) : Spaces :=
  { w with
    space := Function.update w.space h (some (page, createVmem kvmem))
    use := Function.update w.use page (some (.root h)) }

def Spaces.set (w : Spaces) (h : Holder) (page : ℕ) (m : Space) (tables : List (ℕ × ℕ)) : Spaces :=
  ⟨Function.update w.space h (some (page, m.root)), m.low, useTables w.use h tables⟩

/-- What `setup_rpc_stack` leaves, whether there were enough pages or not. -/
def setupRpcStackOrFail (m : Space) (stack : ℕ) (pages : Pages) : Space :=
  (setupRpcStack m stack pages).getD (mapVpage m stack RPC_STACK_BASE rpcStackFlags 0 pages).1

def Spaces.destroy (w : Spaces) (h : Holder) (freed : List ℕ) : Spaces :=
  { w with
    space := Function.update w.space h none
    use := fun a => if a ∈ freed then none else w.use a }

/-- Pages that `alloc_page` gives for tables: no page in use, or 0. -/
structure Unused (use : ℕ → Option Use) (pages : Pages) : Prop where
  aligned : ∀ p ∈ pages, p < 2 ^ 64 ∧ p % 4096 = 0
  nodup : (pages.filter (· ≠ 0)).Nodup
  fresh : ∀ p ∈ pages, p ≠ 0 → use p = none

/-- What `map_vpage` is called with: a page of the caller's, at a user address that no
larger page is mapped at. -/
structure Mappable (use : ℕ → Option Use) (m : Space) (paddr vaddr flags order : ℕ) (pages : Pages) :
    Prop where
  user : vaddr < UVMEM_END
  le : order ≤ maxOrder
  valid : flags &&& VM_V ≠ 0
  clear : ∀ x, statVpage m vaddr = some x → x.order ≤ order
  aligned : paddr < 2 ^ 64 ∧ paddr % 4096 = 0
  data : ∀ x, paddr ≤ x → x < paddr + orderSize order → use x = some .data
  pages : Unused use pages

def EntryFor (o pte x : ℕ) : Prop := isLeaf pte = true ∧ pteAddr pte ≤ x ∧ x < pteAddr pte + orderSize o

/-- Runs of creations, mappings, clones and destructions. Pages for data are taken and, once no
process has them, released in between, and written at any time. -/
inductive Spaces.Built (kvmem : ℕ) : Spaces → Prop
  | init (low : ℕ → Table) : Spaces.Built kvmem (initSpaces kvmem low)
  | create {w : Spaces} (h : Holder) (page : ℕ) : Spaces.Built kvmem w → w.space h = none → page ≠ 0 →
      w.use page = none → Spaces.Built kvmem (w.create kvmem h page)
  | map {w : Spaces} {pid page : ℕ} {proc : Table} (paddr vaddr flags order : ℕ) (pages : Pages) :
      Spaces.Built kvmem w → w.space (.proc pid) = some (page, proc) →
      Mappable w.use ⟨proc, w.low⟩ paddr vaddr flags order pages →
      Spaces.Built kvmem (w.set (.proc pid) page (mapVpage ⟨proc, w.low⟩ paddr vaddr flags order pages).1
        (mapTables vaddr (maxOrder - order) maxOrder none pages ⟨proc, w.low⟩))
  | unmap {w : Spaces} {pid page : ℕ} {proc : Table} (vaddr : ℕ) : Spaces.Built kvmem w →
      w.space (.proc pid) = some (page, proc) → vaddr < UVMEM_END →
      Spaces.Built kvmem (w.set (.proc pid) page (unmapVpage ⟨proc, w.low⟩ vaddr).1 [])
  | setup {w : Spaces} {tid page : ℕ} {rpc : Table} (stack : ℕ) (pages : Pages) : Spaces.Built kvmem w →
      w.space (.stack tid) = some (page, rpc) → Unused w.use pages →
      Spaces.Built kvmem (w.set (.stack tid) page (setupRpcStackOrFail ⟨rpc, w.low⟩ stack pages)
        (mapTables RPC_STACK_BASE maxOrder maxOrder none pages ⟨rpc, w.low⟩))
  | clone {w : Spaces} {pid tid page page' : ℕ} {proc rpc : Table} : Spaces.Built kvmem w →
      w.space (.proc pid) = some (page, proc) → w.space (.stack tid) = some (page', rpc) →
      Spaces.Built kvmem (w.set (.stack tid) page' ⟨cloneUvmem proc rpc, w.low⟩ [])
  | destroy {w : Spaces} {h : Holder} {page : ℕ} {root : Table} {freed : List ℕ} : Spaces.Built kvmem w →
      w.space h = some (page, root) → destroyPages h page ⟨root, w.low⟩ = some freed →
      Spaces.Built kvmem (w.destroy h freed)
  | take {w : Spaces} (d n : ℕ) : Spaces.Built kvmem w → (∀ x, d ≤ x → x < d + n → w.use x = none) →
      Spaces.Built kvmem { w with use := fun x => if d ≤ x ∧ x < d + n then some .data else w.use x }
  | release {w : Spaces} (d n : ℕ) : Spaces.Built kvmem w →
      (∀ x, d ≤ x → x < d + n → w.use x = some .data ∧
        (∀ pid page proc i, w.space (.proc pid) = some (page, proc) → i < KSTART_PAGE →
          ¬ EntryFor maxOrder (proc i) x) ∧
        ∀ pid a o i, w.use a = some (.table (.proc pid) o) → ¬ EntryFor o (w.low a i) x) →
      Spaces.Built kvmem { w with use := fun x => if d ≤ x ∧ x < d + n then none else w.use x }
  | write {w : Spaces} (a : ℕ) (table : Table) : Spaces.Built kvmem w →
      (∀ h o, w.use a ≠ some (.table h o)) →
      Spaces.Built kvmem { w with low := Function.update w.low a table }

variable {Q : ℕ → ℕ → Prop} {R : ℕ → Prop} {m m' : Space} {level : ℕ → Option ℕ} {w : Spaces}
  {use use' : ℕ → Option Use} {h h' : Holder} {low low' : ℕ → Table} {root root' : Table}
  {a o i first page kvmem : ℕ} {tables : List (ℕ × ℕ)} {freed : List ℕ}

lemma levelOf_eq_some : levelOf use h a = some o ↔ use a = some (.table h o) := by
  rw [levelOf]
  cases hu : use a with
  | none => simp
  | some u =>
    cases u with
    | kernel => simp
    | root h' => simp
    | data => simp
    | table h' o' =>
      by_cases he : h' = h
      · simp [he]
      · simp [he]

lemma levelOf_update (use : ℕ → Option Use) (h : Holder) (a o : ℕ) :
    levelOf (Function.update use a (some (.table h o))) h = Function.update (levelOf use h) a (some o) := by
  funext c
  by_cases hc : c = a
  · simp [levelOf, hc]
  · simp [levelOf, Function.update_of_ne hc]

lemma levelOf_useTables (tables : List (ℕ × ℕ)) :
    levelOf (useTables use h tables) h = addLevels (levelOf use h) tables := by
  induction tables generalizing use with
  | nil => rfl
  | cons x tables ih =>
    obtain ⟨a, o⟩ := x
    rw [useTables, ih, levelOf_update, addLevels]

lemma useTables_other (ha : a ∉ tables.map Prod.fst) : useTables use h tables a = use a := by
  induction tables generalizing use with
  | nil => rfl
  | cons x tables ih =>
    obtain ⟨c, o⟩ := x
    rw [List.map_cons, List.mem_cons, not_or] at ha
    rw [useTables, ih ha.2, Function.update_of_ne ha.1]

lemma useTables_mem (ha : a ∈ tables.map Prod.fst) : ∃ o, useTables use h tables a = some (.table h o) := by
  induction tables generalizing use with
  | nil => cases ha
  | cons x tables ih =>
    obtain ⟨c, o⟩ := x
    by_cases hm : a ∈ tables.map Prod.fst
    · exact ih hm
    · obtain rfl : a = c := (List.mem_cons.1 ha).resolve_right hm
      exact ⟨o, (useTables_other hm).trans (Function.update_self ..)⟩

lemma Hung.transfer (hh : Hung R level m) (he : ∀ o b i, HasLevel level o b → (b = none → R i) →
    isBranch (m.leaf b i) = true → m'.leaf b i = m.leaf b i) : Hung R level m' := by
  intro a o ha
  obtain ⟨ho, b, i, hb, hR, hi, hbranch, haddr⟩ := hh a o ha
  have hsame := he (o + 1) b i hb hR hbranch
  rw [← hsame] at hbranch haddr
  exact ⟨ho, b, i, hb, hR, hi, hbranch, haddr⟩

lemma Single.transfer (hs : Single R level m) (he : ∀ o b i, HasLevel level o b → (b = none → R i) →
    isBranch (m'.leaf b i) = true → m'.leaf b i = m.leaf b i) : Single R level m' := by
  intro o b i b' i' hb hb' hR hR' hbranch hbranch' haddr
  have hl := he (o + 1) b i hb hR hbranch
  have hl' := he (o + 1) b' i' hb' hR' hbranch'
  rw [hl] at hbranch haddr
  rw [hl'] at hbranch' haddr
  exact hs o b i b' i' hb hb' hR hR' hbranch hbranch' haddr

lemma Levelled.transfer (h : Levelled Q R level m) (he : ∀ o b i, HasLevel level o b → (b = none → R i) →
    m'.leaf b i = m.leaf b i) : Levelled Q R level m' := by
  refine ⟨fun i hi => ?_, fun a o ha i => ?_⟩
  · have hsame := he maxOrder none i rfl fun _ => hi
    change Entry Q level maxOrder (m'.leaf none i)
    rw [hsame]
    exact h.root i hi
  · have hsame := he o (some a) i ha fun hn => by cases hn
    change Entry Q level o (m'.leaf (some a) i)
    rw [hsame]
    exact h.low a o ha i

lemma Tree.transfer (h : Tree first level m) (he : ∀ o b i, HasLevel level o b → (b = none → Roots first i) →
    m'.leaf b i = m.leaf b i) : Tree first level m' :=
  ⟨h.levelled.transfer he, h.hung.transfer fun o b i hb hR _ => he o b i hb hR,
    h.single.transfer fun o b i hb hR _ => he o b i hb hR⟩

lemma Levelled.relabel {Q' : ℕ → ℕ → Prop} (h : Levelled Q R level m)
    (hroot : ∀ i, R i → isLeaf (m.root i) = true → Q maxOrder (m.root i) → Q' maxOrder (m.root i))
    (hlow : ∀ a o i, level a = some o → isLeaf (m.low a i) = true → Q o (m.low a i) → Q' o (m.low a i)) :
    Levelled Q' R level m := by
  refine ⟨fun i hi => ?_, fun a o ha i => ?_⟩
  · obtain he | ⟨hl, hq⟩ | he := h.root i hi
    · exact .inl he
    · exact .inr (.inl ⟨hl, hroot i hi hl hq⟩)
    · exact .inr (.inr he)
  · obtain he | ⟨hl, hq⟩ | he := h.low a o ha i
    · exact .inl he
    · exact .inr (.inl ⟨hl, hlow a o i ha hl hq⟩)
    · exact .inr (.inr he)

def PageEntry (use : ℕ → Option Use) : Holder → ℕ → ℕ → Prop
  | .proc _, o, pte => ∀ x, pteAddr pte ≤ x → x < pteAddr pte + orderSize o → use x = some .data
  | .stack _, o, _ => o = 0

def UserRoots (h : Holder) (i : ℕ) : Prop := h.first ≤ i ∧ i < KSTART_PAGE

structure OwnSpace (use : ℕ → Option Use) (low : ℕ → Table) (h : Holder) (page : ℕ) (root : Table) : Prop where
  page : page ≠ 0 ∧ use page = some (.root h)
  tree : Tree h.first (levelOf use h) ⟨root, low⟩
  pages : Levelled (PageEntry use h) (UserRoots h) (levelOf use h) ⟨root, low⟩

lemma UserRoots.roots (hi : UserRoots h i) : Roots h.first i := ⟨hi.1, hi.2.trans (by decide)⟩

lemma OwnSpace.frame (hk : OwnSpace use low h page root) (hpage : use' page = use page)
    (hlevel : levelOf use' h = levelOf use h) (hlow : ∀ a o, use a = some (.table h o) → low' a = low a)
    (hroot : ∀ i, Roots h.first i → root' i = root i) (hdata : ∀ x, use x = some .data → use' x = some .data) :
    OwnSpace use' low' h page root' := by
  have hleaf : ∀ o b i, HasLevel (levelOf use h) o b → (b = none → Roots h.first i) →
      (Space.mk root' low').leaf b i = (Space.mk root low).leaf b i := by
    intro o b i hb hR
    cases b with
    | none => exact hroot i (hR rfl)
    | some a => exact congrFun (hlow a o (levelOf_eq_some.1 hb)) i
  refine ⟨⟨hk.page.1, hpage.trans hk.page.2⟩, ?_, ?_⟩
  · rw [hlevel]
    exact hk.tree.transfer hleaf
  · rw [hlevel]
    have hmono : ∀ o pte, PageEntry use h o pte → PageEntry use' h o pte := by
      cases h with
      | proc pid => exact fun o pte hq x hx hx' => hdata x (hq x hx hx')
      | stack tid => exact fun o pte hq => hq
    exact (hk.pages.transfer fun o b i hb hR => hleaf o b i hb fun hn => (hR hn).roots).relabel
      (fun i _ _ => hmono _ _) fun a o i _ _ => hmono _ _

structure Spaces.Sound (kvmem : ℕ) (w : Spaces) : Prop where
  own : ∀ h page root, w.space h = some (page, root) → OwnSpace w.use w.low h page root
  gone : ∀ h, w.space h = none → ∀ a, levelOf w.use h a = none
  kernel : w.use (kernelTable kvmem) = some .kernel

lemma initSpaces_sound (kvmem : ℕ) (low : ℕ → Table) : (initSpaces kvmem low).Sound kvmem := by
  refine ⟨fun h page root hs => (by cases hs), fun h _ a => ?_, by simp [initSpaces]⟩
  rw [levelOf, initSpaces]
  dsimp only
  split_ifs <;> rfl

lemma Spaces.Sound.set (hw : w.Sound kvmem) (hs : w.space h = some (page, root))
    (hfresh : ∀ a ∈ tables.map Prod.fst, w.use a = none)
    (hframe : ∀ a, addLevels (levelOf w.use h) tables a = none → m.low a = w.low a)
    (hk : OwnSpace (useTables w.use h tables) m.low h page m.root) :
    (w.set h page m tables).Sound kvmem := by
  have hsame : ∀ a, w.use a ≠ none → useTables w.use h tables a = w.use a := fun a ha =>
    useTables_other fun hm => ha (hfresh a hm)
  have hother : ∀ h' ≠ h, levelOf (useTables w.use h tables) h' = levelOf w.use h' := by
    intro h' hne
    funext a
    by_cases ha : a ∈ tables.map Prod.fst
    · obtain ⟨o, ho⟩ := @useTables_mem w.use h a tables ha
      simp [levelOf, ho, hfresh a ha, Ne.symm hne]
    · simp only [levelOf, useTables_other ha]
  refine ⟨fun h' page' root' hs' => ?_, fun h' hs' a => ?_, ?_⟩
  · by_cases hne : h' = h
    · subst hne
      have he : (page, m.root) = (page', root') := by simpa [Spaces.set] using hs'
      obtain ⟨rfl, rfl⟩ := Prod.mk.inj he
      exact hk
    · have hold : w.space h' = some (page', root') := by simpa [Spaces.set, hne] using hs'
      have hown := hw.own h' page' root' hold
      refine hown.frame (hsame _ ?_) (hother h' hne) (fun a o ha => hframe a ?_) (fun _ _ => rfl)
        fun x hx => ?_
      · rw [hown.page.2]
        simp
      · apply addLevels_none
        · simp [levelOf, ha, hne]
        · intro hm
          rw [hfresh a hm] at ha
          cases ha
      · change useTables w.use h tables x = _
        rw [hsame x (by simp [hx]), hx]
  · by_cases hne : h' = h
    · subst hne
      simp [Spaces.set] at hs'
    · have hold : w.space h' = none := by simpa [Spaces.set, hne] using hs'
      change levelOf (useTables w.use h tables) h' a = none
      rw [hother h' hne]
      exact hw.gone h' hold a
  · change useTables w.use h tables _ = _
    rw [hsame _ (by simp [hw.kernel]), hw.kernel]

lemma Unused.newTables {pages : Pages} (hp : Unused use pages) (h : Holder) :
    NewTables (levelOf use h) pages :=
  ⟨hp.aligned, hp.nodup, fun p hp' hp0 => by rw [levelOf, hp.fresh p hp' hp0]⟩

lemma PageEntry.useTables {pte : ℕ} (hq : PageEntry use h o pte)
    (hfresh : ∀ a ∈ tables.map Prod.fst, use a = none) (h' : Holder) :
    PageEntry (Vmem.useTables use h' tables) h o pte := by
  cases h with
  | stack tid => exact hq
  | proc pid =>
    intro x hx hx'
    rw [useTables_other, hq x hx hx']
    intro hm
    have hnone := hfresh x hm
    rw [hq x hx hx'] at hnone
    cases hnone

lemma OwnSpace.mapVpage {paddr vaddr flags order : ℕ} {pages : Pages} (hk : OwnSpace use low h page root)
    (hv : UserRoots h (vmToIndex vaddr maxOrder)) (ho : order ≤ maxOrder) (hp : Unused use pages)
    (hV : flags &&& VM_V ≠ 0)
    (hq : PageEntry use h order (toPte (pa paddr) (vpFlags (flags ||| (VM_A ||| VM_D)))))
    (hclear : ∀ x, statVpage ⟨root, low⟩ vaddr = some x → x.order ≤ order) :
    OwnSpace (useTables use h (mapTables vaddr (maxOrder - order) maxOrder none pages ⟨root, low⟩))
        (Vmem.mapVpage ⟨root, low⟩ paddr vaddr flags order pages).1.low h page
        (Vmem.mapVpage ⟨root, low⟩ paddr vaddr flags order pages).1.root ∧
      ∀ a, addLevels (levelOf use h) (mapTables vaddr (maxOrder - order) maxOrder none pages ⟨root, low⟩) a = none →
        (Vmem.mapVpage ⟨root, low⟩ paddr vaddr flags order pages).1.low a = low a := by
  have hnew := hp.newTables h
  have hfresh : ∀ a ∈ (mapTables vaddr (maxOrder - order) maxOrder none pages ⟨root, low⟩).map Prod.fst,
      use a = none := fun a ha => hp.fresh a (mapTables_mem ha).1 (mapTables_mem ha).2
  have htree := hk.tree
  have hlev := @mapVpage_levelled _ _ _ _ vaddr order pages paddr flags htree.levelled hv.roots ho hnew
    hV trivial hclear
  have hpages := mapVpage_levelled hk.pages hv ho hnew hV hq hclear
  have hhung := @Stable.mapVpage _ _ _ _ vaddr order paddr flags pages _ (hung_stable _ _) htree.hung
    htree.levelled hv.roots ho hnew hclear
  have hsingle := @Stable.mapVpage _ _ _ _ vaddr order paddr flags pages _ (single_stable _ _)
    htree.single htree.levelled hv.roots ho hnew hclear
  refine ⟨⟨⟨hk.page.1, ?_⟩, ?_, ?_⟩, hlev.frame⟩
  · rw [useTables_other]
    · exact hk.page.2
    · intro hm
      have hnone := hfresh page hm
      rw [hk.page.2] at hnone
      cases hnone
  · rw [levelOf_useTables]
    exact ⟨hlev.levelled, hhung, hsingle⟩
  · rw [levelOf_useTables]
    exact hpages.levelled.relabel (fun i _ _ hq => hq.useTables hfresh h) fun a o i _ _ hq =>
      hq.useTables hfresh h

lemma OwnSpace.unmapVpage {vaddr : ℕ} (hk : OwnSpace use low h page root)
    (hv : UserRoots h (vmToIndex vaddr maxOrder)) :
    OwnSpace use (Vmem.unmapVpage ⟨root, low⟩ vaddr).1.low h page (Vmem.unmapVpage ⟨root, low⟩ vaddr).1.root ∧
      ∀ a, levelOf use h a = none → (Vmem.unmapVpage ⟨root, low⟩ vaddr).1.low a = low a := by
  have hlev := unmapVpage_levelled hk.tree.levelled hv.roots
  have hhung := @Stable.unmapVpage _ _ _ _ vaddr _ (hung_stable (fun _ _ => True) _) hk.tree.hung
  have hsingle := @Stable.unmapVpage _ _ _ _ vaddr _ (single_stable (fun _ _ => True) _) hk.tree.single
  exact ⟨⟨hk.page, ⟨hlev.levelled, hhung, hsingle⟩, (unmapVpage_levelled hk.pages hv).levelled⟩, hlev.frame⟩

lemma OwnSpace.setTable {table : Table} {tid : ℕ} (hk : OwnSpace use low (.stack tid) page root)
    (ha : levelOf use (.stack tid) a = some 0)
    (ht : ∀ i, table i = low a i ∨ isLeaf (table i) = true) :
    OwnSpace use (Function.update low a table) (.stack tid) page root := by
  have hlev := @Relevelled.setTable _ _ ⟨root, low⟩ _ a 0 table hk.tree.levelled ha fun i =>
    (ht i).imp_right fun hl => ⟨hl, trivial⟩
  have hpages := @Relevelled.setTable _ _ ⟨root, low⟩ _ a 0 table hk.pages ha fun i =>
    (ht i).imp_right fun hl => ⟨hl, rfl⟩
  have hsame : ∀ b i, b ≠ some a →
      (Space.mk root (Function.update low a table)).leaf b i = (Space.mk root low).leaf b i := by
    intro b i hb
    cases b with
    | none => rfl
    | some c => exact congrFun (Function.update_of_ne (fun he => hb (congrArg some he)) _ _) i
  refine ⟨hk.page, ⟨hlev.levelled, ?_, ?_⟩, hpages.levelled⟩
  · apply hk.tree.hung.transfer
    intro o b i hb hR hbranch
    apply hsame
    rintro rfl
    -- a table of base pages has no branch
    obtain rfl : o = 0 := Option.some.inj (hb.symm.trans ha)
    obtain ⟨o', ho', -⟩ := hk.tree.levelled.branch hb hR hbranch
    cases ho'
  · apply hk.tree.single.transfer
    intro o b i hb hR hbranch
    by_cases hba : b = some a
    · subst hba
      have htable : (Space.mk root (Function.update low a table)).leaf (some a) i = table i :=
        congrFun (Function.update_self ..) i
      rw [htable] at hbranch ⊢
      obtain he | hl := ht i
      · exact he
      · rw [isBranch_of_leaf hl] at hbranch
        cases hbranch
    · exact hsame b i hba

lemma OwnSpace.setupRpcStack {tid stack : ℕ} {pages : Pages} (hk : OwnSpace use low (.stack tid) page root)
    (hp : Unused use pages) :
    OwnSpace (useTables use (.stack tid) (mapTables RPC_STACK_BASE maxOrder maxOrder none pages ⟨root, low⟩))
        (setupRpcStackOrFail ⟨root, low⟩ stack pages).low (.stack tid) page
        (setupRpcStackOrFail ⟨root, low⟩ stack pages).root ∧
      ∀ a, addLevels (levelOf use (.stack tid))
          (mapTables RPC_STACK_BASE maxOrder maxOrder none pages ⟨root, low⟩) a = none →
        (setupRpcStackOrFail ⟨root, low⟩ stack pages).low a = low a := by
  have hv : UserRoots (.stack tid) (vmToIndex RPC_STACK_BASE maxOrder) := by
    rw [vmToIndex_rpcStackBase]
    exact ⟨le_rfl, (by decide : CSTACK_PAGE < KSTART_PAGE)⟩
  have hclear : ∀ x, statVpage ⟨root, low⟩ RPC_STACK_BASE = some x → x.order ≤ 0 :=
    fun x hx => (hk.pages.stat_order hv hx).le
  obtain ⟨hm, hframe⟩ := @OwnSpace.mapVpage _ _ _ _ page stack RPC_STACK_BASE rpcStackFlags 0 pages hk hv
    (Nat.zero_le _) hp (by decide) rfl hclear
  rw [setupRpcStackOrFail, Vmem.setupRpcStack]
  change OwnSpace (useTables use _ (mapTables RPC_STACK_BASE maxOrder maxOrder none pages _)) _ _ _ _ at hm
  change ∀ a, addLevels _ (mapTables RPC_STACK_BASE maxOrder maxOrder none pages _) a = none → _ at hframe
  generalize Vmem.mapVpage ⟨root, low⟩ stack RPC_STACK_BASE rpcStackFlags 0 pages = r at hm hframe
  obtain ⟨m₁, res⟩ := r
  dsimp only at hm hframe ⊢
  split_ifs with hok
  · cases hf : findVmem m₁ RPC_STACK_BASE maxOrder none with
    | none => exact ⟨hm, hframe⟩
    | some x =>
      obtain ⟨b, idx, o⟩ := x
      cases b with
      | none => exact ⟨hm, hframe⟩
      | some a =>
        have hzero : o = 0 := by
          have hx : statVpage m₁ RPC_STACK_BASE =
              some ⟨pteAddr (m₁.leaf (some a) idx), o, pteFlags (m₁.leaf (some a) idx)⟩ := by
            rw [statVpage, hf]
          exact hm.pages.stat_order hv hx
        subst hzero
        have hlev := (findVmem_walks .top hf).1.levelled hm.tree.levelled hv.roots
        refine ⟨hm.setTable hlev fun i => ?_, fun c hc => ?_⟩
        · split_ifs
          · exact .inr (stackPage_isLeaf _)
          · exact .inl rfl
        · rw [← hframe c hc]
          apply Function.update_of_ne
          rintro rfl
          rw [levelOf_useTables] at hlev
          rw [HasLevel, hc] at hlev
          cases hlev
  · exact ⟨hm, hframe⟩

lemma createVmem_own (hpage : page ≠ 0) (huse : use page = some (.root h))
    (hnone : ∀ a, levelOf use h a = none) : OwnSpace use low h page (createVmem kvmem) := by
  have hlevel : levelOf use h = fun _ => none := funext hnone
  refine ⟨⟨hpage, huse⟩, ?_, ?_⟩
  · rw [hlevel]
    refine ⟨⟨fun i hi => (createVmem_levelled kvmem low).root i hi.2, fun a o ha => (by cases ha)⟩,
      createVmem_hung kvmem low, ?_⟩
    intro o b i b' i' hb hb' hR hR'
    exact createVmem_single kvmem low o b i b' i' hb hb' (fun hn => (hR hn).2) fun hn => (hR' hn).2
  · rw [hlevel]
    refine ⟨fun i hi => .inl ?_, fun a o ha => (by cases ha)⟩
    change unused (createVmem kvmem i) = true
    rw [createVmem, if_pos hi.2]
    rfl

lemma set_use_nil : (w.set h page m []).use = w.use := rfl

lemma create_use : (w.create kvmem h page).use = Function.update w.use page (some (.root h)) := rfl

lemma Spaces.Sound.create (hw : w.Sound kvmem) (hs : w.space h = none) (hpage : page ≠ 0)
    (hfree : w.use page = none) : (w.create kvmem h page).Sound kvmem := by
  have hsame : ∀ a, w.use a ≠ none → Function.update w.use page (some (.root h)) a = w.use a := by
    intro a ha
    apply Function.update_of_ne
    rintro rfl
    exact ha hfree
  have hlevel : ∀ h', levelOf (Function.update w.use page (some (.root h))) h' = levelOf w.use h' := by
    intro h'
    funext a
    by_cases ha : a = page
    · simp [levelOf, ha, hfree]
    · simp [levelOf, Function.update_of_ne ha]
  refine ⟨fun h' page' root' hs' => ?_, fun h' hs' a => ?_, ?_⟩
  · by_cases hne : h' = h
    · subst hne
      have he : (page, createVmem kvmem) = (page', root') := by simpa [Spaces.create] using hs'
      obtain ⟨rfl, rfl⟩ := Prod.mk.inj he
      apply createVmem_own hpage (Function.update_self ..)
      intro a
      rw [hlevel]
      exact hw.gone h' hs a
    · have hold : w.space h' = some (page', root') := by simpa [Spaces.create, hne] using hs'
      have hown := hw.own h' page' root' hold
      refine hown.frame (hsame _ ?_) (hlevel h') (fun _ _ _ => rfl) (fun _ _ => rfl) fun x hx => ?_
      · rw [hown.page.2]
        simp
      · change Function.update w.use page _ x = _
        rw [hsame x (by simp [hx]), hx]
  · change levelOf (Function.update w.use page _) h' a = none
    rw [hlevel]
    refine hw.gone h' ?_ a
    by_cases hne : h' = h
    · rw [hne]
      exact hs
    · simpa [Spaces.create, hne] using hs'
  · have hkernel := hsame (kernelTable kvmem) (by rw [hw.kernel]; simp)
    rw [create_use, hkernel, hw.kernel]

lemma destroyPages_eq (hpage : page ≠ 0) :
    destroyPages h page m = (destroyEntries m h.first).map (· ++ [page]) := by
  cases h with
  | proc pid =>
    rw [destroyPages, destroyVmemPages, if_neg hpage]
    cases hd : destroyEntries m 0 <;> simp [destroyVmem, hd, Holder.first]
  | stack tid =>
    rw [destroyPages, destroyRpcmemPages, if_neg hpage]
    cases hd : destroyEntries m CSTACK_PAGE <;> simp [destroyRpcmem, hd, Holder.first]

lemma OwnSpace.destroyPages (hk : OwnSpace use low h page root) :
    ∃ freed, Vmem.destroyPages h page ⟨root, low⟩ = some freed ∧ freed.Nodup ∧
      (∀ a, a ∈ freed ↔ a = page ∨ Below ⟨root, low⟩ h.first a) ∧
      ∀ a, Below ⟨root, low⟩ h.first a ↔ ∃ o, use a = some (.table h o) := by
  obtain ⟨hpage, huse⟩ := hk.page
  obtain ⟨freed, hfreed, hnodup, hmem⟩ := hk.tree.destroyEntries
  have hbelow : ∀ a, Below ⟨root, low⟩ h.first a ↔ ∃ o, use a = some (.table h o) := by
    intro a
    rw [hk.tree.below_iff]
    simp only [levelOf_eq_some]
  refine ⟨freed ++ [page], by rw [destroyPages_eq hpage, hfreed]; rfl, ?_, fun a => ?_, hbelow⟩
  · rw [List.nodup_append_comm, List.singleton_append, List.nodup_cons]
    refine ⟨fun hm => ?_, hnodup⟩
    obtain ⟨o, ho⟩ := (hbelow page).1 ((hmem page).1 hm)
    rw [huse] at ho
    cases ho
  · rw [List.mem_append, List.mem_singleton, hmem, or_comm]

lemma Spaces.Sound.destroy (hw : w.Sound kvmem) (hs : w.space h = some (page, root))
    (hd : destroyPages h page ⟨root, w.low⟩ = some freed) : (w.destroy h freed).Sound kvmem := by
  have hk := hw.own h page root hs
  obtain ⟨freed', hd', -, hmem, hbelow⟩ := hk.destroyPages
  obtain rfl := Option.some.inj (hd.symm.trans hd')
  have hfreed : ∀ a, a ∈ freed ↔ a = page ∨ ∃ o, w.use a = some (.table h o) := by
    intro a
    rw [hmem, hbelow]
  have huse : ∀ a, (w.destroy h freed).use a = if a ∈ freed then none else w.use a := fun _ => rfl
  have hspace : ∀ h', (w.destroy h freed).space h' = if h' = h then none else w.space h' := by
    intro h'
    simp [Spaces.destroy, Function.update_apply]
  have hsame : ∀ a u, w.use a = some u → u ≠ .root h → (∀ o, u ≠ .table h o) →
      (w.destroy h freed).use a = some u := by
    intro a u hu hr ht
    rw [huse, if_neg, hu]
    rw [hfreed]
    rintro (rfl | ⟨o, ho⟩)
    · rw [hk.page.2] at hu
      exact hr (Option.some.inj hu).symm
    · rw [hu] at ho
      exact ht o (Option.some.inj ho)
  have hlevel : ∀ h' ≠ h, levelOf (w.destroy h freed).use h' = levelOf w.use h' := by
    intro h' hne
    funext a
    rw [levelOf, levelOf, huse]
    split_ifs with hm
    · obtain rfl | ⟨o, ho⟩ := (hfreed a).1 hm
      · rw [hk.page.2]
      · simp [ho, Ne.symm hne]
    · rfl
  refine ⟨fun h' page' root' hs' => ?_, fun h' hs' a => ?_, ?_⟩
  · rw [hspace] at hs'
    split_ifs at hs' with hne
    have hown := hw.own h' page' root' hs'
    refine hown.frame ?_ (hlevel h' hne) (fun _ _ _ => rfl) (fun _ _ => rfl) fun x hx => ?_
    · rw [hown.page.2]
      exact hsame _ _ hown.page.2 (by simp [hne]) (by simp)
    · exact hsame x _ hx (by simp) (by simp)
  · by_cases hne : h' = h
    · subst hne
      cases hl : levelOf (w.destroy h' freed).use h' a with
      | none => rfl
      | some o =>
        rw [levelOf_eq_some, huse] at hl
        split_ifs at hl with hm
        exact absurd ((hfreed a).2 (.inr ⟨o, hl⟩)) hm
    · rw [hlevel h' hne]
      rw [hspace, if_neg hne] at hs'
      exact hw.gone h' hs' a
  · exact hsame _ _ hw.kernel (by simp) (by simp)

lemma Spaces.Sound.data (hw : w.Sound kvmem)
    (hu : ∀ a u, w.use a = some u → u ≠ .data → use' a = some u)
    (hnew : ∀ a u, use' a = some u → u ≠ .data → w.use a = some u)
    (hdata : ∀ h page root, w.space h = some (page, root) →
      Levelled (PageEntry use' h) (UserRoots h) (levelOf w.use h) ⟨root, w.low⟩) :
    ({ w with use := use' } : Spaces).Sound kvmem := by
  have hlevel : ∀ h, levelOf use' h = levelOf w.use h := by
    intro h
    funext a
    apply Option.ext
    intro o
    rw [levelOf_eq_some, levelOf_eq_some]
    constructor
    · intro ha
      exact hnew a _ ha (by simp)
    · intro ha
      exact hu a _ ha (by simp)
  refine ⟨fun h page root hs => ?_, fun h hs a => ?_, hu _ _ hw.kernel (by simp)⟩
  · have hown := hw.own h page root hs
    refine ⟨⟨hown.page.1, hu _ _ hown.page.2 (by simp)⟩, ?_, ?_⟩
    · change Tree h.first (levelOf use' h) _
      rw [hlevel]
      exact hown.tree
    · change Levelled (PageEntry use' h) _ (levelOf use' h) _
      rw [hlevel]
      exact hdata h page root hs
  · change levelOf use' h a = none
    rw [hlevel]
    exact hw.gone h hs a

lemma Spaces.Sound.take {d n : ℕ} (hw : w.Sound kvmem) (hfree : ∀ x, d ≤ x → x < d + n → w.use x = none) :
    ({ w with use := fun x => if d ≤ x ∧ x < d + n then some .data else w.use x } : Spaces).Sound kvmem := by
  have hkeep : ∀ a u, w.use a = some u → (if d ≤ a ∧ a < d + n then some Use.data else w.use a) = some u := by
    intro a u ha
    rw [if_neg, ha]
    rintro ⟨hlo, hhi⟩
    rw [hfree a hlo hhi] at ha
    cases ha
  apply hw.data
  · exact fun a u ha _ => hkeep a u ha
  · intro a u ha hu
    split_ifs at ha
    · exact absurd (Option.some.inj ha).symm hu
    · exact ha
  · intro h page root hs
    have hmono : ∀ o pte, PageEntry w.use h o pte →
        PageEntry (fun x => if d ≤ x ∧ x < d + n then some .data else w.use x) h o pte := by
      cases h with
      | proc pid => exact fun o pte hq x hx hx' => hkeep x _ (hq x hx hx')
      | stack tid => exact fun o pte hq => hq
    exact (hw.own h page root hs).pages.relabel (fun i _ _ => hmono _ _) fun a o i _ _ => hmono _ _

lemma Spaces.Sound.release {d n : ℕ} (hw : w.Sound kvmem)
    (hrel : ∀ x, d ≤ x → x < d + n → w.use x = some .data ∧
      (∀ pid page proc i, w.space (.proc pid) = some (page, proc) → i < KSTART_PAGE →
        ¬ EntryFor maxOrder (proc i) x) ∧
      ∀ pid a o i, w.use a = some (.table (.proc pid) o) → ¬ EntryFor o (w.low a i) x) :
    ({ w with use := fun x => if d ≤ x ∧ x < d + n then none else w.use x } : Spaces).Sound kvmem := by
  apply hw.data
  · intro a u ha hu
    rw [if_neg, ha]
    rintro ⟨hlo, hhi⟩
    rw [(hrel a hlo hhi).1] at ha
    exact hu (Option.some.inj ha).symm
  · intro a u ha _
    split_ifs at ha
    exact ha
  · intro h page root hs
    have hown := hw.own h page root hs
    cases h with
    | stack tid => exact hown.pages
    | proc pid =>
      -- what is still mapped is not released
      apply hown.pages.relabel
      · intro i hi hl hq x hx hx'
        dsimp only
        rw [if_neg, hq x hx hx']
        rintro ⟨hlo, hhi⟩
        exact (hrel x hlo hhi).2.1 pid page root i hs hi.2 ⟨hl, hx, hx'⟩
      · intro a o i ha hl hq x hx hx'
        dsimp only
        rw [if_neg, hq x hx hx']
        rintro ⟨hlo, hhi⟩
        exact (hrel x hlo hhi).2.2 pid a o i (levelOf_eq_some.1 ha) ⟨hl, hx, hx'⟩

lemma Spaces.Sound.write (hw : w.Sound kvmem) (table : Table) (hno : ∀ h o, w.use a ≠ some (.table h o)) :
    ({ w with low := Function.update w.low a table } : Spaces).Sound kvmem := by
  refine ⟨fun h page root hs => ?_, hw.gone, hw.kernel⟩
  refine (hw.own h page root hs).frame rfl rfl (fun c o hc => ?_) (fun _ _ => rfl) fun _ hx => hx
  apply Function.update_of_ne
  rintro rfl
  exact hno h o hc

lemma Spaces.Built.sound (hb : Spaces.Built kvmem w) : w.Sound kvmem := by
  induction hb with
  | init low => exact initSpaces_sound kvmem low
  | create h page _ hs hpage hfree hw => exact hw.create hs hpage hfree
  | map paddr vaddr flags order pages _ hs hok hw =>
    obtain ⟨hk, hframe⟩ := (hw.own _ _ _ hs).mapVpage ⟨Nat.zero_le _, user_top hok.user⟩ hok.le hok.pages
      hok.valid (by
        have haddr : pteAddr (toPte (pa paddr) (vpFlags (flags ||| (VM_A ||| VM_D)))) = paddr :=
          pteAddr_toPte (Nat.and_le_right.trans_lt (by decide)) hok.aligned.1 hok.aligned.2
        intro x hx hx'
        rw [haddr] at hx hx'
        exact hok.data x hx hx') hok.clear
    exact hw.set hs (fun a ha => hok.pages.fresh a (mapTables_mem ha).1 (mapTables_mem ha).2) hframe hk
  | unmap vaddr _ hs hv hw =>
    obtain ⟨hk, hframe⟩ := (hw.own _ _ _ hs).unmapVpage ⟨Nat.zero_le _, user_top hv⟩
    exact hw.set hs (fun a ha => (by cases ha)) hframe hk
  | setup stack pages _ hs hp hw =>
    obtain ⟨hk, hframe⟩ := @OwnSpace.setupRpcStack _ _ _ _ _ stack pages (hw.own _ _ _ hs) hp
    exact hw.set hs (fun a ha => hp.fresh a (mapTables_mem ha).1 (mapTables_mem ha).2) hframe hk
  | @clone w pid tid page page' proc rpc _ _ hs hw =>
    apply hw.set hs (fun a ha => (by cases ha)) (fun _ _ => rfl)
    exact (hw.own _ _ _ hs).frame rfl rfl (fun _ _ _ => rfl) (fun i hi => cloneUvmem_above proc rpc hi.1)
      fun _ hx => hx
  | destroy _ hs hd hw => exact hw.destroy hs hd
  | take d n _ hfree hw => exact hw.take hfree
  | release d n _ hrel hw => exact hw.release hrel
  | write a table _ hno hw => exact hw.write table hno

lemma OwnSpace.apart {pid v : ℕ} {x : Stat} (hk : OwnSpace use low (.proc pid) page root)
    (hv : v < UVMEM_END) (hx : statVpage ⟨root, low⟩ v = some x) (ha : use a ≠ some .data) :
    ¬ (x.addr ≤ a ∧ a < x.addr + orderSize x.order) := by
  obtain ⟨pte, haddr, -, hq⟩ := hk.pages.stat_page ⟨Nat.zero_le _, user_top hv⟩ hx
  rintro ⟨hlo, hhi⟩
  rw [haddr] at hlo hhi
  exact ha (hq a hlo hhi)

theorem destroy_frees_owned (hb : Spaces.Built kvmem w) :
    (∀ tid page rpc, w.space (.stack tid) = some (page, rpc) →
      ∃ freed, destroyRpcmemPages page ⟨rpc, w.low⟩ = some freed ∧ freed.Nodup ∧
        (∀ a, a ∈ freed ↔ a = page ∨ Below ⟨rpc, w.low⟩ CSTACK_PAGE a) ∧
        ∀ pid root proc, w.space (.proc pid) = some (root, proc) →
          root ∉ freed ∧ ∀ a, Below ⟨proc, w.low⟩ 0 a → a ∉ freed) ∧
    ∀ pid page proc, w.space (.proc pid) = some (page, proc) →
      ∃ freed, destroyVmemPages page ⟨proc, w.low⟩ = some freed ∧ freed.Nodup ∧
        (∀ a, a ∈ freed ↔ a = page ∨ Below ⟨proc, w.low⟩ 0 a) ∧
        (∀ a, Below ⟨proc, w.low⟩ 0 a ↔ ∃ o, w.use a = some (.table (.proc pid) o)) ∧
        kernelTable kvmem ∉ freed ∧
        ∀ qid root proc', w.space (.proc qid) = some (root, proc') → ∀ v < UVMEM_END, ∀ x,
          statVpage ⟨proc', w.low⟩ v = some x → ∀ a ∈ freed, ¬ (x.addr ≤ a ∧ a < x.addr + orderSize x.order) := by
  have hw := hb.sound
  constructor
  · intro tid page rpc hs
    have hk := hw.own _ _ _ hs
    obtain ⟨freed, hd, hnodup, hmem, hbelow⟩ := hk.destroyPages
    have huse : ∀ a ∈ freed, w.use a = some (.root (.stack tid)) ∨ ∃ o, w.use a = some (.table (.stack tid) o) := by
      intro a ha
      obtain rfl | ha := (hmem a).1 ha
      · exact .inl hk.page.2
      · exact .inr ((hbelow a).1 ha)
    refine ⟨freed, hd, hnodup, hmem, fun pid root proc hp => ⟨fun hr => ?_, fun a ha hm => ?_⟩⟩
    · have hroot := (hw.own _ _ _ hp).page.2
      obtain hu | ⟨o, hu⟩ := huse root hr
      · rw [hroot] at hu
        cases hu
      · rw [hroot] at hu
        cases hu
    · obtain ⟨_, _, _, _, hbelow'⟩ := (hw.own _ _ _ hp).destroyPages
      obtain ⟨o', ho'⟩ := (hbelow' a).1 ha
      obtain hu | ⟨o, hu⟩ := huse a hm
      · rw [ho'] at hu
        cases hu
      · rw [ho'] at hu
        cases hu
  · intro pid page proc hs
    have hk := hw.own _ _ _ hs
    obtain ⟨freed, hd, hnodup, hmem, hbelow⟩ := hk.destroyPages
    have huse : ∀ a ∈ freed, w.use a = some (.root (.proc pid)) ∨ ∃ o, w.use a = some (.table (.proc pid) o) := by
      intro a ha
      obtain rfl | ha := (hmem a).1 ha
      · exact .inl hk.page.2
      · exact .inr ((hbelow a).1 ha)
    refine ⟨freed, hd, hnodup, hmem, hbelow, fun hkern => ?_, fun qid root proc' hq v hv x hx a ha => ?_⟩
    · obtain hu | ⟨o, hu⟩ := huse _ hkern
      · rw [hw.kernel] at hu
        cases hu
      · rw [hw.kernel] at hu
        cases hu
    · apply (hw.own _ _ _ hq).apart hv hx
      obtain hu | ⟨o, hu⟩ := huse a ha
      · rw [hu]
        simp
      · rw [hu]
        simp

section OneProcess

def twoSpaces : Spaces :=
  (({ initSpaces 0x80200000 fun _ _ => 0 with
    use := fun x => if 0x10000 ≤ x ∧ x < 0x10000 + 4096 then some .data else
      (initSpaces 0x80200000 fun _ _ => 0).use x } : Spaces).create 0x80200000 (.proc 1) 0x1000).create
    0x80200000 (.stack 1) 0x2000

lemma twoSpaces_built : Spaces.Built 0x80200000 twoSpaces := by
  have hinit : Spaces.Built 0x80200000 (initSpaces 0x80200000 fun _ _ => 0) := .init _
  have hfree : ∀ x, 0x10000 ≤ x → x < 0x10000 + 4096 →
      (initSpaces 0x80200000 fun _ _ => 0).use x = none := by
    intro x _ hx
    have hk : kernelTable 0x80200000 = 0xffffffc080200000 := by decide
    simp only [initSpaces, hk]
    rw [if_neg (by omega)]
  have htake := hinit.take 0x10000 4096 hfree
  exact (htake.create (.proc 1) 0x1000 rfl (by norm_num) (by decide +kernel)).create (.stack 1) 0x2000
    (by decide +kernel) (by norm_num) (by decide +kernel)

def withStack : Spaces :=
  twoSpaces.set (.stack 1) 0x2000
    (setupRpcStackOrFail ⟨createVmem 0x80200000, twoSpaces.low⟩ 0x20000 [0x3000, 0x4000])
    (mapTables RPC_STACK_BASE maxOrder maxOrder none [0x3000, 0x4000]
      ⟨createVmem 0x80200000, twoSpaces.low⟩)

lemma withStack_built : Spaces.Built 0x80200000 withStack := by
  apply twoSpaces_built.setup
  · simp [twoSpaces, Spaces.create]
  · refine ⟨by decide, by decide, ?_⟩
    intro p hp _
    simp only [List.mem_cons, List.not_mem_nil, or_false] at hp
    obtain rfl | rfl := hp <;> decide +kernel

def mappedPage : Space :=
  (mapVpage ⟨createVmem 0x80200000, withStack.low⟩ 0x10000 0x5000 0x17 0 [0x6000, 0x7000]).1

def withPage : Spaces :=
  withStack.set (.proc 1) 0x1000 mappedPage
    (mapTables 0x5000 maxOrder maxOrder none [0x6000, 0x7000] ⟨createVmem 0x80200000, withStack.low⟩)

lemma withPage_built : Spaces.Built 0x80200000 withPage := by
  apply withStack_built.map
  · simp [withStack, twoSpaces, Spaces.set, Spaces.create]
  · refine ⟨by decide, by decide, by decide, fun x hx => ?_, by decide, fun x hx hx' => ?_,
      ⟨by decide, by decide, ?_⟩⟩
    · have hu := statVpage_used hx
      cases hu
    · rw [show orderSize 0 = 4096 from rfl] at hx'
      have htables : withStack.use x = twoSpaces.use x := by
        apply useTables_other
        intro hm
        have hp := (mapTables_mem hm).1
        simp only [List.mem_cons, List.not_mem_nil, or_false] at hp
        omega
      rw [htables, twoSpaces, create_use, Function.update_of_ne (by omega), create_use,
        Function.update_of_ne (by omega)]
      exact if_pos ⟨hx, hx'⟩
    · intro p hp _
      simp only [List.mem_cons, List.not_mem_nil, or_false] at hp
      obtain rfl | rfl := hp <;> decide +kernel

theorem destroy_frees_owned_one_process :
    ∃ w rpc proc, Spaces.Built 0x80200000 w ∧ w.space (.stack 1) = some (0x2000, rpc) ∧
      w.space (.proc 1) = some (0x1000, proc) ∧
      (∃ freed, destroyRpcmemPages 0x2000 ⟨rpc, w.low⟩ = some freed ∧ freed.Nodup ∧ 0x2000 ∈ freed ∧
        0x1000 ∉ freed) ∧
      ∃ freed, destroyVmemPages 0x1000 ⟨proc, w.low⟩ = some freed ∧ freed.Nodup ∧ 0x6000 ∈ freed ∧
        kernelTable 0x80200000 ∉ freed := by
  have hproc : withPage.space (.proc 1) = some (0x1000, mappedPage.root) := by
    simp [withPage, Spaces.set]
  obtain ⟨rpc, hrpc⟩ : ∃ rpc, withPage.space (.stack 1) = some (0x2000, rpc) := by
    simp [withPage, withStack, Spaces.set]
  have hbuilt := withPage_built.clone hproc hrpc
  have hstack : (withPage.set (.stack 1) 0x2000 ⟨cloneUvmem mappedPage.root rpc, withPage.low⟩ []).space
      (.stack 1) = some (0x2000, cloneUvmem mappedPage.root rpc) := by
    simp [Spaces.set]
  have hproc' : (withPage.set (.stack 1) 0x2000 ⟨cloneUvmem mappedPage.root rpc, withPage.low⟩ []).space
      (.proc 1) = some (0x1000, mappedPage.root) := by
    simpa [Spaces.set] using hproc
  obtain ⟨hr, hv⟩ := destroy_frees_owned hbuilt
  obtain ⟨freed, hd, hnodup, hmem, hapart⟩ := hr _ _ _ hstack
  obtain ⟨freed', hd', hnodup', hmem', hbelow', hkern, -⟩ := hv _ _ _ hproc'
  refine ⟨_, _, _, hbuilt, hstack, hproc', ⟨freed, hd, hnodup, (hmem _).2 (.inl rfl), ?_⟩,
    freed', hd', hnodup', ?_, hkern⟩
  · exact (hapart _ _ _ hproc').1
  · have huse : withPage.use 0x6000 = some (.table (.proc 1) 1) := by decide +kernel
    apply (hmem' _).2
    right
    rw [hbelow', set_use_nil]
    exact ⟨1, huse⟩

end OneProcess

end Kmi.Vmem
