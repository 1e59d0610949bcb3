import Kmi.Elf.Model
import Kmi.Uvmem.Growth
import Kmi.Uvmem.Runs
import Kmi.Vmem.Levels

/-! `copy_region` of `src/regions.c`: the pages of one process copied to another. -/

namespace Kmi.Uvmem

open Kmi.Mem Kmi.Vmem Kmi.Elf

/-- What a copy leaves and answers: the tables of the process it was made for, the memory,
the pages that were taken for it and those of them that were freed, each with its order, and
the pages that became tables. -/
structure Copy where
  b : Space
  ram : Bytes
  ret : ℤ
  taken : List (ℕ × ℕ)
  freed : List (ℕ × ℕ)
  tables : List ℕ

/-- The loop of `copy_region`. The tables of both processes are in one memory; `g` is the
top-level table of the process that is copied. -/
def copyPages (g : Table) : ℕ → ℕ → ℕ → ℕ → List Answer → Space → Bytes → Option Copy
  | 0, _, _, _, _, _, _ => none
  | fuel + 1, src, dst, bytes, answers, b, ram =>
    if bytes = 0 then some ⟨b, ram, OK, [], [], []⟩
    else
      match statVpage ⟨g, b.low⟩ src with
      | none => some ⟨b, ram, ERR_NF, [], [], []⟩
      | some x =>
        let a := answers.headD ⟨0, []⟩
        if a.page = 0 then some ⟨b, ram, ERR_OOMEM, [], [], []⟩
        else
          let tables := (mapTables dst (maxOrder - x.order) maxOrder none a.tables b).map Prod.fst
          let (b, res) := mapVpage b a.page dst x.flags x.order a.tables
          if res ≠ OK then some ⟨b, ram, res, [(x.order, a.page)], [(x.order, a.page)], tables⟩
          else do
            let size := orderSize x.order
            let r ← copyPages g fuel ((src + size) % 2 ^ 64) ((dst + size) % 2 ^ 64) (sub64 bytes size)
              answers.tail b (memcpy ram a.page ram x.addr size)
            some { r with taken := (x.order, a.page) :: r.taken, tables := tables ++ r.tables }

def copyRegion (b : Space) (g : Table) (ram : Bytes) (src dst bytes : ℕ) (answers : List Answer) :
    Option Copy :=
  let (src, srcSize) := alignRegion src bytes
  let (dst, dstSize) := alignRegion dst bytes
  if srcSize ≠ dstSize then none
  else copyPages g (512 ^ 3 + 1) src dst srcSize answers b ram

/-- The pages that `alloc_page` hands out for pages of these orders. -/
def handedOut (ps : List (ℕ × ℕ)) (answers : List Answer) : List (ℕ × ℕ) :=
  (ps.zip answers).map fun p => (p.1.1, p.2.page)

variable {g : Table} {b b₁ : Space} {m m' : Space} {ram : Bytes} {v y s e o left fuel c : ℕ} {t : Option ℕ}
  {pages : Pages} {answers : List Answer} {ps : List (ℕ × ℕ)}

lemma mapWalk_low (hw : WellFormed m) (hv : v < 2 ^ 39) (h : Walks m v (o + left) t)
    (hn : NoLargerLeaf m v o) (hp : FreshPages m pages) (hc : c ∈ pages → c = 0)
    (hno : ∀ o, ¬ Walks m v o (some c)) :
    (mapWalk v left (o + left) t pages m).1.low c = m.low c ∧
      (mapWalk v left (o + left) t pages m).2 ≠ some (some c) := by
  induction left generalizing m t pages with
  | zero =>
    refine ⟨rfl, ?_⟩
    rintro ⟨rfl⟩
    exact hno _ h
  | succ left ih =>
    rw [← add_assoc] at h ⊢
    rw [mapWalk]
    split_ifs with hu
    · obtain ⟨-, hcl⟩ | ⟨a, rest, rfl, ha, hcl⟩ := createLeaf_cases m pages
      · rw [hcl]
        exact ⟨rfl, by simp⟩
      · obtain ⟨halt, hal⟩ := hp.aligned a (List.mem_cons_self ..)
        have hf := hp.fresh a (List.mem_cons_self ..) ha
        have hne : c ≠ a := by
          rintro rfl
          exact ha (hc (List.mem_cons_self ..))
        have hno' : ∀ o', ¬ Walks (linked m t (vmToIndex v (o + left + 1)) a) v o' (some c) := by
          intro o' h'
          obtain hold | ⟨heq, -⟩ := walks_linked_cases hw hv h halt hal hf hv h'
          · exact hno o' hold
          · exact hne (Option.some.inj heq)
        have hr := ih (hw.link hv h halt hal hf) (Walks.link_new hv h hu halt hal hf)
          (hn.link hw hv h hp ha) (hp.link hw hv h ha) (fun hm => hc (List.mem_cons_of_mem _ hm)) hno'
        have hlow : (linked m t (vmToIndex v (o + left + 1)) a).low c = m.low c := by
          rw [linked, setLeaf_low]
          · exact Function.update_of_ne hne _ _
          · rintro rfl
            exact hno _ h
        rw [hcl]
        change (mapWalk v left (o + left) (some (pteAddr ((linked m t (vmToIndex v (o + left + 1))
          a).leaf t _))) rest (linked m t _ a)).1.low c = _ ∧ (mapWalk v left (o + left) (some (pteAddr
            ((linked m t (vmToIndex v (o + left + 1)) a).leaf t _))) rest (linked m t _ a)).2 ≠ _
        rw [linked_entry halt hal, ← hlow]
        exact hr
    · have hs : stops (m.leaf t (vmToIndex v (o + left + 1))) = false := by
        rw [stops, hn _ t (by omega) h, Bool.or_false]
        simpa using hu
      exact ih hw (h.down hs) hn hp hc hno

lemma mapWalk_tables (hw : WellFormed m) (hv : v < 2 ^ 39) (h : Walks m v (o + left) t)
    (hn : NoLargerLeaf m v o) (hp : FreshPages m pages)
    (hc : c ∈ (mapTables v left (o + left) t pages m).map Prod.fst) :
    ∃ o', Walks (mapWalk v left (o + left) t pages m).1 v o' (some c) := by
  induction left generalizing m t pages with
  | zero => cases hc
  | succ left ih =>
    rw [← add_assoc] at h hc ⊢
    rw [mapTables] at hc
    rw [mapWalk]
    split_ifs at hc ⊢ with hu
    · obtain ⟨-, hcl⟩ | ⟨a, rest, rfl, ha, hcl⟩ := createLeaf_cases m pages
      · rw [hcl] at hc
        cases hc
      · obtain ⟨halt, hal⟩ := hp.aligned a (List.mem_cons_self ..)
        have hf := hp.fresh a (List.mem_cons_self ..) ha
        have hnew := Walks.link_new hv h hu halt hal hf
        have hrest := hp.link hw hv h ha
        rw [hcl] at hc ⊢
        change c ∈ (((a, o + left) :: mapTables v left (o + left) (some (pteAddr ((linked m t
          (vmToIndex v (o + left + 1)) a).leaf t _))) rest (linked m t _ a)).map Prod.fst) at hc
        change ∃ o', Walks (mapWalk v left (o + left) (some (pteAddr ((linked m t
          (vmToIndex v (o + left + 1)) a).leaf t _))) rest (linked m t _ a)).1 v o' (some c)
        rw [linked_entry halt hal] at hc ⊢
        obtain rfl | hc := List.mem_cons.1 hc
        · exact ⟨_, (mapWalk_grows v left (o + left) _ rest _).walks hrest hv hnew⟩
        · exact ih (hw.link hv h halt hal hf) hnew (hn.link hw hv h hp ha) hrest hc
    · have hs : stops (m.leaf t (vmToIndex v (o + left + 1))) = false := by
        rw [stops, hn _ t (by omega) h, Bool.or_false]
        simpa using hu
      exact ih hw (h.down hs) hn hp hc

section Map

variable {page flags order : ℕ} (hw : WellFormed m) (hv : v < 2 ^ 39) (ho : order ≤ maxOrder)
  (hn : NoLargerLeaf m v order) (hp : FreshPages m pages)

include hw hv ho hn hp

lemma mapVpage_low (hc : c ∈ pages → c = 0) (hno : ∀ o, ¬ Walks m v o (some c)) :
    (mapVpage m page v flags order pages).1.low c = m.low c := by
  have htop : Walks m v (order + (maxOrder - order)) none := by
    rw [Nat.add_sub_cancel' ho]
    exact .top
  have hlow := mapWalk_low hw hv htop hn hp hc hno
  rw [Nat.add_sub_cancel' ho] at hlow
  rw [mapVpage]
  generalize mapWalk v (maxOrder - order) maxOrder none pages m = r at hlow
  obtain ⟨m₁, branch⟩ := r
  dsimp only at hlow
  cases branch with
  | none => exact hlow.1
  | some branch =>
    dsimp only
    split_ifs
    · rw [← hlow.1]
      exact setLeaf_low fun heq => hlow.2 (congrArg some heq)
    · exact hlow.1

lemma mapVpage_tables (hf : PageFlags flags)
    (hc : c ∈ (mapTables v (maxOrder - order) maxOrder none pages m).map Prod.fst) :
    ∃ o, Walks (mapVpage m page v flags order pages).1 v o (some c) := by
  have htop : Walks m v (order + (maxOrder - order)) none := by
    rw [Nat.add_sub_cancel' ho]
    exact .top
  have htables := @mapWalk_tables m v order (maxOrder - order) c none pages hw hv htop hn hp
  have hr := mapWalk_reaches hw hv htop hn hp
  rw [Nat.add_sub_cancel' ho] at htables hr
  obtain ⟨o, hwalk⟩ := htables hc
  rw [mapVpage]
  generalize mapWalk v (maxOrder - order) maxOrder none pages m = r at hwalk hr
  obtain ⟨m₁, branch⟩ := r
  cases branch with
  | none => exact ⟨o, hwalk⟩
  | some branch =>
    dsimp only at hwalk ⊢
    split_ifs with hu
    · have hold : stops (m₁.leaf branch (vmToIndex v order)) = true := by rw [stops, hu]; rfl
      have hnew : stops (toPte (pa page) (vpFlags (flags ||| (VM_A ||| VM_D)))) = true := by
        rw [stops, ((page_entry hf.1 hf.2).2 (pa page)).2.1, Bool.or_true]
      refine ⟨o, .of_sameWay (fun b i => (root_sameEntry (addGraves_sameEntry _ _) b i).sameWay) ?_⟩
      exact hwalk.of_sameWay (setLeaf_sameWay hold hnew)
    · exact ⟨o, hwalk⟩

end Map

def TablesKept (g : Table) (b b₁ : Space) : Prop := ∀ a, IsTable ⟨g, b.low⟩ a → b₁.low a = b.low a

section Kept

variable (h : TablesKept g b b₁)

include h

lemma TablesKept.walks (hv : v < 2 ^ 39) : Walks ⟨g, b₁.low⟩ v o t ↔ Walks ⟨g, b.low⟩ v o t := by
  have hold : ∀ {v o t}, v < 2 ^ 39 → Walks ⟨g, b₁.low⟩ v o t → Walks ⟨g, b.low⟩ v o t := by
    intro v o t hv hw
    exact @walks_elsewhere ⟨g, b.low⟩ b₁.low v o t (fun v hv o a ha => h a ⟨v, hv, o, ha⟩) hv hw
  refine ⟨hold hv, fun hw => ?_⟩
  apply @walks_elsewhere ⟨g, b₁.low⟩ b.low v o t (fun v hv o a ha => ?_) hv hw
  exact (h a ⟨v, hv, o, hold hv ha⟩).symm

lemma TablesKept.isTable : IsTable ⟨g, b₁.low⟩ c ↔ IsTable ⟨g, b.low⟩ c := by
  constructor
  · rintro ⟨v, hv, o, hw⟩
    exact ⟨v, hv, o, (h.walks hv).1 hw⟩
  · rintro ⟨v, hv, o, hw⟩
    exact ⟨v, hv, o, (h.walks hv).2 hw⟩

lemma TablesKept.stat (y : ℕ) : statVpage ⟨g, b₁.low⟩ y = statVpage ⟨g, b.low⟩ y := by
  have hy : y % 2 ^ 39 < 2 ^ 39 := Nat.mod_lt _ (by norm_num)
  rw [← statVpage_mod, ← statVpage_mod ⟨g, b.low⟩]
  apply statVpage_congr_walk
  intro o t hw
  cases t with
  | none => exact .refl _
  | some a =>
    have hlow := h a ⟨_, hy, o, hw⟩
    exact .inl (congrFun hlow.symm _)

lemma TablesKept.trans {b₂ : Space} (h' : TablesKept g b₁ b₂) : TablesKept g b b₂ := by
  intro a ha
  rw [h' a (h.isTable.2 ha), h a ha]

lemma TablesKept.target (y : ℕ) : target ⟨g, b₁.low⟩ y = target ⟨g, b.low⟩ y := by
  rw [Uvmem.target, Uvmem.target, h.stat]

end Kept

/-- No page is a table for user addresses of the one process and a table of the other. -/
def NoneShared (g : Table) (b : Space) : Prop :=
  ∀ v < UVMEM_END, ∀ o a, Walks b v o (some a) → ¬ IsTable ⟨g, b.low⟩ a

/-- What `alloc_page` answers while a range with these pages is copied: no page that is in
use. -/
structure FreshCopy (g : Table) (b : Space) (ps : List (ℕ × ℕ)) (answers : List Answer) : Prop where
  fresh : FreshAnswers b answers
  tables : ∀ a ∈ answers.flatMap Answer.tables, ¬ IsTable ⟨g, b.low⟩ a
  lt : ∀ p ∈ handedOut ps answers, p.2 + orderSize p.1 ≤ 2 ^ 64
  apart : ∀ p ∈ handedOut ps answers, p.2 ≠ 0 → ∀ y < UVMEM_END, ∀ i < orderSize p.1,
    target ⟨g, b.low⟩ y ≠ some (p.2 + i)
  once : (handedOut ps answers).Pairwise fun p q => p.2 ≠ 0 → q.2 ≠ 0 →
    p.2 + orderSize p.1 ≤ q.2 ∨ q.2 + orderSize q.1 ≤ p.2

def InPages (ts : List (ℕ × ℕ)) (z : ℕ) : Prop := ∃ p ∈ ts, p.2 ≤ z ∧ z < p.2 + orderSize p.1

def MappedOrFreed (s e : ℕ) (r : Copy) (p : ℕ × ℕ) : Prop :=
  p ∈ r.freed ∨ ∃ y x, s ≤ y ∧ y < e ∧ statVpage r.b y = some x ∧ x.order = p.1 ∧ x.addr = p.2

/-- What a call of `copy_region` leaves for a range, however it ends. -/
structure Copied (g : Table) (b : Space) (ram : Bytes) (s e : ℕ) (ps : List (ℕ × ℕ))
    (answers : List Answer) (r : Copy) : Prop where
  wf : WellFormed r.b
  kept : TablesKept g b r.b
  walks : ∀ y < 2 ^ 39, ∀ o a, Walks b y o (some a) → Walks r.b y o (some a)
  rest : ∀ y < 2 ^ 39, y < s ∨ e ≤ y → statVpage r.b y = statVpage b y
  taken : ∀ p ∈ r.taken, p ∈ handedOut ps answers ∧ p.2 ≠ 0
  memory : ∀ z, ¬ InPages r.taken z → r.ram z = ram z
  pages : ∀ p ∈ r.taken, MappedOrFreed s e r p
  tables : ∀ a ∈ r.tables, ∃ y o, s ≤ y ∧ y < e ∧ Walks r.b y o (some a)
  copied : r.ret = OK → ∀ y, s ≤ y → y < e → ∃ x p, statVpage ⟨g, b.low⟩ y = some x ∧
    (x.order, p) ∈ r.taken ∧ statVpage r.b y = some ⟨p, x.order, x.flags ||| (VM_A ||| VM_D)⟩ ∧
      r.ram (p + y % orderSize x.order) = ram ((x.addr + y % orderSize x.order) % 2 ^ 64)

section Step

variable {a : Answer} {more : List Answer} {q : ℕ × ℕ} {flags : ℕ} (hw : WellFormed b)
  (hs : s < UVMEM_END) (hx : statVpage b s = none) (ho : q.1 ≤ maxOrder) (hf : PageFlags flags)
  (hshared : NoneShared g b) (h : FreshCopy g b (q :: ps) (a :: more))

include h

lemma FreshCopy.first : FreshPages b a.tables := by
  have htables := h.fresh.tables
  rw [List.flatMap_cons] at htables
  exact htables.prefixed

lemma FreshCopy.rest (hk : TablesKept g b b₁) (ht : TablesFrom b a.tables b₁) :
    FreshCopy g b₁ ps more := by
  have hcons : handedOut (q :: ps) (a :: more) = (q.1, a.page) :: handedOut ps more := rfl
  refine ⟨h.fresh.rest ht, fun c hc => ?_, fun p hp => ?_, fun p hp h0 y hy i hi => ?_, ?_⟩
  · rw [hk.isTable]
    apply h.tables
    rw [List.flatMap_cons]
    exact List.mem_append_right _ hc
  · exact h.lt p (hcons ▸ List.mem_cons_of_mem _ hp)
  · rw [hk.target]
    exact h.apart p (hcons ▸ List.mem_cons_of_mem _ hp) h0 y hy i hi
  · have honce := h.once
    rw [hcons] at honce
    exact honce.of_cons

include hw hs hx ho hshared

lemma mapVpage_kept : TablesKept g b (mapVpage b a.page s flags q.1 a.tables).1 := by
  have hs' : s < 2 ^ 39 := hs.trans (by decide)
  intro c hc
  apply mapVpage_low hw hs' ho (noLargerLeaf_of_none hx) h.first
  · intro hmem
    refine absurd hc (h.tables c ?_)
    rw [List.flatMap_cons]
    exact List.mem_append_left _ hmem
  · exact fun o hwalk => hshared s hs o c hwalk hc

lemma NoneShared.map (ht : TablesFrom b a.tables (mapVpage b a.page s flags q.1 a.tables).1) :
    NoneShared g (mapVpage b a.page s flags q.1 a.tables).1 := by
  intro v hv o c hwalk
  rw [(mapVpage_kept hw hs hx ho hshared h).isTable]
  obtain hold | hmem := ht v (hv.trans (by decide)) o c hwalk
  · exact hshared v hv o c hold
  · apply h.tables
    rw [List.flatMap_cons]
    exact List.mem_append_left _ hmem

end Step

lemma copied_nothing {ret : ℤ} (hw : WellFormed b) (hret : ret = OK → s = e) :
    Copied g b ram s e ps answers ⟨b, ram, ret, [], [], []⟩ := by
  refine ⟨hw, fun _ _ => rfl, fun _ _ _ _ => id, fun _ _ _ => rfl, fun p hp => ?_, fun _ _ => rfl,
    fun p hp => ?_, fun a ha => ?_, fun hok y hy hlt => ?_⟩
  · cases hp
  · cases hp
  · cases ha
  · have := hret hok
    omega

lemma statVpage_flags {x : Stat} (h : statVpage m v = some x) : PageFlags x.flags := by
  obtain ⟨b, -, hl, he⟩ := statVpage_eq_some.1 h
  have hodd := ((isLeaf_iff _).1 hl).1
  rw [entryStat, isLeaf_used hl] at he
  have hflags := congrArg Stat.flags (Option.some.inj he)
  dsimp only at hflags
  rw [← hflags, pteFlags_eq]
  refine ⟨Nat.mod_lt _ (by norm_num), ?_⟩
  rw [VM_V, Nat.and_one_is_mod]
  omega

structure Stepped (g : Table) (b b₁ : Space) (s : ℕ) (pages : Pages) (made : List ℕ) : Prop where
  wf : WellFormed b₁
  tables : TablesFrom b pages b₁
  kept : TablesKept g b b₁
  shared : NoneShared g b₁
  walks : ∀ y < 2 ^ 39, ∀ o a, Walks b y o (some a) → Walks b₁ y o (some a)
  made : ∀ c ∈ made, ∃ o, Walks b₁ s o (some c)

lemma copied_refused {a : Answer} {more : List Answer} {x : Stat} {made : List ℕ} {res : ℤ}
    (h : Stepped g b b₁ s a.tables made) (hse : s < e) (hres : res ≠ OK) (hz : a.page ≠ 0)
    (hstat : ∀ y < 2 ^ 39, statVpage b₁ y = statVpage b y) :
    Copied g b ram s e ((x.order, x.addr) :: ps) (a :: more)
      ⟨b₁, ram, res, [(x.order, a.page)], [(x.order, a.page)], made⟩ := by
  refine ⟨h.wf, h.kept, h.walks, fun y hy _ => hstat y hy, fun p hp => ?_, fun _ _ => rfl,
    fun p hp => .inl hp, fun c hc => ?_, fun hok => absurd hok hres⟩
  · rw [List.mem_singleton.1 hp]
    exact ⟨List.mem_cons_self .., hz⟩
  · obtain ⟨o, ho⟩ := h.made c hc
    exact ⟨s, o, le_rfl, hse, ho⟩

lemma copied_cons {a : Answer} {more : List Answer} {x : Stat} {made : List ℕ} {r : Copy}
    (hx : statVpage ⟨g, b.low⟩ s = some x) (hal : s % orderSize x.order = 0) (he : e ≤ UVMEM_END)
    (ht : Tiles ⟨g, b.low⟩ (s + orderSize x.order) e ps)
    (hfresh : FreshCopy g b ((x.order, x.addr) :: ps) (a :: more))
    (h : Stepped g b b₁ s a.tables made) (hz : a.page ≠ 0)
    (hstat : ∀ y < 2 ^ 39, statVpage b₁ y = if s ≤ y ∧ y < s + orderSize x.order
      then some ⟨a.page, x.order, x.flags ||| (VM_A ||| VM_D)⟩ else statVpage b y)
    (hr : Copied g b₁ (memcpy ram a.page ram x.addr (orderSize x.order)) (s + orderSize x.order) e ps more
      r) : Copied g b ram s e ((x.order, x.addr) :: ps) (a :: more)
        { r with taken := (x.order, a.page) :: r.taken, tables := made ++ r.tables } := by
  have ho := statVpage_order_le hx
  have hpos := orderSize_pos ho
  have hle := ht.tiled.le
  have huser : UVMEM_END ≤ 2 ^ 38 := by decide
  have hcons : handedOut ((x.order, x.addr) :: ps) (a :: more) =
      (x.order, a.page) :: handedOut ps more := rfl
  have hfirst : statVpage r.b s = some ⟨a.page, x.order, x.flags ||| (VM_A ||| VM_D)⟩ := by
    rw [hr.rest s (by omega) (by omega), hstat s (by omega), if_pos (by omega)]
  refine ⟨hr.wf, h.kept.trans hr.kept, fun y hy o c hw => hr.walks y hy o c (h.walks y hy o c hw),
    fun y hy hout => ?_, fun p hp => ?_, fun z hz => ?_, fun p hp => ?_, fun c hc => ?_,
    fun hok y hy hlt => ?_⟩
  · rw [hr.rest y hy (by omega), hstat y hy, if_neg (by omega)]
  · rw [hcons]
    obtain rfl | hp := List.mem_cons.1 hp
    · exact ⟨List.mem_cons_self .., hz⟩
    · exact ⟨List.mem_cons_of_mem _ (hr.taken p hp).1, (hr.taken p hp).2⟩
  · have hout : ¬ InPages r.taken z := fun ⟨p, hp, hin⟩ => hz ⟨p, List.mem_cons_of_mem _ hp, hin⟩
    rw [hr.memory z hout, memcpy, if_neg]
    exact fun hin => hz ⟨_, List.mem_cons_self .., hin⟩
  · obtain rfl | hp := List.mem_cons.1 hp
    · exact .inr ⟨s, _, le_rfl, by omega, hfirst, rfl, rfl⟩
    · obtain hfreed | ⟨y, x', hy, hlt, hx'⟩ := hr.pages p hp
      · exact .inl hfreed
      · exact .inr ⟨y, x', by omega, hlt, hx'⟩
  · obtain hc | hc := List.mem_append.1 hc
    · obtain ⟨o, hw⟩ := h.made c hc
      exact ⟨s, o, le_rfl, by omega, hr.walks s (by omega) o c hw⟩
    · obtain ⟨y, o, hy, hlt, hw⟩ := hr.tables c hc
      exact ⟨y, o, by omega, hlt, hw⟩
  · obtain hin | hge := lt_or_ge y (s + orderSize x.order)
    · have hxy := statVpage_page hx ((pageOf_eq_iff_mem ho hal).2 ⟨hy, hin⟩)
      have hmod := Nat.mod_lt y hpos
      refine ⟨x, a.page, hxy, List.mem_cons_self .., ?_, ?_⟩
      · rw [hr.rest y (by omega) (by omega), hstat y (by omega), if_pos ⟨hy, hin⟩]
      · -- no later page of the copy is the one that was just filled
        have hout : ¬ InPages r.taken (a.page + y % orderSize x.order) := by
          rintro ⟨p, hp, hlo, hhi⟩
          obtain ⟨hmem, hp0⟩ := hr.taken p hp
          have honce := hfresh.once
          rw [hcons, List.pairwise_cons] at honce
          have := honce.1 p hmem hz hp0
          dsimp only at this
          omega
        rw [hr.memory _ hout, memcpy, if_pos (by omega), Nat.add_sub_cancel_left]
    · obtain ⟨x', p, hx', hp, hst, hbyte⟩ := hr.copied hok y hge hlt
      rw [h.kept.stat] at hx'
      refine ⟨x', p, hx', List.mem_cons_of_mem _ hp, hst, ?_⟩
      -- the page that was just filled is none of those that are still to be copied
      rw [hbyte, memcpy, if_neg]
      rintro ⟨hlo, hhi⟩
      have hmem : (x.order, a.page) ∈ handedOut ((x.order, x.addr) :: ps) (a :: more) :=
        hcons ▸ List.mem_cons_self ..
      apply hfresh.apart _ hmem hz y (by omega) _ (Nat.sub_lt_left_of_lt_add hlo hhi)
      rw [target, hx', Option.map_some, Nat.add_sub_cancel' hlo]

lemma copyPages_copied (ht : Tiles ⟨g, b.low⟩ s e ps) (hw : WellFormed b) (he : e ≤ UVMEM_END)
    (hn : ∀ y, s ≤ y → y < e → statVpage b y = none) (hshared : NoneShared g b)
    (h : FreshCopy g b ps answers) (hfuel : ps.length < fuel) :
    ∃ r, copyPages g fuel s s (e - s) answers b ram = some r ∧ Copied g b ram s e ps answers r := by
  induction ps generalizing b s answers ram fuel with
  | nil =>
    cases ht
    obtain ⟨fuel, rfl⟩ : ∃ k, fuel = k + 1 := ⟨fuel - 1, by omega⟩
    refine ⟨⟨b, ram, OK, [], [], []⟩, ?_, copied_nothing hw fun _ => rfl⟩
    rw [copyPages, if_pos (Nat.sub_self _)]
  | cons q ps ih =>
    obtain ⟨fuel, rfl⟩ : ∃ k, fuel = k + 1 := ⟨fuel - 1, by omega⟩
    cases ht with
    | @cons _ _ x _ hx hal ht =>
      have ho := statVpage_order_le hx
      have hpos := orderSize_pos ho
      have hle := ht.tiled.le
      have huser : UVMEM_END ≤ 2 ^ 38 := by decide
      have hnone := hn s le_rfl (by omega)
      rw [copyPages, if_neg (by omega), hx]
      cases answers with
      | nil =>
        exact ⟨_, rfl, copied_nothing hw fun hret => absurd hret (by decide)⟩
      | cons a more =>
        dsimp only [List.headD_cons, List.tail_cons]
        by_cases hz : a.page = 0
        · rw [if_pos hz]
          exact ⟨_, rfl, copied_nothing hw fun hret => absurd hret (by decide)⟩
        have hf := statVpage_flags hx
        obtain ⟨hp, hpal⟩ := h.fresh.pages a (List.mem_cons_self ..)
        obtain ⟨hw₁, htables, hcase⟩ := mapVpage_spec hw hf.1 hf.2 hp hpal (by omega) ho
          (noLargerLeaf_of_none hnone) h.first
        have hstep : Stepped g b (mapVpage b a.page s x.flags x.order a.tables).1 s a.tables
            ((mapTables s (maxOrder - x.order) maxOrder none a.tables b).map Prod.fst) := by
          refine ⟨hw₁, htables, mapVpage_kept hw (by omega) hnone ho hshared h,
            NoneShared.map hw (by omega) hnone ho hshared h htables,
            fun y hy o c hwalk => (mapVpage_grows b a.page s x.flags x.order a.tables).walks h.first hy
              hwalk, fun c hc => ?_⟩
          exact mapVpage_tables hw (by omega) ho (noLargerLeaf_of_none hnone) h.first hf hc
        rw [if_neg hz]
        generalize (mapTables s (maxOrder - x.order) maxOrder none a.tables b).map Prod.fst = made at hstep ⊢
        generalize mapVpage b a.page s x.flags x.order a.tables = res at hstep hcase ⊢
        obtain ⟨b₁, res⟩ := res
        dsimp only at hstep hcase ⊢
        obtain ⟨rfl, hstat⟩ | ⟨herr, hstat⟩ := hcase
        · simp only [pageOf_eq_iff_mem ho hal] at hstat
          have hs₁ : (s + orderSize x.order) % 2 ^ 64 = s + orderSize x.order := Nat.mod_eq_of_lt (by omega)
          have hb₁ : sub64 (e - s) (orderSize x.order) = e - (s + orderSize x.order) := by
            rw [sub64]
            omega
          obtain ⟨r, hr, hcopied⟩ := ih (ht.congr fun y _ _ => hstep.kept.stat y) hstep.wf
            (fun y hy hlt => by rw [hstat y (by omega), if_neg (by omega), hn y (by omega) hlt])
            hstep.shared (h.rest hstep.kept hstep.tables) (by simpa using hfuel)
          rw [if_neg (by simp), hs₁, hb₁, hr]
          exact ⟨_, rfl, copied_cons hx hal he ht h hstep hz hstat hcopied⟩
        · have hres : res ≠ OK := by
            rintro rfl
            exact absurd herr (by decide)
          rw [if_pos hres]
          exact ⟨_, rfl, copied_refused hstep (by omega) hres hz hstat⟩

/-- The range was copied to pages of its own, or what was taken for it can be found, and
nothing else has changed. -/
structure PrivateCopy (g : Table) (b : Space) (ram : Bytes) (s e : ℕ) (r : Copy) : Prop where
  copied : r.ret = OK → ∀ y, s ≤ y → y < e → ∃ x p, statVpage ⟨g, b.low⟩ y = some x ∧
    (x.order, p) ∈ r.taken ∧ statVpage r.b y = some ⟨p, x.order, x.flags ||| (VM_A ||| VM_D)⟩ ∧
      r.ram (p + y % orderSize x.order) = ram ((x.addr + y % orderSize x.order) % 2 ^ 64)
  source : ∀ y, statVpage ⟨g, r.b.low⟩ y = statVpage ⟨g, b.low⟩ y
  contents : ∀ y < UVMEM_END, ∀ z, target ⟨g, b.low⟩ y = some z → r.ram z = ram z
  rest : ∀ y, y % 2 ^ 39 < s ∨ e ≤ y % 2 ^ 39 → statVpage r.b y = statVpage b y
  pages : r.ret ≠ OK → ∀ p ∈ r.taken, MappedOrFreed s e r p
  tables : r.ret ≠ OK → ∀ c ∈ r.tables, MappedOrFreed s e r (0, c) ∨
    ∃ y o, s ≤ y ∧ y < e ∧ Walks r.b y o (some c)

lemma Copied.private {r : Copy} (hc : Copied g b ram s e ps answers r) (h : FreshCopy g b ps answers) :
    PrivateCopy g b ram s e r := by
  refine ⟨hc.copied, hc.kept.stat, fun y hy z hz => ?_, fun y hy => ?_, fun _ => hc.pages,
    fun _ c hmem => .inr (hc.tables c hmem)⟩
  · apply hc.memory
    rintro ⟨p, hp, hlo, hhi⟩
    obtain ⟨hmem, hp0⟩ := hc.taken p hp
    apply h.apart p hmem hp0 y hy _ (Nat.sub_lt_left_of_lt_add hlo hhi)
    rw [hz, Nat.add_sub_cancel' hlo]
  · rw [← statVpage_mod, ← statVpage_mod b]
    exact hc.rest _ (Nat.mod_lt _ (by norm_num)) hy

theorem copyRegion_privateCopy (hw : WellFormed b) (hshared : NoneShared g b) (hs : s % 4096 = 0)
    (ht : Tiles ⟨g, b.low⟩ s e ps) (he : e ≤ UVMEM_END) (hn : ∀ y, s ≤ y → y < e → statVpage b y = none)
    (h : FreshCopy g b ps answers) :
    ∃ r, copyRegion b g ram s s (e - s) answers = some r ∧ PrivateCopy g b ram s e r := by
  have hle := ht.tiled.le
  have hlen := ht.length_le
  have huser : UVMEM_END ≤ 512 ^ 3 * 4096 := by decide
  have huser' : UVMEM_END < 2 ^ 64 := by decide
  have hend := ht.tiled.aligned hs
  obtain ⟨r, hr, hc⟩ := @copyPages_copied g b ram s e (512 ^ 3 + 1) answers ps ht hw he hn hshared h
    (by omega)
  rw [copyRegion, alignRegion_aligned hs (by omega) (by omega)]
  dsimp only
  rw [if_neg (by simp)]
  exact ⟨r, hr, hc.private h⟩

def onePageAt (v : ℕ) : Space :=
  (mapVpage ⟨createVmem 0, fun _ _ => 0⟩ 0xffffffc180000000 v 0x17 0 [0xffffffc100000000, 0xffffffc100001000]).1

def onePage : Space := onePageAt 0x10000

def childSpace : Space := ⟨createVmem 0, onePage.low⟩

lemma onePage_fresh : FreshPages ⟨createVmem 0, fun _ _ => 0⟩ [0xffffffc100000000, 0xffffffc100001000] :=
  createVmem_fresh (fun _ => rfl) (by decide) (by decide) (by decide)

section

variable {v : ℕ} (hv : v < UVMEM_END)
  (hok : (mapVpage ⟨createVmem 0, fun _ _ => 0⟩ 0xffffffc180000000 v 0x17 0
    [0xffffffc100000000, 0xffffffc100001000]).2 = OK)

include hv hok

lemma onePageAt_spec : WellFormed (onePageAt v) ∧
    TablesFrom ⟨createVmem 0, fun _ _ => 0⟩ [0xffffffc100000000, 0xffffffc100001000] (onePageAt v) ∧
      ∀ y < UVMEM_END, statVpage (onePageAt v) y =
        if pageOf y 0 = pageOf v 0 then some ⟨0xffffffc180000000, 0, 0xd7⟩ else none := by
  have hnone := @createVmem_stat 0 v (fun _ _ => 0) hv
  have huser : UVMEM_END ≤ 2 ^ 39 := by decide
  obtain ⟨hw, ht, ⟨-, hstat⟩ | ⟨herr, -⟩⟩ := mapVpage_spec (createVmem_wellFormed fun _ => rfl)
    (show 0x17 < 256 by decide) (by decide) (show 0xffffffc180000000 < 2 ^ 64 by decide) (by decide)
    (show v < 2 ^ 39 by omega) (Nat.zero_le _) (noLargerLeaf_of_none hnone) onePage_fresh
  · refine ⟨hw, ht, fun y hy => ?_⟩
    rw [onePageAt, hstat y (by omega), createVmem_stat hy]
    rfl
  · rw [hok] at herr
    exact absurd herr (by decide)

lemma onePageAt_isTable (h : IsTable (onePageAt v) c) :
    c ∈ [0xffffffc000000000, 0xffffffc100000000, 0xffffffc100001000] := by
  obtain ⟨y, hy, o, hw⟩ := h
  obtain hw | hmem := (onePageAt_spec hv hok).2.1 y hy o c hw
  · obtain hw | ⟨heq, -⟩ := createVmem_walks (fun _ => rfl) hw
    · cases hw
    · rw [Option.some.inj heq]
      decide
  · exact List.mem_cons_of_mem _ hmem

omit hok in
lemma onePageAt_kernel : KernelTable 0 (onePageAt v).low := by
  intro i
  have hnone := @createVmem_stat 0 v (fun _ _ => 0) hv
  have huser : UVMEM_END ≤ 2 ^ 39 := by decide
  have hlow : (onePageAt v).low (pteAddr (toPte 0 VM_V)) = fun _ => 0 := by
    apply mapVpage_low (createVmem_wellFormed fun _ => rfl) (by omega) (Nat.zero_le _)
      (noLargerLeaf_of_none hnone) onePage_fresh
    · intro hmem
      exact absurd hmem (by decide)
    · intro o hw
      obtain hw | ⟨-, -, hidx⟩ := createVmem_walks (fun _ => rfl) hw
      · cases hw
      · exact absurd hidx ((vmToIndex_lt hv).trans (by decide)).ne
  rw [hlow]
  rfl

end

lemma onePage_ok : (mapVpage ⟨createVmem 0, fun _ _ => 0⟩ 0xffffffc180000000 0x10000 0x17 0
    [0xffffffc100000000, 0xffffffc100001000]).2 = OK := by
  decide +kernel

lemma onePage_stat {y : ℕ} (hy : y < UVMEM_END) : statVpage onePage y =
    if pageOf y 0 = pageOf 0x10000 0 then some ⟨0xffffffc180000000, 0, 0xd7⟩ else none :=
  (onePageAt_spec (by decide) onePage_ok).2.2 y hy

lemma onePage_isTable (h : IsTable onePage c) :
    c ∈ [0xffffffc000000000, 0xffffffc100000000, 0xffffffc100001000] :=
  onePageAt_isTable (by decide) onePage_ok h

lemma childSpace_kernel : KernelTable 0 onePage.low := onePageAt_kernel (by decide)

lemma createVmem_noneShared {g : Table} {low : ℕ → Table} (hk : KernelTable 0 low) :
    NoneShared g ⟨createVmem 0, low⟩ := by
  intro v hv o a hw
  obtain hw | ⟨-, -, hidx⟩ := createVmem_walks hk hw
  · cases hw
  · exact absurd hidx ((vmToIndex_lt hv).trans (by decide)).ne

lemma onePage_tiles : Tiles ⟨onePage.root, childSpace.low⟩ 0x10000 0x11000 [(0, 0xffffffc180000000)] := by
  have hstat : statVpage onePage 0x10000 = some ⟨0xffffffc180000000, 0, 0xd7⟩ :=
    (onePage_stat (by decide)).trans (if_pos rfl)
  exact .cons hstat rfl (.nil _)

def childAnswers (second : ℕ) : List Answer := [⟨0xffffffc180001000, [0xffffffc100002000, second]⟩]

lemma childAnswers_fresh {second : ℕ} (h : second = 0 ∨ second = 0xffffffc100003000) :
    FreshCopy onePage.root childSpace [(0, 0xffffffc180000000)] (childAnswers second) := by
  have hfresh : FreshAnswers childSpace (childAnswers second) := by
    obtain rfl | rfl := h
    · exact ⟨by decide, createVmem_fresh childSpace_kernel (by decide) (by decide) (by decide)⟩
    · exact ⟨by decide, createVmem_fresh childSpace_kernel (by decide) (by decide) (by decide)⟩
  have hpage : ∀ p ∈ handedOut [(0, 0xffffffc180000000)] (childAnswers second), p = (0, 0xffffffc180001000) :=
    fun p hp => List.mem_singleton.1 hp
  have hnew : ∀ second ∈ [0, 0xffffffc100003000], ∀ a ∈ (childAnswers second).flatMap Answer.tables,
      a ∉ [0xffffffc000000000, 0xffffffc100000000, 0xffffffc100001000] := by
    decide
  have hsize : orderSize 0 = 4096 := by decide
  refine ⟨hfresh, fun a ha htable => ?_, fun p hp => ?_, fun p hp _ y hy i hi htarget => ?_,
    List.pairwise_singleton _ _⟩
  · exact hnew second (by simpa using h) a ha (onePage_isTable htable)
  · rw [hpage p hp, hsize]
    norm_num
  · rw [hpage p hp] at hi htarget
    dsimp only at hi htarget
    change target onePage y = _ at htarget
    rw [hsize] at hi
    rw [target, onePage_stat hy] at htarget
    split_ifs at htarget
    · have heq := Option.some.inj htarget
      dsimp only at heq
      rw [hsize] at heq
      omega
    · cases htarget

def edgeSpace : Space := (mapVpage (onePageAt 0x3ffff000) 0xffffffc1c0000000 0x40000000 0x17 2 []).1

lemma edgePage_ok : (mapVpage ⟨createVmem 0, fun _ _ => 0⟩ 0xffffffc180000000 0x3ffff000 0x17 0
    [0xffffffc100000000, 0xffffffc100001000]).2 = OK := by
  decide +kernel

lemma mapVpage_largest_low (m : Space) (paddr v flags : ℕ) : (mapVpage m paddr v flags 2 []).1.low = m.low := by
  rw [mapVpage, show maxOrder - 2 = 0 from rfl, mapWalk]
  dsimp only
  split_ifs <;> rfl

lemma edgeSpace_low : edgeSpace.low = (onePageAt 0x3ffff000).low := mapVpage_largest_low _ _ _ _

lemma edgeSpace_spec : (∀ c, IsTable edgeSpace c → c ∈ [0xffffffc000000000, 0xffffffc100000000, 0xffffffc100001000]) ∧
    ∀ y < UVMEM_END, statVpage edgeSpace y =
      if pageOf y 2 = pageOf 0x40000000 2 then some ⟨0xffffffc1c0000000, 2, 0xd7⟩
      else if pageOf y 0 = pageOf 0x3ffff000 0 then some ⟨0xffffffc180000000, 0, 0xd7⟩ else none := by
  obtain ⟨hw, -, hone⟩ := onePageAt_spec (by decide) edgePage_ok
  have hnone : statVpage (onePageAt 0x3ffff000) 0x40000000 = none :=
    (hone _ (by decide)).trans (if_neg (by decide))
  have hok : (mapVpage (onePageAt 0x3ffff000) 0xffffffc1c0000000 0x40000000 0x17 2 []).2 = OK := by
    decide +kernel
  have hfresh : FreshPages (onePageAt 0x3ffff000) [] := ⟨by simp, by simp, by simp⟩
  obtain ⟨-, ht, ⟨-, hstat⟩ | ⟨herr, -⟩⟩ := mapVpage_spec hw (show 0x17 < 256 by decide) (by decide)
    (show 0xffffffc1c0000000 < 2 ^ 64 by decide) (by decide) (show 0x40000000 < 2 ^ 39 by decide)
    (show 2 ≤ maxOrder by decide) (noLargerLeaf_of_none hnone) hfresh
  · refine ⟨fun c hc => ?_, fun y hy => ?_⟩
    · obtain ⟨y, hy, o, hwalk⟩ := hc
      obtain hwalk | hmem := ht y hy o c hwalk
      · exact onePageAt_isTable (by decide) edgePage_ok ⟨y, hy, o, hwalk⟩
      · cases hmem
    · have huser : UVMEM_END ≤ 2 ^ 39 := by decide
      rw [edgeSpace, hstat y (by omega), hone y hy]
      rfl
  · rw [hok] at herr
    exact absurd herr (by decide)

def edgeChild : Space := ⟨createVmem 0, edgeSpace.low⟩

lemma edgeChild_kernel : KernelTable 0 edgeSpace.low := by
  rw [edgeSpace_low]
  exact onePageAt_kernel (by decide)

lemma child_source (m : Space) : (⟨m.root, (⟨createVmem 0, m.low⟩ : Space).low⟩ : Space) = m := rfl

lemma edgeChild_source : (⟨edgeSpace.root, edgeChild.low⟩ : Space) = edgeSpace := child_source edgeSpace

lemma edgeSpace_tiles : Tiles ⟨edgeSpace.root, edgeChild.low⟩ 0x3ffff000 0x80000000
    [(0, 0xffffffc180000000), (2, 0xffffffc1c0000000)] := by
  rw [edgeChild_source]
  have hbase : statVpage edgeSpace 0x3ffff000 = some ⟨0xffffffc180000000, 0, 0xd7⟩ := by
    rw [edgeSpace_spec.2 _ (by decide), if_neg (by decide), if_pos rfl]
  have hlarge : statVpage edgeSpace 0x40000000 = some ⟨0xffffffc1c0000000, 2, 0xd7⟩ := by
    rw [edgeSpace_spec.2 _ (by decide), if_pos rfl]
  exact .cons hbase rfl (.cons hlarge rfl (.nil _))

lemma edgeSpace_target {y z : ℕ} (hy : y < UVMEM_END) (h : target edgeSpace y = some z) :
    0xffffffc180000000 ≤ z ∧ z < 0xffffffc180001000 ∨ 0xffffffc1c0000000 ≤ z ∧ z < 0xffffffc200000000 := by
  have hbase : orderSize 0 = 4096 := by decide
  have hlarge : orderSize 2 = 2 ^ 30 := by decide
  rw [target, edgeSpace_spec.2 y hy] at h
  split_ifs at h
  · have heq := Option.some.inj h
    dsimp only at heq
    rw [hlarge] at heq
    omega
  · have heq := Option.some.inj h
    dsimp only at heq
    rw [hbase] at heq
    omega
  · cases h

def edgeAnswers : List Answer :=
  [⟨0xffffffc180001000, [0xffffffc100002000, 0xffffffc100003000]⟩, ⟨0xffffffc200000000, []⟩]

lemma edgeAnswers_fresh : FreshCopy edgeSpace.root edgeChild [(0, 0xffffffc180000000), (2, 0xffffffc1c0000000)]
    edgeAnswers := by
  have hpage : ∀ p ∈ handedOut [(0, 0xffffffc180000000), (2, 0xffffffc1c0000000)] edgeAnswers,
      p = (0, 0xffffffc180001000) ∨ p = (2, 0xffffffc200000000) := by
    intro p hp
    simpa [handedOut, edgeAnswers] using hp
  have hbase : orderSize 0 = 4096 := by decide
  have hlarge : orderSize 2 = 2 ^ 30 := by decide
  refine ⟨⟨by decide, createVmem_fresh edgeChild_kernel (by decide) (by decide) (by decide)⟩, fun a ha htable => ?_,
    fun p hp => ?_, fun p hp _ y hy i hi htarget => ?_, ?_⟩
  · have hnew : ∀ a ∈ edgeAnswers.flatMap Answer.tables,
        a ∉ [0xffffffc000000000, 0xffffffc100000000, 0xffffffc100001000] := by
      decide
    rw [edgeChild_source] at htable
    exact hnew a ha (edgeSpace_spec.1 a htable)
  · obtain rfl | rfl := hpage p hp
    · simp only [hbase]
      norm_num
    · simp only [hlarge]
      norm_num
  · rw [edgeChild_source] at htarget
    have hz := edgeSpace_target hy htarget
    obtain rfl | rfl := hpage p hp
    · simp only [hbase] at hi
      dsimp only at hz
      omega
    · simp only [hlarge] at hi
      dsimp only at hz
      omega
  · refine List.pairwise_cons.2 ⟨fun q hq _ _ => .inl ?_, List.pairwise_singleton _ _⟩
    obtain rfl := List.mem_singleton.1 hq
    decide

theorem copyRegion_privateCopy_twoSizes :
    ∃ r, copyRegion edgeChild edgeSpace.root (fun _ => 7) 0x3ffff000 0x3ffff000 (0x80000000 - 0x3ffff000)
        edgeAnswers = some r ∧
      PrivateCopy edgeSpace.root edgeChild (fun _ => 7) 0x3ffff000 0x80000000 r :=
  copyRegion_privateCopy (createVmem_wellFormed edgeChild_kernel) (createVmem_noneShared edgeChild_kernel)
    (by decide) edgeSpace_tiles (by decide) (fun y _ hy => createVmem_stat (hy.trans (by decide))) edgeAnswers_fresh

/-- There is no page for the last table of the child. The page of the copy is freed; the table
that was made is not, and is no page of the range. -/
theorem refused_copy_keeps_table :
    WellFormed childSpace ∧ NoneShared onePage.root childSpace ∧
      Tiles ⟨onePage.root, childSpace.low⟩ 0x10000 0x11000 [(0, 0xffffffc180000000)] ∧
      (∀ y, 0x10000 ≤ y → y < 0x11000 → statVpage childSpace y = none) ∧
      FreshCopy onePage.root childSpace [(0, 0xffffffc180000000)] (childAnswers 0) ∧
      ∃ r, copyRegion childSpace onePage.root (fun _ => 7) 0x10000 0x10000 0x1000 (childAnswers 0) =
          some r ∧ r.ret = ERR_OOMEM ∧ ∃ c ∈ r.tables, ¬ MappedOrFreed 0x10000 0x11000 r (0, c) := by
  have hrun : (copyRegion childSpace onePage.root (fun _ => 7) 0x10000 0x10000 0x1000 (childAnswers 0)).map
      (fun r => (r.ret, r.freed, r.tables, statVpage r.b 0x10000)) =
        some (ERR_OOMEM, [(0, 0xffffffc180001000)], [0xffffffc100002000], none) := by
    decide +kernel
  obtain ⟨r, hr, heq⟩ := Option.map_eq_some_iff.1 hrun
  obtain ⟨hret, hfreed, htables, hstat⟩ := by simpa using heq
  refine ⟨createVmem_wellFormed childSpace_kernel, createVmem_noneShared childSpace_kernel, onePage_tiles,
    fun y _ hy => createVmem_stat (hy.trans (by decide)), childAnswers_fresh (.inl rfl), r, hr, hret,
    0xffffffc100002000, by simp [htables], ?_⟩
  rintro (hmem | ⟨y, x, hy, hlt, hx, -⟩)
  · rw [hfreed] at hmem
    exact absurd hmem (by decide)
  · have hpage : walkPage y = walkPage 0x10000 := by
      rw [walkPage, walkPage]
      omega
    rw [statVpage_walkPage _ hpage, hstat] at hx
    cases hx

end Kmi.Uvmem
