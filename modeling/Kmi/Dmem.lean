import Kmi.Uvmem.FixedMaps
import Kmi.Uvmem.Runs

/-! Device memory, from `src/dmem.c`, with the handler of `req_pmem`. -/

namespace Kmi.Dmem

open Kmi.Mem Kmi.Vmem Kmi.Regions Kmi.Uvmem

structure Devmem where
  ramBase : ℕ
  ramSize : ℕ
  preRam : RegionMap
  postRam : RegionMap

inductive Side where
  | preRam
  | postRam

def Devmem.root (d : Devmem) : Side → RegionMap
  | .preRam => d.preRam
  | .postRam => d.postRam

def Devmem.setRoot (d : Devmem) (region : RegionMap) : Side → Devmem
  | .preRam => { d with preRam := region }
  | .postRam => { d with postRam := region }

def pagesUp (x : ℕ) : ℕ :=
  if isAligned x basePageSize then page x else page ((x + basePageSize) % 2 ^ 64)

/-- The counts of pages go to `init_region` as bytes, and the pages up to `-1` wrap to 0. -/
def initDevmem (m : RegionMap) (pre post : Option ℕ) (ramBase ramTop : ℕ) : Option Devmem := do
  let prePages := pagesUp ramBase
  let ramPages := pagesUp (sub64 ramTop ramBase)
  let postPages := sub64 (sub64 (pagesUp (2 ^ 64 - 1)) ramPages) prePages
  let (preRam, _) ← initRegion m pre 0 prePages 0
  let (postRam, _) ← initRegion m post ramTop postPages 0
  some ⟨ramBase, sub64 ramTop ramBase, preRam, postRam⟩

def selectRegion (d : Devmem) (addr : ℕ) : Option Side :=
  if addr < d.ramBase then some .preRam
  else if addr > (d.ramBase + d.ramSize) % 2 ^ 64 then some .postRam
  else none

def allocDevmem (d : Devmem) (m : Space) (pre post : Option ℕ) (start bytes : ℕ) (flags : Flags)
    (answers : List Pages) : Option (Devmem × Space × ℕ) :=
  match selectRegion d start with
  | none => some (d, m, 0)
  | some side => do
    let (region, v, bytes) ← allocRegion (d.root side) pre post bytes flags
    if v = 0 then some (d.setRoot region side, m, 0)
    else do
      let (m, ret) ← mapFixedRegion m v start bytes flags.toNat answers
      if ret ≠ OK then
        let (m, _) ← unmapRegion m v bytes
        let (region, _) ← freeRegion region v
        some (d.setRoot region side, m, 0)
      else some (d.setRoot region side, m, v)

def deviceFlags (flags : ℕ) : Flags := BitVec.ofNat 64 (sanitizeUvflags flags)

def reqPmem (d : Devmem) (m : Space) (pre post : Option ℕ) (paddr size flags : ℕ) (answers : List Pages) :
    Option (Devmem × Space × ℤ × ℕ) := do
  let (d, m, start) ← allocDevmem d m pre post paddr size (deviceFlags flags) answers
  if errCode start then some (d, m, start, 0) else some (d, m, OK, start)

def InRam (d : Devmem) (p : ℕ) : Prop := d.ramBase ≤ p ∧ p < d.ramBase + d.ramSize

def physical (x : Stat) (y : ℕ) : ℕ := pa x.addr + y % orderSize x.order

/-- What a device mapping is for: no entry that it adds leads into the RAM, and where it
succeeds the range has the physical pages that were asked for. -/
structure Outside (d : Devmem) (m m' : Space) (v paddr size : ℕ) : Prop where
  ram : ∀ y x, statVpage m' y = some x → statVpage m y ≠ some x → ¬ InRam d (pa x.addr)
  exact : v ≠ 0 → ∀ i < size, ∃ x, statVpage m' ((v + i) % 2 ^ 64) = some x ∧
    page (physical x ((v + i) % 2 ^ 64)) = page ((paddr + i) % 2 ^ 64)

/-- The call comes to `map_fixed_region`: the address is not refused, and there is an
address that is not null to map it at. -/
def Granted (d : Devmem) (pre post : Option ℕ) (paddr size flags v : ℕ) : Prop :=
  ∃ side region, selectRegion d paddr = some side ∧
    allocRegion (d.root side) pre post size (deviceFlags flags) =
      some (region, v, alignUp size basePageSize) ∧ v ≠ 0

def Mappable (m : Space) (v paddr size flags : ℕ) (answers : List Pages) : Prop :=
  ∃ m', mapFixedRegion m v paddr (alignUp size basePageSize) (deviceFlags flags).toNat answers =
    some (m', OK)

def OnlyBasePages (m : Space) (v size : ℕ) : Prop :=
  ∀ y, (∃ i < alignUp size basePageSize + basePageSize, y = (alignDown v basePageSize + i) % 2 ^ 64) →
    ∀ x, statVpage m y = some x → x.order = 0

variable {d d' : Devmem} {m m' : Space} {pre post : Option ℕ} {paddr size flags v y : ℕ} {status : ℤ}
  {answers : List Pages}

lemma deviceFlags_toNat (flags : ℕ) : (deviceFlags flags).toNat = sanitizeUvflags flags := by
  have hlt := (sanitizeUvflags_pageFlags flags).1
  rw [deviceFlags, BitVec.toNat_ofNat]
  exact Nat.mod_eq_of_lt (by omega)

lemma partitionRegion_addr {r r' : RegionMap} {x pages align pid a : ℕ} {f : Flags}
    (h : partitionRegion r pre post x pages align f pid = some (r', a)) : a % 4096 = 0 ∧ a < 2 ^ 64 := by
  simp only [partitionRegion, Option.bind_eq_bind, Option.bind_eq_some_iff, Option.some.injEq,
    Prod.mk.injEq, Prod.exists] at h
  obtain ⟨_, _, -, _, -, _, -, _, -, -, rfl⟩ := h
  rw [basePageSize_eq]
  omega

lemma allocRegion_addr {r r' : RegionMap} {bytes a : ℕ} {f : Flags}
    (h : allocRegion r pre post size f = some (r', a, bytes)) :
    a % 4096 = 0 ∧ a < 2 ^ 64 ∧ bytes = alignUp size basePageSize := by
  simp only [allocRegion, allocSharedRegion, Option.bind_eq_bind, Option.bind_eq_some_iff, Prod.exists] at h
  obtain ⟨found, align, -, h⟩ := h
  cases found with
  | none =>
    cases h
    exact ⟨rfl, by norm_num, rfl⟩
  | some x =>
    simp only [Option.bind_eq_some_iff, Option.some.injEq, Prod.mk.injEq, Prod.exists] at h
    obtain ⟨_, _, hpart, rfl, rfl, rfl⟩ := h
    obtain ⟨hal, hlt⟩ := partitionRegion_addr hpart
    exact ⟨hal, hlt, rfl⟩

lemma alignUp_page (hsize : size < 2 ^ 64) :
    alignUp size basePageSize % 4096 = 0 ∧ alignUp size basePageSize < 2 ^ 64 ∧
      (size ≤ 2 ^ 39 → size ≤ alignUp size basePageSize ∧ alignUp size basePageSize ≤ 2 ^ 39) := by
  rw [alignUp, alignDown_page, basePageSize_eq]
  split_ifs with hal
  · omega
  · omega

lemma reqPmem_cases (h : reqPmem d m pre post paddr size flags answers = some (d', m', status, v)) :
    (∀ a, ¬ Granted d pre post paddr size flags a) ∧ m' = m ∧ v = 0 ∨
      ∃ a m₁ ret, Granted d pre post paddr size flags a ∧ a < 2 ^ 64 ∧
        mapFixedRegion m a paddr (alignUp size basePageSize) (deviceFlags flags).toNat answers =
          some (m₁, ret) ∧
        (ret = OK ∧ m' = m₁ ∧ v = a ∨
          ret ≠ OK ∧ v = 0 ∧ ∃ freed, unmapRegion m₁ a (alignUp size basePageSize) = some (m', freed)) := by
  have herr : ∀ a, a % 4096 = 0 → a < 2 ^ 64 → errCode a = false := by
    intro a hal hlt
    rw [errCode, decide_eq_false_iff_not, basePageSize_eq]
    omega
  rw [reqPmem] at h
  simp only [Option.bind_eq_bind, Option.bind_eq_some_iff, Prod.exists] at h
  obtain ⟨d₁, m₁, a, halloc, h⟩ := h
  rw [allocDevmem] at halloc
  cases hside : selectRegion d paddr with
  | none =>
    rw [hside] at halloc
    cases halloc
    rw [herr 0 rfl (by norm_num)] at h
    cases h
    refine .inl ⟨fun a ha => ?_, rfl, rfl⟩
    obtain ⟨side, _, hs, -⟩ := ha
    rw [hside] at hs
    cases hs
  | some side =>
    rw [hside] at halloc
    simp only [Option.bind_eq_bind, Option.bind_eq_some_iff, Prod.exists] at halloc
    obtain ⟨region, b, bytes, hregion, halloc⟩ := halloc
    obtain ⟨hal, hlt, rfl⟩ := allocRegion_addr hregion
    by_cases hb : b = 0
    · rw [if_pos hb] at halloc
      cases halloc
      rw [herr 0 rfl (by norm_num)] at h
      cases h
      refine .inl ⟨fun a hgranted => ?_, rfl, rfl⟩
      obtain ⟨side', region', hs, hr, ha⟩ := hgranted
      rw [hside] at hs
      cases hs
      rw [hregion] at hr
      cases hr
      exact ha hb
    · rw [if_neg hb] at halloc
      simp only [Option.bind_eq_some_iff, Prod.exists] at halloc
      obtain ⟨m₂, ret, hmap, halloc⟩ := halloc
      refine .inr ⟨b, m₂, ret, ⟨side, region, hside, hregion, hb⟩, hlt, hmap, ?_⟩
      by_cases hret : ret = OK
      · rw [if_neg (not_not.2 hret)] at halloc
        cases halloc
        rw [herr _ hal hlt] at h
        cases h
        exact .inl ⟨hret, rfl, rfl⟩
      · rw [if_pos hret] at halloc
        simp only [Option.bind_eq_some_iff, Option.some.injEq, Prod.mk.injEq, Prod.exists] at halloc
        obtain ⟨m₃, freed, hunmap, _, _, -, -, rfl, rfl⟩ := halloc
        rw [herr 0 rfl (by norm_num)] at h
        cases h
        exact .inr ⟨hret, rfl, freed, hunmap⟩

lemma Granted.unique {a b : ℕ} (ha : Granted d pre post paddr size flags a)
    (hb : Granted d pre post paddr size flags b) : a = b := by
  obtain ⟨side, region, hs, hr, -⟩ := ha
  obtain ⟨side', region', hs', hr', -⟩ := hb
  rw [hs] at hs'
  cases hs'
  rw [hr] at hr'
  cases hr'
  rfl

lemma pa_eq (p : ℕ) : pa p = (p + 2 ^ 38) % 2 ^ 64 := rfl

lemma physical_ne (hp : paddr < 2 ^ 64) (v f : ℕ) :
    page (physical ⟨paddr - paddr % 4096, 0, f⟩ v) ≠ page (paddr % 2 ^ 64) := by
  rw [physical, pa_eq, page, page, basePageSize_eq, show orderSize 0 = 4096 by decide]
  dsimp only
  omega

lemma not_exact_of_long (hlong : 2 ^ 39 < size) (_ : paddr < 2 ^ 64) :
    ¬ ∀ i < size, ∃ x, statVpage m' ((v + i) % 2 ^ 64) = some x ∧
      page (physical x ((v + i) % 2 ^ 64)) = page ((paddr + i) % 2 ^ 64) := by
  intro h
  obtain ⟨x, hx, hfirst⟩ := h 0 (by omega)
  obtain ⟨x', hx', hlast⟩ := h (2 ^ 39) hlong
  have hsame : walkPage ((v + 2 ^ 39) % 2 ^ 64) = walkPage ((v + 0) % 2 ^ 64) := by
    rw [walkPage, walkPage]
    omega
  rw [statVpage_walkPage m' hsame, hx] at hx'
  cases hx'
  have hoffset : (v + 2 ^ 39) % 2 ^ 64 % orderSize x.order = (v + 0) % 2 ^ 64 % orderSize x.order := by
    have ho := statVpage_order_le hx
    have hcases : x.order = 0 ∨ x.order = 1 ∨ x.order = 2 := by
      rw [maxOrder] at ho
      omega
    obtain ho | ho | ho := hcases
    · rw [ho, show orderSize 0 = 4096 by decide]
      omega
    · rw [ho, show orderSize 1 = 2 ^ 21 by decide]
      omega
    · rw [ho, show orderSize 2 = 2 ^ 30 by decide]
      omega
  rw [physical, hoffset, ← physical, hfirst, page, page, basePageSize_eq] at hlast
  omega

lemma OnlyBasePages.pages (h : OnlyBasePages m v size) (hsize : size < 2 ^ 64) :
    ∀ j < pagesAcross paddr (alignUp size basePageSize),
      ∀ y, walkPage y = ((v - v % 4096) / 4096 + j) % 2 ^ 27 →
        ∀ x, statVpage m y = some x → x.order = 0 := by
  intro j hj y hy x hx
  have hlt : j * 4096 < alignUp size basePageSize + basePageSize := by
    obtain ⟨hal, hup, -⟩ := alignUp_page hsize
    rw [pagesAcross] at hj
    rw [basePageSize_eq] at hal hup hj ⊢
    split_ifs at hj <;> omega
  have hpage : walkPage y = walkPage ((alignDown v basePageSize + j * 4096) % 2 ^ 64) := by
    rw [hy, walkPage, alignDown_page]
    omega
  apply h _ ⟨j * 4096, hlt, rfl⟩ x
  rw [← statVpage_walkPage m hpage, hx]

lemma mapFixedRegion_device {a : ℕ} {m₁ : Space} {ret : ℤ} (hw : WellFormed m)
    (hp : FreshPages m answers.flatten) (hpaddr : paddr < 2 ^ 64) (hsize : size < 2 ^ 64)
    (hsmall : OnlyBasePages m a size)
    (h : mapFixedRegion m a paddr (alignUp size basePageSize) (deviceFlags flags).toNat answers =
      some (m₁, ret)) :
    ∃ k ≤ pagesAcross paddr (alignUp size basePageSize),
      MapsFixed (deviceFlags flags).toNat m m₁ (a - a % 4096) (paddr - paddr % 4096) k ∧
        (ret = OK ↔ k = pagesAcross paddr (alignUp size basePageSize)) := by
  rw [deviceFlags_toNat] at h ⊢
  exact mapFixedRegion_spec (sanitizeUvflags_pageFlags flags) hw hpaddr (alignUp_page hsize).1
    (hsmall.pages hsize) hp h

/-- When the code keeps devices and RAM apart: it comes to map nothing, or it maps the one
page of an empty range that is not aligned, and that page happens to lie elsewhere. -/
def MapsNothing (d : Devmem) (m : Space) (pre post : Option ℕ) (paddr size flags : ℕ)
    (answers : List Pages) : Prop :=
  (∀ a, Granted d pre post paddr size flags a → ¬ Mappable m a paddr size flags answers) ∨
    size = 0 ∧ (paddr % 4096 = 0 ∨ ¬ InRam d (pa (paddr - paddr % 4096)))

lemma Outside.refused (hs : ∀ y x, statVpage m' y = some x → statVpage m y = some x) :
    Outside d m m' 0 paddr size :=
  ⟨fun y x hx hne => absurd (hs y x hx) hne, fun h => absurd rfl h⟩

section Mapped

variable {a k f : ℕ} (hm : MapsFixed f m m' (a - a % 4096) (paddr - paddr % 4096) k)
  (hk : k = pagesAcross paddr (alignUp size basePageSize)) (hp : paddr < 2 ^ 64)

include hm hk hp

lemma outside_of_empty (hz : size = 0)
    (hout : paddr % 4096 = 0 ∨ ¬ InRam d (pa (paddr - paddr % 4096))) :
    Outside d m m' a paddr size := by
  refine ⟨fun y x hx hne => ?_, fun _ i hi => by omega⟩
  have hnew : ∃ j < k, walkPage y = ((a - a % 4096) / 4096 + j) % 2 ^ 27 := by
    by_contra hno
    apply hne
    rw [← hx, hm.rest]
    intro j hj hpage
    exact hno ⟨j, hj, hpage⟩
  obtain ⟨j, hj, hpage⟩ := hnew
  rw [hk, hz, show alignUp 0 basePageSize = 0 by decide, pagesAcross] at hj
  have hj₀ : j = 0 := by
    split_ifs at hj <;> omega
  have hun : paddr % 4096 ≠ 0 := by
    intro hal
    rw [if_pos hal] at hj
    omega
  have hxnew := hm.new j (by rw [hk, hz, show alignUp 0 basePageSize = 0 by decide, pagesAcross]; exact hj) y hpage
  rw [hx, hj₀, Nat.zero_mul, Nat.add_zero, Nat.mod_eq_of_lt (by omega)] at hxnew
  cases hxnew
  exact hout.resolve_left hun

lemma empty_of_outside (hsize : size < 2 ^ 64) (ha : a ≠ 0) (ha' : a < 2 ^ 64)
    (hout : Outside d m m' a paddr size) :
    size = 0 ∧ (paddr % 4096 = 0 ∨ ¬ InRam d (pa (paddr - paddr % 4096))) := by
  have hfirst : walkPage a = ((a - a % 4096) / 4096 + 0) % 2 ^ 27 := by
    rw [walkPage]
    omega
  have hzero : size = 0 := by
    by_contra hne
    obtain hlong | hshort := lt_or_ge (2 ^ 39) size
    · exact not_exact_of_long hlong hp (hout.exact ha)
    · obtain ⟨hal, -, hle⟩ := alignUp_page hsize
      have hpos : 0 < k := by
        rw [hk, pagesAcross]
        have := hle hshort
        split_ifs <;> omega
      obtain ⟨x, hx, hpage⟩ := hout.exact ha 0 (Nat.pos_of_ne_zero hne)
      rw [Nat.add_zero, Nat.mod_eq_of_lt ha', hm.new 0 hpos a hfirst, Nat.zero_mul, Nat.add_zero,
        Nat.mod_eq_of_lt (by omega)] at hx
      cases hx
      exact physical_ne hp _ _ hpage
  refine ⟨hzero, ?_⟩
  by_cases hal : paddr % 4096 = 0
  · exact .inl hal
  · right
    have hpos : 0 < k := by
      rw [hk, hzero, show alignUp 0 basePageSize = 0 by decide, pagesAcross, if_neg hal]
      norm_num
    have hx := hm.new 0 hpos a hfirst
    rw [Nat.zero_mul, Nat.add_zero, Nat.mod_eq_of_lt (by omega)] at hx
    apply hout.ram a _ hx
    rw [hm.old 0 hpos a hfirst]
    exact (Option.some_ne_none _).symm

end Mapped

theorem reqPmem_outside_iff (hw : WellFormed m) (hfresh : FreshPages m answers.flatten)
    (hpaddr : paddr < 2 ^ 64) (hsize : size < 2 ^ 64)
    (hsmall : ∀ a, Granted d pre post paddr size flags a → OnlyBasePages m a size)
    (h : reqPmem d m pre post paddr size flags answers = some (d', m', status, v)) :
    Outside d m m' v paddr size ↔ MapsNothing d m pre post paddr size flags answers := by
  obtain ⟨hno, rfl, rfl⟩ | ⟨a, m₁, ret, hg, ha, hmap, hcase⟩ := reqPmem_cases h
  · exact iff_of_true (.refused fun _ _ => id) (.inl fun a hg => absurd hg (hno a))
  · obtain ⟨k, hk, hm, hret⟩ := mapFixedRegion_device hw hfresh hpaddr hsize (hsmall a hg) hmap
    have hne : a ≠ 0 := by
      obtain ⟨_, _, -, -, hne⟩ := hg
      exact hne
    obtain ⟨hok, rfl, rfl⟩ | ⟨herr, rfl, freed, hunmap⟩ := hcase
    · have hall := hret.1 hok
      constructor
      · exact fun hout => .inr (empty_of_outside hm hall hpaddr hsize hne ha hout)
      · rintro (hno | ⟨hz, hout⟩)
        · exact absurd ⟨_, hok ▸ hmap⟩ (hno _ hg)
        · exact outside_of_empty hm hall hpaddr hz hout
    · refine iff_of_true (.refused fun y x hx => ?_) (.inl fun b hb hmappable => ?_)
      · have hlt : k < pagesAcross paddr (alignUp size basePageSize) :=
          lt_of_le_of_ne hk fun heq => herr (hret.2 heq)
        obtain ⟨hal, hup, -⟩ := alignUp_page hsize
        apply hm.unmapRegion ha hal hup _ hunmap hx
        rw [pagesAcross] at hlt
        split_ifs at hlt <;> omega
      · obtain rfl := hb.unique hg
        obtain ⟨m₂, hm₂⟩ := hmappable
        rw [hmap] at hm₂
        cases hm₂
        exact herr rfl

def bootDevmem : Devmem :=
  (initDevmem emptyMap (some 1) (some 2) 0x80000000 0x88000000).getD ⟨0, 0, emptyMap, emptyMap⟩

def freshVmem : Space := ⟨createVmem 0, fun _ _ => 0⟩

def twoTables : List Pages := [[0xffffffc080600000, 0xffffffc080601000]]

lemma freshVmem_wellFormed : WellFormed freshVmem := createVmem_wellFormed fun _ => rfl

lemma twoTables_fresh : FreshPages freshVmem twoTables.flatten :=
  createVmem_fresh (fun _ => rfl) (by decide) (by decide) (by decide)

lemma freshVmem_basePages : OnlyBasePages freshVmem 0x88000000 4096 := by
  rintro y ⟨i, hi, rfl⟩ x hx
  have hy : (alignDown 0x88000000 basePageSize + i) % 2 ^ 64 < UVMEM_END := by
    have hi' : i < 8192 := hi
    rw [show alignDown 0x88000000 basePageSize = 0x88000000 by decide, UVMEM_END]
    omega
  rw [show statVpage freshVmem _ = none from freshProcess_stat hy] at hx
  cases hx

lemma bootDevmem_granted {a paddr : ℕ} (hp : 0x88000000 < paddr)
    (h : Granted bootDevmem (some 3) (some 4) paddr 4096 6 a) : a = 0x88000000 := by
  obtain ⟨side, region, hs, hr, -⟩ := h
  have hside : selectRegion bootDevmem paddr = some .postRam := by
    rw [selectRegion, show bootDevmem.ramBase = 0x80000000 from rfl,
      show (0x80000000 + bootDevmem.ramSize) % 2 ^ 64 = 0x88000000 by decide +kernel,
      if_neg (by omega), if_pos (by omega)]
  rw [hside] at hs
  cases hs
  have haddr : (allocRegion bootDevmem.postRam (some 3) (some 4) 4096 (deviceFlags 6)).map (·.2.1) =
      some 0x88000000 := by
    decide +kernel
  rw [show bootDevmem.root .postRam = bootDevmem.postRam from rfl] at hr
  rw [hr] at haddr
  exact Option.some.inj haddr

theorem reqPmem_outside_iff_device :
    ∃ d' m', reqPmem bootDevmem freshVmem (some 3) (some 4) 0x90000000 4096 6 twoTables =
      some (d', m', OK, 0x88000000) ∧
        ¬ Outside bootDevmem freshVmem m' 0x88000000 0x90000000 4096 := by
  have hret : (reqPmem bootDevmem freshVmem (some 3) (some 4) 0x90000000 4096 6 twoTables).map
      (fun r => (r.2.2.1, r.2.2.2)) = some (OK, 0x88000000) := by
    decide +kernel
  rw [Option.map_eq_some_iff] at hret
  obtain ⟨⟨d', m', status, v⟩, h, hv⟩ := hret
  cases hv
  refine ⟨d', m', h, ?_⟩
  rw [reqPmem_outside_iff freshVmem_wellFormed twoTables_fresh (by norm_num) (by norm_num)
    (fun a ha => bootDevmem_granted (by norm_num) ha ▸ freshVmem_basePages) h]
  rintro (hno | ⟨hz, -⟩)
  · obtain ⟨-, -, hzero⟩ | ⟨a, m₁, ret, hg, -, hmap, ⟨rfl, -, -⟩ | ⟨-, hzero, -⟩⟩ := reqPmem_cases h
    · cases hzero
    · exact hno a hg ⟨m₁, hmap⟩
    · cases hzero
  · cases hz

/-- The direct map of the kernel passes for device memory. Its address of a page of the RAM
is above the RAM, and the page that is mapped for it is that page of the RAM. -/
theorem direct_map_is_device_memory :
    ∃ d' m' x, reqPmem bootDevmem freshVmem (some 3) (some 4) 0xffffffc080200000 4096 6 twoTables =
      some (d', m', OK, 0x88000000) ∧ statVpage m' 0x88000000 = some x ∧ pa x.addr = 0x80200000 ∧
        ¬ Outside bootDevmem freshVmem m' 0x88000000 0xffffffc080200000 4096 := by
  have hret : (reqPmem bootDevmem freshVmem (some 3) (some 4) 0xffffffc080200000 4096 6 twoTables).map
      (fun r => (r.2.2.1, r.2.2.2)) = some (OK, 0x88000000) := by
    decide +kernel
  rw [Option.map_eq_some_iff] at hret
  obtain ⟨⟨d', m', status, v⟩, h, hv⟩ := hret
  cases hv
  obtain ⟨-, -, hzero⟩ | ⟨a, m₁, ret, hg, -, hmap, ⟨hok, rfl, rfl⟩ | ⟨-, hzero, -⟩⟩ := reqPmem_cases h
  · cases hzero
  · obtain ⟨k, -, hm, hall⟩ := mapFixedRegion_device freshVmem_wellFormed twoTables_fresh (by norm_num)
      (by norm_num) freshVmem_basePages hmap
    have hpos : 0 < k := by
      rw [hall.1 hok]
      decide
    have hx := hm.new 0 hpos 0x88000000 (by decide)
    refine ⟨d', m', _, h, hx, by decide, fun hout => ?_⟩
    apply hout.ram 0x88000000 _ hx
    · rw [hm.old 0 hpos 0x88000000 (by decide)]
      exact (Option.some_ne_none _).symm
    · exact ⟨by decide, by decide +kernel⟩
  · cases hzero

end Kmi.Dmem
