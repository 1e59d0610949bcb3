import Kmi.Pmem.Complete
import Kmi.Pmem.Reserved
import Kmi.Vmem.Model

/-! Which pages `init_pmem` keeps from being handed out. The device tree is not among them. -/

namespace Kmi.Pmem

open Kmi.Mem

open Kmi.Vmem (va VM_DMAP)

structure Firmware where
  ramBase : ℕ
  ramSize : ℕ
  loadAddr : ℕ
  kernelSize : ℕ
  initrdBase : ℕ
  initrdSize : ℕ
  fdtSize : ℕ
  reservedMemory : List AvoidRegion

def avoidRegions (f : Firmware) (fdt : ℕ) : List AvoidRegion :=
  ⟨va f.loadAddr, f.kernelSize⟩ :: ⟨va f.initrdBase, f.initrdSize⟩ :: ⟨va fdt, f.fdtSize⟩ :: ⟨0, 0⟩ ::
    f.reservedMemory.map fun r => ⟨va r.base, r.size⟩

def initPmem (f : Firmware) (fdt : ℕ) : Option (Pmap × AvoidRegion) :=
  let ramBase := va f.ramBase
  if ¬ (isAligned f.initrdBase basePageSize ∧ isAligned fdt basePageSize) then none
  else
    let probeSize := probePmap f.ramSize 0
    let avoid := avoidRegions f fdt
    if 64 ≤ avoid.length then none
    else
      let pmapBase := selectBase ramBase f.ramSize probeSize avoid
      if pmapBase = 0 then none
      else
        let place : AvoidRegion := ⟨pmapBase, probePmap f.ramSize pmapBase⟩
        (markAll (populatePmap ramBase f.ramSize pmapBase) (markReserved ramBase f.ramSize (avoid ++ [place]))).map
          fun m => (m, place)

def pmapPlace (f : Firmware) (fdt : ℕ) : AvoidRegion :=
  ⟨selectBase (va f.ramBase) f.ramSize (probePmap f.ramSize 0) (avoidRegions f fdt), probePmap f.ramSize 0⟩

/-- A region lies in RAM or apart from it, and both in the lower half of the addresses. -/
structure Firmware.Fits (f : Firmware) (r : AvoidRegion) : Prop where
  low : r.base + r.size < 2 ^ 38
  empty : r.size = 0 → 4096 ∣ r.base
  place : f.ramBase ≤ r.base ∧ r.base + r.size ≤ f.ramBase + f.ramSize ∨ r.base + r.size ≤ f.ramBase ∨
    f.ramBase + f.ramSize ≤ r.base

structure Firmware.Sane (f : Firmware) (fdt : ℕ) : Prop where
  pos : orderSize 0 ≤ f.ramSize
  low : f.ramBase + f.ramSize < 2 ^ 38
  aligned : 4096 ∣ f.ramBase
  whole : orderSize (topOrder f.ramSize) ∣ f.ramSize
  bitmaps : BitmapFits f.ramSize
  kernel : f.Fits ⟨f.loadAddr, f.kernelSize⟩
  initrd : f.Fits ⟨f.initrdBase, f.initrdSize⟩
  initrd_aligned : 4096 ∣ f.initrdBase
  fdt_low : fdt + f.fdtSize < 2 ^ 38
  fdt_aligned : 4096 ∣ fdt
  reserved : ∀ r ∈ f.reservedMemory, f.Fits r
  few : f.reservedMemory.length < 60
  room : (pmapPlace f (va fdt)).base ≠ 0 ∧ va f.ramBase ≤ (pmapPlace f (va fdt)).base ∧
    (pmapPlace f (va fdt)).base + (pmapPlace f (va fdt)).size ≤ va f.ramBase + f.ramSize

def keptRegions (f : Firmware) (fdt : ℕ) : List AvoidRegion :=
  pmapPlace f fdt :: ⟨va f.loadAddr, f.kernelSize⟩ :: ⟨va f.initrdBase, f.initrdSize⟩ ::
    f.reservedMemory.map fun r => ⟨va r.base, r.size⟩

variable {f : Firmware} {fdt ramBase ramSize a : ℕ} {avoid : List AvoidRegion} {g : Ram}

lemma pmapPlace_base : (pmapPlace f fdt).base =
    selectBase (va f.ramBase) f.ramSize (probePmap f.ramSize 0) (avoidRegions f fdt) := by
  rw [pmapPlace]

lemma pmapPlace_mk : pmapPlace f fdt = ⟨(pmapPlace f fdt).base, probePmap f.ramSize 0⟩ := by
  rw [pmapPlace_base, pmapPlace]

lemma va_eq {x : ℕ} (h : x < 2 ^ 38) : va x = x + (2 ^ 64 - 2 ^ 38) := by
  simp only [va, VM_DMAP]
  omega

lemma va_va {x : ℕ} (h : x < 2 ^ 38) : va (va x) = x + (2 ^ 64 - 2 ^ 39) := by
  simp only [va, VM_DMAP]
  omega

lemma maybePopulateBucket_shift (n cont order : ℕ) :
    (maybePopulateBucket n cont order).2 = cont + (maybePopulateBucket n 0 order).2 := by
  simp only [maybePopulateBucket, placeSets_eq]
  generalize (if orderWidth (order + 1) = 0 then n else orderWidth (order + 1)) = bits
  split_ifs
  · dsimp only
    omega
  · dsimp only
    omega

lemma maybePopulateOrders_shift (ramSize iter cont : ℕ) :
    (maybePopulateOrders ramSize iter cont).2 = cont + (maybePopulateOrders ramSize iter 0).2 := by
  induction iter generalizing cont with
  | zero => rfl
  | succ iter ih =>
    simp only [maybePopulateOrders]
    split
    · exact ih cont
    · simp only
      rw [ih, maybePopulateBucket_shift, ih (maybePopulateBucket _ 0 iter).2]
      omega

lemma probePmap_eq (ramSize start : ℕ) : probePmap ramSize start = probePmap ramSize 0 := by
  simp only [probePmap, maybePopulatePmap]
  rw [maybePopulateOrders_shift, maybePopulateOrders_shift ramSize _ (0 + sizeofPmap)]
  omega

lemma probePmap_pos (ramSize start : ℕ) : 0 < probePmap ramSize start := by
  simp only [probePmap, maybePopulatePmap]
  rw [maybePopulateOrders_shift]
  simp only [sizeofPmap]
  omega

lemma markRight_of_place (hram : ramBase + ramSize < 2 ^ 64) (hpos : 0 < ramSize) (hbase : 4096 ∣ ramBase)
    (hsize : 4096 ∣ ramSize)
    (hplain : ∀ r ∈ avoid, r.base + r.size < 2 ^ 64) (hempty : ∀ r ∈ avoid, r.size = 0 → 4096 ∣ r.base)
    (hhigh : ∀ r ∈ avoid, r.base + r.size + 4096 ≤ 2 ^ 64 ∨ 4096 ≤ r.base)
    (hplace : ∀ r ∈ avoid, ramBase ≤ r.base ∧ r.base + r.size ≤ ramBase + ramSize ∨ r.base + r.size ≤ ramBase ∨
      ramBase + ramSize ≤ r.base) : MarkRight ramBase ramSize avoid := by
  obtain ⟨b, rfl⟩ := hbase
  obtain ⟨s, rfl⟩ := hsize
  apply markRight_of_fits hram hplain hempty
  constructor
  · intro r hr _ hov
    have hr' := hplace r hr
    have he := hempty r hr
    rw [overlaps_iff (hplain r hr) hram] at hov
    omega
  · rintro ⟨r, hr, hmiss⟩
    have hr' := hplace r hr
    have hh := hhigh r hr
    have hp := hplain r hr
    obtain ⟨h₁, h₂⟩ | ⟨h₁, h₂⟩ := hmiss <;> omega

lemma markedPage_eq {x : ℕ} (hbase : 4096 ∣ ramBase) (hx : 4096 ∣ x) (hle : ramBase ≤ x) :
    markedPage ramBase x = (0, x) := by
  obtain ⟨b, rfl⟩ := hbase
  obtain ⟨k, rfl⟩ := hx
  simp only [markedPage, show orderSize 0 = 4096 from rfl]
  refine Prod.ext rfl ?_
  dsimp only
  omega

lemma free_iff (h : MarkRight ramBase ramSize avoid) (hbase : 4096 ∣ ramBase) :
    (∃ p, a = ramBase + p * orderSize 0 ∧ FreePage ramBase ramSize [] (markReserved ramBase ramSize avoid) 0 p) ↔
      RamPage ramBase ramSize a ∧ ∀ r ∈ avoid, ¬ Intersects a 4096 r.base r.size := by
  obtain ⟨b, rfl⟩ := hbase
  have hsize : orderSize 0 = 4096 := rfl
  simp only [FreePage, hsize]
  constructor
  · rintro ⟨p, rfl, hle, -, hapart⟩
    have hp : RamPage (4096 * b) ramSize (4096 * b + p * 4096) := ⟨⟨b + p, by ring⟩, by omega, by omega⟩
    refine ⟨hp, fun r hr hmeet => ?_⟩
    have hap := hapart _ ((h _).2 ⟨hp, r, hr, hmeet⟩)
    rw [markedPage_eq ⟨b, rfl⟩ hp.1 hp.2.1] at hap
    simp only [Apart, hsize] at hap
    omega
  · rintro ⟨hp, hapart⟩
    obtain ⟨⟨k, rfl⟩, hlo, hhi⟩ := hp
    refine ⟨k - b, by omega, by omega, by simp, fun x hx => ?_⟩
    obtain ⟨hpx, r, hr, hmeet⟩ := (h x).1 hx
    rw [markedPage_eq ⟨b, rfl⟩ hpx.1 hpx.2.1]
    have hne : x ≠ 4096 * k := fun he => hapart r hr (he ▸ hmeet)
    obtain ⟨⟨j, rfl⟩, -, -⟩ := hpx
    simp only [Apart, hsize]
    omega

lemma page_dvd_orderSize (o : ℕ) : 4096 ∣ orderSize o := by
  rw [orderSize]
  split_ifs
  · exact ⟨2 ^ (9 * o), by rw [orderShift, pow_add]; rfl⟩
  · exact dvd_zero _

lemma Owned.avoids {m : Pmap} {live : List (ℕ × ℕ)} {x : ℕ × ℕ} (h : MarkRight ramBase g.bytes avoid)
    (hbase : 4096 ∣ ramBase)
    (hown : Owned g m live (markReserved ramBase g.bytes avoid)) (hm : m.base = ramBase)
    (hx : x ∈ live) {r : AvoidRegion}
    (hr : r ∈ avoid) : ¬ Intersects x.2 (orderSize x.1) r.base r.size := by
  rintro ⟨y, hlo, hhi, hlo', hhi'⟩
  obtain ⟨p, hp, hle⟩ := hown.inside hx
  subst hm
  obtain ⟨b, hb⟩ := hbase
  obtain ⟨s, hs⟩ := page_dvd_orderSize x.1
  have hmul : p * (4096 * s) = 4096 * (p * s) := by ring
  rw [hs] at hp hhi hle
  have hpage : RamPage m.base g.bytes (4096 * (y / 4096)) := ⟨⟨_, rfl⟩, by omega, by omega⟩
  have hmark := (h _).2 ⟨hpage, r, hr, y, by omega, by omega, hlo', hhi'⟩
  have hap := hown.apart_marked hx hmark
  rw [markedPage_eq ⟨b, hb⟩ hpage.1 hpage.2.1] at hap
  simp only [Apart, show orderSize 0 = 4096 from rfl, hs] at hap
  omega

lemma Firmware.Fits.mapped {r : AvoidRegion} (h : f.Fits r) (hlow : f.ramBase + f.ramSize < 2 ^ 38) :
    va r.base + r.size < 2 ^ 64 ∧ (r.size = 0 → 4096 ∣ va r.base) ∧ 4096 ≤ va r.base ∧
      (va f.ramBase ≤ va r.base ∧ va r.base + r.size ≤ va f.ramBase + f.ramSize ∨ va r.base + r.size ≤ va f.ramBase ∨
        va f.ramBase + f.ramSize ≤ va r.base) := by
  have hr := h.low
  have hplace := h.place
  have hempty := h.empty
  rw [va_eq (show r.base < 2 ^ 38 by omega), va_eq (show f.ramBase < 2 ^ 38 by omega)]
  refine ⟨by omega, fun hz => ?_, by omega, by omega⟩
  obtain ⟨k, hk⟩ := hempty hz
  omega

lemma Firmware.Sane.disjoint (h : f.Sane fdt) : MetadataDisjoint f.ramSize (pmapPlace f (va fdt)).base := by
  have hlow := h.low
  exact metadataDisjoint_of_fits (by omega) h.bitmaps

lemma Firmware.Sane.base_aligned (h : f.Sane fdt) : 4096 ∣ va f.ramBase := by
  obtain ⟨k, hk⟩ := h.aligned
  have hlow := h.low
  rw [va_eq (by omega)]
  omega

lemma Firmware.Sane.page_dvd (h : f.Sane fdt) : 4096 ∣ f.ramSize := by
  refine Nat.dvd_trans ?_ h.whole
  simp only [topOrder]
  split_ifs
  · exact ⟨512 * 512, rfl⟩
  · exact ⟨512, rfl⟩
  · exact dvd_rfl

lemma Firmware.Sane.markRight (h : f.Sane fdt) :
    MarkRight (va f.ramBase) f.ramSize (avoidRegions f (va fdt) ++ [pmapPlace f (va fdt)]) := by
  have hlow := h.low
  have hfdt := h.fdt_low
  obtain ⟨-, hlo, hhi⟩ := h.room
  have hva := va_eq (show f.ramBase < 2 ^ 38 by omega)
  have hvava := va_va (show fdt < 2 ^ 38 by omega)
  have hpos := h.pos
  rw [show orderSize 0 = 4096 from rfl] at hpos
  have hsize : 0 < (pmapPlace f (va fdt)).size := probePmap_pos f.ramSize 0
  have hall : ∀ r ∈ avoidRegions f (va fdt) ++ [pmapPlace f (va fdt)],
      r.base + r.size < 2 ^ 64 ∧ (r.size = 0 → 4096 ∣ r.base) ∧ (r.base + r.size + 4096 ≤ 2 ^ 64 ∨ 4096 ≤ r.base) ∧
        (va f.ramBase ≤ r.base ∧ r.base + r.size ≤ va f.ramBase + f.ramSize ∨ r.base + r.size ≤ va f.ramBase ∨
          va f.ramBase + f.ramSize ≤ r.base) := by
    intro r hr
    simp only [avoidRegions, List.mem_append, List.mem_cons, List.mem_map, List.not_mem_nil, or_false] at hr
    obtain (rfl | rfl | rfl | rfl | ⟨r, hr, rfl⟩) | rfl := hr
    · obtain ⟨h₁, h₂, h₃, h₄⟩ := h.kernel.mapped hlow
      exact ⟨h₁, h₂, .inr h₃, h₄⟩
    · obtain ⟨h₁, h₂, h₃, h₄⟩ := h.initrd.mapped hlow
      exact ⟨h₁, h₂, .inr h₃, h₄⟩
    · obtain ⟨k, hk⟩ := h.fdt_aligned
      rw [hvava]
      exact ⟨by dsimp only; omega, fun _ => by dsimp only; omega, .inl (by dsimp only; omega),
        .inr (.inl (by dsimp only; omega))⟩
    · exact ⟨by norm_num, fun _ => dvd_zero _, .inl (by norm_num), .inr (.inl (Nat.zero_le _))⟩
    · obtain ⟨h₁, h₂, h₃, h₄⟩ := (h.reserved r hr).mapped hlow
      exact ⟨h₁, h₂, .inr h₃, h₄⟩
    · exact ⟨by omega, fun hz => by omega, .inr (by omega), .inl ⟨hlo, hhi⟩⟩
  apply markRight_of_place (by omega) (by omega) h.base_aligned h.page_dvd
  · exact fun r hr => (hall r hr).1
  · exact fun r hr => (hall r hr).2.1
  · exact fun r hr => (hall r hr).2.2.1
  · exact fun r hr => (hall r hr).2.2.2

lemma Firmware.Sane.init (h : f.Sane fdt) : ∃ g : Ram, g.bytes = f.ramSize ∧ ∃ m₀,
    initPmem f (va fdt) = some (m₀, pmapPlace f (va fdt)) ∧
      Accounted g (va f.ramBase) m₀ [] (markReserved (va f.ramBase) f.ramSize
        (avoidRegions f (va fdt) ++ [pmapPlace f (va fdt)])) ∧
      markReserved (va f.ramBase) f.ramSize (avoidRegions f (va fdt) ++ [pmapPlace f (va fdt)]) ≠ [] := by
  have hlow := h.low
  obtain ⟨g, -, hg⟩ := exists_ram h.pos (by omega) h.whole
  have hmark := h.markRight
  obtain ⟨hne, hlo, hhi⟩ := h.room
  have hsize : 0 < (pmapPlace f (va fdt)).size := probePmap_pos f.ramSize 0
  obtain ⟨b, hb⟩ := h.base_aligned
  obtain ⟨marked, hmarked⟩ : ∃ marked, markReserved (va f.ramBase) f.ramSize
    (avoidRegions f (va fdt) ++ [pmapPlace f (va fdt)]) = marked := ⟨_, rfl⟩
  have hnone : marked ≠ [] := by
    have hwhole : 4096 ∣ f.ramSize := h.page_dvd
    obtain ⟨s, hs⟩ := hwhole
    have hmem : (pmapPlace f (va fdt)).base / 4096 * 4096 ∈ marked := by
      rw [← hmarked]
      refine (hmark _).2 ⟨⟨⟨_, Nat.mul_comm _ _⟩, by omega, by omega⟩, _,
        List.mem_append_right _ List.mem_cons_self, ?_⟩
      rw [intersects_iff]
      omega
    exact List.ne_nil_of_mem hmem
  obtain ⟨m₀, hm₀, hacc⟩ := @markAll_accounted g marked (va f.ramBase) (pmapPlace f (va fdt)).base hnone fun x hx => by
    rw [← hmarked] at hx
    obtain ⟨⟨-, h₁, h₂⟩, -⟩ := (hmark x).1 hx
    omega
  rw [hmarked]
  refine ⟨g, hg, m₀, ?_, hacc, hnone⟩
  have hinitrd : isAligned f.initrdBase basePageSize = true := by
    rw [basePageSize_eq, isAligned_iff (by norm_num)]
    exact Nat.mod_eq_zero_of_dvd h.initrd_aligned
  have hfdt : isAligned (va fdt) basePageSize = true := by
    obtain ⟨k, hk⟩ := h.fdt_aligned
    have hfdt := h.fdt_low
    rw [basePageSize_eq, isAligned_iff (by norm_num), va_eq (by omega)]
    omega
  have hfew : (avoidRegions f (va fdt)).length < 64 := by
    have := h.few
    simp only [avoidRegions, List.length_cons, List.length_map]
    omega
  have hplace : AvoidRegion.mk (pmapPlace f (va fdt)).base (probePmap f.ramSize (pmapPlace f (va fdt)).base) =
      pmapPlace f (va fdt) := by
    rw [probePmap_eq, ← pmapPlace_mk]
  rw [hg] at hm₀
  simp only [initPmem]
  rw [if_neg (not_not.2 ⟨hinitrd, hfdt⟩), if_neg (by omega), ← pmapPlace_base, if_neg hne, hplace, hmarked, hm₀]
  rfl

lemma mem_avoidRegions {r : AvoidRegion} (h : r ∈ keptRegions f fdt) : r ∈ avoidRegions f fdt ++ [pmapPlace f fdt] := by
  simp only [keptRegions, List.mem_cons] at h
  simp only [avoidRegions, List.mem_append, List.mem_cons, List.not_mem_nil, or_false]
  obtain h | h | h | h := h
  · exact .inr h
  · exact .inl (.inl h)
  · exact .inl (.inr (.inl h))
  · exact .inl (.inr (.inr (.inr (.inr h))))

lemma Firmware.Sane.meets_kept (h : f.Sane fdt) (ha : RamPage (va f.ramBase) f.ramSize a) :
    (∃ r ∈ avoidRegions f (va fdt) ++ [pmapPlace f (va fdt)], Intersects a 4096 r.base r.size) ↔
      ∃ r ∈ keptRegions f (va fdt), Intersects a 4096 r.base r.size := by
  constructor
  · rintro ⟨r, hr, hmeet⟩
    refine ⟨r, ?_, hmeet⟩
    simp only [avoidRegions, List.mem_append, List.mem_cons, List.not_mem_nil, or_false] at hr
    simp only [keptRegions, List.mem_cons]
    obtain (hr | hr | rfl | rfl | hr) | hr := hr
    · exact .inr (.inl hr)
    · exact .inr (.inr (.inl hr))
    · have hlow := h.low
      have hfdt := h.fdt_low
      rw [va_va (by omega), intersects_iff] at hmeet
      obtain ⟨-, hlo, -⟩ := ha
      rw [va_eq (by omega)] at hlo
      dsimp only at hmeet
      omega
    · rw [intersects_iff] at hmeet
      exact absurd hmeet.2.1 (lt_irrefl _)
    · exact .inr (.inr (.inr hr))
    · exact .inl hr
  · rintro ⟨r, hr, hmeet⟩
    exact ⟨r, mem_avoidRegions hr, hmeet⟩

lemma Firmware.Sane.live_avoids {m₀ m : Pmap} {live : List (ℕ × ℕ)} {x : ℕ × ℕ} (h : f.Sane fdt)
    (hg : g.bytes = f.ramSize)
    (hacc : Accounted g (va f.ramBase) m₀ [] (markReserved (va f.ramBase) f.ramSize
      (avoidRegions f (va fdt) ++ [pmapPlace f (va fdt)])))
    (hrun : Run FreeFindsSets m₀ m live) (hx : x ∈ live) :
    va f.ramBase ≤ x.2 ∧ x.2 + orderSize x.1 ≤ va f.ramBase + f.ramSize ∧
      ∀ r ∈ keptRegions f (va fdt), ¬ Intersects x.2 (orderSize x.1) r.base r.size := by
  obtain ⟨hb, hown⟩ := hrun.owned hacc.owned
  rw [hacc.base] at hb
  obtain ⟨p, hp, hle⟩ := hown.inside hx
  rw [hb, hg] at hle
  rw [hb] at hp
  refine ⟨by omega, hle, fun r hr => ?_⟩
  have hmark := h.markRight
  rw [← hg] at hmark hown
  exact hown.avoids hmark h.base_aligned hb hx (mem_avoidRegions hr)

theorem boot_keeps (h : f.Sane fdt) :
    MetadataDisjoint f.ramSize (pmapPlace f (va fdt)).base ∧
      ∃ m₀, initPmem f (va fdt) = some (m₀, pmapPlace f (va fdt)) ∧
        ∀ m live, Run FreeFindsSets m₀ m live → ∀ x ∈ live,
          va f.ramBase ≤ x.2 ∧ x.2 + orderSize x.1 ≤ va f.ramBase + f.ramSize ∧
            ∀ r ∈ keptRegions f (va fdt), ¬ Intersects x.2 (orderSize x.1) r.base r.size := by
  obtain ⟨g, hg, m₀, hm₀, hacc, -⟩ := h.init
  exact ⟨h.disjoint, m₀, hm₀, fun m live hrun x hx => h.live_avoids hg hacc hrun hx⟩

def smallBoard : Firmware where
  ramBase := 0x80000000
  ramSize := 0x400000
  loadAddr := 0x80000000
  kernelSize := 0x10000
  initrdBase := 0x80020000
  initrdSize := 0x3000
  fdtSize := 0x2000
  reservedMemory := [⟨0x80100000, 0x1000⟩]

lemma smallBoard_place : (pmapPlace smallBoard (va 0x80040000)).base = va 0x80010000 ∧
    (pmapPlace smallBoard (va 0x80040000)).size = 424 := by
  decide

lemma smallBoard_sane : smallBoard.Sane 0x80040000 where
  pos := by decide
  low := by decide
  aligned := by decide
  whole := by decide
  bitmaps := .inl (by decide)
  kernel := ⟨by decide, by decide, .inl (by decide)⟩
  initrd := ⟨by decide, by decide, .inl (by decide)⟩
  initrd_aligned := by decide
  fdt_low := by decide
  fdt_aligned := by decide
  reserved := by
    intro r hr
    obtain rfl := List.mem_singleton.1 hr
    exact ⟨by decide, by decide, .inl (by decide)⟩
  few := by decide
  room := by
    rw [smallBoard_place.1, smallBoard_place.2]
    decide

theorem boot_keeps_small : ∃ m₀,
    initPmem smallBoard (va 0x80040000) = some (m₀, pmapPlace smallBoard (va 0x80040000)) ∧
    ∀ m live, Run FreeFindsSets m₀ m live → ∀ x ∈ live, ¬ Intersects x.2 (orderSize x.1) (va 0x80000000) 0x10000 := by
  obtain ⟨-, m₀, hm₀, hkeeps⟩ := boot_keeps smallBoard_sane
  exact ⟨m₀, hm₀, fun m live hrun x hx => (hkeeps m live hrun x hx).2.2 ⟨va 0x80000000, 0x10000⟩
    (List.mem_cons_of_mem _ List.mem_cons_self)⟩

/-- Of the pages of RAM those are handed out that meet none of these; the device tree, of which
the direct map is taken twice, is left to be overwritten. -/
theorem boot_hands_out_iff (h : f.Sane fdt) (a : ℕ) :
    MetadataDisjoint f.ramSize (pmapPlace f (va fdt)).base ∧
      ∃ m₀, initPmem f (va fdt) = some (m₀, pmapPlace f (va fdt)) ∧
        ((∃ m live, Run FreeFindsSets m₀ m live ∧ (0, a) ∈ live) ↔
          RamPage (va f.ramBase) f.ramSize a ∧ ∀ r ∈ keptRegions f (va fdt), ¬ Intersects a 4096 r.base r.size) := by
  obtain ⟨g, hg, m₀, hm₀, hacc, hne⟩ := h.init
  have hmark := h.markRight
  have hlow := h.low
  refine ⟨h.disjoint, m₀, hm₀, ?_⟩
  rw [hacc.handed_out_iff (by rw [va_eq (by omega)]; omega) hne, hg, free_iff hmark h.base_aligned]
  refine and_congr_right fun ha => ?_
  have hmeets := h.meets_kept ha
  constructor
  · intro hno r hr hmeet
    obtain ⟨r', hr', hmeet'⟩ := hmeets.2 ⟨r, hr, hmeet⟩
    exact hno r' hr' hmeet'
  · intro hno r hr hmeet
    obtain ⟨r', hr', hmeet'⟩ := hmeets.1 ⟨r, hr, hmeet⟩
    exact hno r' hr' hmeet'

theorem boot_hands_out_fdt : ∃ m₀ m live,
    initPmem smallBoard (va 0x80040000) = some (m₀, pmapPlace smallBoard (va 0x80040000)) ∧
    Run FreeFindsSets m₀ m live ∧ (0, va 0x80040000) ∈ live := by
  obtain ⟨-, m₀, hm₀, hiff⟩ := boot_hands_out_iff smallBoard_sane (va 0x80040000)
  obtain ⟨m, live, hrun, hmem⟩ := hiff.2 ⟨⟨by decide, by decide, by decide⟩, fun r hr => by
    obtain ⟨hbase, hsize⟩ := smallBoard_place
    rw [intersects_iff]
    obtain rfl | rfl | rfl | hr := by simpa only [keptRegions, List.mem_cons] using hr
    · rw [hbase, hsize]
      decide
    · decide
    · decide
    · obtain rfl := List.mem_singleton.1 hr
      decide⟩
  exact ⟨m₀, m, live, hm₀, hrun, hmem⟩

end Kmi.Pmem
