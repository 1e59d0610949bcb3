import Kmi.Elf.Load

/-! The image that `load_elf` builds is the one that the file describes exactly where each
segment looks the same from the start of its first page as from its own start. -/

namespace Kmi.Elf

open Kmi.Mem Kmi.Vmem Kmi.Regions Kmi.Uvmem

variable {image ram : Bytes} {kvmem elf entry : ℕ} {t : UserVmem} {a : ExecAnswers} {r : Exec}
  {s : ProgramHeader} {m : Space}

def segments (image : Bytes) (elf : ℕ) : List ProgramHeader :=
  let ei_c := field image (elf + 4) 1
  let h := elfHeader ei_c image elf
  loadHeaders image ei_c h.e_phentsize h.e_phnum ((elf + h.e_phoff) % 2 ^ 64)

structure Carries (s : ProgramHeader) (flags : ℕ) : Prop where
  read : flags &&& VM_R ≠ 0 ↔ s.p_flags &&& PF_R ≠ 0
  write : flags &&& VM_W ≠ 0 ↔ s.p_flags &&& PF_W ≠ 0
  execute : flags &&& VM_X ≠ 0 ↔ s.p_flags &&& PF_X ≠ 0

def Built (image : Bytes) (elf : ℕ) (m : Space) (ram : Bytes) (s : ProgramHeader) : Prop :=
  ∀ i < s.p_memsz, ∃ x, statVpage m (s.p_vaddr + i) = some x ∧
    ram (x.addr + (s.p_vaddr + i) % orderSize x.order) =
      (if i < s.p_filesz then image ((elf + s.p_offset + i) % 2 ^ 64) else 0) ∧
    Carries s x.flags

/-- Counted from its first page, a segment needs no more pages than its size counts, and the
file, with zeros after its end, is the same further on by the offset in the page. -/
structure InPlace (image : Bytes) (elf : ℕ) (s : ProgramHeader) : Prop where
  pages : s.p_vaddr % 4096 + s.p_memsz ≤ (s.p_memsz + 4095) / 4096 * 4096
  bytes : ∀ i < s.p_memsz,
    segmentByte image elf s (s.p_vaddr % 4096 + i) = segmentByte image elf s i

lemma InPlace.of_aligned (h : s.p_vaddr % 4096 = 0) : InPlace image elf s := by
  refine ⟨by omega, fun i _ => ?_⟩
  rw [h, Nat.zero_add]

structure Fresh (kvmem : ℕ) (t : UserVmem) (a : ExecAnswers) : Prop where
  kernel : KernelTable kvmem t.vmem.low
  pages : FreshPages ⟨createVmem kvmem, t.vmem.low⟩ (sectionsSupply a.sections)

lemma Fresh.loading (h : Fresh kvmem t a) :
    Loading ⟨createVmem kvmem, t.vmem.low⟩ (sectionsSupply a.sections) := by
  refine ⟨createVmem_wellFormed h.kernel, h.pages, fun y hy x hx => ?_⟩
  rw [createVmem_stat hy] at hx
  cases hx

lemma segmentByte_eq (image : Bytes) (elf : ℕ) (s : ProgramHeader) (i : ℕ) : segmentByte image elf s i =
    if i < s.p_filesz then image ((elf + s.p_offset + i) % 2 ^ 64) else 0 := by
  rw [segmentByte, fileByte, Nat.mod_add_mod]

lemma low_bits (f : ℕ) {b : ℕ} (hb : b < 2 ^ 8) : f % 2 ^ 8 &&& b = f &&& b := by
  rw [← Nat.and_two_pow_sub_one_eq_mod, Nat.and_assoc, Nat.and_comm (2 ^ 8 - 1) b,
    Nat.and_two_pow_sub_one_of_lt_two_pow hb]

lemma elfToUvflags_carries (s : ProgramHeader) :
    Carries s (elfToUvflags (s.p_flags % 2 ^ 8) ||| (VM_A ||| VM_D)) := by
  rw [elfToUvflags, low_bits s.p_flags (show PF_X < 2 ^ 8 by decide),
    low_bits s.p_flags (show PF_W < 2 ^ 8 by decide), low_bits s.p_flags (show PF_R < 2 ^ 8 by decide)]
  constructor
  · by_cases hr : s.p_flags &&& PF_R = 0
    · rw [if_neg (not_not.2 hr)]
      refine iff_of_false (not_not.2 ?_) (not_not.2 hr)
      split_ifs <;> decide
    · rw [if_pos hr]
      refine iff_of_true ?_ hr
      split_ifs <;> decide
  · by_cases hw : s.p_flags &&& PF_W = 0
    · rw [if_neg (not_not.2 hw)]
      refine iff_of_false (not_not.2 ?_) (not_not.2 hw)
      split_ifs <;> decide
    · rw [if_pos hw]
      refine iff_of_true ?_ hw
      split_ifs <;> decide
  · by_cases hx : s.p_flags &&& PF_X = 0
    · rw [if_neg (not_not.2 hx)]
      refine iff_of_false (not_not.2 ?_) (not_not.2 hx)
      split_ifs <;> decide
    · rw [if_pos hx]
      refine iff_of_true ?_ hx
      split_ifs <;> decide

lemma built_iff (hpos : 0 < s.p_memsz) (hend : s.p_vaddr + s.p_memsz ≤ UVMEM_END)
    (hnew : ∀ y < UVMEM_END, Covers s y → view m ram y = some (segmentView image elf s y))
    (hrest : ∀ i < s.p_memsz, ¬ Covers s (s.p_vaddr + i) → statVpage m (s.p_vaddr + i) = none) :
    Built image elf m ram s ↔ InPlace image elf s := by
  have hcovers : ∀ i, Covers s (s.p_vaddr + i) ↔
      s.p_vaddr % 4096 + i < (s.p_memsz + 4095) / 4096 * 4096 := by
    intro i
    rw [Covers]
    omega
  have hseen : ∀ i < s.p_memsz, Covers s (s.p_vaddr + i) → ∃ x, statVpage m (s.p_vaddr + i) = some x ∧
      ram (x.addr + (s.p_vaddr + i) % orderSize x.order) =
        segmentByte image elf s (s.p_vaddr % 4096 + i) ∧ Carries s x.flags := by
    intro i hi hc
    have hview := hnew (s.p_vaddr + i) (by omega) hc
    rw [view, Option.map_eq_some_iff] at hview
    obtain ⟨x, hx, hseg⟩ := hview
    rw [segmentView, Prod.mk.injEq,
      show s.p_vaddr + i - (s.p_vaddr - s.p_vaddr % 4096) = s.p_vaddr % 4096 + i by omega] at hseg
    refine ⟨x, hx, hseg.1, ?_⟩
    rw [hseg.2]
    exact elfToUvflags_carries s
  constructor
  · intro h
    have hall : ∀ i < s.p_memsz, Covers s (s.p_vaddr + i) := by
      intro i hi
      by_contra hc
      obtain ⟨x, hx, -⟩ := h i hi
      rw [hrest i hi hc] at hx
      cases hx
    have hlast := (hcovers _).1 (hall (s.p_memsz - 1) (by omega))
    refine ⟨by omega, fun i hi => ?_⟩
    obtain ⟨x, hx, hbyte, -⟩ := h i hi
    obtain ⟨x', hx', hbyte', -⟩ := hseen i hi (hall i hi)
    rw [hx] at hx'
    cases hx'
    rw [← hbyte', hbyte, segmentByte_eq]
  · intro h i hi
    have hpages := h.pages
    obtain ⟨x, hx, hbyte, hc⟩ := hseen i hi ((hcovers i).2 (by omega))
    refine ⟨x, hx, ?_, hc⟩
    rw [hbyte, h.bytes i hi, segmentByte_eq]

lemma mapExec_cases {bin ei_c phstart phnum phsize : ℕ}
    (h : mapExec image kvmem t ram bin ei_c phstart phnum phsize a = some r) :
    r.status = ERR_OOMEM ∧ r.memory = t ∨
      r.status = OK ∧ r.destroyed = some t ∧
        ∃ region, mapSegments image bin ei_c phsize phnum phstart a.sections
          ⟨region, ⟨createVmem kvmem, t.vmem.low⟩⟩ ram = some (r.memory, r.ram, OK) := by
  rw [mapExec] at h
  split_ifs at h with htop
  · cases h
    exact .inl ⟨rfl, rfl⟩
  simp only [Option.bind_eq_bind, Option.bind_eq_some_iff, Prod.exists] at h
  obtain ⟨region, ret, -, h⟩ := h
  split_ifs at h with hret
  · cases h
    exact .inl ⟨rfl, rfl⟩
  simp only [Option.bind_eq_some_iff, Prod.exists] at h
  obtain ⟨u, ram', ret', hmap, h⟩ := h
  split_ifs at h with hret'
  · cases h
    exact .inl ⟨rfl, rfl⟩
  · cases h
    rw [ne_eq, not_not] at hret'
    rw [hret'] at hmap
    exact .inr ⟨rfl, rfl, region, hmap⟩

lemma loadElf_some (h : loadElf image kvmem t ram elf a = some (r, entry)) (hentry : entry ≠ 0) :
    ∃ region, mapSegments image elf (field image (elf + 4) 1)
      (elfHeader (field image (elf + 4) 1) image elf).e_phentsize
      (elfHeader (field image (elf + 4) 1) image elf).e_phnum
      ((elf + (elfHeader (field image (elf + 4) 1) image elf).e_phoff) % 2 ^ 64) a.sections
      ⟨region, ⟨createVmem kvmem, t.vmem.low⟩⟩ ram = some (r.memory, r.ram, OK) := by
  have hfail : ∀ x : Exec, some (x, 0) ≠ some (r, entry) := by
    rintro x hx
    cases hx
    exact hentry rfl
  rw [loadElf] at h
  split_ifs at h with hmagic hclass
  · exact absurd h (hfail _)
  · exact absurd h (hfail _)
  rw [prepareProc] at h
  split_ifs at h with htype
  · simp only [prepareExec, Option.bind_eq_bind, Option.bind_eq_some_iff] at h
    obtain ⟨x, hexec, h⟩ := h
    split_ifs at h with hstatus
    · exact absurd h (hfail _)
    · cases h
      obtain ⟨herr, -⟩ | ⟨-, -, hmap⟩ := mapExec_cases hexec
      · rw [herr] at hstatus
        exact absurd (by decide) hstatus
      · exact hmap
  · exact absurd h (hfail _)

theorem loadElf_image_iff (hlaid : WellLaid (segments image elf)) (hfresh : Fresh kvmem t a)
    (h : loadElf image kvmem t ram elf a = some (r, entry)) (hentry : entry ≠ 0) :
    (∀ s ∈ segments image elf, Built image elf r.memory.vmem r.ram s) ↔
      ∀ s ∈ segments image elf, InPlace image elf s := by
  obtain ⟨region, hmap⟩ := loadElf_some h hentry
  have hshows := mapSegments_spec hfresh.loading hlaid hmap
  refine forall₂_congr fun s hs => ?_
  have hend := (hlaid.arena s hs).2
  refine built_iff (hlaid.size s hs).1 hend (hshows.new s hs) fun i hi hc => ?_
  have hnone : ∀ s' ∈ segments image elf, ¬ Covers s' (s.p_vaddr + i) := by
    intro s' hs' hc'
    by_cases heq : s = s'
    · exact hc (heq ▸ hc')
    · obtain ⟨j, hj, hpage⟩ := hc'.touched
      exact hlaid.apart.forall hs hs' heq i hi j hj hpage.symm
  have hview := hshows.rest (s.p_vaddr + i) (by omega) hnone
  rw [view, view, createVmem_stat (show s.p_vaddr + i < UVMEM_END by omega), Option.map_none,
    Option.map_eq_none_iff] at hview
  exact hview

def smallFile (low : UInt8) : List UInt8 :=
  [0x7f, 0x45, 0x4c, 0x46, 2, 1, 1, 0, 0, 0, 0, 0, 0, 0, 0, 0] ++ [2, 0, 0xf3, 0, 1, 0, 0, 0] ++
    [0, 0, 2, 0, 0, 0, 0, 0] ++ [64, 0, 0, 0, 0, 0, 0, 0] ++ [0, 0, 0, 0, 0, 0, 0, 0] ++
    [0, 0, 0, 0, 64, 0, 56, 0, 1, 0, 0, 0, 0, 0, 0, 0] ++
    [1, 0, 0, 0, 5, 0, 0, 0] ++ [120, 0, 0, 0, 0, 0, 0, 0] ++ [low, 0, 2, 0, 0, 0, 0, 0] ++
    [0, 0, 0, 0, 0, 0, 0, 0] ++ [4, 0, 0, 0, 0, 0, 0, 0] ++ [8, 0, 0, 0, 0, 0, 0, 0] ++
    [0, 16, 0, 0, 0, 0, 0, 0] ++ [1, 2, 3, 4]

def smallImage (low : UInt8) : Bytes := fun x => (smallFile low).getD (x - 0x40000) 0

def smallAnswers : ExecAnswers :=
  ⟨true, some 2, [⟨some 3, some 4, [⟨0xffffffc080601000, [0xffffffc080602000, 0xffffffc080603000]⟩]⟩]⟩

lemma smallAnswers_fresh : Fresh 0 freshProcess.memory smallAnswers :=
  ⟨fun _ => rfl, createVmem_fresh (fun _ => rfl) (by decide) (by decide) (by decide)⟩

lemma wellLaid_singleton (hsize : 0 < s.p_memsz ∧ s.p_filesz ≤ s.p_memsz)
    (harena : 4096 ≤ s.p_vaddr ∧ s.p_vaddr + s.p_memsz ≤ UVMEM_END) : WellLaid [s] := by
  refine ⟨fun s' hs => ?_, fun s' hs => ?_, List.pairwise_singleton _ _⟩
  · obtain rfl := List.mem_singleton.1 hs
    exact hsize
  · obtain rfl := List.mem_singleton.1 hs
    exact harena

theorem loadElf_image_iff_small :
    ∃ r, loadElf (smallImage 0) 0 freshProcess.memory (fun _ => 7) 0x40000 smallAnswers = some (r, 0x20000) ∧
      ∀ s ∈ segments (smallImage 0) 0x40000, Built (smallImage 0) 0x40000 r.memory.vmem r.ram s := by
  have hret : (loadElf (smallImage 0) 0 freshProcess.memory (fun _ => 7) 0x40000 smallAnswers).map
      Prod.snd = some 0x20000 := by
    decide +kernel
  rw [Option.map_eq_some_iff] at hret
  obtain ⟨⟨r, entry⟩, h, rfl⟩ := hret
  have hsegs : segments (smallImage 0) 0x40000 = [⟨1, 5, 120, 0x20000, 4, 8⟩] := by decide +kernel
  have hlaid : WellLaid (segments (smallImage 0) 0x40000) := by
    rw [hsegs]
    exact wellLaid_singleton (by decide) (by decide)
  refine ⟨r, h, (loadElf_image_iff hlaid smallAnswers_fresh h (by decide)).2 fun s hs => ?_⟩
  rw [hsegs] at hs
  obtain rfl := List.mem_singleton.1 hs
  exact .of_aligned rfl

/-- The same file for an address in the middle of a page, the one that its place in the file
has in its page: the load succeeds, and where the first byte should be there is a zero. -/
theorem unaligned_segment_misplaced :
    WellLaid (segments (smallImage 120) 0x40000) ∧ Fresh 0 freshProcess.memory smallAnswers ∧
    ∃ r, loadElf (smallImage 120) 0 freshProcess.memory (fun _ => 7) 0x40000 smallAnswers =
        some (r, 0x20000) ∧
      ¬ ∀ s ∈ segments (smallImage 120) 0x40000, Built (smallImage 120) 0x40000 r.memory.vmem r.ram s := by
  have hret : (loadElf (smallImage 120) 0 freshProcess.memory (fun _ => 7) 0x40000 smallAnswers).map
      (fun r => (r.2, view r.1.memory.vmem r.1.ram 0x20078)) = some (0x20000, some (0, 219)) := by
    decide +kernel
  rw [Option.map_eq_some_iff] at hret
  obtain ⟨⟨r, entry⟩, h, hview⟩ := hret
  rw [Prod.mk.injEq] at hview
  obtain ⟨rfl, hview⟩ := hview
  have hsegs : segments (smallImage 120) 0x40000 = [⟨1, 5, 120, 0x20078, 4, 8⟩] := by decide +kernel
  refine ⟨?_, smallAnswers_fresh, r, h, fun hbuilt => ?_⟩
  · rw [hsegs]
    exact wellLaid_singleton (by decide) (by decide)
  · rw [hsegs] at hbuilt
    obtain ⟨x, hx, hbyte, -⟩ := hbuilt _ (List.mem_singleton_self _) 0 (by decide)
    rw [view, Option.map_eq_some_iff] at hview
    obtain ⟨x', hx', hzero⟩ := hview
    rw [Nat.add_zero, hx'] at hx
    cases hx
    rw [Prod.mk.injEq] at hzero
    rw [Nat.add_zero, hzero.1] at hbyte
    revert hbyte
    decide +kernel

end Kmi.Elf
