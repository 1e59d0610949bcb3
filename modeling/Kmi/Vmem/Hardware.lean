import Kmi.Vmem.Levels
import Kmi.Vmem.Threads

/-! The hardware tells tables from pages by fewer bits than the kernel does. Here its
walk is compared with `__find_vmem` over the runs of the memory calls of all
processes, page by page. -/

namespace Kmi.Vmem

open Kmi.Mem

def accessBits : ℕ := VM_R ||| VM_W ||| VM_X

def hwPointer (pte : ℕ) : Bool := isActive pte && pteFlags pte &&& accessBits = 0

def hwLeaf (pte : ℕ) : Bool := isActive pte && pteFlags pte &&& (VM_R ||| VM_X) ≠ 0

inductive HwWalks (m : Space) (v : ℕ) : ℕ → Option ℕ → Prop
  | top : HwWalks m v maxOrder none
  | down {o : ℕ} {b : Option ℕ} : HwWalks m v (o + 1) b →
      hwPointer (m.leaf b (vmToIndex v (o + 1))) = true →
      HwWalks m v o (some (pteAddr (m.leaf b (vmToIndex v (o + 1)))))

structure Memory where
  low : ℕ → Table
  proc : ℕ → Option Table
  level : ℕ → Option ℕ

inductive MemoryEvent where
  | create (pid kvmem : ℕ)
  | page (pid : ℕ) (c : PageCall)
  -- a process writes to a page that is not a table
  | write (a : ℕ) (data : Table)

def Memory.step (s : Memory) : MemoryEvent → Option Memory
  | .create pid kvmem =>
    if (s.proc pid).isNone then
      some { s with proc := Function.update s.proc pid (some (createVmem kvmem)) }
    else none
  | .page pid c => do
    let root ← s.proc pid
    let m := c.run ⟨root, s.low⟩
    let tables := match c with
      | .map _ vaddr _ order pages =>
        mapTables vaddr (maxOrder - order) maxOrder none pages ⟨root, s.low⟩
      | .unmap _ => []
    some ⟨m.low, Function.update s.proc pid (some m.root), addLevels s.level tables⟩
  | .write a data =>
    if (s.level a).isNone then some { s with low := Function.update s.low a data } else none

def Memory.Proper (s : Memory) : MemoryEvent → Prop
  | .page _ (.map _ vaddr flags order pages) =>
    vaddr < 2 ^ 38 ∧ order ≤ maxOrder ∧ flags &&& VM_V ≠ 0 ∧ NewTables s.level pages
  | .page _ (.unmap vaddr) => vaddr < 2 ^ 38
  | _ => True

def Memory.Distinct (s : Memory) : MemoryEvent → Prop
  | .page pid (.map _ vaddr flags order _) =>
    (0 < order → flags &&& accessBits ≠ 0) ∧
      ∀ root, s.proc pid = some root → ∀ x, statVpage ⟨root, s.low⟩ vaddr = some x → x.order ≤ order
  | _ => True

inductive Memory.RunsWith (cond : Memory → MemoryEvent → Prop) : Memory → Prop
  | init (low : ℕ → Table) : RunsWith cond ⟨low, fun _ => none, fun _ => none⟩
  | step {s s' : Memory} (e : MemoryEvent) : RunsWith cond s → s.Proper e → cond s e →
      s.step e = some s' → RunsWith cond s'

def EntryOk (level : ℕ → Option ℕ) (o pte : ℕ) : Prop :=
  unused pte = true ∨ (isLeaf pte = true ∧ (0 < o → pteFlags pte &&& accessBits ≠ 0)) ∨
    ∃ a o', o = o' + 1 ∧ level a = some o' ∧ a < 2 ^ 64 ∧ a % 4096 = 0 ∧ pte = toPte (pa a) VM_V

structure Typed (level : ℕ → Option ℕ) (m : Space) : Prop where
  root : ∀ i < KSTART_PAGE, EntryOk level maxOrder (m.root i)
  low : ∀ a o, level a = some o → ∀ i, EntryOk level o (m.low a i)

variable {m : Space} {level level' : ℕ → Option ℕ} {v o i a vaddr order left pte : ℕ} {b : Option ℕ}
  {pages : Pages} {s s' : Memory}

lemma EntryOk.mono (h : EntryOk level o pte) (hle : ∀ a o, level a = some o → level' a = some o) :
    EntryOk level' o pte := by
  obtain h | h | ⟨a, o', ho, ha, hrest⟩ := h
  · exact .inl h
  · exact .inr (.inl h)
  · exact .inr (.inr ⟨a, o', ho, hle a o' ha, hrest⟩)

lemma user_index (hv : v < 2 ^ 38) : vmToIndex v maxOrder < KSTART_PAGE := by
  rw [vmToIndex, show orderShift maxOrder = 30 from rfl, Nat.shiftRight_eq_div_pow, KSTART_PAGE]
  omega

def Accessible (o pte : ℕ) : Prop := 0 < o → pteFlags pte &&& accessBits ≠ 0

lemma Typed.levelled (h : Typed level m) : Levelled Accessible (· < KSTART_PAGE) level m := ⟨h.root, h.low⟩

lemma Typed.of_levelled (h : Levelled Accessible (· < KSTART_PAGE) level m) : Typed level m :=
  ⟨h.root, h.low⟩

lemma page_accessible {paddr flags : ℕ} (hV : flags &&& VM_V ≠ 0)
    (hacc : 0 < order → flags &&& accessBits ≠ 0) :
    Accessible order (toPte (pa paddr) (vpFlags (flags ||| (VM_A ||| VM_D)))) := by
  intro ho
  have hkeep : ∀ f < 256, f &&& accessBits ≠ 0 → (f ||| (VM_A ||| VM_D)) &&& accessBits ≠ 0 := by
    decide +kernel
  rw [(@mapped_isLeaf paddr flags hV).2]
  apply hkeep _ (Nat.and_le_right.trans_lt (by decide))
  rw [Nat.and_assoc, show 0xff &&& accessBits = accessBits from rfl]
  exact hacc ho

lemma mapVpage_typed {paddr flags : ℕ} (h : Typed level m) (hv : vaddr < 2 ^ 38) (ho : order ≤ maxOrder)
    (hV : flags &&& VM_V ≠ 0) (hp : NewTables level pages) (hacc : 0 < order → flags &&& accessBits ≠ 0)
    (hclear : ∀ x, statVpage m vaddr = some x → x.order ≤ order) :
    Typed (addLevels level (mapTables vaddr (maxOrder - order) maxOrder none pages m))
        (mapVpage m paddr vaddr flags order pages).1 ∧
      ∀ a o, level a = some o →
        addLevels level (mapTables vaddr (maxOrder - order) maxOrder none pages m) a = some o := by
  have hr := @mapVpage_levelled _ _ m level vaddr order pages paddr flags h.levelled (user_index hv) ho hp
    hV (page_accessible hV hacc) hclear
  exact ⟨.of_levelled hr.levelled, hr.mono⟩

lemma Walks.hasLevel (h : Typed level m) (hv : v < 2 ^ 38) (hw : Walks m v o b) : HasLevel level o b :=
  hw.levelled h.levelled (user_index hv)

lemma unmapVpage_typed (h : Typed level m) (hv : vaddr < 2 ^ 38) :
    Typed level (unmapVpage m vaddr).1 :=
  .of_levelled (unmapVpage_levelled h.levelled (user_index hv)).levelled

lemma HwWalks.walks (h : Typed level m) (hv : v < 2 ^ 38) (hw : HwWalks m v o b) : Walks m v o b := by
  induction hw with
  | top => exact .top
  | @down o b _ hp ih =>
    rw [hwPointer, Bool.and_eq_true, decide_eq_true_eq] at hp
    obtain he | ⟨he, hacc⟩ | ⟨a, o', ho, -, -, -, he⟩ := h.levelled.entry (ih.hasLevel h hv) (user_index hv)
    · rw [unused_iff] at he
      obtain he | he := he <;> rw [he] at hp <;> exact absurd hp.1 (by decide)
    · exact absurd hp.2 (hacc (Nat.succ_pos o))
    · exact ih.down (by rw [he]; exact branch_stops _)

structure Memory.Typed (s : Memory) : Prop where
  root : ∀ pid root, s.proc pid = some root → ∀ i < KSTART_PAGE, EntryOk s.level maxOrder (root i)
  low : ∀ a o, s.level a = some o → ∀ i, EntryOk s.level o (s.low a i)

lemma Memory.Typed.space {pid : ℕ} {root : Table} (h : s.Typed) (hp : s.proc pid = some root) :
    Vmem.Typed s.level ⟨root, s.low⟩ :=
  ⟨h.root pid root hp, h.low⟩

lemma Memory.Typed.setSpace {pid : ℕ} (h : s.Typed) (hm : Vmem.Typed level m)
    (hmono : ∀ a o, s.level a = some o → level a = some o) :
    Memory.Typed ⟨m.low, Function.update s.proc pid (some m.root), level⟩ := by
  refine ⟨fun pid' root hr i hi => ?_, hm.low⟩
  by_cases hp : pid' = pid
  · simp only [hp, Function.update_self, Option.some.injEq] at hr
    exact hr ▸ hm.root i hi
  · simp only [Function.update_of_ne hp] at hr
    exact (h.root pid' root hr i hi).mono hmono

lemma Memory.Typed.step {e : MemoryEvent} (h : s.Typed) (hproper : s.Proper e) (hd : s.Distinct e)
    (hs : s.step e = some s') : s'.Typed := by
  cases e with
  | create pid kvmem =>
    simp only [Memory.step] at hs
    split_ifs at hs
    obtain rfl := Option.some.inj hs
    refine ⟨fun pid' root hr i hi => ?_, h.low⟩
    by_cases hp : pid' = pid
    · simp only [hp, Function.update_self, Option.some.injEq] at hr
      rw [← hr, createVmem, if_pos hi]
      exact .inl rfl
    · simp only [Function.update_of_ne hp] at hr
      exact h.root pid' root hr i hi
  | page pid c =>
    cases hr : s.proc pid with
    | none => simp [Memory.step, hr] at hs
    | some root =>
      simp only [Memory.step, hr, Option.bind_eq_bind, Option.bind_some, Option.some.injEq] at hs
      obtain rfl := hs
      cases c with
      | map paddr vaddr flags order pages =>
        obtain ⟨hv, ho, hV, hp⟩ := hproper
        obtain ⟨hacc, hclear⟩ := hd
        obtain ⟨hm, hmono⟩ := @mapVpage_typed ⟨root, s.low⟩ s.level vaddr order pages paddr flags
          (h.space hr) hv ho hV hp hacc (hclear root hr)
        exact h.setSpace hm hmono
      | unmap vaddr =>
        exact h.setSpace (unmapVpage_typed (h.space hr) hproper) fun _ _ h => h
  | write a data =>
    simp only [Memory.step] at hs
    split_ifs at hs with ha
    obtain rfl := Option.some.inj hs
    refine ⟨h.root, fun a' o ha' i => ?_⟩
    have hne : a' ≠ a := by
      rintro rfl
      simp only at ha'
      rw [ha'] at ha
      cases ha
    simp only [Function.update_of_ne hne]
    exact h.low a' o ha' i

lemma Memory.RunsWith.typed (h : Memory.RunsWith Memory.Distinct s) : s.Typed := by
  induction h with
  | init low => exact ⟨fun _ _ h => (by cases h), fun _ _ h => (by cases h)⟩
  | step e _ hproper hd hs ih => exact ih.step hproper hd hs

theorem run_hardware_walk {pid : ℕ} {root : Table} (h : Memory.RunsWith Memory.Distinct s)
    (hp : s.proc pid = some root) (hv : v < 2 ^ 38) :
    (∀ o a, HwWalks ⟨root, s.low⟩ v o (some a) → s.level a = some o) ∧
      ∀ o b, HwWalks ⟨root, s.low⟩ v o b →
        hwLeaf ((⟨root, s.low⟩ : Space).leaf b (vmToIndex v o)) = true →
        findVmem ⟨root, s.low⟩ v maxOrder none = some (b, vmToIndex v o, o) := by
  have ht := h.typed.space hp
  refine ⟨fun o a hw => (hw.walks ht hv).hasLevel ht hv, fun o b hw hl => ?_⟩
  have hk := hw.walks ht hv
  rw [hwLeaf, Bool.and_eq_true, decide_eq_true_eq] at hl
  have hleaf : unused ((⟨root, s.low⟩ : Space).leaf b (vmToIndex v o)) = false ∧
      isLeaf ((⟨root, s.low⟩ : Space).leaf b (vmToIndex v o)) = true := by
    have hflags : ∀ f < 256, f &&& VM_V ≠ 0 → f &&& (VM_R ||| VM_X) ≠ 0 → f % 2 = 1 ∧ f ≠ 1 := by
      decide +kernel
    have hactive : pteFlags ((⟨root, s.low⟩ : Space).leaf b (vmToIndex v o)) &&& VM_V ≠ 0 := by
      simpa [isActive] using hl.1
    rw [pteFlags_eq] at hl hactive
    have := hflags _ (Nat.mod_lt _ (by decide)) hactive hl.2
    rw [← Bool.not_eq_true, unused_iff, isLeaf_iff]
    omega
  rw [hk.findVmem]
  cases o with
  | zero => rw [findVmem, if_neg (by rw [hleaf.1]; decide), if_pos hleaf.2]
  | succ o => rw [findVmem, if_neg (by rw [hleaf.1]; decide), if_pos hleaf.2]

def emptyMemory : Memory := ⟨fun _ _ => 0, fun _ => none, fun _ => none⟩

def largePage (flags : ℕ) : MemoryEvent :=
  .page 1 (.map 0xffffffc000200000 0x200000 (sanitizeUvflags flags) 1 [0xffffffc000001000])

def largePageMemory (flags : ℕ) : Memory :=
  ((emptyMemory.step (.create 1 0)).bind (·.step (largePage flags))).getD emptyMemory

lemma largePageMemory_runs {flags : ℕ} (cond : Memory → MemoryEvent → Prop)
    (hV : sanitizeUvflags flags &&& VM_V ≠ 0) (hc : ∀ s, cond s (.create 1 0))
    (hm : cond { emptyMemory with proc := Function.update emptyMemory.proc 1 (some (createVmem 0)) }
      (largePage flags)) : Memory.RunsWith cond (largePageMemory flags) := by
  refine .step (largePage flags) (.step (.create 1 0) (.init fun _ _ => 0) trivial (hc _) rfl) ?_ hm rfl
  refine ⟨by decide, by decide, hV, ?_, ?_, ?_⟩
  · decide
  · decide
  · exact fun _ _ _ => rfl

def largePageSpace (flags : ℕ) : Space :=
  ⟨((largePageMemory flags).proc 1).getD (createVmem 0), (largePageMemory flags).low⟩

theorem run_hardware_walk_large_page :
    HwWalks (largePageSpace VM_R) 0x200000 1 (some 0xffffffc000001000) ∧
      findVmem (largePageSpace VM_R) 0x200000 maxOrder none = some (some 0xffffffc000001000, 1, 1) := by
  have hrun : Memory.RunsWith Memory.Distinct (largePageMemory VM_R) := by
    apply largePageMemory_runs _ (by decide) (fun _ => trivial)
    refine ⟨by decide, fun root hr x hx => ?_⟩
    obtain rfl := Option.some.inj hr
    have hnone : statVpage ⟨createVmem 0, fun _ _ => 0⟩ 0x200000 = none := by decide +kernel
    cases hnone.symm.trans hx
  have hw : HwWalks (largePageSpace VM_R) 0x200000 1 (some 0xffffffc000001000) :=
    @HwWalks.down (largePageSpace VM_R) 0x200000 1 none .top (by decide +kernel)
  have hroot : (largePageMemory VM_R).proc 1 = some (largePageSpace VM_R).root := rfl
  exact ⟨hw, (run_hardware_walk hrun hroot (by decide)).2 1 _ hw (by decide +kernel)⟩

theorem page_walked_as_table :
    Memory.RunsWith (fun _ _ => True) (largePageMemory 0) ∧
      (largePageMemory 0).proc 1 = some (largePageSpace 0).root ∧
      HwWalks (largePageSpace 0) 0x200000 0 (some 0xffffffc000200000) ∧
      (largePageMemory 0).level 0xffffffc000200000 = none := by
  refine ⟨largePageMemory_runs _ (by decide) (fun _ => trivial) trivial, rfl, ?_, by decide +kernel⟩
  have hw : HwWalks (largePageSpace 0) 0x200000 1 (some 0xffffffc000001000) :=
    @HwWalks.down (largePageSpace 0) 0x200000 1 none .top (by decide +kernel)
  exact @HwWalks.down (largePageSpace 0) 0x200000 0 (some 0xffffffc000001000) hw (by decide +kernel)

end Kmi.Vmem
