import Kmi.Vmem.Hardware
import Kmi.Vmem.TablesHeld

/-! The upper half of an address space belongs to the kernel: the direct map, and behind it
the kernel where it was loaded. No call of a process changes it. -/

namespace Kmi.Vmem

open Kmi.Mem

def VM_KERNEL : ℕ := 0xffffffff80000000

def IO_PAGE : ℕ := 511

def VM_IO : ℕ := 2 ^ 64 - (512 - IO_PAGE) * TOP_PAGE_SIZE

def hwPage (user : Bool) (v o pte : ℕ) : Option ℕ :=
  -- a page that is not aligned to its size is a fault
  if ptePaddr pte % orderSize o ≠ 0 then none
  else if user && pteFlags pte &&& VM_U = 0 then none
  else some (ptePaddr pte + v % orderSize o)

def hwWalk (m : Space) (user : Bool) (v : ℕ) : ℕ → Option ℕ → Option ℕ
  | 0, b =>
    let pte := m.leaf b (vmToIndex v 0)
    if hwLeaf pte then hwPage user v 0 pte else none
  | o + 1, b =>
    let pte := m.leaf b (vmToIndex v (o + 1))
    if hwLeaf pte then hwPage user v (o + 1) pte
    else if hwPointer pte then hwWalk m user v o (some (pteAddr pte))
    else none

def hwAddress (m : Space) (user : Bool) (v : ℕ) : Option ℕ :=
  if v < 2 ^ 38 ∨ 2 ^ 64 - 2 ^ 38 ≤ v then hwWalk m user v maxOrder none else none

def kernelFlags : ℕ := VM_V ||| VM_R ||| VM_W ||| VM_X ||| VM_G ||| VM_D ||| VM_A

def kvmemTable (loadAddr : ℕ) : Table :=
  Function.update (fun _ => 0) 0 (toPte loadAddr kernelFlags)

def kernelPage (kvmem : ℕ) : ℕ := pteAddr (toPte kvmem VM_V)

def bootVmem (kvmem : ℕ) : Table := fun i =>
  if i < CSTACK_PAGE then toPte (TOP_PAGE_SIZE * i) kernelFlags else createVmem kvmem i

def kernelAddress (loadAddr v : ℕ) : Option ℕ :=
  if VM_DMAP ≤ v ∧ v < VM_KERNEL then some (v - VM_DMAP)
  else if VM_KERNEL ≤ v ∧ v < VM_KERNEL + orderSize 1 then some (loadAddr + (v - VM_KERNEL))
  else none

def MachineEvent.pages : MachineEvent → Pages
  | .call (.page _ (.map _ _ _ _ pages)) => pages
  | .call (.exec _ image) => image.sections.flatMap Mapping.pages
  | .call (.create _ _ _ pages) => pages
  | .call (.createProc _ _ pages) => pages
  | _ => []

inductive KernelRuns (loadAddr : ℕ) : Machine → Prop
  | boot (kvmem : ℕ) (low : ℕ → Table) : low (kernelPage kvmem) = kvmemTable loadAddr →
      KernelRuns loadAddr (initMachine kvmem low)
  | step {x x' : Machine} (e : MachineEvent) : KernelRuns loadAddr x → x.Proper e → x.Careful e →
      kernelPage x.sys.kvmem ∉ e.pages → x.step e = some x' → KernelRuns loadAddr x'

variable {s s' : System} {x x' : Machine} {t t' : Tcb} {tid pid : ℕ} {m m' : Space} {b : Option ℕ}
  {owner : ℕ → Option Holder} {holder : Holder} {R : ℕ → Prop} {root proc : Table} {low : ℕ → Table}
  {a f i o p v kvmem loadAddr order : ℕ} {pages : Pages} {user : Bool}

lemma VM_IO_lt : VM_IO < 2 ^ 64 := by decide

section Walk

lemma hwWalk_leaf (hl : hwLeaf (m.leaf b (vmToIndex v o)) = true) :
    hwWalk m user v o b = hwPage user v o (m.leaf b (vmToIndex v o)) := by
  cases o with
  | zero => exact if_pos hl
  | succ o => exact if_pos hl

lemma hwWalk_pointer (hl : hwLeaf (m.leaf b (vmToIndex v (o + 1))) = false)
    (hp : hwPointer (m.leaf b (vmToIndex v (o + 1))) = true) :
    hwWalk m user v (o + 1) b = hwWalk m user v o (some (pteAddr (m.leaf b (vmToIndex v (o + 1))))) := by
  rw [hwWalk, hl, hp]
  rfl

lemma hwWalk_zero (hz : m.leaf b (vmToIndex v o) = 0) : hwWalk m user v o b = none := by
  cases o with
  | zero =>
    rw [hwWalk, hz]
    rfl
  | succ o =>
    rw [hwWalk, hz]
    rfl

lemma ptePaddr_toPte (hf : f < 2 ^ 10) (hp : p < 2 ^ 64) (hal : p % 4096 = 0) : ptePaddr (toPte p f) = p := by
  rw [ptePaddr, ptePpn, toPte_eq hf, Nat.shiftRight_eq_div_pow, Nat.shiftLeft_eq]
  omega

lemma hwWalk_kernel (hpte : m.leaf b (vmToIndex v o) = toPte p kernelFlags) (hp : p < 2 ^ 64)
    (hal : p % 4096 = 0) (hsize : p % orderSize o = 0) :
    hwWalk m user v o b = if user then none else some (p + v % orderSize o) := by
  have hflags : pteFlags (toPte p kernelFlags) = kernelFlags := pteFlags_toPte (by decide)
  have hleaf : hwLeaf (m.leaf b (vmToIndex v o)) = true := by
    rw [hpte, hwLeaf, isActive, hflags]
    rfl
  rw [hwWalk_leaf hleaf, hpte, hwPage, hflags, ptePaddr_toPte (by decide) hp hal, if_neg (not_not.2 hsize)]
  cases user with
  | true => rfl
  | false => rfl

lemma kernel_index (p : ℕ) (hp : p < 2 ^ 38) : vmToIndex (VM_DMAP + p) maxOrder = KSTART_PAGE + p / TOP_PAGE_SIZE := by
  rw [vmToIndex, show orderShift maxOrder = 30 from rfl, Nat.shiftRight_eq_div_pow, VM_DMAP, KSTART_PAGE, TOP_PAGE_SIZE]
  omega

end Walk

def KernelHalf (kvmem : ℕ) (root : Table) : Prop := ∀ i, KSTART_PAGE ≤ i → root i = createVmem kvmem i

lemma createVmem_dmap (h : i < KERNEL_PAGE - KSTART_PAGE) :
    createVmem kvmem (KSTART_PAGE + i) = toPte (TOP_PAGE_SIZE * i) kernelFlags := by
  rw [KERNEL_PAGE, KSTART_PAGE] at h
  rw [createVmem, KSTART_PAGE, KERNEL_PAGE, if_neg (by omega), if_pos (by omega), Nat.add_sub_cancel_left]
  rfl

lemma kernelAddress_dmap (h : p / TOP_PAGE_SIZE < KERNEL_PAGE - KSTART_PAGE) :
    kernelAddress loadAddr (VM_DMAP + p) = some p := by
  rw [TOP_PAGE_SIZE, KERNEL_PAGE, KSTART_PAGE] at h
  rw [kernelAddress, if_pos, Nat.add_sub_cancel_left]
  rw [VM_DMAP, VM_KERNEL]
  omega

lemma kernelAddress_kernel (hv : VM_KERNEL ≤ v) (hv' : v < VM_KERNEL + orderSize 1) :
    kernelAddress loadAddr v = some (loadAddr + (v - VM_KERNEL)) := by
  rw [kernelAddress, if_neg, if_pos ⟨hv, hv'⟩]
  exact fun h => absurd h.2 (not_lt.2 hv)

lemma kernelAddress_none (h : v < VM_DMAP ∨ VM_KERNEL + orderSize 1 ≤ v) : kernelAddress loadAddr v = none := by
  have hlt : VM_DMAP < VM_KERNEL := by decide
  rw [kernelAddress, if_neg, if_neg]
  · omega
  · omega

lemma hwWalk_kvmemTable (hk : m.low (kernelPage kvmem) = kvmemTable loadAddr)
    (hal : loadAddr % orderSize 1 = 0) (hload : loadAddr < 2 ^ 64) (hv : VM_KERNEL ≤ v)
    (hv' : v < VM_KERNEL + TOP_PAGE_SIZE) :
    hwWalk m user v 1 (some (kernelPage kvmem)) = if user then none else kernelAddress loadAddr v := by
  have hsize : orderSize 1 = 2 ^ 21 := rfl
  have hleaf : m.leaf (some (kernelPage kvmem)) (vmToIndex v 1) = kvmemTable loadAddr (vmToIndex v 1) :=
    congrFun hk _
  have hidx : vmToIndex v 1 = (v - VM_KERNEL) / 2 ^ 21 := by
    rw [vmToIndex, show orderShift 1 = 21 from rfl, Nat.shiftRight_eq_div_pow]
    rw [VM_KERNEL, TOP_PAGE_SIZE] at *
    omega
  by_cases hlt : v < VM_KERNEL + 2 ^ 21
  · have hzero : vmToIndex v 1 = 0 := by
      rw [hidx]
      apply Nat.div_eq_of_lt
      omega
    rw [hzero, kvmemTable, Function.update_self, ← hzero] at hleaf
    rw [hwWalk_kernel hleaf hload (by rw [hsize] at hal; omega) hal, kernelAddress_kernel hv hlt, hsize,
      show v % 2 ^ 21 = v - VM_KERNEL by rw [VM_KERNEL] at *; omega]
  · have hne : vmToIndex v 1 ≠ 0 := by
      rw [hidx]
      omega
    rw [kvmemTable, Function.update_of_ne hne] at hleaf
    rw [hwWalk_zero hleaf, kernelAddress_none (.inr (not_lt.1 hlt)), ite_self]

lemma KernelHalf.walk (h : KernelHalf kvmem root) (hk : low (kernelPage kvmem) = kvmemTable loadAddr)
    (hal : loadAddr % orderSize 1 = 0) (hload : loadAddr < 2 ^ 64) (hp : p < 2 ^ 38) :
    hwWalk ⟨root, low⟩ user (VM_DMAP + p) maxOrder none =
      if user then none else kernelAddress loadAddr (VM_DMAP + p) := by
  have hidx := kernel_index p hp
  have hentry : (⟨root, low⟩ : Space).leaf none (vmToIndex (VM_DMAP + p) maxOrder) =
      createVmem kvmem (KSTART_PAGE + p / TOP_PAGE_SIZE) := by
    rw [← hidx]
    apply h
    rw [hidx]
    exact Nat.le_add_right _ _
  obtain hdmap | hkernel | hlast := lt_trichotomy (p / TOP_PAGE_SIZE) (KERNEL_PAGE - KSTART_PAGE)
  · rw [createVmem_dmap hdmap] at hentry
    rw [TOP_PAGE_SIZE] at hentry
    rw [hwWalk_kernel hentry (by omega) (by omega) (Nat.mul_mod_right _ _), kernelAddress_dmap hdmap,
      show orderSize maxOrder = 2 ^ 30 from rfl,
      show (VM_DMAP + p) % 2 ^ 30 = p % 2 ^ 30 by rw [VM_DMAP]; omega, Nat.div_add_mod]
  · rw [hkernel, show createVmem kvmem (KSTART_PAGE + (KERNEL_PAGE - KSTART_PAGE)) = toPte kvmem VM_V from rfl] at hentry
    have hflags : pteFlags (toPte kvmem VM_V) = VM_V := pteFlags_toPte (by decide)
    have hleaf : hwLeaf (toPte kvmem VM_V) = false := by
      rw [hwLeaf, hflags]
      exact Bool.and_false _
    have hpointer : hwPointer (toPte kvmem VM_V) = true := by
      rw [hwPointer, isActive, hflags]
      rfl
    have hnext := @hwWalk_pointer ⟨root, low⟩ none 1 (VM_DMAP + p) user ((congrArg hwLeaf hentry).trans hleaf)
      ((congrArg hwPointer hentry).trans hpointer)
    rw [TOP_PAGE_SIZE, KERNEL_PAGE, KSTART_PAGE] at hkernel
    rw [show maxOrder = 1 + 1 from rfl] at hentry
    rw [show maxOrder = 1 + 1 from rfl, hnext, hentry]
    apply hwWalk_kvmemTable hk hal hload
    · rw [VM_KERNEL, VM_DMAP]
      omega
    · rw [VM_KERNEL, VM_DMAP, TOP_PAGE_SIZE]
      omega
  · rw [TOP_PAGE_SIZE, KERNEL_PAGE, KSTART_PAGE] at hlast
    have hzero : createVmem kvmem (KSTART_PAGE + p / TOP_PAGE_SIZE) = 0 := by
      rw [createVmem, TOP_PAGE_SIZE, KERNEL_PAGE, KSTART_PAGE, if_neg (by omega), if_neg (by omega), if_neg (by omega)]
    rw [hwWalk_zero (hentry.trans hzero), kernelAddress_none, ite_self]
    rw [VM_DMAP, VM_KERNEL, show orderSize 1 = 2 ^ 21 from rfl]
    omega

lemma KernelHalf.address (h : KernelHalf kvmem root) (hk : low (kernelPage kvmem) = kvmemTable loadAddr)
    (hal : loadAddr % orderSize 1 = 0) (hload : loadAddr < 2 ^ 64) (hv : 2 ^ 38 ≤ v) (hv' : v < 2 ^ 64) :
    hwAddress ⟨root, low⟩ user v = if user then none else kernelAddress loadAddr v := by
  by_cases hc : 2 ^ 64 - 2 ^ 38 ≤ v
  · obtain ⟨p, rfl⟩ : ∃ p, v = VM_DMAP + p := Nat.exists_eq_add_of_le hc
    have hp : p < 2 ^ 38 := by
      rw [VM_DMAP] at hv'
      omega
    rw [hwAddress, if_pos (.inr hc)]
    exact h.walk hk hal hload hp
  · rw [hwAddress, if_neg (by omega), kernelAddress_none (.inl (not_le.1 hc)), ite_self]

theorem init_mapping_address (hk : low (kernelPage kvmem) = kvmemTable loadAddr)
    (hal : loadAddr % orderSize 1 = 0) (hload : loadAddr < 2 ^ 64) (hv : v < VM_IO) :
    hwAddress ⟨bootVmem kvmem, low⟩ false v =
      if v < CSTACK_PAGE * TOP_PAGE_SIZE then some v else kernelAddress loadAddr v := by
  have hv' : v < 2 ^ 64 := hv.trans VM_IO_lt
  have hhalf : KernelHalf kvmem (bootVmem kvmem) := by
    intro i hi
    rw [bootVmem, if_neg]
    exact not_lt.2 (le_trans (by decide) hi)
  by_cases hlow : v < 2 ^ 38
  · have hidx : vmToIndex v maxOrder = v / 2 ^ 30 := by
      rw [vmToIndex, show orderShift maxOrder = 30 from rfl, Nat.shiftRight_eq_div_pow]
      omega
    rw [hwAddress, if_pos (.inl hlow), CSTACK_PAGE, TOP_PAGE_SIZE]
    by_cases hboot : v < 248 * 2 ^ 30
    · have hentry : (⟨bootVmem kvmem, low⟩ : Space).leaf none (vmToIndex v maxOrder) =
          toPte (2 ^ 30 * (v / 2 ^ 30)) kernelFlags := by
        rw [hidx]
        exact if_pos (show v / 2 ^ 30 < 248 by omega)
      rw [hwWalk_kernel hentry (by omega) (by omega) (Nat.mul_mod_right _ _), if_pos hboot,
        show orderSize maxOrder = 2 ^ 30 from rfl, Nat.div_add_mod]
      rfl
    · have hentry : (⟨bootVmem kvmem, low⟩ : Space).leaf none (vmToIndex v maxOrder) = 0 := by
        rw [hidx]
        change bootVmem kvmem (v / 2 ^ 30) = 0
        rw [bootVmem, CSTACK_PAGE, if_neg (by omega), createVmem, KSTART_PAGE, if_pos (by omega)]
      rw [hwWalk_zero hentry, if_neg hboot, kernelAddress_none]
      rw [VM_DMAP]
      omega
  · have hboot : ¬ v < CSTACK_PAGE * TOP_PAGE_SIZE := by
      rw [CSTACK_PAGE, TOP_PAGE_SIZE]
      omega
    rw [hhalf.address hk hal hload (not_lt.1 hlow) hv', if_neg hboot]
    rfl

theorem init_mapping_address_kernel :
    hwAddress ⟨bootVmem 0x80001000, fun _ => kvmemTable (2 ^ 31)⟩ false VM_KERNEL = some (2 ^ 31) :=
  (@init_mapping_address _ VM_KERNEL 0x80001000 (2 ^ 31) rfl rfl (by decide) (by decide)).trans (by decide)

section Tables

lemma mapVpage_root_above (paddr flags : ℕ) (pages : Pages) (hv : vmToIndex v maxOrder < i) (ho : order ≤ maxOrder) :
    (mapVpage m paddr v flags order pages).1.root i = m.root i := by
  have hne : i ≠ vmToIndex v maxOrder := hv.ne'
  have hwalk : (mapWalk v (maxOrder - order) maxOrder none pages m).1.root i = m.root i := by
    obtain h | ⟨-, pte, h⟩ := mapWalk_root v (maxOrder - order) maxOrder pages m
    · rw [h]
    · rw [h, Function.update_of_ne hne]
  have hbranch : ∀ b, (mapWalk v (maxOrder - order) maxOrder none pages m).2 = some b → b = none →
      order = maxOrder := by
    rintro b hb rfl
    by_contra hlt
    obtain ⟨left, hleft⟩ : ∃ left, maxOrder - order = left + 1 := Nat.exists_eq_succ_of_ne_zero (by omega)
    rw [hleft] at hb
    cases mapWalk_branch v left maxOrder pages m hb
  rw [mapVpage]
  generalize mapWalk v (maxOrder - order) maxOrder none pages m = r at hwalk hbranch
  obtain ⟨m₁, _ | branch⟩ := r
  · exact hwalk
  · dsimp only at hwalk hbranch ⊢
    split_ifs with hu
    · have hset : ∀ pte, (m₁.setLeaf branch (vmToIndex v order) pte).root i = m.root i := by
        intro pte
        obtain h | ⟨hnone, h⟩ := setLeaf_root m₁ branch (vmToIndex v order) pte
        · rw [h, hwalk]
        · rw [h, hbranch branch rfl hnone, Function.update_of_ne hne, hwalk]
      dsimp only
      rw [addGraves]
      split_ifs
      · exact hset _
      · rw [addGravesBelow_of_le _ hv.le, hset]
    · exact hwalk

lemma unmapVpage_root_above (hv : vmToIndex v maxOrder < KSTART_PAGE) (hi : KSTART_PAGE ≤ i) :
    (unmapVpage m v).1.root i = m.root i := by
  rw [unmapVpage]
  cases hf : findVmem m v maxOrder none with
  | none => rfl
  | some x =>
    obtain ⟨b, idx, o⟩ := x
    have hset : (m.setLeaf b idx GRAVESTONE).root i = m.root i := by
      obtain h | ⟨rfl, h⟩ := setLeaf_root m b idx GRAVESTONE
      · rw [h]
      · rw [h, findVmem_none_idx hf, Function.update_of_ne (by omega)]
    dsimp only
    rw [removeGraves]
    split_ifs with hc
    · exact hset
    · exact hset
    · obtain ⟨k, -, -, hk⟩ := removeGravesBelow_spec (m.setLeaf b idx GRAVESTONE).root (vmToIndex v maxOrder + 1)
      rw [hk, if_neg (by omega), hset]

lemma mapSections_root_above {xs : List Mapping} (hx : ∀ x ∈ xs, x.vaddr < UVMEM_END) (hi : KSTART_PAGE ≤ i) :
    (mapSections m xs).1.root i = m.root i := by
  induction xs generalizing m with
  | nil => rfl
  | cons x xs ih =>
    have hroot := @mapVpage_root_above m i x.vaddr 0 x.paddr x.flags x.pages
      ((user_top (hx x List.mem_cons_self)).trans_le hi) (Nat.zero_le _)
    rw [mapSections]
    generalize mapVpage m x.paddr x.vaddr x.flags 0 x.pages = r at hroot
    obtain ⟨m₁, res⟩ := r
    dsimp only at hroot ⊢
    split_ifs
    · rw [ih fun y hy => hx y (List.mem_cons_of_mem _ hy), hroot]
    · exact hroot

lemma setupRpcStack_root_above {page : ℕ} (h : setupRpcStack m page pages = some m') (hi : KSTART_PAGE ≤ i) :
    m'.root i = m.root i := by
  have hroot := @mapVpage_root_above m i RPC_STACK_BASE 0 page rpcStackFlags pages
    (vmToIndex_rpcStackBase.trans_lt (lt_of_lt_of_le (by decide) hi)) (Nat.zero_le _)
  rw [setupRpcStack] at h
  generalize mapVpage m page RPC_STACK_BASE rpcStackFlags 0 pages = r at h hroot
  obtain ⟨m₁, res⟩ := r
  dsimp only at h hroot
  split_ifs at h
  split at h
  · cases h
    exact hroot
  · cases h

end Tables

section Owners

lemma giveBack_none (ha : owner a = none) (freed : List ℕ) : giveBack owner freed a = none := by
  rw [giveBack, ha, ite_self]

lemma handOut_none {tables : List (ℕ × ℕ)} (ha : owner a = none) (hm : a ∉ tables.map Prod.fst) :
    handOut owner holder tables a = none := by
  rw [handOut, if_neg hm, ha]

lemma destroyThreadData_owner (hd : destroyThreadData x t = some x') (ha : x.owner a = none) : x'.owner a = none := by
  rw [destroyThreadData] at hd
  split_ifs at hd
  cases hproc : t.proc with
  | none =>
    rw [hproc] at hd
    cases hd
    exact ha
  | some proc =>
    rw [hproc] at hd
    simp only [Option.bind_eq_bind, Option.bind_eq_some_iff, Option.some.injEq] at hd
    obtain ⟨freed, -, rfl⟩ := hd
    exact giveBack_none ha freed

lemma unreferenceThread_owner (hd : unreferenceThread x tid = some x') (ha : x.owner a = none) : x'.owner a = none := by
  rw [unreferenceThread] at hd
  cases ht : x.sys.tcbs tid with
  | none =>
    rw [ht] at hd
    cases hd
    exact ha
  | some t =>
    rw [ht] at hd
    dsimp only at hd
    split_ifs at hd
    · exact destroyThreadData_owner hd ha
    · cases hd
      exact ha

lemma destroyThread_owner (hd : destroyThread x t = some x') (ha : x.owner a = none) : x'.owner a = none := by
  rw [destroyThread] at hd
  split_ifs at hd
  simp only [Option.bind_eq_bind, Option.bind_eq_some_iff] at hd
  obtain ⟨x₁, hroot, freed, -, hd⟩ := hd
  have h₁ : x₁.owner a = none := by
    rw [unreferenceRoot] at hroot
    split_ifs at hroot
    · cases hroot
      exact ha
    · exact unreferenceThread_owner hroot ha
  apply unreferenceThread_owner hd
  exact giveBack_none h₁ freed

lemma exec_owner {image : Image} (hs : x.exec pid t proc image = some x') (ha : x.owner a = none)
    (hp : a ∈ image.sections.flatMap Mapping.pages → a = 0) : x'.owner a = none := by
  have hhanded := @handOut_none x.owner (.proc pid) a (sectionTables ⟨createVmem x.sys.kvmem, x.sys.low⟩ image.sections)
    ha fun hmem => (sectionTables_mem hmem).2 (hp (sectionTables_mem hmem).1)
  rw [Machine.exec] at hs
  split_ifs at hs
  · simp only [Option.bind_eq_bind, Option.bind_eq_some_iff, Option.some.injEq] at hs
    obtain ⟨freed, -, rfl⟩ := hs
    exact giveBack_none hhanded freed
  · simp only [Option.bind_eq_bind, Option.bind_eq_some_iff, Option.some.injEq] at hs
    obtain ⟨freed, -, rfl⟩ := hs
    exact giveBack_none hhanded freed

lemma call_owner {e : Event} (hs : x.call e = some x') (ha : x.owner a = none)
    (hp : a ∈ (MachineEvent.call e).pages → a = 0) : x'.owner a = none := by
  cases e with
  | ipc tid c pid room =>
    simp only [Machine.call, Option.bind_eq_bind, Option.bind_eq_some_iff] at hs
    obtain ⟨t, -, sys, -, hs⟩ := hs
    split_ifs at hs
    · cases hs
      exact ha
    · cases hs
      exact ha
  | resp tid =>
    simp only [Machine.call, Option.bind_eq_bind, Option.bind_eq_some_iff] at hs
    obtain ⟨t, -, hs⟩ := hs
    split_ifs at hs
    · simp only [Option.bind_eq_some_iff] at hs
      obtain ⟨x₁, hx₁, t', -, hs⟩ := hs
      cases hs
      have hgiven := unreferenceThread_owner hx₁ ha
      exact hgiven
    · cases hs
      exact ha
  | fault tid =>
    simp only [Machine.call, Option.bind_eq_bind, Option.bind_eq_some_iff] at hs
    obtain ⟨sys, -, hs⟩ := hs
    split_ifs at hs
    cases hs
    exact ha
  | swap tid =>
    simp only [Machine.call, Option.bind_eq_bind, Option.bind_eq_some_iff] at hs
    obtain ⟨t, -, sys, -, hs⟩ := hs
    split_ifs at hs
    · cases hs
      exact ha
    · cases hs
      exact ha
  | detach tid =>
    simp only [Machine.call, Option.bind_eq_bind, Option.bind_eq_some_iff] at hs
    obtain ⟨sys, -, hs⟩ := hs
    cases hs
    exact ha
  | page pid c =>
    simp only [Machine.call, Option.bind_eq_bind, Option.bind_eq_some_iff] at hs
    obtain ⟨t, -, proc, -, sys, -, hs⟩ := hs
    cases hs
    cases c with
    | map paddr vaddr flags order pages =>
      exact handOut_none ha fun hmem => (mapTables_mem hmem).2 (hp (mapTables_mem hmem).1)
    | unmap vaddr =>
      rw [PageCall.tables, handOut_nil]
      exact ha
  | exec pid image =>
    simp only [Machine.call, Option.bind_eq_bind, Option.bind_eq_some_iff] at hs
    obtain ⟨t, -, proc, -, hs⟩ := hs
    split_ifs at hs
    · exact exec_owner hs ha hp
    · cases hs
      exact ha
  | create tid new page pages =>
    simp only [Machine.call, Option.bind_eq_bind, Option.bind_eq_some_iff] at hs
    obtain ⟨t, -, sys, -, hs⟩ := hs
    split_ifs at hs
    cases hs
    exact handOut_none ha fun hmem => (mapTables_mem hmem).2 (hp (mapTables_mem hmem).1)
  | createProc new page pages =>
    simp only [Machine.call, Option.bind_eq_bind, Option.bind_eq_some_iff] at hs
    obtain ⟨sys, -, hs⟩ := hs
    cases hs
    exact handOut_none ha fun hmem => (mapTables_mem hmem).2 (hp (mapTables_mem hmem).1)

lemma step_owner {e : MachineEvent} (hs : x.step e = some x') (ha : x.owner a = none)
    (hp : a ∈ e.pages → a = 0) : x'.owner a = none := by
  cases e with
  | call e => exact call_owner hs ha hp
  | exit tid =>
    simp only [Machine.step, Option.bind_eq_bind, Option.bind_eq_some_iff] at hs
    obtain ⟨t, -, hs⟩ := hs
    split_ifs at hs
    exact destroyThread_owner hs ha
  | share pid =>
    rw [Machine.step] at hs
    split_ifs at hs
    cases hs
    exact ha
  | unshare pid => exact unreferenceThread_owner hs ha

end Owners

structure OwnHalves (kvmem : ℕ) (t : Tcb) : Prop where
  rpc : KernelHalf kvmem t.rpc
  proc : ∀ proc, t.proc = some proc → KernelHalf kvmem proc

structure KernelKept (loadAddr kvmem : ℕ) (s : System) : Prop where
  same : s.kvmem = kvmem
  page : s.low (kernelPage kvmem) = kvmemTable loadAddr
  tcb : ∀ tid t, s.tcbs tid = some t → OwnHalves kvmem t

lemma OwnHalves.recloned {tcbs : ℕ → Option Tcb} (h : OwnHalves kvmem t) (hr : Recloned tcbs t t') :
    OwnHalves kvmem t' := by
  obtain ⟨proc, -, hrpc⟩ := hr.rpc
  refine ⟨fun i hi => ?_, fun root hroot => h.proc root (hr.proc ▸ hroot)⟩
  rw [hrpc, cloneUvmem_above _ _ (le_trans (by decide) hi)]
  exact h.rpc i hi

lemma KernelKept.setTcb (h : KernelKept loadAddr kvmem s) (ht : OwnHalves kvmem t) :
    KernelKept loadAddr kvmem (s.setTcb tid t) := by
  refine ⟨h.same, h.page, fun uid u hu => ?_⟩
  rw [setTcb_tcbs] at hu
  obtain rfl | hne := eq_or_ne uid tid
  · rw [Function.update_self] at hu
    cases hu
    exact ht
  · rw [Function.update_of_ne hne] at hu
    exact h.tcb uid u hu

lemma KernelKept.remove (h : KernelKept loadAddr kvmem s) (tid : ℕ) :
    KernelKept loadAddr kvmem { s with tcbs := Function.update s.tcbs tid none } := by
  refine ⟨h.same, h.page, fun uid u hu => ?_⟩
  obtain rfl | hne := eq_or_ne uid tid
  · dsimp only at hu
    rw [Function.update_self] at hu
    cases hu
  · dsimp only at hu
    rw [Function.update_of_ne hne] at hu
    exact h.tcb uid u hu

lemma KernelKept.setLow (h : KernelKept loadAddr kvmem s)
    (hlow : low (kernelPage kvmem) = s.low (kernelPage kvmem)) : KernelKept loadAddr kvmem { s with low := low } :=
  ⟨h.same, hlow.trans h.page, h.tcb⟩

lemma KernelKept.setProc (h : KernelKept loadAddr kvmem s) (ht : OwnHalves kvmem t)
    (hroot : KernelHalf kvmem m.root) (hlow : m.low (kernelPage kvmem) = s.low (kernelPage kvmem)) :
    KernelKept loadAddr kvmem (s.setProc pid t m) := by
  have htcb : OwnHalves kvmem { t with proc := some m.root } :=
    ⟨ht.rpc, fun root hr => Option.some.inj hr ▸ hroot⟩
  exact (h.setTcb htcb).setLow hlow

lemma KernelKept.destroyThreadData (h : KernelKept loadAddr kvmem x.sys)
    (hd : Vmem.destroyThreadData x t = some x') : KernelKept loadAddr kvmem x'.sys := by
  rw [Vmem.destroyThreadData] at hd
  split_ifs at hd
  have hgone := h.remove t.tid
  cases hproc : t.proc with
  | none =>
    rw [hproc] at hd
    cases hd
    exact hgone
  | some proc =>
    rw [hproc] at hd
    simp only [Option.bind_eq_bind, Option.bind_eq_some_iff, Option.some.injEq] at hd
    obtain ⟨freed, -, rfl⟩ := hd
    exact hgone

lemma KernelKept.unreferenceThread (h : KernelKept loadAddr kvmem x.sys)
    (hd : Vmem.unreferenceThread x tid = some x') : KernelKept loadAddr kvmem x'.sys := by
  rw [Vmem.unreferenceThread] at hd
  cases ht : x.sys.tcbs tid with
  | none =>
    rw [ht] at hd
    cases hd
    exact h
  | some t =>
    rw [ht] at hd
    dsimp only at hd
    split_ifs at hd
    · apply KernelKept.destroyThreadData _ hd
      exact h
    · cases hd
      exact h

lemma KernelKept.destroyThread (h : KernelKept loadAddr kvmem x.sys) (ht : x.sys.tcbs tid = some t)
    (hd : Vmem.destroyThread x t = some x') : KernelKept loadAddr kvmem x'.sys := by
  rw [Vmem.destroyThread] at hd
  split_ifs at hd
  simp only [Option.bind_eq_bind, Option.bind_eq_some_iff] at hd
  obtain ⟨x₁, hroot, freed, -, hd⟩ := hd
  have h₁ : KernelKept loadAddr kvmem x₁.sys := by
    rw [unreferenceRoot] at hroot
    split_ifs at hroot
    · cases hroot
      exact h
    · exact h.unreferenceThread hroot
  have hown := h.tcb tid t ht
  apply KernelKept.unreferenceThread _ hd
  exact h₁.setTcb ⟨hown.rpc, hown.proc⟩

lemma Holds.reserve (h : Holds owner holder R m) (ha : owner a = none) (g : Option Holder) :
    Holds (Function.update owner a g) holder R m := by
  obtain ⟨level, hl, hlev⟩ := h
  refine ⟨level, fun c o hc => ?_, hlev⟩
  have hown := hl c o hc
  rw [Function.update_of_ne, hown]
  rintro rfl
  rw [ha] at hown
  cases hown

lemma NewPages.reserve (h : NewPages owner pages) (ha : a ∉ pages) (g : Option Holder) :
    NewPages (Function.update owner a g) pages := by
  refine ⟨h.aligned, h.nodup, fun p hp hp0 => ?_⟩
  rw [Function.update_of_ne, h.fresh p hp hp0]
  rintro rfl
  exact ha hp

lemma KernelKept.createThread {rid page new : ℕ} {proc : Option Table} (h : KernelKept loadAddr kvmem s)
    (hp : NewPages owner pages) (hk : kernelPage kvmem ∉ pages)
    (hproc : ∀ root, proc = some root → root = createVmem s.kvmem)
    (hs : Vmem.createThread s new rid page proc pages = some s') :
    KernelKept loadAddr kvmem s' := by
  simp only [Vmem.createThread, Option.bind_eq_bind, Option.bind_eq_some_iff] at hs
  obtain ⟨m, hm, parent, -, hs⟩ := hs
  cases hs
  have hsame := h.same
  subst hsame
  -- the page of the kernel as one of another holder
  have hspare := (@setupRpcStack_holds m (Function.update owner (kernelPage s.kvmem) (some (.proc 0))) s.low s.kvmem
    pages page new (hp.reserve hk _) hm).2 (.proc 0) (fun heq => by cases heq) (kernelPage s.kvmem) (Function.update_self ..)
  have hrpc : KernelHalf s.kvmem m.root := fun i hi => setupRpcStack_root_above hm hi
  have hown : ∀ root, (∀ i, KSTART_PAGE ≤ i → root i = m.root i) →
      OwnHalves s.kvmem ⟨new, rid, rid, rid, false, proc, root, [], false⟩ := by
    intro root hroot
    refine ⟨fun i hi => (hroot i hi).trans (hrpc i hi), fun r hr i hi => ?_⟩
    rw [hproc r hr]
  have hlow := h.setLow hspare.2
  exact (hlow.setTcb (hown m.root fun _ _ => rfl)).setTcb
    (hown _ fun i hi => cloneUvmem_above _ _ (le_trans (by decide) hi))

lemma KernelKept.page_call {c : PageCall} (h : KernelKept loadAddr kvmem x.sys)
    (hsound : Sound (fun _ => False) x.sys x.owner) (hspare : x.owner (kernelPage kvmem) = none)
    (hp : x.Proper (.call (.page pid c))) (hc : x.Careful (.call (.page pid c)))
    (hk : kernelPage kvmem ∉ (MachineEvent.call (.page pid c)).pages)
    (hs : x.call (.page pid c) = some x') : KernelKept loadAddr kvmem x'.sys := by
  simp only [Machine.call, Vmem.step, Option.bind_eq_bind, Option.bind_eq_some_iff] at hs
  obtain ⟨t, ht, proc, hproc, sys, ⟨t', ht', proc', hproc', hsys⟩, hs⟩ := hs
  cases hsys
  cases hs
  obtain rfl := Option.some.inj (ht.symm.trans ht')
  obtain rfl := Option.some.inj (hproc.symm.trans hproc')
  have hold : procOf x.sys.tcbs pid = some proc := by
    rw [procOf, ht]
    exact hproc
  have hown := h.tcb pid t ht
  have hheld := (hsound.proc pid proc hold).reserve hspare (some (.stack 0))
  have hself : Function.update x.owner (kernelPage kvmem) (some (.stack 0)) (kernelPage kvmem) = some (.stack 0) :=
    Function.update_self ..
  cases c with
  | map paddr vaddr flags order pages =>
    obtain ⟨hv, ho, hV, hpages⟩ := hp
    have hspares : Spares (.proc pid) _ _ x.sys.low (mapVpage ⟨proc, x.sys.low⟩ paddr vaddr flags order pages).1.low :=
      (hheld.mapVpage ((user_top hv).trans (by decide)) ho (hpages.reserve hk _) hV (hc proc hold)).2
    apply h.setProc hown _ (hspares (.stack 0) (fun heq => by cases heq) _ hself).2
    exact fun i hi => (mapVpage_root_above paddr flags pages ((user_top hv).trans_le hi) ho).trans
      (hown.proc proc hproc i hi)
  | unmap vaddr =>
    have hlow := (hheld.unmapVpage ((user_top hp).trans (by decide))).2 (.stack 0) (fun heq => by cases heq) _ hself
    apply h.setProc hown _ hlow.2
    exact fun i hi => (unmapVpage_root_above (user_top hp) hi).trans (hown.proc proc hproc i hi)

lemma KernelKept.exec {image : Image} (h : KernelKept loadAddr kvmem x.sys)
    (hsound : Sound (fun _ => False) x.sys x.owner) (hspare : x.owner (kernelPage kvmem) = none)
    (ht : x.sys.tcbs pid = some t) (hproc : t.proc = some proc) (hi : image.UserOnly)
    (hp : NewPages x.owner (image.sections.flatMap Mapping.pages))
    (hk : kernelPage kvmem ∉ image.sections.flatMap Mapping.pages)
    (hs : x.exec pid t proc image = some x') :
    KernelKept loadAddr kvmem x'.sys := by
  have hold : procOf x.sys.tcbs pid = some proc := by
    rw [procOf, ht]
    exact hproc
  have hsame := h.same
  subst hsame
  have hown := h.tcb pid t ht
  have hheld := (hsound.proc pid proc hold).reserve hspare (some (.stack 0))
  have hself : Function.update x.owner (kernelPage x.sys.kvmem) (some (.stack 0)) (kernelPage x.sys.kvmem) =
      some (.stack 0) := Function.update_self ..
  have hbuilt := @mapSections_built _ x.sys.low x.sys.kvmem image hi (hp.reserve hk (some (.stack 0)))
  rw [Machine.exec] at hs
  split_ifs at hs with hl
  · simp only [Option.bind_eq_bind, Option.bind_eq_some_iff, Option.some.injEq] at hs
    obtain ⟨freed, hfreed, rfl⟩ := hs
    have hlow := (hbuilt.replace hheld hi.mapped hfreed).2 (.stack 0) (fun heq => by cases heq) _ hself
    rw [mapExec, if_pos hl]
    apply h.setProc hown
    · exact fun i hi' => mapSections_root_above (fun y hy => (hi.sections y hy).1) hi'
    · exact hlow.2
  · simp only [Option.bind_eq_bind, Option.bind_eq_some_iff, Option.some.injEq] at hs
    obtain ⟨freed, hfreed, rfl⟩ := hs
    have hkeeps := (@Built.abandon _ _ _ _ image.mapped freed (.proc pid) hbuilt hi.mapped hfreed).same
      (kernelPage x.sys.kvmem) (by rw [hself]; exact Option.some_ne_none _)
    rw [mapExec, if_neg hl]
    exact h.setProc hown (hown.proc proc hproc) hkeeps

lemma KernelKept.call {e : Event} (h : KernelKept loadAddr kvmem x.sys)
    (hsound : Sound (fun _ => False) x.sys x.owner) (hspare : x.owner (kernelPage kvmem) = none)
    (hp : x.Proper (.call e)) (hc : x.Careful (.call e)) (hk : kernelPage kvmem ∉ (MachineEvent.call e).pages)
    (hs : x.call e = some x') :
    KernelKept loadAddr kvmem x'.sys := by
  cases e with
  | ipc tid c pid room =>
    simp only [Machine.call, Vmem.step, Option.bind_eq_bind, Option.bind_eq_some_iff] at hs
    obtain ⟨t, ht, sys, ⟨t₀, ht₀, t', ht', hsys⟩, hs⟩ := hs
    cases hsys
    obtain rfl := Option.some.inj (ht.symm.trans ht₀)
    have hown := h.tcb tid t ht
    have hset : KernelKept loadAddr kvmem (x.sys.setTcb tid t') := by
      apply h.setTcb
      obtain rfl | hr := doIpc_cases hsound.tid ht'
      · exact hown
      · exact hown.recloned hr
    split_ifs at hs
    · cases hs
      exact hset
    · cases hs
      exact hset
  | resp tid =>
    simp only [Machine.call, Option.bind_eq_bind, Option.bind_eq_some_iff] at hs
    obtain ⟨t, ht, hs⟩ := hs
    split_ifs at hs
    · simp only [Option.bind_eq_some_iff] at hs
      obtain ⟨x₁, hx₁, t', ht', hs⟩ := hs
      cases hs
      have hown := h.tcb tid t ht
      simp only [leaveRpc, Option.bind_eq_bind, Option.bind_eq_some_iff] at ht'
      obtain ⟨⟨ctx, rest, orphaned⟩, -, ht'⟩ := ht'
      cases ht'
      exact (h.unreferenceThread hx₁).setTcb ⟨hown.rpc, hown.proc⟩
    · cases hs
      exact h
  | fault tid =>
    simp only [Machine.call, Vmem.step, Option.bind_eq_bind, Option.bind_eq_some_iff] at hs
    obtain ⟨sys, ⟨t, ht, t', ht', hsys⟩, hs⟩ := hs
    cases hsys
    split_ifs at hs
    cases hs
    exact h.setTcb ((h.tcb tid t ht).recloned (handlePagefault_recloned ht'))
  | swap tid =>
    simp only [Machine.call, Vmem.step, Option.bind_eq_bind, Option.bind_eq_some_iff] at hs
    obtain ⟨t, ht, sys, ⟨t₀, ht₀, t', ht', hsys⟩, hs⟩ := hs
    cases hsys
    obtain rfl := Option.some.inj (ht.symm.trans ht₀)
    have hown := h.tcb tid t ht
    have hset : KernelKept loadAddr kvmem (x.sys.setTcb tid t') := by
      apply h.setTcb
      obtain rfl | hr := swap_cases ht'
      · exact hown
      · exact hown.recloned hr
    split_ifs at hs
    · cases hs
      exact hset
    · cases hs
      exact hset
  | detach tid =>
    simp only [Machine.call, Vmem.step, Option.bind_eq_bind, Option.bind_eq_some_iff] at hs
    obtain ⟨sys, ⟨t, ht, hsys⟩, hs⟩ := hs
    cases hsys
    cases hs
    have hown := h.tcb tid t ht
    exact h.setTcb ⟨hown.rpc, hown.proc⟩
  | page pid c => exact h.page_call hsound hspare hp hc hk hs
  | exec pid image =>
    simp only [Machine.call, Option.bind_eq_bind, Option.bind_eq_some_iff] at hs
    obtain ⟨t, ht, proc, hproc, hs⟩ := hs
    split_ifs at hs
    · exact h.exec hsound hspare ht hproc hp.1 hp.2 hk hs
    · cases hs
      exact h
  | create tid new page pages =>
    simp only [Machine.call, Vmem.step, Option.bind_eq_bind, Option.bind_eq_some_iff] at hs
    obtain ⟨t, ht, sys, ⟨t₀, ht₀, r, hr, hsys⟩, hs⟩ := hs
    split_ifs at hsys
    split_ifs at hs
    cases hs
    exact h.createThread hp hk (fun root hroot => by cases hroot) hsys
  | createProc new page pages =>
    simp only [Machine.call, Vmem.step, Option.bind_eq_bind, Option.bind_eq_some_iff] at hs
    obtain ⟨sys, hsys, hs⟩ := hs
    split_ifs at hsys
    cases hs
    exact h.createThread hp hk (fun root hroot => (Option.some.inj hroot).symm) hsys

lemma KernelKept.step {e : MachineEvent} (h : KernelKept loadAddr kvmem x.sys)
    (hsound : Sound (fun _ => False) x.sys x.owner) (hspare : x.owner (kernelPage kvmem) = none) (hp : x.Proper e)
    (hc : x.Careful e) (hk : kernelPage kvmem ∉ e.pages) (hs : x.step e = some x') :
    KernelKept loadAddr kvmem x'.sys := by
  cases e with
  | call e => exact h.call hsound hspare hp hc hk hs
  | exit tid =>
    simp only [Machine.step, Option.bind_eq_bind, Option.bind_eq_some_iff] at hs
    obtain ⟨t, ht, hs⟩ := hs
    split_ifs at hs
    exact h.destroyThread ht hs
  | share pid =>
    rw [Machine.step] at hs
    split_ifs at hs
    cases hs
    exact h
  | unshare pid => exact h.unreferenceThread hs

lemma KernelRuns.careful (h : KernelRuns loadAddr x) : Machine.RunsWith Machine.Careful x := by
  induction h with
  | boot kvmem low _ => exact .init kvmem low
  | step e _ hp hc _ hs ih => exact .step e ih hp hc hs

lemma KernelRuns.kept (h : KernelRuns loadAddr x) :
    KernelKept loadAddr x.sys.kvmem x.sys ∧ x.owner (kernelPage x.sys.kvmem) = none := by
  induction h with
  | boot kvmem low hlow => exact ⟨⟨rfl, hlow, fun tid t ht => (by cases ht)⟩, rfl⟩
  | step e h hp hc hk hs ih =>
    obtain ⟨hkept, hspare⟩ := ih
    have hnext := hkept.step h.careful.sound hspare hp hc hk hs
    rw [hnext.same]
    exact ⟨hnext, step_owner hs hspare fun hmem => absurd hmem hk⟩

lemma KernelRuns.address (h : KernelRuns loadAddr x) (hal : loadAddr % orderSize 1 = 0) (hload : loadAddr < 2 ^ 64)
    (ht : x.sys.tcbs tid = some t) (hroot : root = t.rpc ∨ t.proc = some root) (hv : 2 ^ 38 ≤ v) (hv' : v < 2 ^ 64) :
    hwAddress ⟨root, x.sys.low⟩ user v = if user then none else kernelAddress loadAddr v := by
  obtain ⟨hkept, -⟩ := h.kept
  have hown := hkept.tcb tid t ht
  have hhalf : KernelHalf x.sys.kvmem root := by
    obtain rfl | hproc := hroot
    · exact hown.rpc
    · exact hown.proc root hproc
  exact hhalf.address hkept.page hal hload hv hv'

theorem kernel_half (h : KernelRuns loadAddr x) (hal : loadAddr % orderSize 1 = 0) (hload : loadAddr < 2 ^ 64)
    (ht : x.sys.tcbs tid = some t) (hroot : root = t.rpc ∨ t.proc = some root) (hv : 2 ^ 38 ≤ v) (hv' : v < VM_IO) :
    hwAddress ⟨root, x.sys.low⟩ false v = kernelAddress loadAddr v ∧ hwAddress ⟨root, x.sys.low⟩ true v = none := by
  have hlt : v < 2 ^ 64 := hv'.trans VM_IO_lt
  exact ⟨h.address hal hload ht hroot hv hlt, h.address hal hload ht hroot hv hlt⟩

theorem kernel_half_first : ∃ x t, KernelRuns (2 ^ 31) x ∧ x.sys.tcbs 1 = some t ∧
    hwAddress ⟨t.rpc, x.sys.low⟩ false (VM_KERNEL + 5) = some (2 ^ 31 + 5) := by
  obtain ⟨low, hcreate⟩ := @step_createProc (initTcbs 0x80001000 fun _ => kvmemTable (2 ^ 31)) 0x1000 0x2000 1 0x200000
    rfl ⟨by decide, by decide⟩ (by decide) (by decide)
  have hrun : KernelRuns (2 ^ 31) ⟨⟨0x80001000, low, Function.update (fun _ => none) 1
      (some (freshTcb 0x80001000 1 0x1000))⟩, Function.update (fun _ => 0) 1 1, handOut (fun _ => none) (.stack 1)
        (mapTables RPC_STACK_BASE maxOrder maxOrder none [0x1000, 0x2000]
          ⟨createVmem 0x80001000, fun _ => kvmemTable (2 ^ 31)⟩)⟩ := by
    refine .step (.call (.createProc 1 0x200000 [0x1000, 0x2000]))
      (.boot 0x80001000 (fun _ => kvmemTable (2 ^ 31)) rfl) ?_ trivial ?_ ?_
    · exact ⟨by decide, by decide, fun _ _ _ => rfl⟩
    · decide
    · simp only [Machine.step, Machine.call, initMachine, hcreate]
      rfl
  have hfirst : Function.update (fun _ => none) 1 (some (freshTcb 0x80001000 1 0x1000)) 1 =
      some (freshTcb 0x80001000 1 0x1000) := Function.update_self ..
  obtain ⟨hkernel, -⟩ := @kernel_half _ _ 1 _ (VM_KERNEL + 5) (2 ^ 31) hrun rfl (by decide) hfirst (.inl rfl)
    (by decide) (by decide)
  exact ⟨_, _, hrun, hfirst, hkernel.trans (by decide)⟩

end Kmi.Vmem
