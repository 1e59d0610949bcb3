import Kmi.Uvmem.Process

/-! Allocations of user memory over whole runs. -/

namespace Kmi.Uvmem

open Kmi.Mem Kmi.Vmem Kmi.Regions

variable {p : Process}

theorem run_alloc_allOrNothing (h : RunsWith Orderly p) :
    (∀ pre post size flags answers, Answered p (.alloc pre post size flags answers) →
      Orderly p (.alloc pre post size flags answers) →
        ∃ p' v, step p (.alloc pre post size flags answers) = some (p', v) ∧
          AllOrNothing p.memory p'.memory size v) ∧
    ∀ pre post start size flags answers, Answered p (.allocFixed pre post start size flags answers) →
      Orderly p (.allocFixed pre post start size flags answers) →
        ∃ p' v, step p (.allocFixed pre post start size flags answers) = some (p', v) ∧
          AllOrNothing p.memory p'.memory size v := by
  have hu := h.valid fun _ _ hc => hc
  constructor
  · intro pre post size flags answers ha hc
    obtain ⟨hr, hf, first, hfound, hn⟩ := hc
    obtain ⟨u', v, heq, hall, -⟩ := allocUvmem_spec hu hr hf ha hfound hn
    refine ⟨{ p with memory := u' }, v, ?_, hall⟩
    simp only [step, heq, Option.bind_eq_bind, Option.bind_some]
  · intro pre post start size flags answers ha hc
    obtain ⟨hr, hf, hfree, hn⟩ := hc
    obtain ⟨u', v, heq, hall, -⟩ := allocFixedUvmem_spec hu hr hf ha hfree hn
    refine ⟨{ p with memory := u' }, v, ?_, hall⟩
    simp only [step, heq, Option.bind_eq_bind, Option.bind_some]

def freshRegion : RegionMap :=
  ((initRegion emptyMap (some 1) 0 UVMEM_END 65536).map Prod.fst).getD emptyMap

def freshProcess : Process := ⟨⟨freshRegion, ⟨createVmem 0, fun _ _ => 0⟩⟩, fun _ => none⟩

lemma freshProcess_runs (cond : Process → Event → Prop) : RunsWith cond freshProcess :=
  @RunsWith.init cond emptyMap freshRegion 1 0 (fun _ _ => 0) OK rfl rfl rfl fun _ => rfl

lemma freshRegion_usedAt (p : ℕ) : usedAt freshRegion p = none := by
  rw [usedAt, show freshRegion.usedRegions = none from rfl, findUsed]

lemma createVmem_stat {kvmem v : ℕ} {low : ℕ → Table} (hv : v < UVMEM_END) :
    statVpage ⟨createVmem kvmem, low⟩ v = none := by
  have hz : createVmem kvmem (vmToIndex v maxOrder) = 0 := createVmem_user kvmem (vmToIndex_lt hv)
  rw [statVpage_eq, statFrom_stops]
  · change entryStat (createVmem kvmem _) _ = none
    rw [hz]
    rfl
  · change stops (createVmem kvmem _) = true
    rw [hz]
    rfl

lemma freshProcess_stat {v : ℕ} (hv : v < UVMEM_END) : statVpage freshProcess.memory.vmem v = none :=
  createVmem_stat hv

def gigabyte : List Answer := [⟨0xffffffc080000000, []⟩]

lemma gigabyte_fresh (m : Space) : FreshAnswers m gigabyte := by
  refine ⟨by decide, by decide, by decide, ?_⟩
  intro p hp
  simp [gigabyte] at hp

def secondGigabyte : Event := .allocFixed (some 2) (some 3) (2 ^ 30) (2 ^ 30) 0x17 gigabyte

lemma freshProcess_orderly {size : ℕ} {answers : List Answer} (hpos : 0 < size) (hsize : size ≤ 2 ^ 30)
    (hpages : pagesOf size ≤ 2 ^ 18) :
    Orderly freshProcess (.allocFixed (some 2) (some 3) (2 ^ 30) size 0x17 answers) := by
  have hstart : page (2 ^ 30) = 2 ^ 18 := by decide
  have hstop : 2 ^ 19 ≤ freshRegion.stop := by decide
  have hb : basePageSize = 4096 := by decide
  refine ⟨⟨hpos, by omega, 2, 3, rfl, rfl, rfl, rfl, by decide⟩, ⟨by decide, by decide⟩,
    ⟨by decide, ?_, fun p g hg => ?_⟩, fun y hy hy' => ?_⟩
  · change page (2 ^ 30) + pagesOf size ≤ freshRegion.stop
    omega
  · rw [show freshProcess.memory.region = freshRegion from rfl, freshRegion_usedAt] at hg
    cases hg
  · apply freshProcess_stat
    have hend : 2 ^ 31 ≤ UVMEM_END := by decide
    rw [hstart, hb] at hy'
    omega

lemma secondGigabyte_orderly : Orderly freshProcess secondGigabyte :=
  freshProcess_orderly (by decide) (by decide) (by decide)

theorem run_alloc_allOrNothing_gigabyte :
    ∃ p' v, step freshProcess secondGigabyte = some (p', v) ∧
      AllOrNothing freshProcess.memory p'.memory (2 ^ 30) v :=
  (run_alloc_allOrNothing (freshProcess_runs _)).2 _ _ _ _ _ _ (gigabyte_fresh _) secondGigabyte_orderly

/-- A new process asks for a gigabyte. There is no region for it, and yet the call reports
success, with pages mapped at address 0. -/
theorem null_region_is_mapped :
    ∃ p' v, RunsWith (fun _ _ => True) freshProcess ∧
      Answered freshProcess (.alloc (some 2) (some 3) (2 ^ 30) 0x17 gigabyte) ∧
      step freshProcess (.alloc (some 2) (some 3) (2 ^ 30) 0x17 gigabyte) = some (p', v) ∧
      ¬ AllOrNothing freshProcess.memory p'.memory (2 ^ 30) v := by
  have hmap : (mapRegion freshProcess.memory.vmem 0 (2 ^ 30) maxOrder 0x17 gigabyte).map Prod.snd =
      some OK := by
    decide +kernel
  rw [Option.map_eq_some_iff] at hmap
  obtain ⟨⟨m', ret⟩, hmap, rfl⟩ := hmap
  have halloc : allocRegion freshRegion (some 2) (some 3) (2 ^ 30) 0x17 = some (freshRegion, 0, 2 ^ 30) :=
    rfl
  refine ⟨⟨⟨freshRegion, m'⟩, fun _ => none⟩, 0, freshProcess_runs _, gigabyte_fresh _, ?_, ?_⟩
  · have herr : errCode 0 = false := by decide
    simp only [step, allocUvmem, show freshProcess.memory.region = freshRegion from rfl, halloc, mapUvmem,
      herr, Bool.false_eq_true, if_false, show ((0x17 : Flags).toNat) = 0x17 from rfl, hmap,
      Option.bind_eq_bind, Option.bind_some, ne_eq, not_true_eq_false]
    rfl
  · rintro (⟨-, ⟨g, -, hg, -⟩⟩ | ⟨herr, -⟩)
    · rw [show (⟨⟨freshRegion, m'⟩, fun _ => none⟩ : Process).memory.region = freshRegion from rfl,
        freshRegion_usedAt] at hg
      cases hg
    · exact absurd herr (by decide)

end Kmi.Uvmem
