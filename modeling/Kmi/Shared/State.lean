import Kmi.Shared.Bytes
import Kmi.Uvmem.Pages

/-! What the changes of the system do to its view, and the memory of one process. -/

namespace Kmi.Shared

open Kmi.Mem Kmi.Vmem Kmi.Regions Kmi.Uvmem

variable {s s' : System} {t p q x n page : ℕ} {xs : List ℕ} {m m' r r' : RegionMap} {g g' : Region}
  {space : Space}

def byteAt (m : Space) (y : ℕ) : Option ℕ := if y < 2 ^ 39 then physical m y else none

def System.view (s : System) : View where
  known := s.known
  rid p := (s.tcb p).rid
  refcount p := (s.tcb p).refcount
  holds := s.holds
  used p := usedAt (s.regions p)
  byte p := byteAt (s.vmem p)

inductive Recounted (r : RegionMap) : RegionMap → Prop
  | refl : Recounted r r
  | step {m : RegionMap} (x n : ℕ) : Recounted r m → (m.region x).pid = 0 →
      Recounted r (m.setRegion x { m.region x with refcount := n })

lemma Recounted.trans {r'' : RegionMap} (h : Recounted r r') (h' : Recounted r' r'') : Recounted r r'' := by
  induction h' with
  | refl => exact h
  | step x n _ hpid ih => exact ih.step x n hpid

lemma setRegion_region (m : RegionMap) (x : ℕ) (g : Region) (y : ℕ) :
    (m.setRegion x g).region y = if y = x then g else m.region y := Function.update_apply ..

lemma Recounted.region (h : Recounted r r') (x : ℕ) : SameUse (r.region x) (r'.region x) ∧
    ((r.region x).pid ≠ 0 → r'.region x = r.region x) := by
  induction h with
  | refl => exact ⟨.refl _, fun _ => rfl⟩
  | @step m y n _ hpid ih =>
    obtain ⟨hsame, hforeign⟩ := ih
    rw [setRegion_region]
    split_ifs with hxy
    · subst hxy
      exact ⟨⟨hsame.start, hsame.stop, hsame.pid, hsame.flags⟩, fun hne => absurd (hsame.pid.trans hpid) hne⟩
    · exact ⟨hsame, hforeign⟩

lemma Recounted.partition (h : Recounted r r') (hp : Partition r xs) : Partition r' xs := by
  induction h with
  | refl => exact hp
  | step x n _ _ ih => exact ih.setRegion rfl rfl rfl

lemma SameUse.used (h : SameUse g g') : g.used = g'.used := by rw [Region.used, Region.used, h.flags]

lemma Recounted.usedAt (h : Recounted r r') (hp : Partition r xs) (hg : usedAt r' page = some g') :
    ∃ g, usedAt r page = some g ∧ SameUse g g' ∧ (g.pid ≠ 0 → g' = g) := by
  obtain ⟨x, hx, rfl, hu, hs⟩ := (usedAt_eq_some (h.partition hp)).1 hg
  obtain ⟨hsame, hforeign⟩ := h.region x
  exact ⟨r.region x, (usedAt_eq_some hp).2 ⟨x, hx, rfl, hsame.used.trans hu, hsame.start.trans hs⟩, hsame,
    hforeign⟩

lemma setRegion_usedAt (hp : Partition m xs) (hx : x ∈ xs) (hu : (m.region x).used = true) (p : ℕ) :
    usedAt (m.setRegion x { m.region x with refcount := n }) p =
      if p = (m.region x).start then some { m.region x with refcount := n } else usedAt m p := by
  have hp' : Partition (m.setRegion x { m.region x with refcount := n }) xs := hp.setRegion rfl rfl rfl
  have hself : (m.setRegion x { m.region x with refcount := n }).region x =
      { m.region x with refcount := n } := Function.update_self (f := m.region) ..
  have hother : ∀ y, y ≠ x → (m.setRegion x { m.region x with refcount := n }).region y = m.region y :=
    fun y hy => Function.update_of_ne hy _ m.region
  split_ifs with hps
  · exact (usedAt_eq_some hp').2 ⟨x, hx, hself, hu, hps.symm⟩
  · ext g
    rw [usedAt_eq_some hp', usedAt_eq_some hp]
    constructor
    · rintro ⟨y, hy, rfl, hyu, hys⟩
      have hne : y ≠ x := by
        rintro rfl
        rw [hself] at hys
        exact hps hys.symm
      rw [hother y hne] at hyu hys ⊢
      exact ⟨y, hy, rfl, hyu, hys⟩
    · rintro ⟨y, hy, rfl, hyu, hys⟩
      have hne : y ≠ x := by
        rintro rfl
        exact hps hys.symm
      exact ⟨y, hy, hother y hne, hyu, hys⟩

/-- Its regions are in order, those of its own are mapped by whole pages, those that it shares by
base pages, and its references are not backed. -/
structure Healthy (u : UserVmem) : Prop where
  valid : Valid u
  backed : ∀ page g, usedAt u.region page = some g → g.pid = 0 → g.flags &&& MR_NONBACKED = 0 ∧
    Tiled u.vmem (g.start * basePageSize) (g.stop * basePageSize)
  small : ∀ page g, usedAt u.region page = some g → g.pid = 0 → g.flags &&& MR_SHARED ≠ 0 →
    OnlyBasePages u.vmem (g.start * basePageSize) (g.stop * basePageSize)
  foreign : ∀ page g, usedAt u.region page = some g → g.pid ≠ 0 → g.flags &&& MR_NONBACKED ≠ 0

lemma sameUse_of_setRegion (hp : Partition m xs)
    (hg : usedAt (m.setRegion x { m.region x with refcount := n }) page = some g') :
    ∃ g, usedAt m page = some g ∧ SameUse g g' := by
  have hp' : Partition (m.setRegion x { m.region x with refcount := n }) xs := hp.setRegion rfl rfl rfl
  obtain ⟨y, hy, rfl, hu, hs⟩ := (usedAt_eq_some hp').1 hg
  have hsame : SameUse (m.region y) ((m.setRegion x { m.region x with refcount := n }).region y) := by
    rw [setRegion_region]
    split_ifs with hyx
    · rw [hyx]
      exact ⟨rfl, rfl, rfl, rfl⟩
    · exact .refl _
  exact ⟨m.region y, (usedAt_eq_some hp).2 ⟨y, hy, rfl, hsame.used.trans hu, hsame.start.trans hs⟩, hsame⟩

lemma Healthy.setCount (h : Healthy ⟨m, space⟩) (x n : ℕ) :
    Healthy ⟨m.setRegion x { m.region x with refcount := n }, space⟩ := by
  obtain ⟨xs, hp⟩ := h.valid.region
  refine ⟨⟨⟨xs, hp.setRegion rfl rfl rfl⟩, h.valid.start, h.valid.stop, h.valid.tables⟩,
    fun page g' hg' hpid => ?_, fun page g' hg' hpid => ?_, fun page g' hg' hpid => ?_⟩
  · obtain ⟨g, hg, hsame⟩ := sameUse_of_setRegion hp hg'
    rw [← hsame.start, ← hsame.stop, ← hsame.flags]
    exact h.backed page g hg (hsame.pid.trans hpid)
  · obtain ⟨g, hg, hsame⟩ := sameUse_of_setRegion hp hg'
    rw [← hsame.start, ← hsame.stop, ← hsame.flags]
    exact h.small page g hg (hsame.pid.trans hpid)
  · obtain ⟨g, hg, hsame⟩ := sameUse_of_setRegion hp hg'
    rw [← hsame.flags]
    exact h.foreign page g hg fun hz => hpid (hsame.pid.symm.trans hz)

lemma Healthy.recounted (h : Healthy ⟨r, space⟩) (hr : Recounted r r') : Healthy ⟨r', space⟩ := by
  induction hr with
  | refl => exact h
  | step x n _ _ ih => exact ih.setCount x n

lemma Healthy.tidy (h : Healthy (s.tcb p).memory) : Tidy s.view p := by
  obtain ⟨xs, hp⟩ := h.valid.region
  refine ⟨fun page g hg => ?_, fun page page' g g' hg hg' hne => usedAt_apart hp hg hg' hne⟩
  obtain ⟨hs, -, hlt, -⟩ := usedAt_range hp hg
  exact ⟨hs, hs ▸ hlt⟩

/-! The parts of the system, one by one. -/

@[simp] lemma setTcb_tcb (s : System) (t : ℕ) (x : Tcb) (p : ℕ) :
    (s.setTcb t x).tcb p = if p = t then x else s.tcb p := Function.update_apply ..

@[simp] lemma setTcb_known (s : System) (t : ℕ) (x : Tcb) (p : ℕ) : (s.setTcb t x).known p = s.known p := rfl

lemma setRegions_regions (s : System) (t : ℕ) (r : RegionMap) (p : ℕ) :
    (s.setRegions t r).regions p = if p = t then r else s.regions p := by
  rw [System.regions, System.setRegions, setTcb_tcb]
  split_ifs <;> rfl

lemma setRegions_vmem (s : System) (t : ℕ) (r : RegionMap) (p : ℕ) : (s.setRegions t r).vmem p = s.vmem p := by
  rw [System.vmem, System.setRegions, setTcb_tcb]
  split_ifs with h
  · rw [h]
    rfl
  · rfl

lemma setRegions_rid (s : System) (t : ℕ) (r : RegionMap) (p : ℕ) :
    ((s.setRegions t r).tcb p).rid = (s.tcb p).rid ∧ ((s.setRegions t r).tcb p).refcount = (s.tcb p).refcount ∧
      ((s.setRegions t r).tcb p).shared = (s.tcb p).shared := by
  rw [System.setRegions, setTcb_tcb]
  split_ifs with h
  · subst h
    exact ⟨rfl, rfl, rfl⟩
  · exact ⟨rfl, rfl, rfl⟩

lemma setVmem_vmem (s : System) (t : ℕ) (m : Space) (p : ℕ) :
    (s.setVmem t m).vmem p = if p = t then m else s.vmem p := by
  rw [System.vmem, System.setVmem, setTcb_tcb]
  split_ifs <;> rfl

lemma setVmem_regions (s : System) (t : ℕ) (m : Space) (p : ℕ) : (s.setVmem t m).regions p = s.regions p := by
  rw [System.regions, System.setVmem, setTcb_tcb]
  split_ifs with h
  · rw [h]
    rfl
  · rfl

lemma setVmem_rid (s : System) (t : ℕ) (m : Space) (p : ℕ) :
    ((s.setVmem t m).tcb p).rid = (s.tcb p).rid ∧ ((s.setVmem t m).tcb p).refcount = (s.tcb p).refcount ∧
      ((s.setVmem t m).tcb p).shared = (s.tcb p).shared := by
  rw [System.setVmem, setTcb_tcb]
  split_ifs with h
  · subst h
    exact ⟨rfl, rfl, rfl⟩
  · exact ⟨rfl, rfl, rfl⟩

lemma setRefcount_tcb (s : System) (q : ℕ) (n : ℤ) (p : ℕ) :
    (s.setRefcount q n).tcb p = if p = q then { s.tcb q with refcount := n } else s.tcb p :=
  setTcb_tcb s q _ p

lemma setRefcount_memory (s : System) (q : ℕ) (n : ℤ) (p : ℕ) :
    ((s.setRefcount q n).tcb p).memory = (s.tcb p).memory := by
  rw [setRefcount_tcb]
  split_ifs with hp
  · rw [hp]
  · rfl

lemma setRefcount_regions (s : System) (q : ℕ) (n : ℤ) (p : ℕ) : (s.setRefcount q n).regions p = s.regions p := by
  rw [System.regions, setRefcount_memory]
  rfl

lemma view_setRefcount (s : System) (t : ℕ) (n : ℤ) : (s.setRefcount t n).view = s.view.setRefcount t n := by
  have htcb : ∀ p, ((s.setRefcount t n).tcb p).rid = (s.tcb p).rid ∧
      ((s.setRefcount t n).tcb p).memory = (s.tcb p).memory ∧
      ((s.setRefcount t n).tcb p).refcount = if p = t then n else (s.tcb p).refcount := by
    intro p
    rw [System.setRefcount, setTcb_tcb]
    split_ifs with h
    · subst h
      exact ⟨rfl, rfl, rfl⟩
    · exact ⟨rfl, rfl, rfl⟩
  simp only [System.view, View.setRefcount, System.regions, System.vmem, htcb]
  rfl

lemma view_setVmem (s : System) (t : ℕ) (m : Space) : (s.setVmem t m).view = s.view.setByte t (byteAt m) := by
  have hbyte : ∀ p, byteAt ((s.setVmem t m).vmem p) = if p = t then byteAt m else byteAt (s.vmem p) := by
    intro p
    rw [setVmem_vmem]
    split_ifs <;> rfl
  simp only [System.view, View.setByte, setVmem_regions, setVmem_rid, hbyte]
  rfl

lemma view_setRegions (s : System) (t : ℕ) (r : RegionMap) :
    (s.setRegions t r).view = { s.view with used := fun p => if p = t then usedAt r else s.view.used p } := by
  have hused : ∀ p, usedAt ((s.setRegions t r).regions p) = if p = t then usedAt r else usedAt (s.regions p) := by
    intro p
    rw [setRegions_regions]
    split_ifs <;> rfl
  simp only [System.view, setRegions_vmem, setRegions_rid, hused]
  rfl

lemma view_freePages (s : System) (pages : List (ℕ × ℕ)) : (s.freePages pages).view = s.view := rfl

lemma view_setUsed {o : Option Region} (hu : ∀ p, usedAt r p = if p = page then o else usedAt (s.regions t) p) :
    (s.setRegions t r).view = s.view.setUsed t page o := by
  have hused : (fun p => if p = t then usedAt r else s.view.used p) =
      fun p page' => if p = t ∧ page' = page then o else s.view.used p page' := by
    funext p page'
    by_cases hp : p = t
    · subst hp
      simp only [if_true, hu, true_and]
      rfl
    · simp only [hp, false_and, if_false]
  rw [view_setRegions, View.setUsed, hused]

lemma findRegion_eq (hp : Partition (s.regions t) xs) (hg : s.view.used t page = some g) :
    ∃ x ∈ xs, s.findRegion t (page * basePageSize) = some x ∧ (s.regions t).region x = g ∧
      ((s.regions t).region x).used = true ∧ g.start = page := by
  obtain ⟨x, hx, rfl, hu, hs⟩ := (usedAt_eq_some hp).1 hg
  obtain ⟨found, hfound, hmem⟩ := findUsedRegion_spec hp (page * basePageSize)
  obtain rfl := (hmem x).2 ⟨⟨hx, hu⟩, by rw [page_mul, hs]⟩
  exact ⟨x, hx, by rw [System.findRegion, hfound]; rfl, rfl, hu, hs⟩

lemma setCount_view (hp : Partition (s.regions t) xs) (hx : x ∈ xs)
    (hu : ((s.regions t).region x).used = true) (n : ℕ) :
    (s.setCount t x n).view = s.view.setUsed t ((s.regions t).region x).start
      (some { (s.regions t).region x with refcount := n }) :=
  view_setUsed fun p => setRegion_usedAt hp hx hu p

end Kmi.Shared
