import Kmi.Vmem.Agree
import Kmi.Vmem.Holders

/-! The table of a thread has tables of the processes in it and no reference to them, so they
stay handed out only where no process that it still has entries of goes away. -/

namespace Kmi.Vmem

open Kmi.Mem

def TablesHeld (s : Machine) : Prop :=
  ∀ tid t, s.sys.tcbs tid = some t → zombie t = false → ∀ i < CSTACK_PAGE, isBranch (t.rpc i) = true →
    s.owner (pteAddr (t.rpc i)) ≠ none

def Uses (s : System) (tid pid : ℕ) : Prop :=
  ∃ t proc i, s.tcbs tid = some t ∧ zombie t = false ∧ procOf s.tcbs pid = some proc ∧ i < CSTACK_PAGE ∧
    isBranch (proc i) = true ∧ t.rpc i = proc i

def Machine.Proper (s : Machine) : MachineEvent → Prop
  | .call (.page _ (.map _ vaddr flags order pages)) =>
    vaddr < UVMEM_END ∧ order ≤ maxOrder ∧ flags &&& VM_V ≠ 0 ∧ NewPages s.owner pages
  | .call (.page _ (.unmap vaddr)) => vaddr < UVMEM_END
  | .call (.exec _ image) => image.UserOnly ∧ NewPages s.owner (image.sections.flatMap Mapping.pages)
  | .call (.create _ _ _ pages) => NewPages s.owner pages
  | .call (.createProc _ _ pages) => NewPages s.owner pages
  | _ => True

/-- Where an `exec` succeeds or a last reference is given back, no thread that lives on uses
the process; and no page goes where a larger one is. -/
def Machine.Careful (s : Machine) : MachineEvent → Prop
  | .call (.exec pid image) => image.loads s.sys.kvmem s.sys.low = true → s.refcount pid = 1 →
      ∀ tid, ¬ Uses s.sys tid pid
  | .call (.resp tid) => ∀ t, s.sys.tcbs tid = some t → s.refcount t.pid = 1 →
      ∀ uid, ¬ Uses s.sys uid t.pid
  | .exit tid => ∀ t, s.sys.tcbs tid = some t → ∀ pid, pid = t.rid ∨ pid = tid → s.refcount pid = 1 →
      ∀ uid ≠ tid, ¬ Uses s.sys uid pid
  | .unshare pid => s.refcount pid = 1 → ∀ tid, ¬ Uses s.sys tid pid
  | .call (.page pid (.map _ vaddr _ order _)) => ∀ proc, procOf s.sys.tcbs pid = some proc →
      ∀ x, statVpage ⟨proc, s.sys.low⟩ vaddr = some x → x.order ≤ order
  | _ => True

inductive Machine.RunsWith (cond : Machine → MachineEvent → Prop) : Machine → Prop
  | init (kvmem : ℕ) (low : ℕ → Table) : RunsWith cond (initMachine kvmem low)
  | step {s s' : Machine} (e : MachineEvent) : RunsWith cond s → s.Proper e → cond s e →
      s.step e = some s' → RunsWith cond s'

variable {E : ℕ → Prop} {s s' : System} {x x' : Machine} {t t' : Tcb} {tid pid : ℕ} {m : Space}
  {owner owner' : ℕ → Option Holder} {proc root : Table}

/-- The user entries of a live thread are entries of process tables, except for the threads
`E`; the tables are handed out to those who have them. -/
structure Sound (E : ℕ → Prop) (s : System) (owner : ℕ → Option Holder) : Prop where
  tid : ∀ tid t, s.tcbs tid = some t → t.tid = tid
  closed : ∀ tid t, s.tcbs tid = some t → Closed t.rpc
  rpc : ∀ tid t, s.tcbs tid = some t → zombie t = false → ¬ E tid → ∀ i < CSTACK_PAGE,
    isBranch (t.rpc i) = true → ∃ pid proc, procOf s.tcbs pid = some proc ∧ proc i = t.rpc i
  proc : ∀ pid proc, procOf s.tcbs pid = some proc →
    Holds owner (.proc pid) (· < KERNEL_PAGE) ⟨proc, s.low⟩
  stack : ∀ tid t, s.tcbs tid = some t → zombie t = false →
    Holds owner (.stack tid) (fun i => CSTACK_PAGE ≤ i ∧ i < KERNEL_PAGE) ⟨t.rpc, s.low⟩

lemma Holds.root_branch {holder : Holder} {R : ℕ → Prop} {i : ℕ} (h : Holds owner holder R m) (hi : R i)
    (hb : isBranch (m.root i) = true) : owner (pteAddr (m.root i)) = some holder := by
  obtain ⟨level, hl, hlev⟩ := h
  obtain ⟨o', -, ho⟩ := (hlev.root i hi).branch hb
  exact hl _ _ ho

lemma Sound.tablesHeld (h : Sound (fun _ => False) x.sys x.owner) : TablesHeld x := by
  intro tid t ht hz i hi hb
  obtain ⟨pid, proc, hproc, he⟩ := h.rpc tid t ht hz id i hi hb
  rw [← he] at hb ⊢
  rw [(h.proc pid proc hproc).root_branch (hi.trans (by decide)) hb]
  exact Option.some_ne_none _

lemma Holds.congr_root {holder : Holder} {R : ℕ → Prop} {root' : Table} {low : ℕ → Table}
    (h : Holds owner holder R ⟨root, low⟩) (hr : ∀ i, R i → root' i = root i) :
    Holds owner holder R ⟨root', low⟩ := by
  obtain ⟨level, hl, hlev⟩ := h
  refine ⟨level, hl, fun i hi => ?_, hlev.low⟩
  change Entry _ level maxOrder (root' i)
  rw [hr i hi]
  exact hlev.root i hi

lemma setTcb_tcbs (s : System) (tid : ℕ) (t : Tcb) :
    (s.setTcb tid t).tcbs = Function.update s.tcbs tid (some t) := rfl

lemma setProc_tcbs (s : System) (pid : ℕ) (t : Tcb) (m : Space) :
    (s.setProc pid t m).tcbs = Function.update s.tcbs pid (some { t with proc := some m.root }) := rfl

lemma Sound.setTcb (h : Sound E s owner) (ht : s.tcbs tid = some t) (htid : t'.tid = t.tid)
    (hproc : t'.proc = t.proc) (hc : Closed t'.rpc) (hz : zombie t' = false → zombie t = false)
    (hrpc : zombie t' = false → ¬ E tid → ∀ i < CSTACK_PAGE, isBranch (t'.rpc i) = true →
      ∃ pid proc, procOf s.tcbs pid = some proc ∧ proc i = t'.rpc i)
    (hstack : ∀ i, CSTACK_PAGE ≤ i → t'.rpc i = t.rpc i) : Sound E (s.setTcb tid t') owner := by
  have hcases : ∀ uid u, (s.setTcb tid t').tcbs uid = some u → uid = tid ∧ u = t' ∨ s.tcbs uid = some u := by
    intro uid u hu
    obtain rfl | hne := eq_or_ne uid tid
    · rw [setTcb_tcbs, Function.update_self] at hu
      cases hu
      exact .inl ⟨rfl, rfl⟩
    · rw [setTcb_tcbs, Function.update_of_ne hne] at hu
      exact .inr hu
  have hp : ∀ pid, procOf (s.setTcb tid t').tcbs pid = procOf s.tcbs pid := fun pid =>
    procOf_update ht hproc pid
  refine ⟨fun uid u hu => ?_, fun uid u hu => ?_, fun uid u hu hzu hE i hi hb => ?_,
    fun pid proc hpid => ?_, fun uid u hu hzu => ?_⟩
  · obtain ⟨rfl, rfl⟩ | hu := hcases uid u hu
    · exact htid.trans (h.tid _ t ht)
    · exact h.tid uid u hu
  · obtain ⟨rfl, rfl⟩ | hu := hcases uid u hu
    · exact hc
    · exact h.closed uid u hu
  · simp only [hp]
    obtain ⟨rfl, rfl⟩ | hu := hcases uid u hu
    · exact hrpc hzu hE i hi hb
    · exact h.rpc uid u hu hzu hE i hi hb
  · rw [hp] at hpid
    exact h.proc pid proc hpid
  · obtain ⟨rfl, rfl⟩ | hu := hcases uid u hu
    · exact (h.stack _ t ht (hz hzu)).congr_root fun i hi => hstack i hi.1
    · exact h.stack uid u hu hzu

lemma Sound.setTcb_same (h : Sound E s owner) (ht : s.tcbs tid = some t) (htid : t'.tid = t.tid)
    (hproc : t'.proc = t.proc) (hr : t'.rpc = t.rpc) (hz : zombie t' = false → zombie t = false) :
    Sound E (s.setTcb tid t') owner := by
  refine h.setTcb ht htid hproc ?_ hz (fun hz' hE i hi hb => ?_) fun i _ => by rw [hr]
  · rw [hr]
    exact h.closed tid t ht
  · rw [hr] at hb ⊢
    exact h.rpc tid t ht (hz hz') hE i hi hb

lemma Sound.setTcb_recloned (h : Sound E s owner) (ht : s.tcbs tid = some t)
    (hz : zombie t' = false → zombie t = false) (hr : Recloned s.tcbs t t') : Sound E (s.setTcb tid t') owner := by
  obtain ⟨htid, hproc, proc, hp, hclone⟩ := hr
  have hc := h.closed tid t ht
  refine h.setTcb ht htid hproc ?_ hz (fun _ _ i hi hb => ⟨t'.pid, proc, hp, ?_⟩) fun i hi => ?_
  · rw [hclone]
    exact cloneUvmem_closed proc hc
  · rw [hclone] at hb ⊢
    have hs := isBranch_stops hb
    rw [stops, Bool.or_eq_false_iff] at hs
    exact (cloneUvmem_used proc hc hi hs.1).symm
  · rw [hclone]
    exact cloneUvmem_above proc t.rpc hi

lemma Sound.setProc (h : Sound E s owner) (ht : s.tcbs pid = some t) (hproc : t.proc = some proc)
    (hm : Holds owner' (.proc pid) (· < KERNEL_PAGE) m) (hs : Spares (.proc pid) owner owner' s.low m.low)
    (hk : ∀ uid u, s.tcbs uid = some u → zombie u = false → ¬ E uid → ∀ i < CSTACK_PAGE,
      isBranch (u.rpc i) = true → proc i = u.rpc i → m.root i = u.rpc i) :
    Sound E (s.setProc pid t m) owner' := by
  have hcases : ∀ uid u, (s.setProc pid t m).tcbs uid = some u →
      ∃ u₀, s.tcbs uid = some u₀ ∧ u.tid = u₀.tid ∧ u.rpc = u₀.rpc ∧ zombie u = zombie u₀ := by
    intro uid u hu
    obtain rfl | hne := eq_or_ne uid pid
    · rw [setProc_tcbs, Function.update_self] at hu
      cases hu
      exact ⟨t, ht, rfl, rfl, rfl⟩
    · rw [setProc_tcbs, Function.update_of_ne hne] at hu
      exact ⟨u, hu, rfl, rfl, rfl⟩
  have hold : procOf s.tcbs pid = some proc := by
    rw [procOf, ht]
    exact hproc
  have hnew : procOf (s.setProc pid t m).tcbs pid = some m.root := by
    rw [procOf, setProc_tcbs, Function.update_self]
    rfl
  have hne : ∀ qid, qid ≠ pid → procOf (s.setProc pid t m).tcbs qid = procOf s.tcbs qid :=
    fun qid hq => procOf_update_ne hq _
  refine ⟨fun uid u hu => ?_, fun uid u hu => ?_, fun uid u hu hz hE i hi hb => ?_,
    fun qid root hq => ?_, fun uid u hu hz => ?_⟩
  · obtain ⟨u₀, hu₀, htid, -, -⟩ := hcases uid u hu
    exact htid.trans (h.tid uid u₀ hu₀)
  · obtain ⟨u₀, hu₀, -, hr, -⟩ := hcases uid u hu
    rw [hr]
    exact h.closed uid u₀ hu₀
  · obtain ⟨u₀, hu₀, -, hr, hz₀⟩ := hcases uid u hu
    rw [hz₀] at hz
    rw [hr] at hb ⊢
    obtain ⟨qid, root, hq, he⟩ := h.rpc uid u₀ hu₀ hz hE i hi hb
    obtain rfl | hqne := eq_or_ne qid pid
    · obtain rfl := Option.some.inj (hold.symm.trans hq)
      exact ⟨qid, m.root, hnew, hk uid u₀ hu₀ hz hE i hi hb he⟩
    · exact ⟨qid, root, (hne qid hqne).trans hq, he⟩
  · obtain rfl | hqne := eq_or_ne qid pid
    · obtain rfl := Option.some.inj (hnew.symm.trans hq)
      exact hm
    · rw [hne qid hqne] at hq
      exact (h.proc qid root hq).spared (fun heq => hqne (Holder.proc.inj heq)) hs
  · obtain ⟨u₀, hu₀, -, hr, hz₀⟩ := hcases uid u hu
    rw [hz₀] at hz
    rw [hr]
    exact (h.stack uid u₀ hu₀ hz).spared (fun heq => by cases heq) hs

lemma Sound.destroyThreadData (h : Sound E x.sys x.owner) (ht : x.sys.tcbs tid = some t)
    (hno : ∀ uid, ¬ E uid → ¬ Uses x.sys uid tid) (hd : Vmem.destroyThreadData x t = some x') :
    Sound E x'.sys x'.owner ∧ x'.sys.tcbs = Function.update x.sys.tcbs tid none ∧
      x'.refcount = x.refcount ∧ zombie t = true := by
  have htid := h.tid tid t ht
  have hsys : ∀ owner', Spares (.proc tid) x.owner owner' x.sys.low x.sys.low →
      Sound E { x.sys with tcbs := Function.update x.sys.tcbs tid none } owner' := by
    intro owner' hs
    have hcases : ∀ uid u, Function.update x.sys.tcbs tid none uid = some u →
        uid ≠ tid ∧ x.sys.tcbs uid = some u := by
      intro uid u hu
      obtain rfl | hne := eq_or_ne uid tid
      · rw [Function.update_self] at hu
        cases hu
      · rw [Function.update_of_ne hne] at hu
        exact ⟨hne, hu⟩
    refine ⟨fun uid u hu => h.tid uid u (hcases uid u hu).2, fun uid u hu => h.closed uid u (hcases uid u hu).2,
      fun uid u hu hz hE i hi hb => ?_, fun pid proc hp => ?_, fun uid u hu hz => ?_⟩
    · have hold := (hcases uid u hu).2
      obtain ⟨pid, proc, hp, he⟩ := h.rpc uid u hold hz hE i hi hb
      have hne : pid ≠ tid := by
        rintro rfl
        exact hno uid hE ⟨u, proc, i, hold, hz, hp, hi, by rwa [he], he.symm⟩
      exact ⟨pid, proc, (procOf_update_ne hne none).trans hp, he⟩
    · obtain rfl | hne := eq_or_ne pid tid
      · simp [procOf] at hp
      · have hold := (procOf_update_ne hne none).symm.trans hp
        exact (h.proc pid proc hold).spared (fun heq => hne (Holder.proc.inj heq)) hs
    · obtain ⟨-, hu⟩ := hcases uid u hu
      exact (h.stack uid u hu hz).spared (fun heq => by cases heq) hs
  rw [Vmem.destroyThreadData] at hd
  split_ifs at hd with hz
  · rw [htid] at hd
    cases hproc : t.proc with
    | none =>
      rw [hproc] at hd
      cases hd
      exact ⟨hsys _ (.refl _ _ _), rfl, rfl, hz⟩
    | some proc =>
      rw [hproc] at hd
      simp only [Option.bind_eq_bind, Option.bind_eq_some_iff, Option.some.injEq] at hd
      obtain ⟨freed, hfreed, rfl⟩ := hd
      have hold : procOf x.sys.tcbs tid = some proc := by
        rw [procOf, ht]
        exact hproc
      have hown := (h.proc tid proc hold).destroyEntries (fun _ _ hi => hi) hfreed
      exact ⟨hsys _ (giveBack_spares hown _), rfl, rfl, hz⟩

structure Dropped (E : ℕ → Prop) (tid : ℕ) (x x' : Machine) : Prop where
  sound : Sound E x'.sys x'.owner
  sub : ∀ uid u, x'.sys.tcbs uid = some u → x.sys.tcbs uid = some u
  alive : ∀ uid u, x.sys.tcbs uid = some u → zombie u = false → x'.sys.tcbs uid = some u
  refcount : ∀ uid ≠ tid, x'.refcount uid = x.refcount uid

lemma Sound.unreferenceThread (h : Sound E x.sys x.owner)
    (hno : x.refcount tid = 1 → ∀ uid, ¬ E uid → ¬ Uses x.sys uid tid)
    (hd : Vmem.unreferenceThread x tid = some x') : Dropped E tid x x' := by
  rw [Vmem.unreferenceThread] at hd
  cases ht : x.sys.tcbs tid with
  | none =>
    rw [ht] at hd
    cases hd
    exact ⟨h, fun _ _ hu => hu, fun _ _ hu _ => hu, fun _ _ => rfl⟩
  | some t =>
    rw [ht] at hd
    dsimp only at hd
    have hcount : ∀ n, ∀ uid ≠ tid, Function.update x.refcount tid n uid = x.refcount uid :=
      fun n uid hne => Function.update_of_ne hne _ _
    split_ifs at hd with hzero hneg
    · obtain ⟨hs, htcbs, href, hz⟩ := @Sound.destroyThreadData E
        { x with refcount := Function.update x.refcount tid (x.refcount tid - 1) } x' t tid h ht
        (hno (by omega)) hd
      dsimp only at htcbs href
      refine ⟨hs, fun uid u hu => ?_, fun uid u hu hzu => ?_, fun uid hne => ?_⟩
      · rw [htcbs] at hu
        obtain rfl | hne := eq_or_ne uid tid
        · rw [Function.update_self] at hu
          cases hu
        · rwa [Function.update_of_ne hne] at hu
      · have hne : uid ≠ tid := by
          rintro rfl
          obtain rfl := Option.some.inj (hu.symm.trans ht)
          rw [hz] at hzu
          cases hzu
        rw [htcbs, Function.update_of_ne hne, hu]
      · rw [href, hcount _ uid hne]
    · cases hd
      exact ⟨h, fun _ _ hu => hu, fun _ _ hu _ => hu, hcount _⟩

lemma Sound.weaken {E' : ℕ → Prop} (h : Sound E s owner) (hE : ∀ uid, E uid → E' uid) : Sound E' s owner :=
  ⟨h.tid, h.closed, fun uid u hu hz hn => h.rpc uid u hu hz fun he => hn (hE uid he), h.proc, h.stack⟩

lemma Sound.destroyThread (h : Sound (fun _ => False) x.sys x.owner) (ht : x.sys.tcbs tid = some t)
    (hz : zombie t = false) (hno : ∀ pid, pid = t.rid ∨ pid = tid → x.refcount pid = 1 →
      ∀ uid ≠ tid, ¬ Uses x.sys uid pid) (hd : Vmem.destroyThread x t = some x') :
    Sound (fun _ => False) x'.sys x'.owner := by
  have htid := h.tid tid t ht
  rw [Vmem.destroyThread] at hd
  split_ifs at hd with hinit
  simp only [Option.bind_eq_bind, Option.bind_eq_some_iff] at hd
  obtain ⟨x₁, hroot, freed, hfreed, hd⟩ := hd
  have hdrop : Dropped (· = tid) t.rid x x₁ := by
    rw [unreferenceRoot] at hroot
    split_ifs at hroot with hrid
    · cases hroot
      exact ⟨h.weaken fun _ => False.elim, fun _ _ hu => hu, fun _ _ hu _ => hu, fun _ _ => rfl⟩
    · exact (h.weaken fun _ => False.elim).unreferenceThread (hno t.rid (.inl rfl)) hroot
  have ht₁ := hdrop.alive tid t ht hz
  have hown := (hdrop.sound.stack tid t ht₁ hz).destroyEntries (fun _ hi hi' => ⟨hi, hi'⟩) hfreed
  have hs := giveBack_spares hown x₁.sys.low
  have hlast : Vmem.unreferenceThread { x₁ with
      sys := x₁.sys.setTcb tid { t with rid := 0 }, owner := giveBack x₁.owner freed } tid = some x' := by
    rwa [← htid]
  have hcases : ∀ uid u, (x₁.sys.setTcb tid { t with rid := 0 }).tcbs uid = some u → zombie u = false →
      uid ≠ tid ∧ x₁.sys.tcbs uid = some u := by
    intro uid u hu hzu
    obtain rfl | hne := eq_or_ne uid tid
    · rw [setTcb_tcbs, Function.update_self] at hu
      cases hu
      cases hzu
    · rw [setTcb_tcbs, Function.update_of_ne hne] at hu
      exact ⟨hne, hu⟩
  have hproc : ∀ pid, procOf (x₁.sys.setTcb tid { t with rid := 0 }).tcbs pid = procOf x₁.sys.tcbs pid :=
    fun pid => @procOf_update t { t with rid := 0 } _ tid ht₁ rfl pid
  have hsame : Sound (· = tid) (x₁.sys.setTcb tid { t with rid := 0 }) x₁.owner :=
    hdrop.sound.setTcb_same ht₁ rfl rfl rfl fun hz => by cases hz
  have hsound : Sound (fun _ => False) (x₁.sys.setTcb tid { t with rid := 0 }) (giveBack x₁.owner freed) := by
    refine ⟨hsame.tid, hsame.closed, fun uid u hu hzu _ i hi hb => ?_, fun pid proc hp => ?_,
      fun uid u hu hzu => ?_⟩
    · exact hsame.rpc uid u hu hzu (hcases uid u hu hzu).1 i hi hb
    · exact (hsame.proc pid proc hp).spared (fun heq => by cases heq) hs
    · exact (hsame.stack uid u hu hzu).spared
        (fun heq => (hcases uid u hu hzu).1 (Holder.stack.inj heq)) hs
  apply (hsound.unreferenceThread _ hlast).sound
  -- the reference that is left is the one of the thread itself
  rintro hone uid - ⟨u, proc, i, hu, hzu, hp, hi, hb, he⟩
  obtain ⟨hne, hu⟩ := hcases uid u hu hzu
  dsimp only at hone hp
  rw [hproc, procOf, ht₁] at hp
  refine hno tid (.inr rfl) ?_ uid hne ⟨u, proc, i, hdrop.sub uid u hu, hzu, ?_, hi, hb, he⟩
  · rw [unreferenceRoot] at hroot
    by_cases hrid : t.rid = tid
    · rw [if_pos (hrid.trans htid.symm)] at hroot
      cases hroot
      exact hone
    · rw [← hdrop.refcount tid fun heq => hrid heq.symm, hone]
  · rw [procOf, ht]
    exact hp

end Kmi.Vmem
