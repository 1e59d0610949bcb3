import Kmi.Kernel.Transparent
import Kmi.Kernel.Atomic

/-! What is left of a thread that exits. The successor is taken into use first, and where
that does not come back the thread is not destroyed. -/

namespace Kmi.Kernel

open Library.Prog

open Rpc (OK)

variable {α β : Type} {k k' k'' : State} {c tid : ℤ} {s t r : ℕ} {ps : List ℕ}

structure Exiting (k : State) (c : ℤ) (t : ℕ) : Prop where
  current : k.tp c = some t
  running : k.cpuTcb c = some t
  cpuId : (k.tcb t).cpuId = c
  allowed : ∃ p, k.getTcb (k.tcb t).thread.eid = some p ∧ isSet (k.tcb p).caps CAP_PROC = true
  notInit : (k.tcb t).thread.tid ≠ 1
  ipi : k.ipi = Ipi.initHeads

def Accepted (k : State) (tid : ℤ) : Prop :=
  tid = 0 ∨ ∃ s, k.getTcb tid = some s ∧ (k.tcb s).zombie = false ∧ k.running s = false

structure Gone (k k' : State) (t : ℕ) : Prop where
  dead : (k'.tcb t).dead = true
  zombie : (k'.tcb t).zombie = true
  rpcStack : ∀ p, (k.tcb t).rpcPage = some p → k'.pages p = false
  rpcVmem : ∀ p, (k.tcb t).rpcVmem = some p → k'.pages p = false
  tables : ∀ p ∈ (k.tcb t).rpcTables, k'.pages p = false
  refcount : (k'.tcb t).refcount = (k.tcb t).refcount - 1

def ExitsWell (k : State) (c : ℤ) (t : ℕ) (tid : ℤ) : Prop :=
  Ends (sysExit c t tid)
    (fun _ k' => Gone k k' t ∧ ∃ s, k.getTcb tid = some s ∧ k'.tp c = some s)
    (fun e k' => Gone k k' t ∧ tid = 0 ∧ e = .asleep) k

def HandsOver (k : State) (s r : ℕ) : Prop :=
  (k.tcb s).notifyFlags ≠ 0 ∧ k.getTcb (k.tcb s).notifyId = some r ∧ unavailable (k.tcb r) = false ∧
    (isSet (k.tcb s).notifyFlags (NOTIFY_IRQ ||| NOTIFY_TIMER) || !Rpc.isRpc (k.tcb s).thread) = true ∧
    Rpc.enoughRpcStackFor k.rpcStackSize (k.tcb r).thread = true

/-- Taking `s` into use on processor `c` does not come back: `s` is given to init, or a
handler that no other processor runs takes over. -/
def TakenAway (k : State) (c : ℤ) (s : ℕ) : Prop :=
  (!Rpc.isRpc (k.tcb s).thread && (k.tcb s).thread.orphan) = true ∨
    ∃ r, HandsOver k s r ∧ (k.running r = false ∨ (k.tcb r).cpuId = c)

def Held (k : State) (r : ℕ) : Prop := 1 < (k.tcb r).refcount ∨ (k.tcb r).refcount = 1 ∧ (k.tcb r).zombie = true

def CountsHold (k : State) (t : ℕ) : Prop :=
  1 ≤ (k.tcb t).refcount ∧ ∀ r, k.getTcb (k.tcb t).rid = some r → r ≠ t → Held k r

structure Undisturbed (k k' : State) : Prop where
  getTcb : ∀ id, k'.getTcb id = k.getTcb id
  pages : k'.pages = k.pages
  ipi : k'.ipi = k.ipi
  tid : ∀ a, (k'.tcb a).thread.tid = (k.tcb a).thread.tid
  rid : ∀ a, (k'.tcb a).rid = (k.tcb a).rid
  refcount : ∀ a, (k'.tcb a).refcount = (k.tcb a).refcount
  rpcPage : ∀ a, (k'.tcb a).rpcPage = (k.tcb a).rpcPage
  rpcVmem : ∀ a, (k'.tcb a).rpcVmem = (k.tcb a).rpcVmem
  rpcTables : ∀ a, (k'.tcb a).rpcTables = (k.tcb a).rpcTables

lemma Undisturbed.countsHold (h : Undisturbed k k') : CountsHold k' t ↔ CountsHold k t := by
  simp only [CountsHold, Held, Tcb.zombie, h.getTcb, h.rid, h.refcount]

lemma Undisturbed.trans (h : Undisturbed k k') (h' : Undisturbed k' k'') : Undisturbed k k'' where
  getTcb := fun id => (h'.getTcb id).trans (h.getTcb id)
  pages := h'.pages.trans h.pages
  ipi := h'.ipi.trans h.ipi
  tid := fun a => (h'.tid a).trans (h.tid a)
  rid := fun a => (h'.rid a).trans (h.rid a)
  refcount := fun a => (h'.refcount a).trans (h.refcount a)
  rpcPage := fun a => (h'.rpcPage a).trans (h.rpcPage a)
  rpcVmem := fun a => (h'.rpcVmem a).trans (h.rpcVmem a)
  rpcTables := fun a => (h'.rpcTables a).trans (h.rpcTables a)

lemma Gone.before (h : Gone k' k'' t) (hu : Undisturbed k k') : Gone k k'' t where
  dead := h.dead
  zombie := h.zombie
  rpcStack := fun p hp => h.rpcStack p (by rw [hu.rpcPage, hp])
  rpcVmem := fun p hp => h.rpcVmem p (by rw [hu.rpcVmem, hp])
  tables := fun p hp => h.tables p (by rw [hu.rpcTables]; exact hp)
  refcount := by rw [h.refcount, hu.refcount]

def withoutPages (k : State) (ps : List ℕ) : State :=
  { k with pages := fun p => if p ∈ ps then false else k.pages p }

lemma freeAll_freePage (ps : List ℕ) (k : State) : freeAll freePage ps k = .ok () (withoutPages k ps) := by
  induction ps generalizing k with
  | nil =>
    simp only [freeAll, withoutPages, List.not_mem_nil, if_false]
    rfl
  | cons p ps ih =>
    have hstep : withoutPages { k with pages := Function.update k.pages p false } ps = withoutPages k (p :: ps) := by
      simp only [withoutPages, State.mk.injEq, and_true, true_and]
      funext q
      by_cases hq : q = p
      · simp [hq]
      · simp [hq, Function.update_of_ne]
    rw [← hstep, ← ih]
    rfl

lemma freeAll_freeNode (ps : List ℕ) (k : State) :
    ∃ nodes, freeAll freeNode ps k = .ok () { k with nodes := nodes } := by
  induction ps generalizing k with
  | nil => exact ⟨k.nodes, rfl⟩
  | cons p ps ih =>
    obtain ⟨nodes, h⟩ := ih { k with nodes := Function.update k.nodes p false }
    exact ⟨nodes, h⟩

structure Dropped (k k' : State) (r : ℕ) : Prop where
  tcb : ∀ a, k'.tcb a = { k.tcb a with refcount := if a = r then (k.tcb a).refcount - 1 else (k.tcb a).refcount }
  tp : k'.tp = k.tp
  ipi : k'.ipi = k.ipi
  pages : ∀ p, k.pages p = false → k'.pages p = false

lemma destroyThreadData_decides (hz : (k.tcb r).refcount = 0) :
    Ends (destroyThreadData r)
      (fun _ k' => (k.tcb r).zombie = true ∧ k'.tcb = k.tcb ∧ k'.tp = k.tp ∧ k'.ipi = k.ipi ∧
        ∀ p, k.pages p = false → k'.pages p = false)
      (fun e _ => ¬ (k.tcb r).zombie = true ∧ e = .stuck) k := by
  rw [destroyThreadData, ends_bind, ends_get, ends_bind, ends_assert]
  refine ⟨fun hn => absurd (decide_eq_true hz) (by simp [hn]), fun _ => ?_⟩
  rw [ends_bind, ends_assert]
  refine ⟨fun hf => ⟨by simp [hf], rfl⟩, fun hzombie => ?_⟩
  obtain ⟨nodes, hnodes⟩ := freeAll_freeNode (k.tcb r).region.toList
    { k with indices := k.indices ++ [(k.tcb r).thread.tid], tcbs := Function.update k.tcbs (k.tcb r).thread.tid none }
  rw [ends_bind, writeTcbs, ends_modify, ends_bind, ends_iff_of_ok hnodes, ends_bind,
    ends_iff_of_ok (freeAll_freePage _ _), freeStack, ends_modify]
  refine ⟨hzombie, rfl, rfl, rfl, fun p hp => ?_⟩
  simp only [withoutPages, hp, ite_self]

lemma unreferenceThread_decides (k : State) (r : ℕ) :
    Ends (unreferenceThread (some r)) (fun _ k' => Held k r ∧ Dropped k k' r)
      (fun e _ => ¬ Held k r ∧ e = .stuck) k := by
  rw [unreferenceThread, ends_bind, ends_modifyTcb, ends_bind, ends_get]
  have htcb : ∀ a, (k.setTcb r { k.tcb r with refcount := (k.tcb r).refcount - 1 }).tcb a =
      { k.tcb a with refcount := if a = r then (k.tcb a).refcount - 1 else (k.tcb a).refcount } := by
    intro a
    rw [setTcb_tcb]
    split_ifs with h
    · rw [h]
    · rfl
  have hcount := congrArg Tcb.refcount (htcb r)
  have hzombie := congrArg Tcb.zombie (htcb r)
  simp only [if_true] at hcount
  generalize hk₁ : k.setTcb r { k.tcb r with refcount := (k.tcb r).refcount - 1 } = k₁ at htcb hcount hzombie ⊢
  have htp : k₁.tp = k.tp := by rw [← hk₁]; rfl
  have hipi : k₁.ipi = k.ipi := by rw [← hk₁]; rfl
  have hpages : k₁.pages = k.pages := by rw [← hk₁]; rfl
  change (k₁.tcb r).zombie = (k.tcb r).zombie at hzombie
  have hdrop : Dropped k k₁ r := ⟨htcb, htp, hipi, fun p hp => by rw [hpages, hp]⟩
  by_cases hz : (k₁.tcb r).refcount = 0
  · have hone : (k.tcb r).refcount = 1 := by omega
    rw [onlyIf, if_pos hz]
    refine ends_bind.2 ((destroyThreadData_decides hz).mono ?_ ?_)
    · rintro _ k₂ ⟨hdead, htcb₂, htp₂, hipi₂, hpages₂⟩
      rw [ends_bind, ends_get, ends_assert, htcb₂, hz]
      refine ⟨fun hf => by simp at hf, fun _ => ⟨.inr ⟨hone, by rw [← hzombie, hdead]⟩, ?_⟩⟩
      refine ⟨fun a => by rw [htcb₂, htcb], htp₂.trans htp, hipi₂.trans hipi, fun p hp => ?_⟩
      exact hpages₂ p (hdrop.pages p hp)
    · rintro e _ ⟨hdead, rfl⟩
      refine ⟨?_, rfl⟩
      rintro (hlt | ⟨-, hdead'⟩)
      · omega
      · exact hdead (by rw [hzombie, hdead'])
  · rw [onlyIf, if_neg hz, ends_bind, ends_pure, ends_bind, ends_get, ends_assert, decide_eq_false_iff_not,
      decide_eq_true_iff]
    refine ⟨fun hneg => ⟨?_, rfl⟩, fun hge => ⟨.inl (by omega), hdrop⟩⟩
    rintro (hlt | ⟨hone, -⟩)
    · omega
    · omega

lemma destroyThread_decides (hid : (k.tcb t).thread.tid ≠ 1) (hipi : k.ipi = Ipi.initHeads) :
    Ends (destroyThread t) (fun _ k' => CountsHold k t ∧ Gone k k' t ∧ k'.tp = k.tp)
      (fun e _ => ¬ CountsHold k t ∧ e = .stuck) k := by
  -- the root process, which is another thread
  have hroot : Ends (onlyIf (k.getTcb (k.tcb t).rid ≠ some t) (unreferenceThread (k.getTcb (k.tcb t).rid)))
      (fun _ k' => (∀ r, k.getTcb (k.tcb t).rid = some r → r ≠ t → Held k r) ∧ k'.tcb t = k.tcb t ∧
        k'.tp = k.tp ∧ k'.ipi = k.ipi)
      (fun e _ => ¬ CountsHold k t ∧ e = .stuck) k := by
    cases hr : k.getTcb (k.tcb t).rid with
    | none =>
      rw [onlyIf, if_pos (by simp), unreferenceThread, ends_pure]
      exact ⟨fun r hr' => (by cases hr'), rfl, rfl, rfl⟩
    | some r =>
      by_cases hrt : r = t
      · rw [onlyIf, if_neg (by simp [hrt]), ends_pure]
        refine ⟨fun r' hr' hne => ?_, rfl, rfl, rfl⟩
        cases hr'
        exact absurd hrt hne
      · rw [onlyIf, if_pos (by simpa using hrt)]
        refine (unreferenceThread_decides k r).mono ?_ ?_
        · rintro _ k₁ ⟨hheld, hd⟩
          refine ⟨fun r' hr' _ => ?_, ?_, hd.tp, hd.ipi⟩
          · cases hr'
            exact hheld
          · rw [hd.tcb, if_neg fun h => hrt h.symm]
        · rintro e _ ⟨hheld, rfl⟩
          exact ⟨fun hc => hheld (hc.2 r hr hrt), rfl⟩
  rw [destroyThread, ends_bind, ends_get, ends_bind, ends_assert]
  refine ⟨fun hf => absurd (decide_eq_false_iff_not.mp hf) (by simp [hid]), fun _ => ?_⟩
  dsimp only
  refine ends_bind.2 (hroot.mono ?_ fun _ _ he => he)
  rintro _ k₁ ⟨hheld, htcb₁, htp₁, hipi₁⟩
  rw [ends_bind, ends_get, ends_bind, ends_iff_of_ok (freeAll_freePage _ _), ends_bind, destroyRpcmem,
    ends_bind, ends_get, ends_iff_of_ok (freeAll_freePage _ _), ends_bind, unqueueIpi, ends_bind, ends_get,
    ends_bind, ends_deref, show (withoutPages (withoutPages k₁ _) _).ipi = Ipi.initHeads from hipi₁.trans hipi,
    Ipi.unqueueIpi_init]
  refine ⟨fun hf => (by cases hf), fun ipi hi => ?_⟩
  cases hi
  rw [ends_modify, ends_bind, ends_modifyTcb]
  -- the thread itself, which is dead by now
  generalize hk₂ : State.setTcb _ t _ = k₂
  have htcb₂ : k₂.tcb t = { k.tcb t with dead := true, rid := 0 } := by
    rw [← hk₂, setTcb_tcb_self]
    exact congrArg (fun x : Tcb => { x with dead := true, rid := 0 }) htcb₁
  have htp₂ : k₂.tp = k.tp := by
    rw [← hk₂]
    exact htp₁
  have hpages₂ : ∀ p ∈ (k.tcb t).rpcPage.toList ++ ((k.tcb t).rpcTables ++ (k.tcb t).rpcVmem.toList),
      k₂.pages p = false := by
    intro p hp
    rw [← hk₂]
    change (if p ∈ ((withoutPages k₁ (k₁.tcb t).rpcPage.toList).tcb t).rpcTables ++
        ((withoutPages k₁ (k₁.tcb t).rpcPage.toList).tcb t).rpcVmem.toList then false
      else if p ∈ (k₁.tcb t).rpcPage.toList then false else k₁.pages p) = false
    change (if p ∈ (k₁.tcb t).rpcTables ++ (k₁.tcb t).rpcVmem.toList then false
      else if p ∈ (k₁.tcb t).rpcPage.toList then false else k₁.pages p) = false
    rw [htcb₁]
    split_ifs with h₁ h₂
    · rfl
    · rfl
    · exact absurd (List.mem_append.mp hp) (not_or.mpr ⟨h₂, h₁⟩)
  have hheld₂ : Held k₂ t ↔ 1 ≤ (k.tcb t).refcount := by
    rw [Held, htcb₂]
    simp only [Tcb.zombie, decide_true, and_true]
    omega
  refine (unreferenceThread_decides k₂ t).mono ?_ ?_
  · rintro _ k₃ ⟨hself, hd⟩
    have htcb₃ := hd.tcb t
    rw [if_pos rfl, htcb₂] at htcb₃
    refine ⟨⟨hheld₂.mp hself, hheld⟩, ⟨?_, ?_, fun p hp => ?_, fun p hp => ?_, fun p hp => ?_, ?_⟩, hd.tp.trans htp₂⟩
    · rw [htcb₃]
    · rw [htcb₃]
      rfl
    · exact hd.pages p (hpages₂ p (by simp [hp]))
    · exact hd.pages p (hpages₂ p (by simp [hp]))
    · exact hd.pages p (hpages₂ p (by simp [hp]))
    · rw [htcb₃]
  · rintro e _ ⟨hself, rfl⟩
    exact ⟨fun hc => hself (hheld₂.mpr hc.1), rfl⟩

lemma requested_zero_tcb (k : State) (t : ℕ) : (requested k t 0).tcb = k.tcb := by
  funext a
  rw [requested_tcb, show (k.tcb t).notifyFlags ||| 0 = (k.tcb t).notifyFlags from BitVec.or_zero]
  dsimp only
  split_ifs with h
  · rw [h]
  · rfl

def Notifies (k : State) (c : ℤ) (t : ℕ) : Prop :=
  ∃ r, HandsOver k t r ∧ (k.running r && k.tp c ≠ some r) = false

lemma undisturbed_flags {f : ℕ → BitVec 32} {notes : List Note}
    (h : ∀ a, k'.tcb a = { k.tcb a with notifyFlags := f a })
    (hk : k' = { k with tcb := k'.tcb, notes := notes }) : Undisturbed k k' where
  getTcb := by
    intro id
    have htcbs : k'.tcbs = k.tcbs := by rw [hk]
    simp only [State.getTcb, htcbs, h]
  pages := by rw [hk]
  ipi := by rw [hk]
  tid := fun a => by rw [h]
  rid := fun a => by rw [h]
  refcount := fun a => by rw [h]
  rpcPage := fun a => by rw [h]
  rpcVmem := fun a => by rw [h]
  rpcTables := fun a => by rw [h]

lemma notify_decides (c : ℤ) (t : ℕ) (hipi : k.ipi = Ipi.initHeads) :
    Ends (notify c t 0) (fun _ k' => ¬ Notifies k c t ∧ Undisturbed k k' ∧ k'.tp = k.tp)
      (fun _ _ => Notifies k c t) k := by
  have htcb := requested_zero_tcb k t
  have hreq : Undisturbed k (requested k t 0) :=
    @undisturbed_flags k (requested k t 0) (fun a => (k.tcb a).notifyFlags) _ (fun a => by rw [htcb]) rfl
  have hdrop : ∀ handler, Ends (dropFlags t handler)
      (fun _ k' => Undisturbed (requested k t 0) k' ∧ k'.tp = k.tp) (fun _ _ => False) (requested k t 0) := by
    intro handler
    rw [dropFlags, ends_bind, ends_modifyTcb, note, ends_modify]
    refine ⟨@undisturbed_flags _ _ (fun a => if a = t then 0 else ((requested k t 0).tcb a).notifyFlags) _ ?_ rfl, rfl⟩
    intro a
    change (State.setTcb _ t _).tcb a = _
    rw [setTcb_tcb]
    split_ifs with h
    · rw [h]
    · rfl
  unfold notify
  rw [ends_bind]
  change Ends _ _ _ (requested k t 0)
  rw [ends_bind, ends_get]
  dsimp only
  rw [htcb, requested_getTcb]
  by_cases hflags : (k.tcb t).notifyFlags = 0
  · rw [if_pos hflags, ends_pure]
    refine ⟨?_, hreq, rfl⟩
    rintro ⟨r, hr, -⟩
    exact hr.1 hflags
  rw [if_neg hflags]
  cases hr : k.getTcb (k.tcb t).notifyId with
  | none =>
    refine (hdrop none).mono (fun _ k' h => ⟨?_, hreq.trans h.1, h.2⟩) fun _ _ hf => hf.elim
    rintro ⟨r, ⟨-, hr', -⟩, -⟩
    rw [hr] at hr'
    cases hr'
  | some r =>
    have hall : Notifies k c t ↔ unavailable (k.tcb r) = false ∧
        (isSet (k.tcb t).notifyFlags (NOTIFY_IRQ ||| NOTIFY_TIMER) || !Rpc.isRpc (k.tcb t).thread) = true ∧
        Rpc.enoughRpcStackFor k.rpcStackSize (k.tcb r).thread = true ∧
        (k.running r && k.tp c ≠ some r) = false := by
      constructor
      · rintro ⟨r', ⟨-, hr', h₁, h₂, h₃⟩, h₄⟩
        rw [hr] at hr'
        cases hr'
        exact ⟨h₁, h₂, h₃, h₄⟩
      · rintro ⟨h₁, h₂, h₃, h₄⟩
        exact ⟨r, ⟨hflags, hr, h₁, h₂, h₃⟩, h₄⟩
    have hrun : (requested k t 0).running r = k.running r := by
      rw [State.running, htcb]
      rfl
    rw [hall]
    dsimp only
    rw [hrun]
    change Ends (if unavailable (k.tcb r) = true then _ else if _ then _ else
      if (!Rpc.enoughRpcStackFor k.rpcStackSize (k.tcb r).thread) = true then _ else
      if (k.running r && decide (k.tp c ≠ some r)) = true then _ else _) _ _ _
    by_cases hav : unavailable (k.tcb r) = true
    · rw [if_pos hav]
      refine (hdrop _).mono (fun _ k' h => ⟨?_, hreq.trans h.1, h.2⟩) fun _ _ hf => hf.elim
      rw [hav]
      exact fun h => by cases h.1
    rw [if_neg hav]
    by_cases hrpc : (!isSet (k.tcb t).notifyFlags (NOTIFY_IRQ ||| NOTIFY_TIMER) && Rpc.isRpc (k.tcb t).thread) = true
    · rw [if_pos hrpc, ends_pure]
      refine ⟨fun h => ?_, hreq, rfl⟩
      rw [Bool.and_eq_true, Bool.not_eq_true'] at hrpc
      rw [hrpc.1, hrpc.2] at h
      exact Bool.false_ne_true h.2.1
    rw [if_neg hrpc]
    by_cases hroom : (!Rpc.enoughRpcStackFor k.rpcStackSize (k.tcb r).thread) = true
    · rw [if_pos hroom, ends_pure]
      refine ⟨fun h => ?_, hreq, rfl⟩
      rw [h.2.2.1] at hroom
      cases hroom
    rw [if_neg hroom]
    by_cases helse : (k.running r && decide (k.tp c ≠ some r)) = true
    · rw [if_pos helse, sendIpi, ends_bind, ends_get, ends_bind, ends_deref,
        show (requested k t 0).ipi = Ipi.initHeads from hipi, Ipi.sendIpi_init]
      refine ⟨fun h => (by cases h), fun ipi hi => ?_⟩
      cases hi
      rw [ends_modify]
      refine ⟨fun h => ?_, ?_, rfl⟩
      · rw [helse] at h
        cases h.2.2.2
      · exact ⟨hreq.getTcb, hreq.pages, hipi.symm, hreq.tid, hreq.rid, hreq.refcount, hreq.rpcPage, hreq.rpcVmem,
          hreq.rpcTables⟩
    · rw [if_neg helse]
      refine (runNotify_tp _).mono (fun _ _ hf => hf.elim) fun _ _ _ => ⟨?_, ?_, ?_, ?_⟩
      · simpa using hav
      · rw [Bool.not_eq_true, Bool.and_eq_false_iff] at hrpc
        rw [Bool.or_eq_true, Bool.not_eq_true']
        obtain h | h := hrpc
        · exact .inl (by simpa using h)
        · exact .inr h
      · simpa using hroom
      · exact Bool.eq_false_iff.mpr helse

def switched (k : State) (c : ℤ) (t s : ℕ) : State := used (answered k t OK) c s

lemma switched_tcb (k : State) (c : ℤ) (t s a : ℕ) : (switched k c t s).tcb a = { k.tcb a with
    cpuId := if a = s then c else (k.tcb a).cpuId
    thread := if a = t then setRet 2 ⟨OK, 0, 0, 0, 0, 0⟩ (k.tcb a).thread else (k.tcb a).thread } := by
  rw [switched, used_tcb, answered, setTcb_tcb]
  by_cases hat : a = t
  · simp only [hat, if_true]
  · simp only [hat, if_false]

lemma switched_undisturbed (k : State) (c : ℤ) (t s : ℕ) : Undisturbed k (switched k c t s) := by
  have htid : ∀ a, ((switched k c t s).tcb a).thread.tid = (k.tcb a).thread.tid := by
    intro a
    rw [switched_tcb]
    dsimp only
    split_ifs
    · rfl
    · rfl
  refine ⟨fun id => ?_, rfl, rfl, htid, ?_, ?_, ?_, ?_, ?_⟩
  · simp only [State.getTcb, htid]
    rfl
  all_goals
    intro a
    rw [switched_tcb]

lemma switched_handsOver (hst : s ≠ t) : HandsOver (switched k c t s) s r ↔ HandsOver k s r := by
  have hget := (switched_undisturbed k c t s).getTcb (k.tcb s).notifyId
  have hs : (switched k c t s).tcb s = { k.tcb s with cpuId := c } := by
    rw [switched_tcb, if_pos rfl, if_neg hst]
  have hr : unavailable ((switched k c t s).tcb r) = unavailable (k.tcb r) ∧
      Rpc.enoughRpcStackFor k.rpcStackSize ((switched k c t s).tcb r).thread =
        Rpc.enoughRpcStackFor k.rpcStackSize (k.tcb r).thread := by
    rw [switched_tcb]
    by_cases h : r = t
    · simp only [h, if_true]
      exact ⟨rfl, rfl⟩
    · simp only [h, if_false]
      exact ⟨rfl, trivial⟩
  rw [HandsOver, HandsOver, hs, hget, hr.1, show (switched k c t s).rpcStackSize = k.rpcStackSize from rfl, hr.2]

lemma switched_running (hs : k.running s = false) :
    ((switched k c t s).running r && (switched k c t s).tp c ≠ some r) = false ↔
      k.running r = false ∨ (k.tcb r).cpuId = c := by
  have htp : (switched k c t s).tp c = some s := Function.update_self ..
  by_cases hrs : r = s
  · rw [htp, hrs]
    simp [hs]
  · have hrun : (switched k c t s).running r =
        decide (Function.update k.cpuTcb c (some s) (k.tcb r).cpuId = some r) := by
      rw [State.running, switched_tcb, if_neg hrs]
      rfl
    have hsr : s ≠ r := fun h => hrs h.symm
    rw [htp, hrun, Function.update_apply]
    by_cases hc : (k.tcb r).cpuId = c
    · simp [hc, hsr]
    · simp [hc, hsr, State.running]

lemma useTcb_comesBack (hcur : k.tp c = some t) (hid : (k.tcb t).cpuId = c) :
    Ends (useTcb c s) (fun _ k' => k' = used k c s) (fun _ _ => False) k := by
  rw [useTcb, ends_bind, ends_get, ends_bind, ends_deref, hcur]
  refine ⟨fun h => (by cases h), fun cur hc => ?_⟩
  cases hc
  rw [hid]
  rfl

lemma swap_decides (h : Exiting k c t) (hs : k.running s = false) :
    Ends (swap c t s) (fun _ k' => ¬ TakenAway k c s ∧ Undisturbed k k' ∧ k'.tp c = some s)
      (fun _ _ => TakenAway k c s) k := by
  have hst : s ≠ t := by
    rintro rfl
    rw [State.running, h.cpuId, h.running] at hs
    simp at hs
  have hu := switched_undisturbed k c t s
  have htp : (switched k c t s).tp c = some s := Function.update_self ..
  have hthread : ((switched k c t s).tcb s).thread = (k.tcb s).thread := by
    rw [switched_tcb, if_neg hst]
  have hflags : ((switched k c t s).tcb s).notifyFlags = (k.tcb s).notifyFlags := by
    rw [switched_tcb]
  have hnotifies : Notifies (switched k c t s) c s ↔
      ∃ r, HandsOver k s r ∧ (k.running r = false ∨ (k.tcb r).cpuId = c) := by
    simp only [Notifies, switched_handsOver hst, switched_running hs]
  have hid : ((answered k t OK).tcb t).cpuId = c := by
    rw [answered, setTcb_tcb_self]
    exact h.cpuId
  rw [swap, ends_bind, ends_iff_of_ok (setArgs1_eq t OK k)]
  change Ends _ _ _ (answered k t OK)
  refine ends_bind.2 ((@useTcb_comesBack (answered k t OK) c s t h.current hid).mono ?_ fun _ _ hf => hf.elim)
  rintro _ _ rfl
  change Ends _ _ _ (switched k c t s)
  rw [ends_bind, ends_get]
  dsimp only
  rw [hthread, hflags, Tcb.orphan, hthread]
  split_ifs with horphan hf
  · exact (departs_unorphanize s _).mono (fun _ _ hf => hf.elim) fun _ _ _ => .inl horphan
  · refine (@notify_decides (switched k c t s) c s h.ipi).mono ?_ ?_
    · rintro _ k' ⟨hn, hu', htp'⟩
      refine ⟨?_, hu.trans hu', ?_⟩
      · rintro (ho | hn')
        · exact horphan ho
        · exact hn (hnotifies.mpr hn')
      · rw [htp', htp]
    · exact fun _ _ hn => .inr (hnotifies.mp hn)
  · refine ⟨?_, hu, htp⟩
    rintro (ho | ⟨r, hr, -⟩)
    · exact horphan ho
    · exact hf hr.1

lemma sysExit_decides (h : Exiting k c t) (ht : Accepted k tid) :
    ExitsWell k c t tid ↔ CountsHold k t ∧ ∀ s, k.getTcb tid = some s → ¬ TakenAway k c s := by
  obtain ⟨p, hp, hcap⟩ := h.allowed
  have hpre : ∀ {Q E}, Ends (sysExit c t tid) Q E k ↔
      Ends (if tid = 0 then do destroyThread t; sleep else swapTo c t tid (destroyThread t)) Q E k := by
    intro Q E
    rw [sysExit, ends_bind, ends_get, ends_bind, ends_deref, hp]
    simp only [reduceCtorEq, false_implies, true_and, Option.some.injEq, forall_eq', hcap, Bool.not_true,
      Bool.false_eq_true, if_false, h.notInit]
  rw [ExitsWell, hpre]
  apply Ends.iff_of_decides
  obtain rfl | ⟨s, hs, hz, hrun⟩ := ht
  · have hnone : k.getTcb 0 = none := by
      rw [State.getTcb, if_pos le_rfl]
    simp only [hnone, reduceCtorEq, false_implies, implies_true, and_true, if_true]
    refine ends_bind.2 ((destroyThread_decides h.notInit h.ipi).mono ?_ ?_)
    · rintro _ k' ⟨hc, hg, -⟩
      rw [sleep, ends_bind, lockOp, ends_modify, ends_throw]
      exact .inl ⟨hc, ⟨hg.dead, hg.zombie, hg.rpcStack, hg.rpcVmem, hg.tables, hg.refcount⟩, trivial, rfl⟩
    · rintro e _ ⟨hc, rfl⟩
      exact .inr ⟨hc, fun hg => by cases hg.2.2⟩
  · have htid : tid ≠ 0 := by
      rintro rfl
      rw [State.getTcb, if_pos le_rfl] at hs
      cases hs
    have hall : (∀ s', k.getTcb tid = some s' → ¬ TakenAway k c s') ↔ ¬ TakenAway k c s := by
      rw [hs]
      simp
    rw [if_neg htid, swapTo, ends_bind, ends_get, hall, hs]
    dsimp only
    rw [hz, if_neg Bool.false_ne_true, hrun, if_neg Bool.false_ne_true]
    refine ends_bind.2 ((swap_decides h hrun).mono ?_ ?_)
    · rintro _ k₁ ⟨haway, hu, htp⟩
      refine (@destroyThread_decides k₁ t (by rw [hu.tid]; exact h.notInit) (hu.ipi.trans h.ipi)).mono ?_ ?_
      · rintro _ k₂ ⟨hc, hg, htp₂⟩
        exact ⟨⟨hu.countsHold.mp hc, haway⟩, hg.before hu, s, rfl, htp₂ ▸ htp⟩
      · rintro e _ ⟨hc, -⟩
        exact .inr ⟨fun hp => hc (hu.countsHold.mpr hp.1), fun hg => htid hg.2.1⟩
    · exact fun _ _ haway => .inr ⟨fun hp => hp.2 haway, fun hg => htid hg.2.1⟩

def firstChild : Event :=
  .entry 0 (.syscall (.create 4096 0 0 0 0)) [some 20, some 21, some 22, some 23, some 24]

def secondChild : Event :=
  .entry 0 (.syscall (.create 4096 0 0 0 0)) [some 30, some 31, some 32, some 33, some 34]

def detachAndSwap : List Event :=
  [.entry 0 (.syscall (.detach 3)) [], .entry 0 (.syscall (.swap 2)) []]

lemma orderly_entry {c : ℤ} {x : Syscall} {answers : List (Option ℕ)} (hw : Whole k x answers) (hx : x ≠ .exit 0) :
    Orderly k (.entry c (.syscall x) answers) := by
  refine ⟨hw, ?_⟩
  rintro ⟨c', answers', h⟩
  cases h
  exact hx rfl

def exitFacts (k : State) : List Bool :=
  [k.tp 0 = some 20, k.cpuTcb 0 = some 20, (k.tcb 20).cpuId = 0, (k.tcb 20).thread.eid = 1, k.getTcb 1 = some 0,
    isSet (k.tcb 0).caps CAP_PROC, (k.tcb 20).thread.tid = 2, !(k.tcb 0).zombie, !k.running 0,
    k.getTcb 3 = some 30, !(k.tcb 30).zombie, !k.running 30, (k.tcb 20).refcount = 1, (k.tcb 20).rid = 1,
    1 < (k.tcb 0).refcount, !(k.tcb 0).thread.orphan, (k.tcb 0).notifyFlags = 0,
    (toUser (sysExit 0 20 3) k).map (fun k' => (k'.tcb 20).dead) = some false]

lemma twoChildren_run : ∃ k, Reached Orderly k ∧ ∀ b ∈ exitFacts k, b = true := by
  have hrun : (booted.bind fun k₀ => (step k₀ firstChild).bind fun k₁ => (step k₁ secondChild).bind fun k₂ =>
      (play k₂ detachAndSwap).map fun k =>
        (decide (k₀.startTid < numTcbs), decide (k₁.startTid < numTcbs), (exitFacts k).all id)) =
      some (true, true, true) := by decide +kernel
  obtain ⟨k₀, hk₀, hrun⟩ := Option.bind_eq_some_iff.1 hrun
  obtain ⟨k₁, hk₁, hrun⟩ := Option.bind_eq_some_iff.1 hrun
  obtain ⟨k₂, hk₂, hrun⟩ := Option.bind_eq_some_iff.1 hrun
  obtain ⟨k, hk, hobs⟩ := Option.map_eq_some_iff.1 hrun
  obtain ⟨hlt₀, hrest⟩ := Prod.mk.inj hobs
  obtain ⟨hlt₁, hall⟩ := Prod.mk.inj hrest
  have hcreate : ∀ {k : State} {answers : List (Option ℕ)}, k.startTid < numTcbs → unbroken 5 answers = true →
      Orderly k (.entry 0 (.syscall (.create 4096 0 0 0 0)) answers) := fun hlt hu =>
    orderly_entry (.inr ⟨hlt, hu⟩) fun h => by cases h
  have h₁ : Reached Orderly k₁ :=
    .step firstChild (.boot .w64 4096 _ hk₀) (hcreate (of_decide_eq_true hlt₀) rfl) hk₁
  have h₂ : Reached Orderly k₂ := .step secondChild h₁ (hcreate (of_decide_eq_true hlt₁) rfl) hk₂
  refine ⟨k, h₂.play (fun k e he => ?_) hk, fun b hb => List.all_eq_true.mp hall b hb⟩
  rw [detachAndSwap, List.mem_cons, List.mem_singleton] at he
  obtain rfl | rfl := he
  · exact orderly_entry (.inl rfl) fun h => by cases h
  · exact orderly_entry (.inl rfl) fun h => by cases h

lemma twoChildren_exiting : ∃ k, Reached Orderly k ∧ Exiting k 0 20 ∧ Accepted k 1 ∧ Accepted k 3 ∧
    (CountsHold k 20 ∧ ∀ s, k.getTcb 1 = some s → ¬ TakenAway k 0 s) ∧
    (toUser (sysExit 0 20 3) k).map (fun k' => (k'.tcb 20).dead) = some false := by
  obtain ⟨k, hk, hfacts⟩ := twoChildren_run
  simp only [exitFacts, List.mem_cons, List.not_mem_nil, or_false, forall_eq_or_imp, forall_eq, decide_eq_true_iff,
    Bool.not_eq_true'] at hfacts
  obtain ⟨htp, hcpu, hid, heid, hinit, hcap, htid, hz₀, hrun₀, hget, hz, hrun, hcount, hrid, hcount₀,
    horphan, hflags, hexit⟩ := hfacts
  refine ⟨k, hk, ⟨htp, hcpu, hid, ⟨0, ?_, hcap⟩, ?_, hk.inv.ipi⟩, .inr ⟨0, hinit, hz₀, hrun₀⟩,
    .inr ⟨30, hget, hz, hrun⟩, ⟨⟨hcount.ge, fun r hr _ => ?_⟩, fun s hs => ?_⟩, hexit⟩
  · rw [heid, hinit]
  · rw [htid]
    decide
  · rw [hrid, hinit] at hr
    obtain rfl := Option.some.inj hr
    exact .inl hcount₀
  · rw [hinit] at hs
    obtain rfl := Option.some.inj hs
    rintro (haway | ⟨r, ⟨hnote, -⟩, -⟩)
    · rw [horphan, Bool.and_false] at haway
      cases haway
    · exact hnote hflags

theorem exit_destroys_iff (h : Exiting k c t) (ht : Accepted k tid) :
    ExitsWell k c t tid ↔ CountsHold k t ∧ ∀ s, k.getTcb tid = some s → ¬ TakenAway k c s :=
  sysExit_decides h ht

theorem exit_destroys_iff_child : ∃ k, Reached Orderly k ∧ Exiting k 0 20 ∧ Accepted k 1 ∧ ExitsWell k 0 20 1 := by
  obtain ⟨k, hk, hex, hacc, -, hwell, -⟩ := twoChildren_exiting
  exact ⟨k, hk, hex, hacc, (exit_destroys_iff hex hacc).2 hwell⟩

theorem exit_to_orphan : ∃ k k', Reached Orderly k ∧ Exiting k 0 20 ∧ Accepted k 3 ∧
    sysExit 0 20 3 k = .error .user k' ∧ (k'.tcb 20).dead = false ∧ ¬ ExitsWell k 0 20 3 := by
  obtain ⟨k, hk, hex, -, hacc, -, hrun⟩ := twoChildren_exiting
  obtain ⟨k', hk', hdead⟩ := Option.map_eq_some_iff.1 hrun
  have herr := eq_of_toUser hk'
  refine ⟨k, k', hk, hex, hacc, herr, hdead, fun hwell => ?_⟩
  have hgone := (ends_of_eq_error herr hwell).1.dead
  rw [hdead] at hgone
  cases hgone

end Kmi.Kernel
