import Kmi.Kernel.Invariant

/-! Changing threads on a processor, and what is done to threads that are left behind. -/

namespace Kmi.Kernel

open Library.Prog

variable {α β : Type} {k k' k'' : State} {c : ℤ} {s t r : ℕ}

def used (k : State) (c : ℤ) (s : ℕ) : State :=
  { k with
    tcb := Function.update k.tcb s { k.tcb s with cpuId := c }
    tp := Function.update k.tp c (some s)
    cpuTcb := Function.update k.cpuTcb c (some s) }

lemma used_tcb (k : State) (c : ℤ) (s a : ℕ) :
    (used k c s).tcb a = { k.tcb a with cpuId := if a = s then c else (k.tcb a).cpuId } := by
  by_cases h : a = s
  · subst h
    simp [used]
  · simp [used, h]

structure Usable (k : State) (c : ℤ) (s : ℕ) : Prop where
  inTable : InTable k s
  rid : (k.tcb s).rid ≠ 0
  idle : k.running s = false ∨ k.tp c = some s

lemma Plain.usable (h : Plain k k') (hs : Usable k c s) : Usable k' c s where
  inTable := h.inTable.2 hs.inTable
  rid := (h.core s).rid hs.rid
  idle := by
    rw [State.running, h.cpuTcb, (h.core s).cpuId, h.tp]
    exact hs.idle

lemma Inv.ne_of_current (hk : Inv k) (hs : Usable k c s) {c' : ℤ} {a : ℕ} (hne : c' ≠ c)
    (ha : k.tp c' = some a) : a ≠ s := by
  rintro rfl
  obtain ⟨-, hcpu, hid, -⟩ := hk.current c' a ha
  rcases hs.idle with h | h
  · simp [State.running, hid, hcpu] at h
  · exact hne (hid.symm.trans (hk.current c a h).2.2.1)

lemma used_sound (hk : Sound k) (c : ℤ) (s : ℕ) : Sound (used k c s) := by
  refine ⟨fun i a hi => ?_, hk.listed, fun a hi hd => ?_, hk.ipi, fun a hi => ?_, hk.notes, hk.indices⟩
  · rw [used_tcb]
    exact hk.table i a hi
  · rw [used_tcb] at hd ⊢
    exact hk.alive a hi hd
  · rw [used_tcb]
    exact hk.flags a hi

lemma used_inv (hk : Inv k) (hs : Usable k c s) : Inv (used k c s) := by
  refine ⟨used_sound hk.toSound c s, fun c' a hc => ?_, fun c' a hc => ?_⟩
  · by_cases h : c' = c
    · subst h
      simpa [used] using hc
    · simp only [used, ne_eq, h, not_false_eq_true, Function.update_of_ne] at hc ⊢
      exact hk.cpu c' a hc
  · by_cases h : c' = c
    · subst h
      obtain rfl : s = a := by simpa [used] using hc
      refine ⟨hs.inTable, by simp [used], ?_, ?_⟩
      · rw [used_tcb]
        exact if_pos rfl
      · rw [used_tcb]
        exact hs.rid
    · simp only [used, ne_eq, h, not_false_eq_true, Function.update_of_ne] at hc
      have hne := hk.ne_of_current hs h hc
      obtain ⟨h₁, h₂, h₃, h₄⟩ := hk.current c' a hc
      rw [used_tcb, if_neg hne]
      refine ⟨h₁, ?_, h₃, h₄⟩
      simpa [used, h] using h₂

lemma used_calm (hs : Usable k c s) : Calm k (used k c s) where
  tcbs := fun _ => .inl rfl
  startTid := rfl
  caps := fun a => by rw [used_tcb]
  inv := fun hk => used_inv hk hs

lemma useTcb_ends (hk : Inv k) : Ends (useTcb c s) (fun _ k' => k' = used k c s) (fun e _ => e = .stuck) k := by
  simp only [useTcb, ends_bind, ends_get, ends_deref, implies_true, true_and]
  intro cur hcur
  obtain ⟨-, -, hid, -⟩ := hk.current c cur hcur
  rw [hid]
  rfl

lemma departs_runNotify (hk : Inv k) (ht : InTable k t) (hr : Usable k c r) :
    Departs (runNotify c t r : K α) k := by
  have huse := used_calm hr
  unfold runNotify
  refine ends_bind.2 ((useTcb_ends hk).mono ?_ fun _ _ he => .inl he)
  rintro _ _ rfl
  refine Departs.after ?_ huse
  apply Departs.get_bind
  refine Departs.mild_bind (mild_enterRpc c t r _ _) fun _ k₁ h₁ => ?_
  refine Departs.goes_bind ?_ fun _ k₂ _ => departs_leave k₂
  apply goes_handOver
  · exact h₁.inTable.2 ht
  · rw [(h₁.core t).flags]
    exact handedFlags_sub _
  · exact handedFlags_rpc

lemma usable_of_handler (hk : Sound k) {tid : ℤ} (hr : k.getTcb tid = some r)
    (hav : unavailable (k.tcb r) = false) (hrun : (k.running r && k.tp c ≠ some r) = false) : Usable k c r where
  inTable := getTcb_inTable hr
  rid := by
    apply hk.alive r (getTcb_inTable hr)
    simp only [unavailable, Tcb.hasState, Bool.or_eq_false_iff] at hav
    exact hav.1.1
  idle := by
    cases h : k.running r with
    | false => exact .inl rfl
    | true => simpa [h] using hrun

lemma plain_ipi (hk : Sound k) : Plain k { k with ipi := Ipi.initHeads } :=
  ⟨rfl, rfl, rfl, rfl, rfl, hk.ipi.symm, rfl, rfl, rfl, fun _ => .refl _⟩

lemma sendIpi_ends (hk : Sound k) (r : ℕ) :
    Ends (sendIpi r) (fun _ k' => Plain k k') (fun e _ => e = .stuck) k := by
  simp only [sendIpi, ends_bind, ends_get, hk.ipi, Ipi.sendIpi_init]
  exact plain_ipi hk

lemma unqueueIpi_ends (hk : Sound k) (t : ℕ) :
    Ends (unqueueIpi t) (fun _ k' => Plain k k') (fun e _ => e = .stuck) k := by
  simp only [unqueueIpi, ends_bind, ends_get, hk.ipi, Ipi.unqueueIpi_init]
  exact plain_ipi hk

lemma notify_ends (hk : Inv k) (ht : InTable k t) (flags : BitVec 32) :
    Ends (notify c t flags) (fun _ k' => Steady k k' ∧ k'.tcbs = k.tcbs)
      (fun e k' => e = .stuck ∨ Calm k k') k := by
  have h₁ := goes_requestFlags t flags k
  unfold notify
  rw [ends_bind]
  change Ends _ _ _ (noted k t ((k.tcb t).notifyFlags ||| flags) (.request t flags))
  change Steady k (noted k t ((k.tcb t).notifyFlags ||| flags) (.request t flags)) at h₁
  have htcbs : (noted k t ((k.tcb t).notifyFlags ||| flags) (.request t flags)).tcbs = k.tcbs := rfl
  generalize noted k t ((k.tcb t).notifyFlags ||| flags) (.request t flags) = k₁ at h₁ htcbs ⊢
  have hk₁ := h₁.inv hk
  have ht₁ : InTable k₁ t := by
    rw [InTable, htcbs]
    exact ht
  have hdrop : ∀ handler, (∀ state callback, handler = some (state, callback) → state = true ∨ callback = 0) →
      Ends (dropFlags t handler) (fun _ k' => Steady k k' ∧ k'.tcbs = k.tcbs)
        (fun e k' => e = .stuck ∨ Calm k k') k₁ :=
    fun _ hh => ⟨h₁.trans (goes_dropFlags hh k₁), htcbs⟩
  rw [ends_bind, ends_get]
  dsimp only
  split
  · exact ⟨h₁, htcbs⟩
  split
  · apply hdrop
    intro state callback h
    cases h
  · rename_i r hr
    split
    · rename_i hun
      apply hdrop
      intro state callback h
      cases h
      simpa [unavailable] using hun
    split
    · exact ⟨h₁, htcbs⟩
    split
    · exact ⟨h₁, htcbs⟩
    rename_i hav _ _
    split
    · refine (sendIpi_ends hk₁.toSound r).mono ?_ fun _ _ he => .inl he
      exact fun _ _ hp => ⟨h₁.trans hp.steady, hp.tcbs.trans htcbs⟩
    · rename_i hrun
      have hus := usable_of_handler hk₁.toSound hr (by simpa using hav) (by simpa using hrun)
      exact ((departs_runNotify hk₁ ht₁ hus).after h₁.toCalm).mono (fun _ _ hf => hf.elim) fun _ _ he => he

lemma goes_notify (hk : Inv k) (ht : InTable k t) (flags : BitVec 32) : Goes (notify c t flags) k :=
  (notify_ends hk ht flags).mono (fun _ _ h => h.1) fun _ _ he => he

structure Sheds (gone : Option ℕ) (k k' : State) : Prop where
  tcbs : ∀ i, k'.tcbs i = k.tcbs i ∨ k'.tcbs i = none
  startTid : k'.startTid = k.startTid
  caps : ∀ a, (k'.tcb a).caps = (k.tcb a).caps
  cpuId : ∀ a, (k'.tcb a).cpuId = (k.tcb a).cpuId
  tp : k'.tp = k.tp
  cpuTcb : k'.cpuTcb = k.cpuTcb
  kept : ∀ a, InTable k a → (k.tcb a).rid ≠ 0 → gone ≠ some a → InTable k' a ∧ (k'.tcb a).rid ≠ 0
  sound : Sound k'

lemma Plain.sheds (h : Plain k k') (hk : Sound k) : Sheds none k k' where
  tcbs := fun i => .inl (by rw [h.tcbs])
  startTid := h.startTid
  caps := fun a => (h.core a).caps
  cpuId := fun a => (h.core a).cpuId
  tp := h.tp
  cpuTcb := h.cpuTcb
  kept := fun a ha hr _ => ⟨h.inTable.2 ha, (h.core a).rid hr⟩
  sound := h.sound hk

lemma Sheds.weaken {gone : Option ℕ} (h : Sheds none k k') : Sheds gone k k' where
  tcbs := h.tcbs
  startTid := h.startTid
  caps := h.caps
  cpuId := h.cpuId
  tp := h.tp
  cpuTcb := h.cpuTcb
  kept := fun a ha hr _ => h.kept a ha hr nofun
  sound := h.sound

lemma Sheds.trans {gone : Option ℕ} (h : Sheds gone k k') (h' : Sheds gone k' k'') : Sheds gone k k'' where
  tcbs := fun i => by
    rcases h'.tcbs i with hi | hi
    · rw [hi]
      exact h.tcbs i
    · exact .inr hi
  startTid := h'.startTid.trans h.startTid
  caps := fun a => (h'.caps a).trans (h.caps a)
  cpuId := fun a => (h'.cpuId a).trans (h.cpuId a)
  tp := h'.tp.trans h.tp
  cpuTcb := h'.cpuTcb.trans h.cpuTcb
  kept := fun a ha hr hg => by
    obtain ⟨ha', hr'⟩ := h.kept a ha hr hg
    exact h'.kept a ha' hr' hg
  sound := h'.sound

lemma Sheds.inv {gone : Option ℕ} (h : Sheds gone k k') (hk : Inv k) (hg : ∀ c, gone = none ∨ k.tp c ≠ gone) :
    Inv k' where
  toSound := h.sound
  cpu := by
    rw [h.cpuTcb, h.tp]
    exact hk.cpu
  current := by
    intro c a ha
    rw [h.tp] at ha
    obtain ⟨h₁, h₂, h₃, h₄⟩ := hk.current c a ha
    have hne : gone ≠ some a := by
      rintro rfl
      rcases hg c with hc | hc
      · cases hc
      · exact hc ha
    obtain ⟨h₁, h₄⟩ := h.kept a h₁ h₄ hne
    rw [h.cpuTcb, h.cpuId]
    exact ⟨h₁, h₂, h₃, h₄⟩

lemma Sheds.steady {gone : Option ℕ} (h : Sheds gone k k') (hg : ∀ c, gone = none ∨ k.tp c ≠ gone) :
    Steady k k' where
  tcbs := h.tcbs
  startTid := h.startTid
  caps := h.caps
  inv := fun hk => h.inv hk hg
  tp := h.tp

def buried (k : State) (t : ℕ) : State :=
  { k with
    tcbs := Function.update k.tcbs (k.tcb t).thread.tid none
    stackPages := Function.update k.stackPages t false
    indices := k.indices ++ [(k.tcb t).thread.tid] }

lemma buried_tcbs_iff {i : ℤ} {a : ℕ} :
    (buried k t).tcbs i = some a ↔ k.tcbs i = some a ∧ i ≠ (k.tcb t).thread.tid := by
  by_cases hi : i = (k.tcb t).thread.tid
  · subst hi
    simp [buried]
  · simp [buried, hi]

lemma Sound.tcbs_tid (hk : Sound k) (ht : InTable k t) : k.tcbs (k.tcb t).thread.tid = some t := by
  obtain ⟨i, hi⟩ := ht
  rw [(hk.table i t hi).2.1]
  exact hi

lemma buried_inTable (hk : Sound k) (ht : InTable k t) {a : ℕ} :
    InTable (buried k t) a ↔ InTable k a ∧ a ≠ t := by
  constructor
  · rintro ⟨i, hi⟩
    obtain ⟨hold, hne⟩ := buried_tcbs_iff.1 hi
    refine ⟨⟨i, hold⟩, ?_⟩
    rintro rfl
    exact hne (hk.table i a hold).2.1.symm
  · rintro ⟨⟨i, hi⟩, hne⟩
    refine ⟨i, buried_tcbs_iff.2 ⟨hi, ?_⟩⟩
    rintro rfl
    exact hne (Option.some.inj (hi.symm.trans (hk.tcbs_tid ht)))

lemma buried_sheds (hk : Sound k) (ht : InTable k t) (hr : (k.tcb t).rid = 0) : Sheds none k (buried k t) where
  tcbs := fun i => by
    by_cases hi : i = (k.tcb t).thread.tid
    · subst hi
      exact .inr (by simp [buried])
    · exact .inl (Function.update_of_ne hi _ _)
  startTid := rfl
  caps := fun _ => rfl
  cpuId := fun _ => rfl
  tp := rfl
  cpuTcb := rfl
  kept := fun a ha hra _ => by
    refine ⟨(buried_inTable hk ht).2 ⟨ha, ?_⟩, hra⟩
    rintro rfl
    exact hra hr
  sound := by
    refine ⟨fun i a hi => ?_, fun a ha => ?_, fun a ha => ?_, hk.ipi, fun a ha => ?_, hk.notes, fun i hi => ?_⟩
    · have hne := ((buried_inTable hk ht).1 ⟨i, hi⟩).2
      obtain ⟨h₁, h₂⟩ := hk.table i a (buried_tcbs_iff.1 hi).1
      refine ⟨?_, h₂⟩
      simpa [buried, hne] using h₁
    · have hne : a ≠ t := by
        rintro rfl
        simp [buried] at ha
      refine (buried_inTable hk ht).2 ⟨hk.listed a ?_, hne⟩
      simpa [buried, hne] using ha
    · exact hk.alive a ((buried_inTable hk ht).1 ha).1
    · exact hk.flags a ((buried_inTable hk ht).1 ha).1
    · rcases List.mem_append.1 hi with hi | hi
      · exact hk.indices i hi
      · obtain rfl := List.mem_singleton.1 hi
        obtain ⟨-, -, hpos, -, hlt⟩ := hk.table _ t (hk.tcbs_tid ht)
        exact ⟨hpos.le, hlt⟩

lemma destroyThreadData_ends (t : ℕ) (k : State) :
    Ends (destroyThreadData t) (fun _ k' => (k.tcb t).rid = 0 ∧ Plain (buried k t) k')
      (fun e _ => e = .stuck) k := by
  simp only [destroyThreadData, ends_bind, ends_get, ends_assert, implies_true, true_and]
  intro _ hz
  have hr : (k.tcb t).rid = 0 := by simpa [Tcb.zombie] using hz
  refine (mild_freeAll mild_freeNode _ _).mono ?_ fun _ _ he => he
  intro _ k₁ h₁
  refine (mild_freeAll mild_freePage _ _).mono ?_ fun _ _ he => he
  intro _ k₂ h₂
  have h := h₁.trans h₂
  refine ⟨hr, h.tcbs, h.startTid, ?_, h.cpuTcb, h.tp, h.ipi, h.trace, h.notes, h.indices, h.core⟩
  exact congrArg (fun pages => Function.update pages t false) h.stackPages

lemma unreferenceThread_ends (hk : Sound k) (hr : InTable k r) :
    Ends (unreferenceThread (some r))
      (fun _ k' => Sheds none k k' ∧ ∀ a, InTable k a → a ≠ r → InTable k' a)
      (fun e _ => e = .stuck) k := by
  have hmod : Plain k (k.setTcb r { k.tcb r with refcount := (k.tcb r).refcount - 1 }) :=
    plain_setTcb ⟨rfl, rfl, rfl, rfl, rfl, id⟩
  simp only [unreferenceThread, ends_bind, ends_modifyTcb, ends_get]
  generalize k.setTcb r { k.tcb r with refcount := (k.tcb r).refcount - 1 } = k₁ at hmod ⊢
  have hk₁ := hmod.sound hk
  have hr₁ := hmod.inTable.2 hr
  unfold onlyIf
  split_ifs
  · refine (destroyThreadData_ends r k₁).mono ?_ fun _ _ he => he
    rintro _ k₂ ⟨hrid, h₂⟩
    have hb := buried_sheds hk₁ hr₁ hrid
    simp only [ends_assert, implies_true, true_and]
    intro _
    refine ⟨(hmod.sheds hk).trans (hb.trans (h₂.sheds hb.sound)), fun a ha hne => ?_⟩
    exact h₂.inTable.2 ((buried_inTable hk₁ hr₁).2 ⟨hmod.inTable.2 ha, hne⟩)
  · simp only [ends_pure, ends_assert, implies_true, true_and]
    exact fun _ => ⟨hmod.sheds hk, fun a ha _ => hmod.inTable.2 ha⟩

lemma unreferenceTcb_ends (hk : Sound k) (tid : ℤ) :
    Ends (unreferenceThread (k.getTcb tid))
      (fun _ k' => Sheds none k k' ∧ ∀ a, InTable k a → k.getTcb tid ≠ some a → InTable k' a)
      (fun e _ => e = .stuck) k := by
  cases hr : k.getTcb tid with
  | none => exact ⟨(Plain.refl k).sheds hk, fun a ha _ => ha⟩
  | some r =>
    refine (unreferenceThread_ends hk (getTcb_inTable hr)).mono ?_ fun _ _ he => he
    rintro _ k' ⟨hs, hkept⟩
    exact ⟨hs, fun a ha hne => hkept a ha fun h => hne (congrArg some h.symm)⟩

def killed (k : State) (t : ℕ) : State := k.setTcb t { k.tcb t with dead := true, rid := 0 }

lemma killed_tcb (k : State) (t a : ℕ) : (killed k t).tcb a =
    { k.tcb a with
      dead := if a = t then true else (k.tcb a).dead
      rid := if a = t then 0 else (k.tcb a).rid } := by
  by_cases h : a = t
  · subst h
    simp [killed, State.setTcb]
  · simp [killed, State.setTcb, h]

lemma killed_sheds (hk : Sound k) (t : ℕ) : Sheds (some t) k (killed k t) where
  tcbs := fun _ => .inl rfl
  startTid := rfl
  caps := fun a => by rw [killed_tcb]
  cpuId := fun a => by rw [killed_tcb]
  tp := rfl
  cpuTcb := rfl
  kept := fun a ha hra hne => by
    refine ⟨ha, ?_⟩
    rw [killed_tcb, if_neg fun h => hne (congrArg some h.symm)]
    exact hra
  sound := by
    refine ⟨fun i a hi => ?_, hk.listed, fun a ha hd => ?_, hk.ipi, fun a ha => ?_, hk.notes, hk.indices⟩
    · rw [killed_tcb]
      exact hk.table i a hi
    · rw [killed_tcb] at hd ⊢
      by_cases h : a = t
      · simp [h] at hd
      · simp only [h, if_false] at hd ⊢
        exact hk.alive a ha hd
    · rw [killed_tcb]
      exact hk.flags a ha

lemma destroyThread_ends (hk : Sound k) (ht : InTable k t) :
    Ends (destroyThread t) (fun _ k' => Sheds (some t) k k') (fun e _ => e = .stuck) k := by
  simp only [destroyThread, ends_bind, ends_get, ends_assert, implies_true, true_and]
  intro _
  have hroot : Ends (onlyIf (k.getTcb (k.tcb t).rid ≠ some t) (unreferenceThread (k.getTcb (k.tcb t).rid)))
      (fun _ k' => Sheds none k k' ∧ InTable k' t) (fun e _ => e = .stuck) k := by
    unfold onlyIf
    split_ifs with hne
    · refine (unreferenceTcb_ends hk _).mono ?_ fun _ _ he => he
      exact fun _ k' h => ⟨h.1, h.2 t ht hne⟩
    · exact ⟨(Plain.refl k).sheds hk, ht⟩
  refine hroot.mono ?_ fun _ _ he => he
  rintro _ k₁ ⟨h₁, ht₁⟩
  refine (mild_freeAll mild_freePage _ k₁).mono ?_ fun _ _ he => he
  intro _ k₂ h₂
  refine (mild_destroyRpcmem t k₂).mono ?_ fun _ _ he => he
  intro _ k₃ h₃
  have hk₃ := h₃.sound (h₂.sound h₁.sound)
  refine (unqueueIpi_ends hk₃ t).mono ?_ fun _ _ he => he
  intro _ k₄ h₄
  have hplain := h₂.trans (h₃.trans h₄)
  have hk₄ := h₄.sound hk₃
  have hkill := killed_sheds hk₄ t
  have ht₄ : InTable (killed k₄ t) t := hplain.inTable.2 ht₁
  simp only [ends_modifyTcb]
  refine (unreferenceThread_ends hkill.sound ht₄).mono ?_ fun _ _ he => he
  rintro _ k₅ ⟨h₅, -⟩
  exact h₁.weaken.trans ((hplain.sheds h₁.sound).weaken.trans (hkill.trans h₅.weaken))

end Kmi.Kernel
