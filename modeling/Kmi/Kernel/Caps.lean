import Kmi.Kernel.Lock
import Kmi.Kernel.Runs

/-! Where capabilities come from, in every run in which no creation fails half-way. -/

namespace Kmi.Kernel

open Library.Prog

variable {k k' k'' : State} {c : ℤ} {t : ℕ}

structure Halted (k : State) : Prop where
  sound : Sound k
  held : held k.trace = true

lemma passes_of_shrinks {old : BitVec 32 → BitVec 32 → Prop} {new : BitVec 32 → Prop}
    (htcbs : ∀ i, k'.tcbs i = k.tcbs i ∨ k'.tcbs i = none) (hcaps : ∀ a, (k'.tcb a).caps = (k.tcb a).caps)
    (hold : ∀ x, old x x) : Passes old new k k' := by
  intro i b hb
  rcases htcbs i with hi | hi
  · rw [hi] at hb
    rw [hcaps]
    exact .inl ⟨hb, hold _⟩
  · rw [hi] at hb
    cases hb

lemma held_asleep (trace : List LockOp) : held (trace ++ [.lock] ++ [.sleep]) = true := by
  simp [held]

lemma sysExit_ends (hk : Inv k) (ht : k.tp c = some t) :
    Ends (sysExit c t 0) (fun _ k' => Calm k k')
      (fun e k' => e = .stuck ∨ (∀ i, k'.tcbs i = k.tcbs i ∨ k'.tcbs i = none) ∧
        (∀ a, (k'.tcb a).caps = (k.tcb a).caps) ∧ Sound k' ∧ k'.trace = k.trace ++ [.sleep]) k := by
  unfold sysExit
  rw [ends_bind, ends_get, ends_bind, ends_deref]
  refine ⟨fun _ => .inl rfl, fun p _ => ?_⟩
  split
  · exact (mild_setArgs1 t _ k).mono (fun _ _ h => h.steady.toCalm) fun _ _ he => .inl he
  split
  · exact (mild_setArgs1 t _ k).mono (fun _ _ h => h.steady.toCalm) fun _ _ he => .inl he
  rw [if_pos rfl, ends_bind]
  have hboth := (destroyThread_ends hk.toSound (hk.current c t ht).1).and (stays_destroyThread t k)
  refine hboth.mono ?_ fun _ _ he => .inl he.1
  rintro _ k₁ ⟨hs, htrace⟩
  refine .inr ⟨hs.tcbs, hs.caps, ?_, ?_⟩
  · exact ⟨hs.sound.table, hs.sound.listed, hs.sound.alive, hs.sound.ipi, hs.sound.flags, hs.sound.notes,
      hs.sound.indices⟩
  · exact congrArg (· ++ [LockOp.sleep]) htrace.trace

lemma Halted.step_passes {e : Event} (hk : Halted k) (h : step k e = some k') :
    Passes (fun x y => eventChange k x y e) (fun y => eventStart k y e) k k' ∧ Halted k' ∧
      ∀ c s answers, e ≠ .entry c (.syscall s) answers := by
  cases e with
  | entry c e answers =>
    rw [step, if_pos hk.held] at h
    cases h
  | bringup c answers =>
    rw [step, if_pos (by simp [hk.held])] at h
    cases h
  | user c exec regs page =>
    rw [step] at h
    obtain ⟨a, -, rfl⟩ := Option.map_eq_some_iff.1 h
    have hplain := plain_userRun k a exec regs page
    refine ⟨passes_of_shrinks hplain.steady.tcbs hplain.steady.caps fun _ => rfl, ⟨hplain.sound hk.sound, hk.held⟩, ?_⟩
    intro c s answers he
    cases he
  | reuse a x =>
    rw [step] at h
    split at h
    · cases h
    rename_i hfree
    obtain rfl := Option.some.inj h
    have ha : k.stackPages a = false := by simpa using hfree
    refine ⟨fun i b hb => .inl ⟨hb, ?_⟩, ⟨sound_reuse hk.sound ha x, hk.held⟩, ?_⟩
    · have hb : k.tcbs i = some b := hb
      change (((k.setTcb a x).tcb b).caps = (k.tcb b).caps)
      rw [hk.sound.setTcb_free ha x ⟨i, hb⟩]
    · intro c s answers he
      cases he

lemma exits_ends (hk : Inv k) :
    Ends (trap c (.syscall (.exit 0))) (fun _ _ => False)
      (fun e k' => e = .stuck ∨ Passes (fun x y => entryChange k c x y (.syscall (.exit 0))) (fun _ => False) k k' ∧
        (Inv k' ∨ Halted k')) k := by
  refine trap_syscall c _ k (fun _ => .inl rfl) fun t ht => ?_
  have hcalled := called_steady k t
  have hrefl : ∀ x, entryChange k c x x (.syscall (.exit 0)) := fun x => ⟨t, ht, rfl⟩
  refine ends_bind.2 ((sysExit_ends (hcalled.inv hk) ht).mono ?_ ?_)
  · intro _ k₁ h₁
    refine Ends.mono (departs_leave k₁) (fun _ _ hf => hf) ?_
    rintro e k₂ (he | h₂)
    · exact .inl he
    · have hcalm := hcalled.toCalm.trans (h₁.trans h₂)
      exact .inr ⟨passes_of_shrinks hcalm.tcbs hcalm.caps hrefl, .inl (hcalm.inv hk)⟩
  · rintro e k₁ (he | ⟨htcbs, hcaps, hsound, htrace⟩)
    · exact .inl he
    · refine .inr ⟨passes_of_shrinks htcbs (fun a => (hcaps a).trans (hcalled.caps a)) hrefl, .inr ⟨hsound, ?_⟩⟩
      rw [htrace]
      exact held_asleep k.trace

def Kept (k : State) : Prop := Inv k ∨ Halted k

lemma Kept.sound (hk : Kept k) : Sound k := by
  rcases hk with hk | hk
  · exact hk.toSound
  · exact hk.sound

lemma Kept.step_passes {e : Event} (hk : Kept k) (hok : Intact k e) (h : step k e = some k') :
    Passes (fun x y => eventChange k x y e) (fun y => eventStart k y e) k k' ∧ Kept k' ∧
      ∀ c t, (∃ s answers, e = .entry c (.syscall s) answers) → k.tp c = some t → InTable k t := by
  rcases hk with hk | hk
  · have hcur : ∀ c t, (∃ s answers, e = .entry c (.syscall s) answers) → k.tp c = some t → InTable k t :=
      fun c t _ ht => (hk.current c t ht).1
    by_cases he : e.Exits
    · obtain ⟨c, answers, rfl⟩ := he
      rw [step] at h
      split at h
      · cases h
      obtain ⟨hp, hkept⟩ := departs_of_finish (exits_ends (hk.answers answers)) h
      exact ⟨fun i b hb => (hp i b hb).imp id fun hn => hn.2.elim, hkept, hcur⟩
    · have hshift := step_shift hk hok he h
      exact ⟨hshift.thread, .inl hshift.inv, hcur⟩
  · obtain ⟨hp, hk', hno⟩ := hk.step_passes h
    refine ⟨hp, .inr hk', ?_⟩
    rintro c t ⟨s, answers, he⟩
    exact absurd he (hno c s answers)

lemma Reached.kept (h : Reached Intact k) : Kept k := by
  induction h with
  | boot w entry answers hb => exact .inl (boot_inv hb)
  | step e _ hok hs ih => exact (ih.step_passes hok hs).2.1

/-- A step changes capabilities for whoever has the capability to change them only, and a
new thread has those of the process that it is a copy of, or none. -/
structure CapsKept (k : State) (e : Event) (k' : State) : Prop where
  existing : ∀ tid t, k.getTcb tid = some t → k'.getTcb tid = some t → (k'.tcb t).caps ≠ (k.tcb t).caps →
    ∃ c answers caller, k.tp c = some caller ∧ isSet (k.tcb caller).caps CAP_CAPS = true ∧
      ((∃ tid caps, e = .entry c (.syscall (.setCap tid caps)) answers ∧
          (k'.tcb t).caps = (k.tcb t).caps ||| caps) ∨
        ∃ tid caps, e = .entry c (.syscall (.clearCap tid caps)) answers ∧
          (k'.tcb t).caps = (k.tcb t).caps &&& ~~~caps)
  forked : ∀ tid t c areas answers, e = .entry c (.syscall (.fork areas)) answers →
    k.getTcb tid ≠ some t → k'.getTcb tid = some t →
    ∃ caller p, k.tp c = some caller ∧ k.getTcb (k.tcb caller).thread.eid = some p ∧
      (k'.tcb t).caps = (k.tcb p).caps
  fresh : ∀ tid t, (∀ c areas answers, e ≠ .entry c (.syscall (.fork areas)) answers) →
    k.getTcb tid ≠ some t → k'.getTcb tid = some t → (k'.tcb t).caps = 0

lemma capsKept_of_passes {e : Event} (hk : Sound k) (hk' : Sound k')
    (hp : Passes (fun x y => eventChange k x y e) (fun y => eventStart k y e) k k') : CapsKept k e k' where
  existing := by
    intro tid t h h' hne
    rw [hk.getTcb_eq] at h
    rw [hk'.getTcb_eq] at h'
    obtain ⟨-, hchange⟩ | ⟨hnone, -⟩ := hp tid t h'
    · cases e with
      | entry c e answers =>
        cases e with
        | syscall s =>
          obtain ⟨caller, hc, hmay⟩ := hchange
          cases s
          case setCap tid' caps =>
            obtain heq | ⟨hcap, heq⟩ := hmay
            · exact absurd heq hne
            · exact ⟨c, answers, caller, hc, hcap, .inl ⟨tid', caps, rfl, heq⟩⟩
          case clearCap tid' caps =>
            obtain heq | ⟨hcap, heq⟩ := hmay
            · exact absurd heq hne
            · exact ⟨c, answers, caller, hc, hcap, .inr ⟨tid', caps, rfl, heq⟩⟩
          all_goals exact absurd hmay hne
        | _ => exact absurd hchange hne
      | _ => exact absurd hchange hne
    · rw [h] at hnone
      cases hnone
  forked := by
    rintro tid t c areas answers rfl h h'
    rw [hk.getTcb_eq] at h
    rw [hk'.getTcb_eq] at h'
    obtain ⟨hsome, -⟩ | ⟨-, caller, hc, p, hget, heq⟩ := hp tid t h'
    · exact absurd hsome h
    · exact ⟨caller, p, hc, hget, heq⟩
  fresh := by
    intro tid t hno h h'
    rw [hk.getTcb_eq] at h
    rw [hk'.getTcb_eq] at h'
    obtain ⟨hsome, -⟩ | ⟨-, hstart⟩ := hp tid t h'
    · exact absurd hsome h
    · cases e with
      | entry c e answers =>
        cases e with
        | syscall s =>
          obtain ⟨caller, -, hnew⟩ := hstart
          cases s
          case fork areas => exact absurd rfl (hno c areas answers)
          all_goals exact hnew
        | _ => exact hstart.elim
      | bringup c answers => exact hstart
      | _ => exact hstart.elim

def Holds (k : State) (i : ℕ) : Prop := ∃ tid t, k.getTcb tid = some t ∧ (k.tcb t).caps.getLsbD i = true

def NoCapCaps (k : State) : Prop := ∀ tid t, k.getTcb tid = some t → isSet (k.tcb t).caps CAP_CAPS = false

lemma isSet_capCaps (x : BitVec 32) : isSet x CAP_CAPS = x.getLsbD 0 := by
  have hone : x &&& CAP_CAPS = BitVec.setWidth 32 (BitVec.ofBool (x.getLsbD 0)) :=
    BitVec.and_one_eq_setWidth_ofBool_getLsbD
  rw [isSet, hone]
  cases x.getLsbD 0 <;> decide

lemma noCapCaps_iff : NoCapCaps k ↔ ¬ Holds k 0 := by
  simp only [NoCapCaps, Holds, isSet_capCaps, not_exists, not_and, Bool.not_eq_true]

lemma CapsKept.holds {e : Event} (h : CapsKept k e k') (hno : NoCapCaps k)
    (hcur : ∀ c t, (∃ s answers, e = .entry c (.syscall s) answers) → k.tp c = some t → ∃ tid, k.getTcb tid = some t)
    {i : ℕ} (hi : Holds k' i) : Holds k i := by
  obtain ⟨tid, t, ht, hbit⟩ := hi
  by_cases hold : k.getTcb tid = some t
  · by_cases hsame : (k'.tcb t).caps = (k.tcb t).caps
    · exact ⟨tid, t, hold, hsame ▸ hbit⟩
    · obtain ⟨c, answers, caller, hc, hcap, hwhich⟩ := h.existing tid t hold ht hsame
      obtain ⟨tid', hlive⟩ : ∃ tid, k.getTcb tid = some caller := by
        apply hcur c caller ?_ hc
        obtain ⟨x, caps, he, -⟩ | ⟨x, caps, he, -⟩ := hwhich
        · exact ⟨_, answers, he⟩
        · exact ⟨_, answers, he⟩
      rw [hno tid' caller hlive] at hcap
      cases hcap
  · by_cases hfork : ∃ c areas answers, e = .entry c (.syscall (.fork areas)) answers
    · obtain ⟨c, areas, answers, he⟩ := hfork
      obtain ⟨caller, p, -, hp, heq⟩ := h.forked tid t c areas answers he hold ht
      exact ⟨_, p, hp, heq ▸ hbit⟩
    · have hzero := h.fresh tid t (fun c areas answers he => hfork ⟨c, areas, answers, he⟩) hold ht
      rw [hzero] at hbit
      simp at hbit

def Follows (ok : State → Event → Prop) (k k' : State) : Prop := ∃ e, ok k e ∧ step k e = some k'

lemma Kept.follows {e : Event} (hk : Kept k) (hok : Intact k e) (hs : step k e = some k') :
    Kept k' ∧ CapsKept k e k' ∧ (NoCapCaps k → ∀ i, Holds k' i → Holds k i) := by
  obtain ⟨hp, hk', hcur⟩ := hk.step_passes hok hs
  have hcaps := capsKept_of_passes hk.sound hk'.sound hp
  refine ⟨hk', hcaps, fun hno i hi => hcaps.holds hno (fun c t he ht => ?_) hi⟩
  obtain ⟨tid, htid⟩ := hcur c t he ht
  exact ⟨tid, (hk.sound.getTcb_eq tid).trans htid⟩

theorem capabilities_conserved (h : Reached Intact k) :
    (∀ e k', Intact k e → step k e = some k' → CapsKept k e k') ∧
      (NoCapCaps k → ∀ k', Relation.ReflTransGen (Follows Intact) k k' →
        NoCapCaps k' ∧ ∀ i, Holds k' i → Holds k i) := by
  constructor
  · intro e k' hok hs
    exact (h.kept.follows hok hs).2.1
  · intro hno k' hrun
    have hall : Kept k' ∧ ∀ i, Holds k' i → Holds k i := by
      induction hrun with
      | refl => exact ⟨h.kept, fun _ hi => hi⟩
      | @tail k₁ k₂ _ hstep ih =>
        obtain ⟨e, hok, hs⟩ := hstep
        obtain ⟨hk₁, hholds⟩ := ih
        have hno₁ : NoCapCaps k₁ := noCapCaps_iff.2 fun h₀ => noCapCaps_iff.1 hno (hholds 0 h₀)
        obtain ⟨hk₂, -, hback⟩ := hk₁.follows hok hs
        exact ⟨hk₂, fun i hi => hholds i (hback hno₁ i hi)⟩
    exact ⟨noCapCaps_iff.2 fun h₀ => noCapCaps_iff.1 hno (hall.2 0 h₀), hall.2⟩

def clearsCaps : Event := .entry 0 (.syscall (.clearCap 1 CAP_CAPS)) []

theorem capabilities_conserved_clear : ∃ k k', booted = some k ∧ step k clearsCaps = some k' ∧
    isSet (k'.tcb 0).caps CAP_CAPS = false ∧ CapsKept k clearsCaps k' := by
  have hrun : (booted.bind fun k => step k clearsCaps).map (fun k => isSet (k.tcb 0).caps CAP_CAPS) =
      some false := by decide +kernel
  obtain ⟨k', hk', hcap⟩ := Option.map_eq_some_iff.1 hrun
  obtain ⟨k, hk, hstep⟩ := Option.bind_eq_some_iff.1 hk'
  refine ⟨k, k', hk, hstep, hcap, ?_⟩
  exact (capabilities_conserved (.boot .w64 4096 _ hk)).1 clearsCaps k' (.inl rfl) hstep

def forged : Tcb :=
  { zeroTcb .w64 with caps := CAP_CAPS, thread := { (zeroTcb .w64).thread with tid := 2 } }

theorem failed_creation_is_forged :
    ¬ ∀ k e k', Reached (fun _ _ => True) k → step k e = some k' → CapsKept k e k' := by
  have hrun : ((booted.bind fun k => step k (.entry 0 (.syscall (.create 0 0 0 0 0)) [some 12, some 13, none])).map
      fun k => (k.getTcb 2, (k.tcb 12).caps, (step k (.reuse 12 forged)).map fun k =>
        (k.getTcb 2, (k.tcb 12).caps))) = some (some 12, 0, some (some 12, CAP_CAPS)) := by decide +kernel
  obtain ⟨k, hk, hobs⟩ := Option.map_eq_some_iff.1 hrun
  obtain ⟨k₀, hk₀, hcreate⟩ := Option.bind_eq_some_iff.1 hk
  obtain ⟨hget, hrest⟩ := Prod.mk.inj hobs
  obtain ⟨hcaps, hreuse⟩ := Prod.mk.inj hrest
  obtain ⟨k', hk', hobs'⟩ := Option.map_eq_some_iff.1 hreuse
  obtain ⟨hget', hcaps'⟩ := Prod.mk.inj hobs'
  intro hall
  have hreached : Reached (fun _ _ => True) k := .step _ (.boot .w64 4096 _ hk₀) trivial hcreate
  have hne : (k'.tcb 12).caps ≠ (k.tcb 12).caps := by
    rw [hcaps, hcaps']
    decide
  obtain ⟨c, answers, caller, -, -, ⟨tid, caps, he, -⟩ | ⟨tid, caps, he, -⟩⟩ :=
    (hall k _ k' hreached hk').existing 2 12 hget hget' hne
  · cases he
  · cases he

end Kmi.Kernel
