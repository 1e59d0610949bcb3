import Kmi.Kernel.Table
import Kmi.Kernel.Steps

/-! Runs of the whole machine: it boots, and then processors come up, trap into the kernel
and run user code in any order. -/

namespace Kmi.Kernel

open Library.Prog

variable {k k' k'' : State} {c : ℤ} {s t r n : ℕ}

lemma Inv.not_current_of_free (hk : Inv k) (ht : k.stackPages t = false) (c : ℤ) : k.cpuTcb c ≠ some t := by
  intro hc
  have hin := (hk.current c t (hk.cpu c t hc)).1
  exact hk.ne_of_free ht hin rfl

lemma usable_of_made (hk : Inv k) (ht : k.stackPages t = false) (h : Plain (seated k t 1) k') (c : ℤ) :
    Usable k' c t where
  inTable := h.inTable.2 ((seated_inTable hk.toSound).2 (.inr rfl))
  rid := (h.core t).rid (by simp [seated])
  idle := by
    have hnot := hk.not_current_of_free ht (k'.tcb t).cpuId
    refine .inl ?_
    rw [State.running, h.cpuTcb]
    exact decide_eq_false hnot

def assigned (k : State) (c : ℤ) (t : ℕ) (x : Tcb) : State :=
  { k.setTcb t x with tp := Function.update k.tp c (some t) }

lemma useTcb_assigned {x : Tcb} (hx : x.cpuId = c) :
    Ends (useTcb c t) (fun _ k' => k' = used (assigned k c t x) c t) (fun _ _ => False) (assigned k c t x) := by
  have htp : (assigned k c t x).tp c = some t := by simp [assigned]
  have hcpu : ((assigned k c t x).tcb t).cpuId = c := by simp [assigned, State.setTcb, hx]
  simp only [useTcb, ends_bind, ends_get, ends_deref, htp, Option.some.injEq, forall_eq', reduceCtorEq,
    false_implies, true_and, hcpu]
  rfl

lemma used_assigned {x : Tcb} (hx : SameCore { k.tcb t with cpuId := c } x) :
    Plain (used k c t) (used (assigned k c t x) c t) := by
  refine ⟨rfl, rfl, rfl, rfl, ?_, rfl, rfl, rfl, rfl, fun a => ?_⟩
  · simp [used, assigned]
  · rw [used_tcb, used_tcb]
    by_cases ha : a = t
    · subst ha
      have ht : (assigned k c a x).tcb a = x := by simp [assigned, State.setTcb]
      rw [ht]
      exact ⟨hx.tid, hx.caps, by simp, hx.flags, hx.dead, hx.rid⟩
    · have ht : (assigned k c t x).tcb a = k.tcb a := by simp [assigned, State.setTcb, ha]
      rw [ht, if_neg ha]
      exact .refl _

lemma start_ends {x : Tcb} (hx : SameCore { k.tcb t with cpuId := c } x) :
    Ends (useTcb c t) (fun _ k' => Plain (used k c t) k') (fun e _ => e = .stuck) (assigned k c t x) := by
  refine (useTcb_assigned hx.cpuId).mono ?_ fun _ _ hf => hf.elim
  rintro _ _ rfl
  exact used_assigned hx

lemma assigned_tcb (k : State) (c : ℤ) (t : ℕ) (x : Tcb) : (assigned k c t x).tcb t = x := by
  simp [assigned, State.setTcb]

lemma setTcb_assigned (k : State) (c : ℤ) (t : ℕ) (x y : Tcb) (caps : BitVec 32) :
    (assigned k c t y).setTcb t x = assigned (withCaps k t caps) c t x := by
  simp [assigned, withCaps, State.setTcb]

lemma coreBringup_ends (hk : Inv k) (hlt : k.startTid < numTcbs) :
    Ends (coreBringup c) (fun _ _ => False) (fun e k' => e = .stuck ∨ Shift Eq (· = 0) k k') k := by
  have hlock := steady_trace k .lock
  unfold coreBringup
  rw [ends_bind]
  change Ends _ _ _ { k with trace := k.trace ++ [LockOp.lock] }
  have hlift : ∀ k', Shift Eq (· = 0) { k with trace := k.trace ++ [LockOp.lock] } k' → Shift Eq (· = 0) k k' :=
    fun k' h => h.of_same rfl hlock.caps (fun _ _ h => h) fun _ h => h
  have hk₁ := hlock.inv hk
  have hlt₁ : State.startTid { k with trace := k.trace ++ [LockOp.lock] } < numTcbs := hlt
  generalize ({ k with trace := k.trace ++ [LockOp.lock] } : State) = k₁ at hlift hk₁ hlt₁ ⊢
  rw [ends_bind, ends_get, ends_bind, ends_deref]
  refine ⟨fun _ => .inl rfl, fun init _ => ?_⟩
  rw [ends_bind]
  refine (createThread_ends (p := some init) hk₁.toSound hlt₁).mono ?_ fun _ _ he => .inl he
  intro n k₂ hn
  rw [ends_bind, ends_deref]
  refine ⟨fun _ => .inl rfl, ?_⟩
  rintro t rfl
  obtain ⟨hfree, h₂⟩ : Made k₁ (some t) k₂ := hn (.inl nofun)
  have hmade : Shift Eq (· = 0) k₁ k₂ :=
    made_shift (p := some t) hk₁ hlt₁ ⟨hfree, h₂⟩ (fun _ => rfl) rfl
  have hus := usable_of_made hk₁ hfree h₂ c
  rw [ends_bind, ends_get, ends_bind, ends_modifyTcb, ends_bind, ends_modify, ends_bind]
  change Ends _ _ _ (assigned k₂ c t _)
  refine (start_ends ?_).mono ?_ fun _ _ he => .inl he
  · exact ⟨rfl, rfl, rfl, rfl, rfl, id⟩
  intro _ k₂' hstart
  have hcalm := (used_calm hus).trans hstart.steady.toCalm
  rw [ends_bind]
  refine (mild_setThread t _).mono ?_ fun _ _ he => .inl he
  intro _ k₃ h₃
  refine Ends.mono (departs_leave k₃) (fun _ _ hf => hf) ?_
  rintro e k₄ (he | h₄)
  · exact .inl he
  · exact .inr (hlift k₄ (hmade.calm (hcalm.trans (h₃.steady.toCalm.trans h₄))))

lemma blank_inv (w : Rpc.IdWidth) (answers : List (Option ℕ)) : Inv { blank w with answers := answers } where
  toSound :=
    ⟨(blank_sound w).table, (blank_sound w).listed, (blank_sound w).alive, rfl, (blank_sound w).flags, (blank_sound w).notes,
      (blank_sound w).indices⟩
  cpu := nofun
  current := nofun

lemma Usable.withCaps (h : Usable k c t) (a : ℕ) (caps : BitVec 32) : Usable (withCaps k a caps) c t where
  inTable := h.inTable
  rid := by
    rw [withCaps_tcb]
    exact h.rid
  idle := by
    rw [State.running, withCaps_tcb]
    exact h.idle

lemma initProc_ends (hk : Inv k) (hlt : k.startTid < numTcbs) (entry : ℤ) :
    Ends (initProc entry) (fun _ k' => Inv k') (fun e _ => e = .stuck) k := by
  unfold initProc createProc
  rw [ends_bind, ends_bind]
  refine (createThread_ends (p := none) hk.toSound hlt).mono ?_ fun _ _ he => he
  intro n k₁ hn
  cases n with
  | none =>
    rw [ends_pure, ends_bind, ends_deref]
    exact ⟨fun _ => rfl, nofun⟩
  | some t =>
    obtain ⟨hfree, h₁⟩ : Made k (some t) k₁ := hn (.inl nofun)
    have hk₁ := h₁.inv (seated_inv hk hfree hlt)
    have hus := usable_of_made hk hfree h₁ 0
    rw [ends_pure, ends_bind, ends_deref]
    refine ⟨nofun, ?_⟩
    rintro _ ⟨⟩
    rw [ends_bind, ends_modifyTcb, ends_bind, ends_modify, ends_bind, ends_get]
    change Ends _ _ _ (assigned k₁ 0 t _)
    rw [ends_bind, ends_modifyTcb, assigned_tcb, setTcb_assigned k₁ 0 t _ _ ((k₁.tcb t).caps |||
      (CAP_CAPS ||| CAP_PROC ||| CAP_SIGNAL ||| CAP_POWER ||| CAP_NOTIFY ||| CAP_SHARED))]
    generalize (k₁.tcb t).caps ||| _ = caps
    rw [ends_bind]
    refine (start_ends ?_).mono ?_ fun _ _ he => he
    · rw [withCaps_tcb, if_pos rfl]
      exact ⟨rfl, rfl, rfl, rfl, rfl, id⟩
    intro _ k₂ hstart
    have hk₂ := hstart.inv (used_inv (withCaps_inv hk₁ t caps) (hus.withCaps t caps))
    have hlast : Mild (do setThread t; modifyTcb t fun x => { x with callback := entry }) := by
      refine mild_bind (mild_setThread t) fun _ => mild_modifyTcb fun _ => ?_
      exact ⟨rfl, rfl, rfl, rfl, rfl, id⟩
    exact (hlast k₂).mono (fun _ _ h => h.inv hk₂) fun _ _ he => he

inductive Reached (ok : State → Event → Prop) : State → Prop where
  | boot {k : State} (w : Rpc.IdWidth) (entry : ℤ) (answers : List (Option ℕ)) :
      boot w entry answers = some k → Reached ok k
  | step {k k' : State} (e : Event) : Reached ok k → ok k e → step k e = some k' → Reached ok k'

def Intact (k : State) : Event → Prop
  | .entry _ (.syscall s) answers => Whole k s answers
  | .bringup _ _ => k.startTid < numTcbs
  | _ => True

def Event.Exits (e : Event) : Prop := ∃ c answers, e = .entry c (.syscall (.exit 0)) answers

def eventChange (k : State) (x y : BitVec 32) : Event → Prop
  | .entry c e _ => entryChange k c x y e
  | _ => y = x

def eventStart (k : State) (y : BitVec 32) : Event → Prop
  | .entry c e _ => entryStart k c y e
  | .bringup _ _ => y = 0
  | _ => False

lemma ends_of_finish {x : K Unit} {P : State → Prop} (h : Ends x (fun _ k' => P k') (fun e k' => e = .stuck ∨ P k') k)
    (hf : finish x k = some k') : P k' := by
  unfold finish at hf
  cases hx : x k with
  | ok a k₁ =>
    rw [hx] at hf
    obtain rfl := Option.some.inj hf
    exact ends_of_eq_ok hx h
  | error e k₁ =>
    have he := ends_of_eq_error hx h
    rw [hx] at hf
    cases e with
    | stuck => cases hf
    | user =>
      obtain rfl := Option.some.inj hf
      simpa using he
    | asleep =>
      obtain rfl := Option.some.inj hf
      simpa using he

lemma departs_of_finish {x : K Unit} {P : State → Prop}
    (h : Ends x (fun _ _ => False) (fun e k' => e = .stuck ∨ P k') k) (hf : finish x k = some k') : P k' := by
  have hends : Ends x (fun _ k' => P k') (fun e k' => e = .stuck ∨ P k') k :=
    h.mono (fun _ _ hf => hf.elim) fun _ _ he => he
  exact ends_of_finish hends hf

lemma Inv.answers (hk : Inv k) (answers : List (Option ℕ)) : Inv { k with answers := answers } :=
  ⟨⟨hk.table, hk.listed, hk.alive, hk.ipi, hk.flags, hk.notes, hk.indices⟩, hk.cpu, hk.current⟩

lemma plain_userRun (k : State) (a : ℕ) (exec : ℤ) (regs : Rpc.Regs) (page : ℤ → Rpc.StackPage) :
    Plain k (k.setTcb a { k.tcb a with thread := Rpc.userRun (k.tcb a).thread exec regs page }) :=
  plain_setThread rfl

lemma Sound.setTcb_free (hk : Sound k) {a : ℕ} (ha : k.stackPages a = false) (x : Tcb) {b : ℕ} (hb : InTable k b) :
    (k.setTcb a x).tcb b = k.tcb b := by
  rw [setTcb_tcb, if_neg (hk.ne_of_free ha hb)]

lemma sound_reuse (hk : Sound k) {a : ℕ} (ha : k.stackPages a = false) (x : Tcb) : Sound (k.setTcb a x) where
  table := by
    intro i b hb
    rw [hk.setTcb_free ha x ⟨i, hb⟩]
    exact hk.table i b hb
  listed := hk.listed
  alive := by
    intro b hb
    rw [hk.setTcb_free ha x hb]
    exact hk.alive b hb
  ipi := hk.ipi
  flags := by
    intro b hb
    rw [hk.setTcb_free ha x hb]
    exact hk.flags b hb
  notes := hk.notes
  indices := hk.indices

lemma shift_reuse (hk : Inv k) {a : ℕ} (ha : k.stackPages a = false) (x : Tcb) :
    Shift Eq (fun _ => False) k (k.setTcb a x) where
  thread := by
    intro i b hb
    have hb : k.tcbs i = some b := hb
    refine .inl ⟨hb, ?_⟩
    rw [hk.setTcb_free ha x ⟨i, hb⟩]
  inv := by
    refine ⟨sound_reuse hk.toSound ha x, hk.cpu, fun c b hb => ?_⟩
    have hcur := hk.current c b hb
    rw [hk.setTcb_free ha x hcur.1]
    exact hcur

lemma step_shift (hk : Inv k) {e : Event} (hok : Intact k e) (hne : ¬ e.Exits) (h : step k e = some k') :
    Shift (fun x y => eventChange k x y e) (fun y => eventStart k y e) k k' := by
  cases e with
  | entry c e answers =>
    rw [step] at h
    split at h
    · cases h
    · have hleaves : Leaves c { k with answers := answers } e := by
        refine leaves_entry (hk.answers answers) ?_
        rintro s rfl
        refine ⟨?_, hok⟩
        rintro rfl
        exact hne ⟨c, answers, rfl⟩
      have hshift := departs_of_finish hleaves h
      refine hshift.of_same rfl (fun _ => rfl) (fun x y hxy => ?_) fun y hy => ?_
      · cases e <;> exact hxy
      · cases e with
        | syscall s => cases s <;> exact hy
        | _ => exact hy
  | bringup c answers =>
    rw [step] at h
    split at h
    · cases h
    · have hshift := departs_of_finish (coreBringup_ends (hk.answers answers) hok) h
      exact hshift.of_same rfl (fun _ => rfl) (fun _ _ hxy => hxy.symm) fun _ hy => hy
  | user c exec regs page =>
    rw [step] at h
    obtain ⟨a, -, rfl⟩ := Option.map_eq_some_iff.1 h
    exact (plain_userRun k a exec regs page).steady.toCalm.shift hk fun _ => rfl
  | reuse a x =>
    rw [step] at h
    split at h
    · cases h
    · rename_i ha
      obtain rfl := Option.some.inj h
      have hshift := shift_reuse hk (by simpa using ha) x
      exact hshift.of_same rfl (fun _ => rfl) (fun _ _ hxy => hxy.symm) fun _ hf => hf

lemma boot_inv {w : Rpc.IdWidth} {entry : ℤ} {answers : List (Option ℕ)} (h : boot w entry answers = some k) :
    Inv k := by
  have hlt : State.startTid { blank w with answers := answers } < numTcbs := show (0 : ℤ) < numTcbs by decide
  have hends := initProc_ends (blank_inv w answers) hlt entry
  have hends' : Ends (initProc entry) (fun _ k' => Inv k') (fun e k' => e = .stuck ∨ Inv k')
      { blank w with answers := answers } := hends.mono (fun _ _ h => h) fun _ _ he => .inl he
  exact ends_of_finish hends' h

def Orderly (k : State) (e : Event) : Prop := Intact k e ∧ ¬ e.Exits

lemma Reached.inv (h : Reached Orderly k) : Inv k := by
  induction h with
  | boot w entry answers hb => exact boot_inv hb
  | step e _ hok hs ih => exact (step_shift ih hok.1 hok.2 hs).inv

structure OnePlace (k : State) : Prop where
  injective : ∀ c c' t, k.tp c = some t → k.tp c' = some t → c = c'
  array : ∀ c t, k.cpuTcb c = some t ↔ k.tp c = some t
  cpuId : ∀ c t, k.tp c = some t → (k.tcb t).cpuId = c
  running : ∀ t, k.running t = true ↔ ∃ c, k.tp c = some t

lemma Inv.onePlace (hk : Inv k) : OnePlace k where
  injective := by
    intro c c' t hc hc'
    exact (hk.current c t hc).2.2.1.symm.trans (hk.current c' t hc').2.2.1
  array := fun c t => ⟨hk.cpu c t, fun hc => (hk.current c t hc).2.1⟩
  cpuId := fun c t hc => (hk.current c t hc).2.2.1
  running := by
    intro t
    constructor
    · intro h
      exact ⟨(k.tcb t).cpuId, hk.cpu _ t (by simpa [State.running] using h)⟩
    · rintro ⟨c, hc⟩
      exact hk.running_of_current hc

theorem one_processor_per_thread (h : Reached Orderly k) : OnePlace k := h.inv.onePlace

def booted : Option State := boot .w64 4096 [some 0, some 1, some 2, some 3, some 4, some 5, some 6]

def secondProcessor : Event := .bringup 1 [some 7, some 8, some 9, some 10, some 11]

theorem one_processor_per_thread_two : ∃ k, booted.bind (fun k => step k secondProcessor) = some k ∧
    k.tp 0 = some 0 ∧ k.tp 1 = some 7 ∧ OnePlace k := by
  have hrun : (booted.map fun k => (decide (k.startTid < numTcbs), (step k secondProcessor).map fun k =>
      (k.tp 0, k.tp 1))) = some (true, some (some 0, some 7)) := by decide +kernel
  obtain ⟨k, hk, hrest⟩ := Option.map_eq_some_iff.1 hrun
  obtain ⟨hfew, htp⟩ := Prod.mk.inj hrest
  have hlt : k.startTid < numTcbs := of_decide_eq_true hfew
  obtain ⟨k', hk', htp⟩ := Option.map_eq_some_iff.1 htp
  obtain ⟨h₀, h₁⟩ := Prod.mk.inj htp
  refine ⟨k', ?_, h₀, h₁, one_processor_per_thread ?_⟩
  · rw [hk]
    exact hk'
  · refine .step secondProcessor (.boot .w64 4096 _ hk) ⟨hlt, ?_⟩ hk'
    rintro ⟨c, answers, h⟩
    cases h

def play (k : State) (es : List Event) : Option State := es.foldlM step k

lemma Reached.play {ok : State → Event → Prop} {es : List Event} (h : Reached ok k)
    (hok : ∀ k, ∀ e ∈ es, ok k e) (hp : play k es = some k') : Reached ok k' := by
  induction es generalizing k with
  | nil =>
    obtain rfl := Option.some.inj hp
    exact h
  | cons e es ih =>
    rw [Kernel.play, List.foldlM_cons] at hp
    obtain ⟨k₁, hstep, hrest⟩ := Option.bind_eq_some_iff.1 hp
    refine ih (h.step e (hok k e List.mem_cons_self) hstep) (fun k e he => ?_) hrest
    exact hok k e (List.mem_cons_of_mem _ he)

def reusedThread : List Event :=
  [secondProcessor,
    .entry 0 (.syscall (.create 0 0 0 0 0)) [some 12, some 13, none],
    .entry 1 (.syscall (.swap 3)) [],
    .entry 0 (.syscall (.create 0 0 0 0 0)) [some 12, some 13, some 14, some 15, some 16]]

theorem failed_creation_runs : ¬ ∀ k, Reached (fun _ e => ¬ e.Exits) k → OnePlace k := by
  have hrun : ((booted.bind fun k => play k reusedThread).map fun k => (k.tp 1, (k.tcb 12).cpuId)) =
      some (some 12, 0) := by decide +kernel
  obtain ⟨k', hk', hobs⟩ := Option.map_eq_some_iff.1 hrun
  obtain ⟨htp, hcpu⟩ := Prod.mk.inj hobs
  obtain ⟨k, hk, hplay⟩ := Option.bind_eq_some_iff.1 hk'
  have hreached : Reached (fun _ e => ¬ e.Exits) k' := by
    refine Reached.play (.boot .w64 4096 _ hk) ?_ hplay
    rintro _ e he ⟨c, answers, rfl⟩
    simp [reusedThread, secondProcessor] at he
  intro hall
  have hone := (hall k' hreached).cpuId 1 12 htp
  rw [hcpu] at hone
  cases hone

end Kmi.Kernel
