import Kmi.Kernel.Caps
import Kmi.Rpc.Identity

/-! What becomes of the notifications that are asked for. -/

namespace Kmi.Kernel

open Library.Prog

variable {α β : Type} {k k' k'' : State} {c : ℤ} {s t r : ℕ}

def OwnHandlers (k : State) : Prop :=
  ∀ t r, InTable k t → k.getTcb (k.tcb t).notifyId = some r → unavailable (k.tcb r) = false → r = t

structure Tame (k k' : State) : Prop where
  tcbs : ∀ i, k'.tcbs i = k.tcbs i ∨ k'.tcbs i = none
  tid : ∀ a, (k'.tcb a).thread.tid = (k.tcb a).thread.tid
  notifyId : ∀ a, (k'.tcb a).notifyId = (k.tcb a).notifyId
  available : ∀ a, unavailable (k'.tcb a) = false → unavailable (k.tcb a) = false
  aside : ∃ ns, k'.notes = k.notes ++ ns ∧ ∀ n ∈ ns, n.enters = false

lemma Tame.refl (k : State) : Tame k k :=
  ⟨fun _ => .inl rfl, fun _ => rfl, fun _ => rfl, fun _ => id, [], (List.append_nil _).symm, nofun⟩

lemma Tame.trans (h : Tame k k') (h' : Tame k' k'') : Tame k k'' where
  tcbs := fun i => by
    rcases h'.tcbs i with hi | hi
    · rw [hi]
      exact h.tcbs i
    · exact .inr hi
  tid := fun a => (h'.tid a).trans (h.tid a)
  notifyId := fun a => (h'.notifyId a).trans (h.notifyId a)
  available := fun a ha => h.available a (h'.available a ha)
  aside := by
    obtain ⟨ns, hns, hno⟩ := h.aside
    obtain ⟨ns', hns', hno'⟩ := h'.aside
    refine ⟨ns ++ ns', by rw [hns', hns, List.append_assoc], fun n hn => ?_⟩
    rcases List.mem_append.1 hn with hn | hn
    · exact hno n hn
    · exact hno' n hn

lemma Tame.getTcb (h : Tame k k') {tid : ℤ} {a : ℕ} (ha : k'.getTcb tid = some a) : k.getTcb tid = some a := by
  unfold State.getTcb at ha ⊢
  split at ha
  · cases ha
  rename_i hpos
  rw [if_neg hpos]
  split at ha
  · cases ha
  rename_i b hb
  rcases h.tcbs (tid % numTcbs) with hi | hi
  · rw [hi] at hb
    rw [h.tid] at ha
    rw [hb]
    exact ha
  · rw [hi] at hb
    cases hb

lemma Tame.ownHandlers (h : Tame k k') (hk : OwnHandlers k) : OwnHandlers k' := by
  intro t r ht hr hav
  rw [h.notifyId] at hr
  obtain ⟨i, hi⟩ := ht
  refine hk t r ⟨i, ?_⟩ (h.getTcb hr) (h.available r hav)
  rcases h.tcbs i with hi' | hi'
  · rw [← hi']
    exact hi
  · rw [hi'] at hi
    cases hi

def Delivered (c : ℤ) (k k' : State) : Prop :=
  ∃ ns, k'.notes = k.notes ++ ns ∧ ∀ t r f rpc, .enter t r f rpc ∈ ns →
    r = t ∧ k'.tp c = some t ∧ (Rpc.getRegs (k'.tcb t).thread).args.a0 = Rpc.SYS_USER_NOTIFY ∧
      (Rpc.getRegs (k'.tcb t).thread).args.a1 = f.toNat

lemma delivered_of_aside (h : ∃ ns, k'.notes = k.notes ++ ns ∧ ∀ n ∈ ns, n.enters = false) : Delivered c k k' := by
  obtain ⟨ns, hns, hno⟩ := h
  refine ⟨ns, hns, fun t r f rpc hn => ?_⟩
  cases hno _ hn

lemma Delivered.after (h : Delivered c k' k'') (ha : ∃ ns, k'.notes = k.notes ++ ns ∧ ∀ n ∈ ns, n.enters = false) :
    Delivered c k k'' := by
  obtain ⟨ns, hns, hno⟩ := ha
  obtain ⟨ns', hns', henter⟩ := h
  refine ⟨ns ++ ns', by rw [hns', hns, List.append_assoc], fun t r f rpc hn => ?_⟩
  rcases List.mem_append.1 hn with hn | hn
  · cases hno _ hn
  · exact henter t r f rpc hn

def Speaks (c : ℤ) (x : K α) (k : State) : Prop :=
  Ends x (fun _ k' => ∃ ns, k'.notes = k.notes ++ ns ∧ ∀ n ∈ ns, n.enters = false)
    (fun e k' => e = .stuck ∨ Delivered c k k') k

lemma Stays.speaks {x : K α} (h : Stays x) (k : State) : Speaks c x k :=
  (h k).mono (fun _ _ h => h.notes) fun _ _ he => .inl he

lemma Speaks.get_bind {f : State → K β} (h : Speaks c (f k) k) : Speaks c (get >>= f) k := h

lemma Speaks.deref_bind {p : Option α} {f : α → K β} (h : ∀ a, p = some a → Speaks c (f a) k) :
    Speaks c (deref p >>= f) k := by
  cases p with
  | none => exact .inl rfl
  | some a => exact h a rfl

lemma Speaks.after {x : K α} {Q : α → State → Prop} (h : Speaks c x k')
    (ha : ∃ ns, k'.notes = k.notes ++ ns ∧ ∀ n ∈ ns, n.enters = false)
    (hq : ∀ a k'', (∃ ns, k''.notes = k.notes ++ ns ∧ ∀ n ∈ ns, n.enters = false) → Q a k'') :
    Ends x Q (fun e k'' => e = .stuck ∨ Delivered c k k'') k' := by
  refine Ends.mono h ?_ ?_
  · rintro a k'' ⟨ns', hns', hno'⟩
    obtain ⟨ns, hns, hno⟩ := ha
    refine hq a k'' ⟨ns ++ ns', by rw [hns', hns, List.append_assoc], fun n hn => ?_⟩
    rcases List.mem_append.1 hn with hn | hn
    · exact hno n hn
    · exact hno' n hn
  · rintro e k'' (he | hd)
    · exact .inl he
    · exact .inr (hd.after ha)

lemma Speaks.bind {x : K α} {f : α → K β} (hx : Speaks c x k) (hf : ∀ a k', Speaks c (f a) k') :
    Speaks c (x >>= f) k :=
  ends_bind.2 (Ends.mono hx (fun a k' ha => (hf a k').after ha fun _ _ h => h) fun _ _ he => he)

lemma Speaks.tame_bind {x : K α} {f : α → K β} {P : α → State → Prop}
    (hx : Ends x (fun a k' => Tame k k' ∧ P a k') (fun e _ => e = .stuck) k)
    (hf : ∀ a k', Tame k k' → P a k' → Speaks c (f a) k') : Speaks c (x >>= f) k := by
  refine ends_bind.2 (hx.mono ?_ fun _ _ he => .inl he)
  rintro a k' ⟨ht, hp⟩
  exact (hf a k' ht hp).after ht.aside fun _ _ h => h

lemma speaks_leave (k : State) : Speaks c (do bklUnlock; (retUserspace : K α)) k :=
  .inr (delivered_of_aside ⟨[], (List.append_nil _).symm, nofun⟩)

lemma useTcb_thread (c : ℤ) (t : ℕ) (k : State) :
    Ends (useTcb c t)
      (fun _ k' => k'.tp c = some t ∧ k'.notes = k.notes ∧ (k'.tcb t).thread = (k.tcb t).thread)
      (fun e _ => e = .stuck) k := by
  simp only [useTcb, ends_bind, ends_get, ends_deref, ends_modifyTcb, ends_modify, implies_true, true_and]
  intro cur _
  simp [State.setTcb]

lemma enterRpc_self {a : Rpc.SysRet} {flags : Rpc.IpcFlags} (htp : k.tp c = some t) :
    Ends (enterRpc c t r a flags)
      (fun _ k' => k'.tp = k.tp ∧ k'.notes = k.notes ∧
        Rpc.enterRpc (k.tcb t).thread (k.tcb r).proc a flags = some (k'.tcb t).thread)
      (fun e _ => e = .stuck) k := by
  simp only [enterRpc, ends_bind, ends_get, ends_deref, htp, Option.some.injEq, forall_eq', ends_modifyThread,
    implies_true, true_and, cloneUvmem, ends_pure, referenceThread, ends_modifyTcb]
  intro e he _ _ _ _
  refine ⟨rfl, rfl, ?_⟩
  rw [he]
  by_cases hr : t = r
  · subst hr
    simp [State.setTcb]
  · simp [State.setTcb, hr]

lemma speaks_runNotify (k : State) : Speaks c (runNotify c t t : K α) k := by
  unfold runNotify
  refine ends_bind.2 ((useTcb_thread c t k).mono ?_ fun _ _ he => .inl he)
  rintro _ k₁ ⟨htp₁, hnotes₁, -⟩
  rw [ends_bind, ends_get]
  dsimp only
  generalize handedFlags (k₁.tcb t) = flags
  rw [ends_bind]
  refine (enterRpc_self htp₁).mono ?_ fun _ _ he => .inl he
  rintro _ k₂ ⟨htp₂, hnotes₂, he⟩
  have hargs := (Rpc.enterRpc_fields he).2.2
  have hthread : ∀ g : BitVec 32,
      ((k₂.setTcb t { k₂.tcb t with notifyFlags := g }).tcb t).thread = (k₂.tcb t).thread := by
    simp [State.setTcb]
  refine .inr ⟨[.enter t t flags (Rpc.isRpc (k₁.tcb t).thread)], ?_, ?_⟩
  · change k₂.notes ++ [_] = _
    rw [hnotes₂, hnotes₁]
  · intro t' r' f rpc hn
    obtain ⟨ht, hr, hf, -⟩ := Note.enter.inj (List.mem_singleton.1 hn)
    rw [ht, hr, hf]
    refine ⟨rfl, htp₂ ▸ htp₁, ?_, ?_⟩
    · change (Rpc.getRegs ((k₂.setTcb t _).tcb t).thread).args.a0 = _
      rw [hthread, hargs]
    · change (Rpc.getRegs ((k₂.setTcb t _).tcb t).thread).args.a1 = _
      rw [hthread, hargs]

lemma tame_setTcb {a : ℕ} {x : Tcb} (htid : x.thread.tid = (k.tcb a).thread.tid)
    (hid : x.notifyId = (k.tcb a).notifyId) (hav : unavailable x = false → unavailable (k.tcb a) = false) :
    Tame k (k.setTcb a x) := by
  refine ⟨fun _ => .inl rfl, fun b => ?_, fun b => ?_, fun b => ?_, [], (List.append_nil _).symm, nofun⟩
  all_goals
    rw [setTcb_tcb]
    split_ifs with hb
    · subst hb
      assumption
    · first | rfl | exact id

lemma tame_requestFlags (t : ℕ) (flags : BitVec 32) (k : State) :
    Ends (requestFlags t flags) (fun _ k' => Tame k k') (fun e _ => e = .stuck) k := by
  have h : Tame k (k.setTcb t { k.tcb t with notifyFlags := (k.tcb t).notifyFlags ||| flags }) :=
    tame_setTcb rfl rfl id
  exact ⟨h.tcbs, h.tid, h.notifyId, h.available, [.request t flags], rfl, by simp [Note.enters]⟩

lemma speaks_notify (hk : OwnHandlers k) (ht : InTable k t) (flags : BitVec 32) : Speaks c (notify c t flags) k := by
  have hreq : Ends (requestFlags t flags) (fun _ k' => Tame k k' ∧ InTable k' t) (fun e _ => e = .stuck) k :=
    ⟨tame_requestFlags t flags k, ht⟩
  unfold notify
  refine Speaks.tame_bind hreq fun _ k₁ h₁ ht₁ => ?_
  have hk₁ := h₁.ownHandlers hk
  apply Speaks.get_bind
  dsimp only
  split
  · exact (stays_pure ()).speaks k₁
  split
  · exact (stays_dropFlags t _).speaks k₁
  · rename_i r hr
    split
    · exact (stays_dropFlags t _).speaks k₁
    rename_i hav
    split
    · exact (stays_pure ()).speaks k₁
    split
    · exact (stays_pure ()).speaks k₁
    split
    · exact (stays_sendIpi r).speaks k₁
    · obtain rfl := hk₁ t r ht₁ hr (by simpa using hav)
      exact speaks_runNotify k₁

lemma speaks_unorphanize (t : ℕ) (k : State) : Speaks c (unorphanize t : K α) k := by
  unfold unorphanize
  refine Speaks.bind (stays_get.speaks k) fun k₁ _ => ?_
  refine Speaks.bind ((stays_assert _).speaks _) fun _ _ => ?_
  refine Speaks.bind ((stays_deref _).speaks _) fun init _ => ?_
  refine Speaks.bind ((mild_referenceThread init).stays.speaks _) fun _ _ => ?_
  refine Speaks.bind ((stays_modifyTcb _ _).speaks _) fun _ _ => ?_
  refine Speaks.bind ((mild_cloneUvmem _ _).stays.speaks _) fun _ _ => ?_
  refine Speaks.bind ((stays_assert _).speaks _) fun _ _ => ?_
  refine Speaks.bind ((stays_modifyThread _ _).speaks _) fun _ _ => ?_
  exact Speaks.bind ((stays_modifyTcb _ _).speaks _) fun _ k' => speaks_leave k'

lemma unwound_orphan {procs : Rpc.Procs} {x u : Rpc.Thread} {a : Rpc.SysRet} {ctx : Rpc.CallCtx}
    (h : unwound procs x a = some (u, ctx)) (hu : u.orphan = false) : x.orphan = false := by
  have horphan := Rpc.unwind_orphan h
  rw [hu] at horphan
  have hx := (Bool.or_eq_false_iff.mp horphan.symm).1
  split at hx <;> exact hx

lemma tame_setThread {x : Rpc.Thread} (htid : x.tid = (k.tcb t).thread.tid)
    (horphan : x.orphan = false → (k.tcb t).thread.orphan = false) :
    Tame k (k.setTcb t { k.tcb t with thread := x }) := by
  refine tame_setTcb htid rfl fun hav => ?_
  simp only [unavailable, Tcb.hasState, Tcb.orphan, Bool.or_eq_false_iff] at hav ⊢
  exact ⟨⟨hav.1.1, horphan hav.1.2⟩, hav.2⟩

lemma speaks_leaveRpc (hk : OwnHandlers k) (ht : InTable k t) (a : Rpc.SysRet) : Speaks c (leaveRpc c t a) k := by
  unfold leaveRpc
  apply Speaks.get_bind
  apply Speaks.deref_bind
  rintro ⟨u, ctx⟩ hu
  have htid := unwound_tid hu
  have h₁ := tame_setThread htid (unwound_orphan hu)
  have hthread : ((k.setTcb t { k.tcb t with thread := u }).tcb t).thread = u := by
    simp [State.setTcb]
  refine Speaks.tame_bind (P := fun _ k' => InTable k' t ∧ (k'.tcb t).thread = u) ⟨h₁, ht, hthread⟩
    fun _ k₁ h₁ hat => ?_
  obtain ⟨ht₁, hu₁⟩ := hat
  split
  · exact speaks_unorphanize t k₁
  apply Speaks.deref_bind
  intro v hv
  have hvt : v.tid = u.tid := (destroyRpc_tid hv :)
  have hvo : v.orphan = u.orphan := (Rpc.destroyRpc_orphan hv :)
  have h₂ : Tame k₁ (k₁.setTcb t { k₁.tcb t with thread := { v with pid := ctx.pid, eid := ctx.eid } }) := by
    apply tame_setThread
    · rw [hu₁]
      exact hvt
    · rw [hu₁, ← hvo]
      exact id
  refine Speaks.tame_bind (P := fun _ k' => InTable k' t) ⟨h₂, ht₁⟩ fun _ k₂ h₂ ht₂ => ?_
  apply Speaks.get_bind
  refine Speaks.bind ?_ fun _ k₃ => ?_
  · unfold onlyIf
    split
    · exact speaks_notify ((h₁.trans h₂).ownHandlers hk) ht₂ 0
    · exact (stays_pure ()).speaks k₂
  · unfold onlyIf
    split
    · exact speaks_leave k₃
    · exact (stays_pure ()).speaks k₃

lemma speaks_sysIpc (t : ℕ) (call : Rpc.Call) (pid d0 d1 d2 d3 : ℤ) (k : State) :
    Speaks c (sysIpc c t call pid d0 d1 d2 d3) k := by
  unfold sysIpc
  apply Speaks.get_bind
  unfold doIpc
  apply Speaks.get_bind
  dsimp only
  split
  · exact (stays_setArgs1 t _).speaks k
  split
  · exact (stays_setArgs1 t _).speaks k
  split
  · exact Speaks.bind ((mild_enterRpc c t _ _ _).stays.speaks k) fun _ k₁ => speaks_leave k₁
  · exact (stays_setArgs1 t _).speaks k

lemma tame_composes : Composes Tame (fun (e : Exit) _ _ => e = .stuck) where
  refl := .refl
  trans := .trans
  leave := fun _ hl => hl

def Tamely (x : K α) : Prop := Within Tame (fun e _ _ => e = .stuck) x

lemma tamely_bind {x : K α} {f : α → K β} (hx : Tamely x) (hf : ∀ a, Tamely (f a)) : Tamely (x >>= f) :=
  Within.bind tame_composes hx hf

lemma tamely_pure (a : α) : Tamely (pure a : K α) := within_pure tame_composes a

lemma tamely_get : Tamely (get : K State) := within_get tame_composes

lemma tamely_assert (p : Bool) : Tamely (assert p) := by
  cases p with
  | false => exact fun _ => rfl
  | true => exact tamely_pure ()

lemma tamely_modifyTcb {a : ℕ} {f : Tcb → Tcb} (htid : ∀ x, (f x).thread.tid = x.thread.tid)
    (hid : ∀ x, (f x).notifyId = x.notifyId) (hav : ∀ x, unavailable (f x) = unavailable x) :
    Tamely (modifyTcb a f) := by
  intro k
  refine tame_setTcb (htid _) (hid _) ?_
  rw [hav]
  exact id

lemma tamely_modify {f : State → State} (htcb : ∀ k, (f k).tcb = k.tcb)
    (htcbs : ∀ k i, (f k).tcbs i = k.tcbs i ∨ (f k).tcbs i = none) (hnotes : ∀ k, (f k).notes = k.notes) :
    Tamely (modify f) := by
  intro k
  refine ⟨htcbs k, ?_, ?_, ?_, [], by rw [hnotes, List.append_nil], nofun⟩
  all_goals
    rw [htcb]
    intro a
  · rfl
  · rfl
  · exact id

lemma tamely_freeAll {free : ℕ → K Unit} (h : ∀ p, Tamely (free p)) (ps : List ℕ) : Tamely (freeAll free ps) := by
  induction ps with
  | nil => exact tamely_pure ()
  | cons p ps ih => exact tamely_bind (h p) fun _ => ih

lemma tamely_destroyThreadData (t : ℕ) : Tamely (destroyThreadData t) := by
  have hsame : ∀ k : State, ∀ i, k.tcbs i = k.tcbs i ∨ k.tcbs i = none := fun _ _ => .inl rfl
  refine tamely_bind tamely_get fun k => ?_
  refine tamely_bind (tamely_assert _) fun _ => ?_
  refine tamely_bind (tamely_assert _) fun _ => ?_
  refine tamely_bind ?_ fun _ => ?_
  · refine tamely_modify (fun _ => rfl) (fun k' i => ?_) fun _ => rfl
    by_cases hi : i = (k.tcb t).thread.tid
    · subst hi
      exact .inr (Function.update_self _ _ _)
    · exact .inl (Function.update_of_ne hi _ _)
  refine tamely_bind (tamely_freeAll (fun p => ?_) _) fun _ => ?_
  · exact tamely_modify (fun _ => rfl) hsame fun _ => rfl
  refine tamely_bind (tamely_freeAll (fun p => ?_) _) fun _ => ?_
  · exact tamely_modify (fun _ => rfl) hsame fun _ => rfl
  exact tamely_modify (fun _ => rfl) hsame fun _ => rfl

lemma tamely_unreferenceThread (t : Option ℕ) : Tamely (unreferenceThread t) := by
  cases t with
  | none => exact tamely_pure ()
  | some t =>
    refine tamely_bind (tamely_modifyTcb (fun _ => rfl) (fun _ => rfl) fun _ => rfl) fun _ => ?_
    refine tamely_bind tamely_get fun k => ?_
    refine tamely_bind ?_ fun _ => tamely_bind tamely_get fun _ => tamely_assert _
    unfold onlyIf
    split
    · exact tamely_destroyThreadData t
    · exact tamely_pure ()

lemma speaks_sysIpcResp (hi : Inv k) (hk : OwnHandlers k) (ht : k.tp c = some t) (d0 d1 d2 d3 : ℤ) :
    Speaks c (sysIpcResp c t d0 d1 d2 d3) k := by
  unfold sysIpcResp
  apply Speaks.get_bind
  dsimp only
  split
  · exact (stays_setArgs1 t _).speaks k
  have hdrop : Ends (unreferenceThread (k.getTcb (k.tcb t).thread.pid)) (fun _ k' => Tame k k' ∧ InTable k' t)
      (fun e _ => e = .stuck) k := by
    have hboth := (tamely_unreferenceThread (k.getTcb (k.tcb t).thread.pid) k).and
      (unreferenceTcb_ends hi.toSound (k.tcb t).thread.pid)
    refine hboth.mono ?_ fun _ _ he => he.1
    rintro _ k' ⟨htame, hs, -⟩
    obtain ⟨hin, -, -, hrid⟩ := hi.current c t ht
    exact ⟨htame, (hs.kept t hin hrid nofun).1⟩
  refine Speaks.tame_bind hdrop fun _ k₁ h₁ ht₁ => ?_
  exact speaks_leaveRpc (h₁.ownHandlers hk) ht₁ _

lemma tamely_setArgs1 (t : ℕ) (status : ℤ) : Tamely (setArgs1 t status) := by
  unfold setArgs1 modifyThread
  exact tamely_modifyTcb (fun _ => rfl) (fun _ => rfl) fun _ => rfl

lemma setArgs1_ends (t : ℕ) (status : ℤ) (k : State) :
    Ends (setArgs1 t status) (fun _ k' => Tame k k' ∧ Plain k k') (fun e _ => e = .stuck) k :=
  ((tamely_setArgs1 t status k).and (mild_setArgs1 t status k)).mono (fun _ _ h => h) fun _ _ he => he.1

lemma speaks_sysIpcNotify (hk : OwnHandlers k) (t : ℕ) (tid : ℤ) : Speaks c (sysIpcNotify c t tid) k := by
  unfold sysIpcNotify
  apply Speaks.get_bind
  split
  · exact (stays_setArgs1 t _).speaks k
  split
  · exact (stays_setArgs1 t _).speaks k
  · rename_i r hr
    have hin := getTcb_inTable hr
    refine Speaks.tame_bind (setArgs1_ends t _ k) fun _ k₁ h₁ hp => ?_
    exact speaks_notify (h₁.ownHandlers hk) (hp.inTable.2 hin) _

lemma tamely_useTcb (c : ℤ) (t : ℕ) : Tamely (useTcb c t) := by
  refine tamely_bind tamely_get fun k => ?_
  refine tamely_bind ?_ fun cur => ?_
  · cases k.tp c with
    | none => exact fun _ => rfl
    | some cur => exact tamely_pure cur
  refine tamely_bind (tamely_modifyTcb (fun _ => rfl) (fun _ => rfl) fun _ => rfl) fun _ => ?_
  exact tamely_modify (fun _ => rfl) (fun _ _ => .inl rfl) fun _ => rfl

lemma useTcb_tame (c : ℤ) (t : ℕ) (k : State) :
    Ends (useTcb c t) (fun _ k' => Tame k k' ∧ k'.tcbs = k.tcbs) (fun e _ => e = .stuck) k := by
  have htcbs : Ends (useTcb c t) (fun _ k' => k'.tcbs = k.tcbs) (fun e _ => e = .stuck) k := by
    simp only [useTcb, ends_bind, ends_get, ends_deref, ends_modifyTcb, ends_modify, implies_true, true_and]
    exact fun _ _ => rfl
  exact ((tamely_useTcb c t k).and htcbs).mono (fun _ _ h => h) fun _ _ he => he.1

lemma speaks_swap (hk : OwnHandlers k) (hs : InTable k s) (t : ℕ) : Speaks c (swap c t s) k := by
  unfold swap
  refine Speaks.tame_bind (setArgs1_ends t _ k) fun _ k₁ h₁ hp => ?_
  refine Speaks.tame_bind (useTcb_tame c s k₁) fun _ k₂ h₂ htcbs => ?_
  have hs₂ : InTable k₂ s := by
    rw [InTable, htcbs]
    exact hp.inTable.2 hs
  apply Speaks.get_bind
  dsimp only
  split
  · exact speaks_unorphanize s k₂
  split
  · exact speaks_notify ((h₁.trans h₂).ownHandlers hk) hs₂ 0
  · exact (stays_pure ()).speaks k₂

lemma speaks_swapTo {next : K Unit} (hk : OwnHandlers k) (t : ℕ) (tid : ℤ) (hnext : Stays next) :
    Speaks c (swapTo c t tid next) k := by
  unfold swapTo
  apply Speaks.get_bind
  split
  · exact (stays_setArgs1 t _).speaks k
  · rename_i s hs
    split
    · exact (stays_setArgs1 t _).speaks k
    split
    · exact (stays_setArgs1 t _).speaks k
    · exact Speaks.bind (speaks_swap hk (getTcb_inTable hs) t) fun _ k₁ => hnext.speaks k₁

lemma speaks_sysSwap (hk : OwnHandlers k) (t : ℕ) (tid : ℤ) : Speaks c (sysSwap c t tid) k := by
  unfold sysSwap
  apply Speaks.get_bind
  refine Speaks.deref_bind fun p _ => ?_
  split
  · exact (stays_setArgs1 t _).speaks k
  · exact speaks_swapTo hk t tid (stays_pure ())

lemma delivered_of_trace {ops : List LockOp} (h : k' = { k with trace := ops }) : Delivered c k k' := by
  subst h
  exact delivered_of_aside ⟨[], (List.append_nil _).symm, nofun⟩

lemma speaks_sysExit (hk : OwnHandlers k) (t : ℕ) (tid : ℤ) : Speaks c (sysExit c t tid) k := by
  unfold sysExit
  apply Speaks.get_bind
  refine Speaks.deref_bind fun p _ => ?_
  split
  · exact (stays_setArgs1 t _).speaks k
  split
  · exact (stays_setArgs1 t _).speaks k
  split
  · refine Speaks.bind ((stays_destroyThread t).speaks k) fun _ k₁ => ?_
    exact .inr (delivered_of_trace rfl)
  · exact speaks_swapTo hk t tid (stays_destroyThread t)

lemma speaks_sysSleep (t : ℕ) (k : State) : Speaks c (sysSleep t) k := by
  unfold sysSleep
  apply Speaks.get_bind
  dsimp only
  split
  · exact (stays_setArgs1 t _).speaks k
  · exact .inr (delivered_of_trace rfl)

lemma speaks_handleSyscall (hi : Inv k) (hk : OwnHandlers k) (ht : k.tp c = some t) (s : Syscall) :
    Speaks c (handleSyscall c t s) k := by
  cases s with
  | ipc call pid d0 d1 d2 d3 => exact speaks_sysIpc t call pid d0 d1 d2 d3 k
  | ipcResp d0 d1 d2 d3 => exact speaks_sysIpcResp hi hk ht d0 d1 d2 d3
  | ipcNotify tid => exact speaks_sysIpcNotify hk t tid
  | setHandler tid pid => exact (mild_sysSetHandler t tid pid).stays.speaks k
  | create func d0 d1 d2 d3 => exact (stays_sysCreate t func d0 d1 d2 d3).speaks k
  | fork areas => exact (stays_sysFork t areas).speaks k
  | exec found loaded => exact (mild_sysExec t found loaded).stays.speaks k
  | spawn loaded => exact (stays_sysSpawn t loaded).speaks k
  | swap tid => exact speaks_sysSwap hk t tid
  | exit tid => exact speaks_sysExit hk t tid
  | detach tid => exact (mild_sysDetach t tid).stays.speaks k
  | setCap tid caps => exact (stays_changeCaps t tid (· ||| caps)).speaks k
  | getCap tid => exact (mild_sysGetCap t tid).stays.speaks k
  | clearCap tid caps => exact (stays_changeCaps t tid (· &&& ~~~caps)).speaks k
  | irqReq id => exact (mild_sysIrqReq t id).stays.speaks k
  | freeIrq id => exact (mild_sysFreeIrq t id).stays.speaks k
  | setConf rpc val => exact (mild_sysSetConf t rpc val).stays.speaks k
  | sleep => exact speaks_sysSleep t k
  | other refs n ret =>
    exact Speaks.bind ((stays_memRefs refs).speaks k) fun _ k₁ => (mild_setRet t n ret).stays.speaks k₁

lemma tame_called (k : State) (t : ℕ) : Tame k (called k t) := by
  have hset : Tame { k with trace := k.trace ++ [LockOp.lock] } (called k t) := tame_setTcb rfl rfl id
  exact ⟨hset.tcbs, hset.tid, hset.notifyId, hset.available, hset.aside⟩

lemma tame_lock (k : State) : Ends bklLock (fun _ k' => Tame k k' ∧ Steady k k') (fun e _ => e = .stuck) k :=
  ⟨⟨fun _ => .inl rfl, fun _ => rfl, fun _ => rfl, fun _ => id, [], (List.append_nil _).symm, nofun⟩,
    steady_trace k .lock⟩

lemma speaks_unlock (k : State) : Speaks c bklUnlock k := ⟨[], (List.append_nil _).symm, nofun⟩

lemma speaks_serveIrq (hk : OwnHandlers k) {served : Irq.Served ℕ} (hin : ∀ t, served = .owner t → InTable k t) :
    Speaks c (serveIrq c served) k := by
  cases served with
  | unregistered => exact (stays_pure ()).speaks k
  | dead => exact speaks_unlock k
  | owner t => exact Speaks.bind (speaks_notify hk (hin t rfl) _) fun _ k₁ => speaks_unlock k₁

lemma speaks_handleIrq (hk : OwnHandlers k) : Speaks c (handleIrq c) k := by
  unfold handleIrq
  refine Speaks.tame_bind (tame_lock k) fun _ k₁ h₁ _ => ?_
  apply Speaks.get_bind
  apply Speaks.deref_bind
  rintro ⟨served, irqMap⟩ hserved
  have hmap : Ends (modify fun k : State => { k with irqMap := irqMap })
      (fun _ k' => Tame k₁ k' ∧ k' = { k₁ with irqMap := irqMap }) (fun e _ => e = Exit.stuck) k₁ :=
    ⟨⟨fun _ => .inl rfl, fun _ => rfl, fun _ => rfl, fun _ => id, [], (List.append_nil _).symm, nofun⟩, rfl⟩
  refine Speaks.tame_bind hmap ?_
  rintro _ _ h₂ rfl
  refine speaks_serveIrq (h₂.ownHandlers (h₁.ownHandlers hk)) fun t ht => ?_
  obtain ⟨tid, htid⟩ := Irq.getTcb_of_owner (ht ▸ hserved)
  exact getTcb_inTable (k := k₁) htid

lemma speaks_handleTimer (hk : OwnHandlers k) (tid : ℤ) : Speaks c (handleTimer c tid) k := by
  unfold handleTimer
  refine Speaks.tame_bind (tame_lock k) fun _ k₁ h₁ _ => ?_
  apply Speaks.get_bind
  split
  · exact speaks_unlock k₁
  · rename_i r hr
    split
    · exact speaks_unlock k₁
    · refine Speaks.bind (speaks_notify (h₁.ownHandlers hk) (getTcb_inTable hr) _) fun _ k₂ => ?_
      exact speaks_unlock k₂

lemma speaks_handleIpi (hi : Inv k) : Speaks c (handleIpi c) k := by
  unfold handleIpi
  refine Speaks.tame_bind (tame_lock k) fun _ k₁ _ h₁ => ?_
  apply Speaks.get_bind
  rw [(h₁.inv hi).ipi, Ipi.handleIpi_init]
  apply Speaks.deref_bind
  rintro _ ⟨⟩
  refine Speaks.bind ?_ fun _ k₂ => speaks_unlock k₂
  exact ⟨[], (List.append_nil _).symm, nofun⟩

lemma speaks_handleException (addr : ℤ) (k : State) : Speaks c (handleException c addr) k := by
  unfold handleException
  refine Speaks.tame_bind (tame_lock k) fun _ k₁ _ _ => ?_
  refine Speaks.bind ?_ fun _ k₂ => speaks_unlock k₂
  unfold handlePagefault
  apply Speaks.get_bind
  refine Speaks.deref_bind fun t _ => ?_
  split
  · refine Speaks.deref_bind fun u _ => ?_
    exact (stays_modifyThread _ _).speaks k₁
  · refine Speaks.deref_bind fun p _ => ?_
    exact (mild_cloneUvmem _ _).stays.speaks k₁

lemma speaks_wake (status : ℤ) (k : State) : Speaks c (wake c status) k := by
  unfold wake
  refine Speaks.tame_bind (tame_lock k) fun _ k₁ _ _ => ?_
  apply Speaks.get_bind
  refine Speaks.deref_bind fun t _ => ?_
  exact Speaks.bind ((stays_setArgs1 t status).speaks k₁) fun _ k₂ => speaks_unlock k₂

def Tells (c : ℤ) (k : State) (e : Entry) : Prop :=
  Ends (trap c e) (fun _ _ => False) (fun ex k' => ex = .stuck ∨ Delivered c k k') k

lemma tells_of_speaks {e : Entry} (h : Speaks c (enterKernel c e) k) : Tells c k e :=
  ends_bind.2 (Ends.mono h (fun _ _ ha => .inr (delivered_of_aside ha)) fun _ _ he => he)

lemma tells_entry (hi : Inv k) (hk : OwnHandlers k) (e : Entry) : Tells c k e := by
  cases e with
  | syscall s =>
    refine trap_syscall c s k (fun _ => .inl rfl) fun t ht => ?_
    have htame := tame_called k t
    have hhandle : Speaks c (handleSyscall c t s) (called k t) :=
      speaks_handleSyscall ((called_steady k t).inv hi) (htame.ownHandlers hk) ht s
    refine ends_bind.2 (hhandle.after htame.aside fun _ k₁ ha => ?_)
    exact .inr (delivered_of_aside ha)
  | irq => exact tells_of_speaks (speaks_handleIrq hk)
  | timer tid => exact tells_of_speaks (speaks_handleTimer hk tid)
  | ipi => exact tells_of_speaks (speaks_handleIpi hi)
  | fault addr => exact tells_of_speaks (speaks_handleException addr k)
  | wake status => exact tells_of_speaks (speaks_wake status k)

def Event.processor : Event → Option ℤ
  | .entry c _ _ => some c
  | .bringup c _ => some c
  | .user c _ _ _ => some c
  | .reuse _ _ => none

lemma speaks_coreBringup (k : State) : Speaks c (coreBringup c) k := by
  unfold coreBringup
  refine Speaks.tame_bind (tame_lock k) fun _ k₁ _ _ => ?_
  apply Speaks.get_bind
  refine Speaks.deref_bind fun init _ => ?_
  refine Speaks.bind ((stays_createThread (some init)).speaks k₁) fun n k₂ => ?_
  refine Speaks.deref_bind fun t _ => ?_
  apply Speaks.get_bind
  refine Speaks.bind ((stays_modifyTcb _ _).speaks k₂) fun _ k₃ => ?_
  refine Speaks.bind ?_ fun _ k₄ => ?_
  · exact ⟨[], (List.append_nil _).symm, nofun⟩
  refine Speaks.bind ((stays_useTcb c t).speaks k₄) fun _ k₅ => ?_
  exact Speaks.bind ((mild_setThread t).stays.speaks k₅) fun _ k₆ => speaks_leave k₆

structure FlagsConserved (k : State) : Prop where
  flags : ∀ tid t, k.getTcb tid = some t → (k.tcb t).notifyFlags = pending t k.notes
  notes : NotesSound k.notes

structure StepDelivers (k : State) (e : Event) (k' : State) : Prop where
  delivered : ∀ c, e.processor = some c → Delivered c k k'
  silent : e.processor = none → k'.notes = k.notes

lemma Kept.step_delivers {e : Event} (hk : Kept k) (hok : Intact k e) (how : OwnHandlers k)
    (hs : step k e = some k') : StepDelivers k e k' := by
  cases e with
  | entry c e answers =>
    refine ⟨?_, fun hnone => by cases hnone⟩
    rintro _ ⟨⟩
    obtain hk | hk := hk
    · rw [step] at hs
      split at hs
      · cases hs
      have htells : Tells c { k with answers := answers } e := tells_entry (hk.answers answers) how e
      exact departs_of_finish htells hs
    · rw [step, if_pos hk.held] at hs
      cases hs
  | bringup c answers =>
    refine ⟨?_, fun hnone => by cases hnone⟩
    rintro _ ⟨⟩
    obtain hk | hk := hk
    · rw [step] at hs
      split at hs
      · cases hs
      have hboth := Ends.and (speaks_coreBringup { k with answers := answers })
        (coreBringup_ends (c := c) (hk.answers answers) hok)
      have hdeparts : Ends (coreBringup c) (fun _ _ => False) (fun e k' => e = .stuck ∨ Delivered c k k')
          { k with answers := answers } :=
        hboth.mono (fun _ _ h => h.2.elim) fun _ _ h => h.1
      exact departs_of_finish hdeparts hs
    · rw [step, if_pos (by simp [hk.held])] at hs
      cases hs
  | user c exec regs page =>
    refine ⟨fun c' _ => ?_, fun hnone => by cases hnone⟩
    rw [step] at hs
    obtain ⟨a, -, rfl⟩ := Option.map_eq_some_iff.1 hs
    exact delivered_of_aside ⟨[], (List.append_nil _).symm, fun _ hnote => by cases hnote⟩
  | reuse a x =>
    refine ⟨fun _ hsome => (by cases hsome), fun _ => ?_⟩
    rw [step] at hs
    split at hs
    · cases hs
    · obtain rfl := Option.some.inj hs
      rfl

lemma Reached.mono {ok ok' : State → Event → Prop} (h : Reached ok k) (hok : ∀ k e, ok k e → ok' k e) :
    Reached ok' k := by
  induction h with
  | boot w entry answers hb => exact .boot w entry answers hb
  | step e _ ho hs ih => exact .step e ih (hok _ e ho) hs

def SelfHandled (k : State) (e : Event) : Prop := Intact k e ∧ OwnHandlers k

theorem notify_flags_conserved (h : Reached SelfHandled k) :
    FlagsConserved k ∧ ∀ e k', SelfHandled k e → step k e = some k' → StepDelivers k e k' := by
  have hk := (h.mono fun _ _ ho => ho.1).kept
  refine ⟨⟨fun tid t ht => hk.sound.flags t (getTcb_inTable ht), hk.sound.notes⟩, ?_⟩
  intro e k' hok hs
  exact hk.step_delivers hok.1 hok.2 hs

def notifiesItself : Event := .entry 0 (.syscall (.ipcNotify 1)) []

theorem notify_flags_conserved_self : ∃ k k', booted = some k ∧ step k notifiesItself = some k' ∧
    k'.notes = [.create 0, .request 0 1, .enter 0 0 1 false] ∧ FlagsConserved k ∧
    StepDelivers k notifiesItself k' := by
  have hids : (booted.map fun k => (k.startTid, (k.tcb 0).notifyId)) = some (2, 1) := by decide +kernel
  have htable : (booted.map fun k => (k.tcbs 1, k.getTcb 1)) = some (some 0, some 0) := by decide +kernel
  have hrun : ((booted.bind fun k => step k notifiesItself).map fun k => k.notes) =
      some [.create 0, .request 0 1, .enter 0 0 1 false] := by decide +kernel
  obtain ⟨k', hstep, hnotes⟩ := Option.map_eq_some_iff.1 hrun
  obtain ⟨k, hk, hk'⟩ := Option.bind_eq_some_iff.1 hstep
  rw [hk] at hids htable
  obtain ⟨hstart, hid⟩ := Prod.mk.inj (Option.some.inj hids)
  obtain ⟨hentry, hget⟩ := Prod.mk.inj (Option.some.inj htable)
  have hown : OwnHandlers k := by
    rintro t r ⟨i, hi⟩ hr -
    obtain ⟨-, -, hpos, hlt, -⟩ := (boot_inv hk).table i t hi
    obtain rfl : i = 1 := by omega
    obtain rfl : 0 = t := Option.some.inj (hentry.symm.trans hi)
    rw [hid, hget] at hr
    exact (Option.some.inj hr).symm
  obtain ⟨hflags, hall⟩ := notify_flags_conserved (.boot .w64 4096 _ hk)
  exact ⟨k, k', hk, hk', hnotes, hflags, hall notifiesItself k' ⟨.inl rfl, hown⟩ hk'⟩

def otherHandler : List Event :=
  [.entry 0 (.syscall (.spawn (.entry 8192))) [some 7, some 8, some 9, some 10, some 11, some 12, some 13],
    .entry 0 (.syscall (.setHandler 1 2)) []]

theorem other_handler_gets_no_flags :
    ¬ ∀ k e k', Reached (fun _ _ => True) k → step k e = some k' → StepDelivers k e k' := by
  have hrun : ((booted.bind fun k => play k otherHandler).map fun k => (k.notes,
      (step k notifiesItself).map fun k' => (k'.notes, (k'.tcb 0).notifyFlags, k'.tp 0))) =
      some ([.create 0, .create 7], some ([.create 0, .create 7, .request 0 1, .enter 0 7 1 false], 0, some 7)) := by
    decide +kernel
  obtain ⟨k, hk, hobs⟩ := Option.map_eq_some_iff.1 hrun
  obtain ⟨hnotes, hstep⟩ := Prod.mk.inj hobs
  obtain ⟨k₀, hk₀, hplay⟩ := Option.bind_eq_some_iff.1 hk
  obtain ⟨k', hk', hobs'⟩ := Option.map_eq_some_iff.1 hstep
  obtain ⟨hnotes', -⟩ := Prod.mk.inj hobs'
  have hreached : Reached (fun _ _ => True) k := .play (.boot .w64 4096 _ hk₀) (fun _ _ _ => trivial) hplay
  intro hall
  obtain ⟨ns, hns, henter⟩ := (hall k notifiesItself k' hreached hk').delivered 0 rfl
  have hmem : Note.enter 0 7 1 false ∈ ns := by
    rw [hnotes, hnotes'] at hns
    have hlast : [Note.request 0 1, .enter 0 7 1 false] = ns :=
      @List.append_cancel_left _ [Note.create 0, .create 7] _ _ hns
    rw [← hlast]
    simp
  have hwrong := (henter 0 7 1 false hmem).1
  cases hwrong

end Kmi.Kernel
