import Kmi.Kernel.Plain

/-! What holds of the thread table, the processors and the notifications between any
two entries, as long as no creation of a thread fails half-way. -/

namespace Kmi.Kernel

open Library.Prog

variable {α β : Type} {k k' k'' : State}

def InTable (k : State) (a : ℕ) : Prop := ∃ i, k.tcbs i = some a

def pendingAfter (a : ℕ) (f : BitVec 32) : Note → BitVec 32
  | .request t g => if t = a then f ||| g else f
  | .drop t _ => if t = a then 0 else f
  | .enter t _ g _ => if t = a then f &&& ~~~g else f
  | .create t => if t = a then 0 else f

def pending (a : ℕ) (notes : List Note) : BitVec 32 := notes.foldl (pendingAfter a) 0

@[simp]
lemma pending_append (a : ℕ) (notes : List Note) (n : Note) :
    pending a (notes ++ [n]) = pendingAfter a (pending a notes) n := by
  simp [pending]

/-- Only flags that are pending are handed over, no signals inside an RPC, and flags are
thrown away only where there is no handler to run. -/
def Note.Sound (pre : List Note) : Note → Prop
  | .enter t _ g rpc =>
    g &&& pending t pre = g ∧ (rpc = true → g &&& (NOTIFY_SIGNAL ||| NOTIFY_ORPHANED) = 0)
  | .drop _ (some (state, callback)) => state = true ∨ callback = 0
  | _ => True

def NotesSound (notes : List Note) : Prop := ∀ pre n post, notes = pre ++ n :: post → n.Sound pre

structure Sound (k : State) : Prop where
  table : ∀ i a, k.tcbs i = some a →
    k.stackPages a = true ∧ (k.tcb a).thread.tid = i ∧ 0 < i ∧ i < k.startTid ∧ i < numTcbs
  listed : ∀ a, k.stackPages a = true → InTable k a
  alive : ∀ a, InTable k a → (k.tcb a).dead = false → (k.tcb a).rid ≠ 0
  ipi : k.ipi = Ipi.initHeads
  flags : ∀ a, InTable k a → (k.tcb a).notifyFlags = pending a k.notes
  notes : NotesSound k.notes
  indices : ∀ i ∈ k.indices, 0 ≤ i ∧ i < numTcbs

structure Inv (k : State) : Prop extends Sound k where
  cpu : ∀ c a, k.cpuTcb c = some a → k.tp c = some a
  current : ∀ c a, k.tp c = some a →
    InTable k a ∧ k.cpuTcb c = some a ∧ (k.tcb a).cpuId = c ∧ (k.tcb a).rid ≠ 0

structure Calm (k k' : State) : Prop where
  tcbs : ∀ i, k'.tcbs i = k.tcbs i ∨ k'.tcbs i = none
  startTid : k'.startTid = k.startTid
  caps : ∀ a, (k'.tcb a).caps = (k.tcb a).caps
  inv : Inv k → Inv k'

structure Steady (k k' : State) : Prop extends Calm k k' where
  tp : k'.tp = k.tp

lemma Calm.refl (k : State) : Calm k k := ⟨fun _ => .inl rfl, rfl, fun _ => rfl, id⟩

lemma Calm.trans (h : Calm k k') (h' : Calm k' k'') : Calm k k'' where
  tcbs := fun i => by
    rcases h'.tcbs i with hi | hi
    · rw [hi]
      exact h.tcbs i
    · exact .inr hi
  startTid := h'.startTid.trans h.startTid
  caps := fun a => (h'.caps a).trans (h.caps a)
  inv := fun hi => h'.inv (h.inv hi)

lemma Steady.refl (k : State) : Steady k k := ⟨.refl k, rfl⟩

lemma Steady.trans (h : Steady k k') (h' : Steady k' k'') : Steady k k'' :=
  ⟨h.toCalm.trans h'.toCalm, h'.tp.trans h.tp⟩

lemma Plain.inTable (h : Plain k k') {a : ℕ} : InTable k' a ↔ InTable k a := by
  rw [InTable, InTable, h.tcbs]

lemma Plain.sound (h : Plain k k') (hk : Sound k) : Sound k' where
  table := by
    intro i a hi
    rw [h.tcbs] at hi
    rw [h.stackPages, (h.core a).tid, h.startTid]
    exact hk.table i a hi
  listed := by
    intro a ha
    rw [h.stackPages] at ha
    exact h.inTable.2 (hk.listed a ha)
  alive := by
    intro a ha hd
    rw [h.inTable] at ha
    rw [(h.core a).dead] at hd
    exact (h.core a).rid (hk.alive a ha hd)
  ipi := h.ipi.trans hk.ipi
  flags := by
    intro a ha
    rw [h.inTable] at ha
    rw [(h.core a).flags, h.notes]
    exact hk.flags a ha
  notes := h.notes ▸ hk.notes
  indices := h.indices ▸ hk.indices

lemma Plain.inv (h : Plain k k') (hk : Inv k) : Inv k' where
  toSound := h.sound hk.toSound
  cpu := by
    rw [h.cpuTcb, h.tp]
    exact hk.cpu
  current := by
    intro c a ha
    rw [h.tp] at ha
    obtain ⟨h₁, h₂, h₃, h₄⟩ := hk.current c a ha
    rw [h.inTable, h.cpuTcb, (h.core a).cpuId]
    exact ⟨h₁, h₂, h₃, (h.core a).rid h₄⟩

lemma Plain.steady (h : Plain k k') : Steady k k' where
  tcbs := fun i => .inl (by rw [h.tcbs])
  startTid := h.startTid
  caps := fun a => (h.core a).caps
  inv := h.inv
  tp := h.tp

lemma getTcb_inTable {tid : ℤ} {a : ℕ} (h : k.getTcb tid = some a) : InTable k a := by
  unfold State.getTcb at h
  split at h
  · cases h
  · split at h
    · cases h
    · split at h
      · obtain rfl := Option.some.inj h
        exact ⟨_, by assumption⟩
      · cases h

def Goes (x : K α) (k : State) : Prop :=
  Ends x (fun _ k' => Steady k k') (fun e k' => e = .stuck ∨ Calm k k') k

lemma goes_of_mild {x : K α} (h : Mild x) (k : State) : Goes x k :=
  (h k).mono (fun _ _ hp => hp.steady) fun _ _ he => .inl he

lemma Goes.bind_of {x : K α} {f : α → K β} {P : α → State → Prop}
    (hx : Ends x (fun a k' => Steady k k' ∧ P a k') (fun e k' => e = .stuck ∨ Calm k k') k)
    (hf : ∀ a k', Steady k k' → P a k' → Goes (f a) k') : Goes (x >>= f) k := by
  refine ends_bind.2 (Ends.mono hx ?_ fun _ _ he => he)
  rintro a k' ⟨hs, hp⟩
  refine (hf a k' hs hp).mono (fun _ _ h => hs.trans h) ?_
  rintro e k'' (he | hc)
  · exact .inl he
  · exact .inr (hs.toCalm.trans hc)

lemma Goes.bind {x : K α} {f : α → K β} (hx : Goes x k) (hf : ∀ a k', Steady k k' → Goes (f a) k') :
    Goes (x >>= f) k :=
  bind_of (P := fun _ _ => True) (Ends.mono hx (fun _ _ h => ⟨h, trivial⟩) fun _ _ he => he)
    fun a k' h _ => hf a k' h

lemma Goes.mild_bind {x : K α} {f : α → K β} (hx : Mild x) (hf : ∀ a k', Plain k k' → Goes (f a) k') :
    Goes (x >>= f) k := by
  refine bind_of (P := fun _ k' => Plain k k') ((hx k).mono ?_ fun _ _ he => .inl he) fun a k' _ h => hf a k' h
  exact fun _ _ hp => ⟨hp.steady, hp⟩

lemma Goes.get_bind {f : State → K β} (h : Goes (f k) k) : Goes (get >>= f) k := h

lemma Goes.deref_bind {p : Option α} {f : α → K β} (h : ∀ a, p = some a → Goes (f a) k) :
    Goes (deref p >>= f) k := by
  cases p with
  | none => exact .inl rfl
  | some a => exact h a rfl

lemma goes_pure (a : α) (k : State) : Goes (pure a : K α) k := Steady.refl k

lemma goes_onlyIf {p : Prop} [Decidable p] {x : K Unit} (h : p → Goes x k) : Goes (onlyIf p x) k := by
  unfold onlyIf
  split_ifs with hp
  · exact h hp
  · exact goes_pure () k

lemma goes_setArgs1 (t : ℕ) (s : ℤ) (k : State) : Goes (setArgs1 t s) k := goes_of_mild (mild_setArgs1 t s) k

def Departs (x : K α) (k : State) : Prop :=
  Ends x (fun _ _ => False) (fun e k' => e = .stuck ∨ Calm k k') k

lemma Departs.goes {x : K α} (h : Departs x k) : Goes x k :=
  Ends.mono h (fun _ _ hf => hf.elim) fun _ _ he => he

lemma Departs.after {x : K α} (h : Departs x k') (hc : Calm k k') :
    Ends x (fun _ _ => False) (fun e k'' => e = .stuck ∨ Calm k k'') k' := by
  refine Ends.mono h (fun _ _ hf => hf) ?_
  rintro e k'' (he | hc')
  · exact .inl he
  · exact .inr (hc.trans hc')

lemma Departs.mild_bind {x : K α} {f : α → K β} (hx : Mild x) (hf : ∀ a k', Plain k k' → Departs (f a) k') :
    Departs (x >>= f) k :=
  ends_bind.2 ((hx k).mono (fun a k' hp => (hf a k' hp).after hp.steady.toCalm) fun _ _ he => .inl he)

lemma Departs.get_bind {f : State → K β} (h : Departs (f k) k) : Departs (get >>= f) k := h

lemma Departs.goes_bind {x : K α} {f : α → K β} (hx : Goes x k) (hf : ∀ a k', Steady k k' → Departs (f a) k') :
    Departs (x >>= f) k :=
  ends_bind.2 (Ends.mono hx (fun a k' hs => (hf a k' hs).after hs.toCalm) fun _ _ he => he)

lemma departs_leave (k : State) : Departs (do bklUnlock; (retUserspace : K α)) k := by
  refine .inr ⟨fun _ => .inl rfl, rfl, fun _ => rfl, fun hk => ?_⟩
  exact ⟨⟨hk.table, hk.listed, hk.alive, hk.ipi, hk.flags, hk.notes, hk.indices⟩, hk.cpu, hk.current⟩

lemma NotesSound.append {notes : List Note} {n : Note} (h : NotesSound notes) (hn : n.Sound notes) :
    NotesSound (notes ++ [n]) := by
  intro pre m post heq
  cases post using List.reverseRecOn with
  | nil =>
    obtain ⟨rfl, hlast⟩ := List.append_inj' heq rfl
    obtain rfl := (List.cons.inj hlast).1
    exact hn
  | append_singleton post x _ =>
    rw [← List.cons_append, ← List.append_assoc] at heq
    obtain ⟨hpre, -⟩ := List.append_inj' heq rfl
    exact h pre m post hpre

def Note.about : Note → ℕ
  | .request t _ => t
  | .drop t _ => t
  | .enter t _ _ _ => t
  | .create t => t

lemma pendingAfter_other {a : ℕ} {n : Note} (h : n.about ≠ a) (f : BitVec 32) : pendingAfter a f n = f := by
  cases n <;> exact if_neg h

def noted (k : State) (t : ℕ) (f : BitVec 32) (n : Note) : State :=
  { k with
    tcb := Function.update k.tcb t { k.tcb t with notifyFlags := f }
    notes := k.notes ++ [n] }

lemma noted_tcb (k : State) (t : ℕ) (f : BitVec 32) (n : Note) (a : ℕ) :
    (noted k t f n).tcb a = { k.tcb a with notifyFlags := if a = t then f else (k.tcb a).notifyFlags } := by
  by_cases h : a = t
  · subst h
    simp [noted]
  · simp [noted, h]

lemma steady_noted {t : ℕ} {n : Note} {f : BitVec 32} (ha : n.about = t)
    (hf : f = pendingAfter t (k.tcb t).notifyFlags n) (hn : Inv k → n.Sound k.notes) :
    Steady k (noted k t f n) := by
  refine ⟨⟨fun _ => .inl rfl, rfl, fun a => by rw [noted_tcb], fun hk => ?_⟩, rfl⟩
  refine ⟨⟨fun i a hi => ?_, hk.listed, fun a hi hd => ?_, hk.ipi, fun a hi => ?_,
    hk.notes.append (hn hk), hk.indices⟩, hk.cpu, fun c a hc => ?_⟩
  · rw [noted_tcb]
    exact hk.table i a hi
  · rw [noted_tcb] at hd ⊢
    exact hk.alive a hi hd
  · change _ = pending a (k.notes ++ [n])
    rw [noted_tcb, pending_append, ← hk.flags a hi]
    by_cases h : a = t
    · subst h
      rw [if_pos rfl, hf]
    · rw [if_neg h, pendingAfter_other]
      rw [ha]
      exact Ne.symm h
  · rw [noted_tcb]
    exact hk.current c a hc

lemma goes_requestFlags (t : ℕ) (flags : BitVec 32) (k : State) : Goes (requestFlags t flags) k := by
  change Steady k (noted k t ((k.tcb t).notifyFlags ||| flags) (.request t flags))
  apply steady_noted
  · rfl
  · exact (if_pos rfl).symm
  · exact fun _ => trivial

lemma goes_dropFlags {t : ℕ} {handler : Option (Bool × ℤ)}
    (h : ∀ state callback, handler = some (state, callback) → state = true ∨ callback = 0) (k : State) :
    Goes (dropFlags t handler) k := by
  change Steady k (noted k t 0 (.drop t handler))
  apply steady_noted
  · rfl
  · exact (if_pos rfl).symm
  · intro _
    cases handler with
    | none => trivial
    | some x => exact h x.1 x.2 rfl

lemma handedFlags_sub (t : Tcb) : handedFlags t &&& t.notifyFlags = handedFlags t := by
  unfold handedFlags
  split_ifs <;> ext i hi <;> simp <;> grind

lemma handedFlags_rpc {t : Tcb} (h : Rpc.isRpc t.thread = true) :
    handedFlags t &&& (NOTIFY_SIGNAL ||| NOTIFY_ORPHANED) = 0 := by
  have hdisj : (NOTIFY_IRQ ||| NOTIFY_TIMER) &&& (NOTIFY_SIGNAL ||| NOTIFY_ORPHANED) = 0 := by decide
  rw [handedFlags, if_pos h]
  split_ifs
  · have hzero : ∀ x : BitVec 32, 0 ||| x = x := fun _ => BitVec.zero_or
    rw [hzero, BitVec.and_assoc, hdisj]
    exact BitVec.and_zero
  · simp

lemma goes_handOver {t r : ℕ} {flags : BitVec 32} {rpc : Bool} (ht : InTable k t)
    (hsub : flags &&& (k.tcb t).notifyFlags = flags)
    (hrpc : rpc = true → flags &&& (NOTIFY_SIGNAL ||| NOTIFY_ORPHANED) = 0) :
    Goes (handOver t r flags rpc) k := by
  change Steady k (noted k t ((k.tcb t).notifyFlags &&& ~~~flags) (.enter t r flags rpc))
  apply steady_noted
  · rfl
  · exact (if_pos rfl).symm
  · intro hk
    change flags &&& pending t k.notes = flags ∧ _
    rw [← hk.flags t ht]
    exact ⟨hsub, hrpc⟩

end Kmi.Kernel
