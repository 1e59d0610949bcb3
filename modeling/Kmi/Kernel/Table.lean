import Kmi.Kernel.Create

/-! The thread table over any run of creations and destructions, from `init_tcbs` on. -/

namespace Kmi.Kernel

open Library.Prog

variable {k k' : State} {t : ℕ}

def Live (k : State) (t : ℕ) : Prop := k.stackPages t = true

inductive TableOp where
  | create (p : Option ℕ) (answers : List (Option ℕ))
  | destroy (t : ℕ)

def returned {α : Type} (x : K α) (k : State) : Option State :=
  match x k with
  | .ok _ k' => some k'
  | .error _ _ => none

def TableOp.perform (k : State) : TableOp → Option State
  | .create p answers => returned (createThread p) { k with answers := answers }
  | .destroy t => returned (destroyThread t) k

def TableOp.Proper (k : State) : TableOp → Prop
  | .create p _ => ∀ t, p = some t → Live k t
  | .destroy t => Live k t

inductive TableRun (ok : State → TableOp → Prop) : State → Prop where
  | init (w : Rpc.IdWidth) : TableRun ok (blank w)
  | step {k k' : State} (op : TableOp) : TableRun ok k → op.Proper k → ok k op → op.perform k = some k' →
      TableRun ok k'

/-- Not all ids of the table have been given out, and no creation fails once it has one. -/
def Unbroken (k : State) : TableOp → Prop
  | .create p answers => k.startTid < numTcbs ∧ unbroken (further p + 1) answers = true
  | .destroy _ => True

structure TableSound (k : State) : Prop where
  indices : ∀ i ∈ k.indices, 0 ≤ i ∧ i < numTcbs
  probe : ∀ id, 0 ≤ id % numTcbs ∧ id % numTcbs < numTcbs
  positive : ∀ t, Live k t → 0 < (k.tcb t).thread.tid
  distinct : ∀ s t, Live k s → Live k t → (k.tcb s).thread.tid = (k.tcb t).thread.tid → s = t
  lookup : ∀ id t, k.getTcb id = some t ↔ Live k t ∧ (k.tcb t).thread.tid = id

lemma ends_of_returned {α : Type} {x : K α} {Q : State → Prop} {E : Exit → State → Prop}
    (hx : Ends x (fun _ k' => Q k') E k) (h : returned x k = some k') : Q k' := by
  unfold returned at h
  cases hr : x k with
  | ok a k'' =>
    rw [hr] at h
    obtain rfl := Option.some.inj h
    exact ends_of_eq_ok hr hx
  | error e k'' =>
    rw [hr] at h
    cases h

lemma blank_sound (w : Rpc.IdWidth) : Sound (blank w) where
  table := nofun
  listed := nofun
  alive := by
    rintro a ⟨i, hi⟩
    cases hi
  ipi := rfl
  flags := by
    rintro a ⟨i, hi⟩
    cases hi
  notes := by
    intro pre n post h
    simp [blank] at h
  indices := nofun

lemma Made.sound {n : Option ℕ} (h : Made k n k') (hk : Sound k) (hlt : k.startTid < numTcbs) : Sound k' := by
  cases n with
  | none => exact Plain.sound h hk
  | some n => exact h.2.sound (seated_sound hk h.1 hlt)

lemma Sound.getTcb_eq (hk : Sound k) (tid : ℤ) : k.getTcb tid = k.tcbs tid := by
  unfold State.getTcb
  split
  · rename_i hle
    cases h : k.tcbs tid with
    | none => rfl
    | some a =>
      have := (hk.table tid a h).2.2.1
      omega
  · rename_i hpos
    by_cases hlt : tid < numTcbs
    · rw [Int.emod_eq_of_lt (by omega) hlt]
      cases h : k.tcbs tid with
      | none => rfl
      | some a => exact if_pos (hk.table tid a h).2.1
    · have hnone : k.tcbs tid = none := by
        cases h : k.tcbs tid with
        | none => rfl
        | some a => exact absurd (hk.table tid a h).2.2.2.2 hlt
      rw [hnone]
      cases h : k.tcbs (tid % numTcbs) with
      | none => rfl
      | some a =>
        obtain ⟨-, htid, -, -, hmod⟩ := hk.table _ a h
        refine if_neg fun heq => hlt ?_
        rw [← heq, htid]
        exact hmod

lemma Sound.tableSound (hk : Sound k) : TableSound k where
  indices := hk.indices
  probe := fun id => ⟨Int.emod_nonneg id (by decide), Int.emod_lt_of_pos id (by decide)⟩
  positive := fun t ht => (hk.table _ t (hk.tcbs_tid (hk.listed t ht))).2.2.1
  distinct := by
    intro s t hs ht heq
    have hs' := hk.tcbs_tid (hk.listed s hs)
    rw [heq, hk.tcbs_tid (hk.listed t ht)] at hs'
    exact (Option.some.inj hs').symm
  lookup := by
    intro id t
    rw [hk.getTcb_eq]
    constructor
    · intro h
      obtain ⟨hlive, htid, -⟩ := hk.table id t h
      exact ⟨hlive, htid⟩
    · rintro ⟨hlive, rfl⟩
      exact hk.tcbs_tid (hk.listed t hlive)

lemma TableRun.sound (h : TableRun Unbroken k) : Sound k := by
  induction h with
  | init w => exact blank_sound w
  | @step k k' op _ hproper hok hrun ih =>
    cases op with
    | create p answers =>
      have hk : Sound { k with answers := answers } :=
        ⟨ih.table, ih.listed, ih.alive, ih.ipi, ih.flags, ih.notes, ih.indices⟩
      have hends : Ends (createThread p) (fun _ k' => Sound k') (fun e _ => e = .stuck)
          { k with answers := answers } :=
        (createThread_whole hk hok.1 hok.2).mono (fun _ _ h => h.sound hk hok.1) fun _ _ he => he
      exact ends_of_returned hends hrun
    | destroy t =>
      have hends : Ends (destroyThread t) (fun _ k' => Sound k') (fun e _ => e = .stuck) k :=
        (destroyThread_ends ih (ih.listed t hproper)).mono (fun _ _ h => h.sound) fun _ _ he => he
      exact ends_of_returned hends hrun

theorem thread_table_sound (h : TableRun Unbroken k) : TableSound k := h.sound.tableSound

def oneProcess : TableOp := .create none [some 0, some 1, some 2, some 3, some 4, some 5, some 6]

theorem thread_table_sound_process :
    ∃ k, oneProcess.perform (blank .w64) = some k ∧ k.getTcb 1 = some 0 ∧ TableSound k := by
  have hrun : (oneProcess.perform (blank .w64)).isSome = true := by decide
  have hget : (oneProcess.perform (blank .w64)).map (fun k => k.getTcb 1) = some (some 0) := by decide
  obtain ⟨k, hk⟩ := Option.isSome_iff_exists.1 hrun
  rw [hk] at hget
  refine ⟨k, hk, Option.some.inj hget, thread_table_sound ?_⟩
  exact .step oneProcess (.init .w64) nofun ⟨by decide, by decide⟩ hk

def halfProcess : TableOp := .create none [some 0, none]

theorem failed_creation_is_found : ¬ ∀ k, TableRun (fun _ _ => True) k → TableSound k := by
  have hrun : (halfProcess.perform (blank .w64)).isSome = true := by decide
  have hget : (halfProcess.perform (blank .w64)).map (fun k => (k.getTcb 1, k.stackPages 0)) =
      some (some 0, false) := by decide
  obtain ⟨k, hk⟩ := Option.isSome_iff_exists.1 hrun
  rw [hk] at hget
  obtain ⟨htid, hfree⟩ := Prod.mk.inj (Option.some.inj hget)
  intro hall
  have hlive := ((hall k (.step halfProcess (.init .w64) nofun trivial hk)).lookup 1 0).1 htid
  rw [Live, hfree] at hlive
  cases hlive.1

end Kmi.Kernel
