import Kmi.Kernel.Calls

/-! What a creation leaves behind when it gets all the pages and nodes that it asks for. -/

namespace Kmi.Kernel

open Library.Prog

variable {α β : Type} {k k' k'' : State} {c : ℤ} {s t r : ℕ}

def supplied : ℕ → List (Option ℕ) → Bool
  | n + 1, some _ :: answers => supplied n answers
  | _ + 1, _ => false
  | 0, _ => true

lemma exists_of_supplied {n : ℕ} {answers : List (Option ℕ)} (h : supplied (n + 1) answers = true) :
    ∃ p rest, answers = some p :: rest ∧ supplied n rest = true := by
  cases answers with
  | nil => cases h
  | cons x rest =>
    cases x with
    | none => cases h
    | some p => exact ⟨p, rest, rfl, h⟩

def seated (k : State) (t : ℕ) (rid : ℤ) : State :=
  { k with
    stackPages := Function.update k.stackPages t true
    tcb := Function.update k.tcb t
      { zeroTcb k.irqMap.width with
        rid := rid
        thread := { (zeroTcb k.irqMap.width).thread with tid := validTid k.startTid } }
    tcbs := Function.update k.tcbs (validTid k.startTid) (some t)
    startTid := validTid k.startTid + 1
    notes := k.notes ++ [.create t]
    indices := k.indices ++ [validTid k.startTid, validTid k.startTid, validTid k.startTid] }

lemma validTid_pos (i : ℤ) : 0 < validTid i := by
  unfold validTid
  split_ifs <;> omega

lemma le_validTid (i : ℤ) : i ≤ validTid i := by
  unfold validTid
  split_ifs <;> omega

lemma validTid_lt {i : ℤ} (h : i < numTcbs) : validTid i < numTcbs := by
  unfold validTid
  split_ifs
  · decide
  · exact h

lemma validTid_mod {i : ℤ} (h : i < numTcbs) : validTid i % numTcbs = validTid i :=
  Int.emod_eq_of_lt (validTid_pos i).le (validTid_lt h)

lemma Sound.tcbs_next (hk : Sound k) {i : ℤ} (h : k.startTid ≤ i) : k.tcbs i = none := by
  cases ha : k.tcbs i with
  | none => rfl
  | some a =>
    have := (hk.table i a ha).2.2.2.1
    omega

lemma seated_inTable (hk : Sound k) {rid : ℤ} {a : ℕ} : InTable (seated k t rid) a ↔ InTable k a ∨ a = t := by
  have hnext := hk.tcbs_next (le_validTid k.startTid)
  constructor
  · rintro ⟨i, hi⟩
    by_cases h : i = validTid k.startTid
    · subst h
      obtain rfl : t = a := by simpa [seated] using hi
      exact .inr rfl
    · refine .inl ⟨i, ?_⟩
      simpa [seated, h] using hi
  · rintro (⟨i, hi⟩ | rfl)
    · refine ⟨i, ?_⟩
      have h : i ≠ validTid k.startTid := by
        rintro rfl
        rw [hnext] at hi
        cases hi
      simpa [seated, h] using hi
    · exact ⟨validTid k.startTid, by simp [seated]⟩

lemma Sound.ne_of_free (hk : Sound k) (ht : k.stackPages t = false) {a : ℕ} (ha : InTable k a) : a ≠ t := by
  rintro rfl
  obtain ⟨i, hi⟩ := ha
  have := (hk.table i a hi).1
  rw [ht] at this
  cases this

lemma seated_tcb {a : ℕ} {rid : ℤ} (h : a ≠ t) : (seated k t rid).tcb a = k.tcb a := Function.update_of_ne h _ _

lemma seated_sound (hk : Sound k) (ht : k.stackPages t = false) (hlt : k.startTid < numTcbs) :
    Sound (seated k t 1) where
  table := by
    intro i a hi
    by_cases h : i = validTid k.startTid
    · subst h
      obtain rfl : t = a := by simpa [seated] using hi
      refine ⟨by simp [seated], by simp [seated], validTid_pos _, ?_, validTid_lt hlt⟩
      exact lt_add_one (validTid k.startTid)
    · have hold : k.tcbs i = some a := by simpa [seated, h] using hi
      have hne := hk.ne_of_free ht ⟨i, hold⟩
      obtain ⟨h₁, h₂, h₃, h₄, h₅⟩ := hk.table i a hold
      have hle := le_validTid k.startTid
      refine ⟨?_, ?_, h₃, ?_, h₅⟩
      · simpa [seated, hne] using h₁
      · rw [seated_tcb hne]
        exact h₂
      · change i < validTid k.startTid + 1
        omega
  listed := by
    intro a ha
    rw [seated_inTable hk]
    by_cases h : a = t
    · exact .inr h
    · refine .inl (hk.listed a ?_)
      simpa [seated, h] using ha
  alive := by
    intro a ha hd
    by_cases h : a = t
    · subst h
      simp [seated]
    · rw [seated_tcb h] at hd ⊢
      refine hk.alive a ?_ hd
      simpa [h] using (seated_inTable hk).1 ha
  ipi := hk.ipi
  flags := by
    intro a ha
    change _ = pending a (k.notes ++ [.create t])
    rw [pending_append]
    by_cases h : a = t
    · subst h
      simp [seated, zeroTcb, pendingAfter]
    · have hold : InTable k a := by simpa [h] using (seated_inTable hk).1 ha
      rw [seated_tcb h, hk.flags a hold]
      exact (if_neg (Ne.symm h)).symm
  notes := hk.notes.append trivial
  indices := by
    intro i hi
    rcases List.mem_append.1 hi with hi | hi
    · exact hk.indices i hi
    · have : i = validTid k.startTid := by simpa using hi
      rw [this]
      exact ⟨(validTid_pos _).le, validTid_lt hlt⟩

lemma seated_inv (hk : Inv k) (ht : k.stackPages t = false) (hlt : k.startTid < numTcbs) :
    Inv (seated k t 1) where
  toSound := seated_sound hk.toSound ht hlt
  cpu := hk.cpu
  current := by
    intro c a ha
    obtain ⟨h₁, h₂, h₃, h₄⟩ := hk.current c a ha
    rw [seated_tcb (hk.ne_of_free ht h₁), seated_inTable hk.toSound]
    exact ⟨.inl h₁, h₂, h₃, h₄⟩

structure Fits (t : ℕ) (k k' : State) : Prop where
  plain : Plain (k.setTcb t { k.tcb t with rid := 0 }) (k'.setTcb t { k'.tcb t with rid := 0 })

lemma setTcb_tcb (k : State) (t : ℕ) (x : Tcb) (a : ℕ) : (k.setTcb t x).tcb a = if a = t then x else k.tcb a :=
  Function.update_apply k.tcb t x a

lemma Plain.fits (h : Plain k k') (t : ℕ) : Fits t k k' where
  plain := by
    refine ⟨h.tcbs, h.startTid, h.stackPages, h.cpuTcb, h.tp, h.ipi, h.trace, h.notes, h.indices, fun a => ?_⟩
    have hcore := h.core a
    rw [setTcb_tcb, setTcb_tcb]
    split_ifs with hat
    · subst hat
      exact ⟨hcore.tid, hcore.caps, hcore.cpuId, hcore.flags, hcore.dead, id⟩
    · exact hcore

lemma Fits.toPlain (h : Fits t k k') (ht : (k.tcb t).rid = 0) : Plain k k' := by
  obtain ⟨hp⟩ := h
  refine ⟨hp.tcbs, hp.startTid, hp.stackPages, hp.cpuTcb, hp.tp, hp.ipi, hp.trace, hp.notes, hp.indices, fun a => ?_⟩
  have hcore := hp.core a
  rw [setTcb_tcb, setTcb_tcb] at hcore
  split_ifs at hcore with hat
  · subst hat
    exact ⟨hcore.tid, hcore.caps, hcore.cpuId, hcore.flags, hcore.dead, fun h => (h ht).elim⟩
  · exact hcore

lemma fits_composes (t : ℕ) : Composes (Fits t) (fun (e : Exit) _ _ => e = .stuck) where
  refl := fun k => (Plain.refl k).fits t
  trans := fun h h' => ⟨h.plain.trans h'.plain⟩
  leave := fun _ hl => hl

def Fitting (t : ℕ) (x : K α) : Prop := Within (Fits t) (fun e _ _ => e = .stuck) x

lemma fitting_bind {x : K α} {f : α → K β} (hx : Fitting t x) (hf : ∀ a, Fitting t (f a)) : Fitting t (x >>= f) :=
  Within.bind (fits_composes t) hx hf

lemma Mild.fitting {x : K α} (h : Mild x) : Fitting t x :=
  fun k => (h k).mono (fun _ _ hp => hp.fits t) fun _ _ he => he

lemma fits_setTcb {x : Tcb} (h : SameCore { k.tcb t with rid := 0 } { x with rid := 0 }) :
    Fits t k (k.setTcb t x) := by
  refine ⟨?_⟩
  have heq : (k.setTcb t x).setTcb t { (k.setTcb t x).tcb t with rid := 0 } =
      (k.setTcb t { k.tcb t with rid := 0 }).setTcb t { x with rid := 0 } := by
    simp [State.setTcb]
  rw [heq]
  apply plain_setTcb
  rw [setTcb_tcb, if_pos rfl]
  exact h

lemma fitting_setRid {f : Tcb → Tcb} (h : ∀ x, SameCore { x with rid := 0 } { f x with rid := 0 }) :
    Fitting t (modifyTcb t f) :=
  fun _ => fits_setTcb (h _)

lemma fitting_initFreeThread (t : ℕ) : Fitting t (initFreeThread t) := by
  refine fitting_bind mild_allocPage.fitting fun vmem => ?_
  cases vmem with
  | none => exact (mild_pure false).fitting
  | some vmem =>
  refine fitting_bind (mild_modifyTcb fun _ => ?_).fitting fun _ => ?_
  · exact ⟨rfl, rfl, rfl, rfl, rfl, id⟩
  refine fitting_bind (mild_initUvmem t).fitting fun ok => ?_
  split
  · exact (mild_bind (mild_freePage vmem) fun _ => mild_pure false).fitting
  refine fitting_bind mild_allocPage.fitting fun rpc => ?_
  cases rpc with
  | none => exact (mild_bind (mild_freePage vmem) fun _ => mild_pure false).fitting
  | some rpc =>
  refine fitting_bind (mild_modifyTcb fun _ => ?_).fitting fun _ => ?_
  · exact ⟨rfl, rfl, rfl, rfl, rfl, id⟩
  refine fitting_bind (mild_setupRpcStack t).fitting fun ok => ?_
  split
  · refine (mild_bind (mild_destroyRpcmem t) fun _ => ?_).fitting
    exact mild_bind (mild_freePage vmem) fun _ => mild_pure false
  refine fitting_bind (fitting_setRid fun _ => ?_) fun _ => (mild_pure true).fitting
  exact ⟨rfl, rfl, rfl, rfl, rfl, id⟩

lemma fitting_initOwnedThread (p t : ℕ) : Fitting t (initOwnedThread p t) := by
  refine fitting_bind mild_get.fitting fun k => ?_
  refine fitting_bind (fitting_setRid fun _ => ?_) fun _ => ?_
  · exact ⟨rfl, rfl, rfl, rfl, rfl, id⟩
  refine fitting_bind mild_allocPage.fitting fun rpc => ?_
  cases rpc with
  | none => exact (mild_pure true).fitting
  | some rpc =>
  refine fitting_bind (mild_modifyTcb fun _ => ?_).fitting fun _ => ?_
  · exact ⟨rfl, rfl, rfl, rfl, rfl, id⟩
  refine fitting_bind (mild_setupRpcStack t).fitting fun ok => ?_
  split
  · exact (mild_bind (mild_destroyRpcmem t) fun _ => mild_pure false).fitting
  · exact (mild_bind (mild_referenceThread p) fun _ => mild_pure true).fitting

lemma fitting_initThread (p : Option ℕ) (t : ℕ) : Fitting t (initThread p t) := by
  cases p with
  | none => exact fitting_initFreeThread t
  | some p => exact fitting_initOwnedThread p t

def Granted (t n m : ℕ) (x : K α) (P : α → Prop) : Prop :=
  ∀ k, supplied n k.answers = true →
    Ends x (fun a k' => Fits t k k' ∧ P a ∧ supplied m k'.answers = true) (fun e _ => e = .stuck) k

lemma Granted.bind {n m l : ℕ} {x : K α} {f : α → K β} {P : α → Prop} {Q : β → Prop}
    (hx : Granted t n m x P) (hf : ∀ a, P a → Granted t m l (f a) Q) : Granted t n l (x >>= f) Q := by
  intro k hk
  refine ends_bind.2 ((hx k hk).mono ?_ fun _ _ he => he)
  rintro a k' ⟨h, hp, hs⟩
  refine (hf a hp k' hs).mono ?_ fun _ _ he => he
  rintro b k'' ⟨h', hq, hs'⟩
  exact ⟨⟨h.plain.trans h'.plain⟩, hq, hs'⟩

lemma granted_pure {n : ℕ} {P : α → Prop} {a : α} (h : P a) : Granted t n n (pure a : K α) P :=
  fun k hk => ⟨(Plain.refl k).fits t, h, hk⟩

lemma granted_modifyTcb {n a : ℕ} {f : Tcb → Tcb} (h : ∀ x, SameCore x (f x)) :
    Granted t n n (modifyTcb a f) fun _ => True :=
  fun _ hk => ⟨(plain_setTcb (h _)).fits t, trivial, hk⟩

lemma granted_setRid {n : ℕ} {f : Tcb → Tcb} (h : ∀ x, SameCore { x with rid := 0 } { f x with rid := 0 }) :
    Granted t n n (modifyTcb t f) fun _ => True :=
  fun _ hk => ⟨fits_setTcb (h _), trivial, hk⟩

lemma granted_allocPage {n : ℕ} : Granted t (n + 1) n allocPage (· ≠ none) := by
  intro k hk
  obtain ⟨p, rest, heq, hrest⟩ := exists_of_supplied hk
  simp only [allocPage, answer, ends_bind, ends_get, ends_modify, ends_pure, heq, List.head?_cons,
    Option.join_some, List.tail_cons, ends_assert, implies_true, true_and]
  intro _
  refine ⟨Plain.fits ?_ t, Option.some_ne_none p, hrest⟩
  exact ⟨rfl, rfl, rfl, rfl, rfl, rfl, rfl, rfl, rfl, fun _ => .refl _⟩

lemma granted_getNode {n : ℕ} : Granted t (n + 1) n getNode (· ≠ none) := by
  intro k hk
  obtain ⟨p, rest, heq, hrest⟩ := exists_of_supplied hk
  simp only [getNode, answer, ends_bind, ends_get, ends_modify, ends_pure, heq, List.head?_cons,
    Option.join_some, List.tail_cons, ends_assert, implies_true, true_and]
  intro _
  refine ⟨Plain.fits ?_ t, Option.some_ne_none p, hrest⟩
  exact ⟨rfl, rfl, rfl, rfl, rfl, rfl, rfl, rfl, rfl, fun _ => .refl _⟩

lemma granted_setupRpcStack {n : ℕ} : Granted t (n + 3) n (setupRpcStack t) (· = true) := by
  refine granted_allocPage.bind fun page hpage => ?_
  cases page with
  | none => exact absurd rfl hpage
  | some page =>
  refine Granted.bind (granted_modifyTcb fun _ => ?_) fun _ _ => ?_
  · exact ⟨rfl, rfl, rfl, rfl, rfl, id⟩
  refine granted_allocPage.bind fun upper hupper => ?_
  cases upper with
  | none => exact absurd rfl hupper
  | some upper =>
  refine Granted.bind (granted_modifyTcb fun _ => ?_) fun _ _ => ?_
  · exact ⟨rfl, rfl, rfl, rfl, rfl, id⟩
  refine granted_allocPage.bind fun lower hlower => ?_
  cases lower with
  | none => exact absurd rfl hlower
  | some lower =>
  refine Granted.bind (granted_modifyTcb fun _ => ?_) fun _ _ => ?_
  · exact ⟨rfl, rfl, rfl, rfl, rfl, id⟩
  refine Granted.bind (granted_modifyTcb fun _ => ?_) fun _ _ => granted_pure rfl
  exact ⟨rfl, rfl, rfl, rfl, rfl, id⟩

lemma granted_initUvmem {n : ℕ} : Granted t (n + 1) n (initUvmem t) (· = true) := by
  refine granted_getNode.bind fun node hnode => ?_
  cases node with
  | none => exact absurd rfl hnode
  | some node =>
  refine Granted.bind (granted_modifyTcb fun _ => ?_) fun _ _ => granted_pure rfl
  exact ⟨rfl, rfl, rfl, rfl, rfl, id⟩

lemma granted_initFreeThread {n : ℕ} : Granted t (n + 6) n (initFreeThread t) (· = true) := by
  refine granted_allocPage.bind fun vmem hvmem => ?_
  cases vmem with
  | none => exact absurd rfl hvmem
  | some vmem =>
  refine Granted.bind (granted_modifyTcb fun _ => ?_) fun _ _ => ?_
  · exact ⟨rfl, rfl, rfl, rfl, rfl, id⟩
  refine granted_initUvmem.bind ?_
  rintro _ rfl
  refine granted_allocPage.bind fun rpc hrpc => ?_
  cases rpc with
  | none => exact absurd rfl hrpc
  | some rpc =>
  refine Granted.bind (granted_modifyTcb fun _ => ?_) fun _ _ => ?_
  · exact ⟨rfl, rfl, rfl, rfl, rfl, id⟩
  refine granted_setupRpcStack.bind ?_
  rintro _ rfl
  refine Granted.bind (granted_setRid fun _ => ?_) fun _ _ => granted_pure rfl
  exact ⟨rfl, rfl, rfl, rfl, rfl, id⟩

lemma granted_initOwnedThread {n : ℕ} (p : ℕ) : Granted t (n + 4) n (initOwnedThread p t) (· = true) := by
  have hget : Granted t (n + 4) (n + 4) (get : K State) fun _ => True :=
    fun k hk => ⟨(Plain.refl k).fits t, trivial, hk⟩
  refine hget.bind fun k _ => ?_
  refine Granted.bind (granted_setRid fun _ => ?_) fun _ _ => ?_
  · exact ⟨rfl, rfl, rfl, rfl, rfl, id⟩
  refine granted_allocPage.bind fun rpc hrpc => ?_
  cases rpc with
  | none => exact absurd rfl hrpc
  | some rpc =>
  refine Granted.bind (granted_modifyTcb fun _ => ?_) fun _ _ => ?_
  · exact ⟨rfl, rfl, rfl, rfl, rfl, id⟩
  refine granted_setupRpcStack.bind ?_
  rintro _ rfl
  refine Granted.bind (granted_modifyTcb fun _ => ?_) fun _ _ => granted_pure rfl
  exact ⟨rfl, rfl, rfl, rfl, rfl, id⟩

def further (p : Option ℕ) : ℕ := if p.isSome then 4 else 6

lemma granted_initThread (p : Option ℕ) : Granted t (further p) 0 (initThread p t) (· = true) := by
  cases p with
  | none => exact granted_initFreeThread
  | some p => exact granted_initOwnedThread p

lemma allocTid_next (t : ℕ) (hfree : k.tcbs (validTid k.startTid % numTcbs) = none) :
    allocTid t k = .ok (validTid k.startTid)
      { k with
        indices := k.indices ++ [validTid k.startTid % numTcbs] ++ [validTid k.startTid % numTcbs]
        tcbs := Function.update k.tcbs (validTid k.startTid % numTcbs) (some t)
        startTid := validTid k.startTid + 1 } := by
  have hstop : validTid k.startTid ≠ k.startTid - 1 := by
    have := le_validTid k.startTid
    omega
  have hfuel : (2 ^ 18 : ℕ) = (2 ^ 18 - 1) + 1 := rfl
  have hloop : findTid t (k.startTid - 1) (2 ^ 18) k.startTid k = .ok (validTid k.startTid)
      { k with
        indices := k.indices ++ [validTid k.startTid % numTcbs] ++ [validTid k.startTid % numTcbs]
        tcbs := Function.update k.tcbs (validTid k.startTid % numTcbs) (some t)
        startTid := validTid k.startTid + 1 } := by
    rw [hfuel, findTid, if_neg hstop]
    have hread : readTcbs (validTid k.startTid % numTcbs) k = .ok (k.tcbs (validTid k.startTid % numTcbs))
        { k with indices := k.indices ++ [validTid k.startTid % numTcbs] } := rfl
    rw [bind_ok hread, hfree]
    rfl
  exact hloop

def zeroed (k : State) (t : ℕ) : State :=
  { k with
    stackPages := Function.update k.stackPages t true
    tcb := Function.update k.tcb t (zeroTcb k.irqMap.width)
    notes := k.notes ++ [.create t] }

lemma takeTid_ends (hk : Sound k) (hlt : k.startTid < numTcbs) :
    Ends (takeTid t) (fun _ k' => Plain (seated k t 0) k' ∧ k'.answers = k.answers ∧ (k'.tcb t).rid = 0)
      (fun _ _ => False) { k with stackPages := Function.update k.stackPages t true } := by
  have hmod := validTid_mod hlt
  have hfree : (zeroed k t).tcbs (validTid (zeroed k t).startTid % numTcbs) = none := by
    change k.tcbs (validTid k.startTid % numTcbs) = none
    rw [hmod]
    exact hk.tcbs_next (le_validTid k.startTid)
  unfold takeTid
  rw [ends_bind]
  change Ends (note (.create t) >>= _) _ _ _
  rw [ends_bind]
  change Ends (allocTid t >>= _) _ _ (zeroed k t)
  rw [Ends, bind_ok (allocTid_next t hfree)]
  refine ⟨⟨?_, rfl, rfl, rfl, rfl, rfl, rfl, rfl, ?_, fun a => ?_⟩, rfl, ?_⟩
  · change Function.update (Function.update k.tcbs (validTid k.startTid % numTcbs) (some t))
      (validTid k.startTid) (some t) = Function.update k.tcbs (validTid k.startTid) (some t)
    rw [hmod, Function.update_idem]
  · change k.indices ++ [validTid k.startTid % numTcbs] ++ [validTid k.startTid % numTcbs] ++
      [validTid k.startTid] = k.indices ++ [validTid k.startTid, validTid k.startTid, validTid k.startTid]
    rw [hmod]
    simp
  · by_cases h : a = t
    · subst h
      refine ⟨?_, ?_, ?_, ?_, ?_, fun hr => ?_⟩
      all_goals simp_all [seated, zeroed, State.setTcb]
    · simpa [seated, zeroed, State.setTcb, h] using SameCore.refl _
  · simp [zeroed, State.setTcb, zeroTcb]

lemma Plain.reseat (h : Plain (seated k t 0) k') (hr : (k'.tcb t).rid ≠ 0) : Plain (seated k t 1) k' where
  tcbs := h.tcbs
  startTid := h.startTid
  stackPages := h.stackPages
  cpuTcb := h.cpuTcb
  tp := h.tp
  ipi := h.ipi
  trace := h.trace
  notes := h.notes
  indices := h.indices
  core := fun a => by
    have hcore := h.core a
    by_cases hat : a = t
    · subst hat
      refine ⟨hcore.tid.trans ?_, hcore.caps.trans ?_, hcore.cpuId.trans ?_, hcore.flags.trans ?_,
        hcore.dead.trans ?_, fun _ => hr⟩
      all_goals simp [seated]
    · rw [seated_tcb hat] at hcore ⊢
      exact hcore

lemma getTcb_pos {tid : ℤ} {a : ℕ} (h : k.getTcb tid = some a) : 0 < tid := by
  unfold State.getTcb at h
  split at h
  · cases h
  · omega

lemma constructThread_ends {p : Option ℕ} (hk : Sound k) (hlt : k.startTid < numTcbs) :
    Ends (constructThread p t)
      (fun n k' => (∀ m, n = some m → m = t ∧ Plain (seated k t 1) k') ∧
        (supplied (further p) k.answers = true → n ≠ none))
      (fun e _ => e = .stuck) { k with stackPages := Function.update k.stackPages t true } := by
  unfold constructThread
  rw [ends_bind]
  refine (takeTid_ends hk hlt).mono ?_ fun _ _ hf => hf.elim
  rintro _ k₁ ⟨h₁, hans, hrid⟩
  have hinit : Ends (initThread p t)
      (fun ok k' => Fits t k₁ k' ∧ (supplied (further p) k.answers = true → ok = true))
      (fun e _ => e = .stuck) k₁ := by
    by_cases hgiven : supplied (further p) k₁.answers = true
    · exact (granted_initThread p k₁ hgiven).mono (fun _ _ h => ⟨h.1, fun _ => h.2.1⟩) fun _ _ he => he
    · rw [hans] at hgiven
      exact (fitting_initThread p t k₁).mono (fun _ _ h => ⟨h, fun hg => absurd hg hgiven⟩) fun _ _ he => he
  rw [ends_bind]
  refine hinit.mono ?_ fun _ _ he => he
  rintro ok k₂ ⟨hfits, hok⟩
  split
  · rename_i hno
    rw [ends_bind]
    refine ⟨nofun, fun hg => ?_⟩
    rw [hok hg] at hno
    cases hno
  have h₂ := h₁.trans (hfits.toPlain hrid)
  rw [ends_bind, ends_get, ends_bind, ends_deref]
  refine ⟨fun _ => rfl, fun parent hp => ?_⟩
  have h₂' := h₂.reseat (getTcb_pos hp).ne'
  rw [ends_bind]
  refine (mild_cloneUvmem _ _ k₂).mono ?_ fun _ _ he => he
  intro _ k₃ h₃
  rw [ends_bind]
  refine (mild_referenceThread t k₃).mono ?_ fun _ _ he => he
  intro _ k₄ h₄
  refine ⟨?_, fun _ => nofun⟩
  rintro _ ⟨⟩
  exact ⟨rfl, h₂'.trans (h₃.trans h₄)⟩

def unbroken (n : ℕ) (answers : List (Option ℕ)) : Bool := answers.head?.join.isNone || supplied n answers

def Made (k : State) (n : Option ℕ) (k' : State) : Prop :=
  match n with
  | none => Plain k k'
  | some n => k.stackPages n = false ∧ Plain (seated k n 1) k'

lemma createThread_ends {p : Option ℕ} (hk : Sound k) (hlt : k.startTid < numTcbs) :
    Ends (createThread p)
      (fun n k' => n ≠ none ∨ unbroken (further p + 1) k.answers = true → Made k n k')
      (fun e _ => e = .stuck) k := by
  unfold createThread
  simp only [allocStack, answer, ends_bind, ends_get, ends_modify, ends_pure]
  cases hans : k.answers.head?.join with
  | none => exact fun _ => ⟨rfl, rfl, rfl, rfl, rfl, rfl, rfl, rfl, rfl, fun _ => .refl _⟩
  | some t =>
    simp only [ends_bind, ends_get, ends_assert, ends_modify, ends_pure, implies_true, true_and]
    intro hfree
    have ht : k.stackPages t = false := by simp_all
    have hk₁ : Sound { k with answers := k.answers.tail } :=
      ⟨hk.table, hk.listed, hk.alive, hk.ipi, hk.flags, hk.notes, hk.indices⟩
    have hsame : Plain (seated k t 1) (seated { k with answers := k.answers.tail } t 1) :=
      ⟨rfl, rfl, rfl, rfl, rfl, rfl, rfl, rfl, rfl, fun _ => .refl _⟩
    refine (constructThread_ends hk₁ hlt).mono ?_ fun _ _ he => he
    rintro n k' ⟨hsome, hnone⟩ hwhich
    cases n with
    | none =>
      have hwhole : unbroken (further p + 1) k.answers = true := by simpa using hwhich
      have hsup : supplied (further p + 1) k.answers = true := by simpa [unbroken, hans] using hwhole
      obtain ⟨t', rest, heq, hrest⟩ := exists_of_supplied hsup
      refine absurd rfl (hnone ?_)
      rw [heq]
      exact hrest
    | some m =>
      obtain ⟨rfl, h⟩ := hsome m rfl
      exact ⟨ht, hsame.trans h⟩

lemma createThread_whole {p : Option ℕ} (hk : Sound k) (hlt : k.startTid < numTcbs)
    (hgiven : unbroken (further p + 1) k.answers = true) :
    Ends (createThread p) (fun n k' => Made k n k') (fun e _ => e = .stuck) k :=
  (createThread_ends hk hlt).mono (fun _ _ h => h (.inr hgiven)) fun _ _ he => he

end Kmi.Kernel
