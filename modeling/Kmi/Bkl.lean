import Kmi.Kernel.Runs
import Kmi.Library.Critical

/-! The big kernel lock of `src/bkl.c`, a spin lock of `include/kmi/lock.h`, with harts that trap
into the kernel in any order. Between any two accesses of one hart to the memory there may be
accesses of others. What runs under the lock is any code that works in steps. -/

namespace Kmi.Bkl

open Kmi.Library.Critical

variable {κ ℓ σ : Type}

/-- The code under the lock ends with `bkl_unlock`, or it returns without. -/
inductive Ending where
  | unlocks
  | keeps
deriving DecidableEq, Repr

/-- Where a hart is: in user mode, at the load or the exchange of `spin_lock`, in the code under
the lock, or at the store of `spin_unlock`. -/
inductive Pc (κ ℓ : Type) where
  | user
  | load (c : κ)
  | exchange (c : κ)
  | inside (c : κ) (l : ℓ)
  | store

/-- `taken` records who got the lock, and what for. -/
structure Harts (κ ℓ σ : Type) where
  bkl : ℤ
  memory : σ
  pc : ℕ → Pc κ ℓ
  taken : List (ℕ × κ)

inductive Event (κ : Type) where
  | trap (i : ℕ) (c : κ)
  | run (i : ℕ)

def Harts.goto (h : Harts κ ℓ σ) (i : ℕ) (p : Pc κ ℓ) : Harts κ ℓ σ := { h with pc := Function.update h.pc i p }

def bklInit (memory : σ) : Harts κ ℓ σ := ⟨0, memory, fun _ => .user, []⟩

def step (P : Code κ ℓ Ending σ) (h : Harts κ ℓ σ) : Event κ → Option (Harts κ ℓ σ)
  | .trap i c =>
    match h.pc i with
    | .user => some (h.goto i (.load c))
    | _ => none
  | .run i =>
    match h.pc i with
    | .user => none
    | .load c => some (h.goto i (if h.bkl ≠ 0 then .load c else .exchange c))
    | .exchange c =>
      let old := h.bkl
      let h := { h with bkl := 1 }
      if old ≠ 0 then some (h.goto i (.load c))
      else some ({ h with taken := h.taken ++ [(i, c)] }.goto i (.inside c (P.enter c)))
    | .inside c l =>
      match P.step l h.memory with
      | none => none
      | some (.inl l, m) => some ({ h with memory := m }.goto i (.inside c l))
      | some (.inr .unlocks, m) => some ({ h with memory := m }.goto i .store)
      | some (.inr .keeps, m) => some ({ h with memory := m }.goto i .user)
    | .store => some ({ h with bkl := 0 }.goto i .user)

def runs (P : Code κ ℓ Ending σ) (h : Harts κ ℓ σ) : List (Event κ) → Option (Harts κ ℓ σ)
  | [] => some h
  | e :: es => do
    let h ← step P h e
    runs P h es

def Pc.holds : Pc κ ℓ → Prop
  | .inside _ _ | .store => True
  | _ => False

def Pc.waiting : Pc κ ℓ → List κ
  | .load c | .exchange c => [c]
  | _ => []

def traps (i : ℕ) : List (Event κ) → List κ
  | [] => []
  | .trap j c :: es => if j = i then c :: traps i es else traps i es
  | .run _ :: es => traps i es

def Harts.takenBy (h : Harts κ ℓ σ) (i : ℕ) : List κ := (h.taken.filter fun x => x.1 = i).map Prod.snd

variable {P : Code κ ℓ Ending σ} {h h' : Harts κ ℓ σ} {es es' : List (Event κ)} {e : Event κ} {m m' : σ} {i j : ℕ}
  {c : κ} {l : ℓ} {done : List (κ × Ending)} {p : Pc κ ℓ}

@[simp]
lemma goto_pc (h : Harts κ ℓ σ) (i : ℕ) (p : Pc κ ℓ) (j : ℕ) : (h.goto i p).pc j = if j = i then p else h.pc j :=
  Function.update_apply ..

@[simp]
lemma goto_bkl (h : Harts κ ℓ σ) (i : ℕ) (p : Pc κ ℓ) : (h.goto i p).bkl = h.bkl := rfl

@[simp]
lemma goto_memory (h : Harts κ ℓ σ) (i : ℕ) (p : Pc κ ℓ) : (h.goto i p).memory = h.memory := rfl

@[simp]
lemma goto_taken (h : Harts κ ℓ σ) (i : ℕ) (p : Pc κ ℓ) : (h.goto i p).taken = h.taken := rfl

lemma runs_append : runs P h (es ++ es') = (runs P h es).bind fun h => runs P h es' := by
  induction es generalizing h with
  | nil => rfl
  | cons e es ih =>
    rw [List.cons_append, runs, runs, Option.bind_eq_bind, Option.bind_assoc]
    apply Option.bind_congr
    intro h' _
    exact ih

lemma runs_snoc {h₁ : Harts κ ℓ σ} (h₀ : runs P h es = some h₁) (h₁' : runs P h₁ es' = some h') :
    runs P h (es ++ es') = some h' := by
  rw [runs_append, h₀]
  exact h₁'

lemma runs_one : runs P h [e] = step P h e := by
  rw [runs, Option.bind_eq_bind]
  cases step P h e <;> rfl

/-- A step that leaves the memory and the lock alone, by a hart that does not hold it. -/
structure Quiet (h h' : Harts κ ℓ σ) : Prop where
  bkl : h'.bkl = 0 ↔ h.bkl = 0
  memory : h'.memory = h.memory
  taken : h'.taken = h.taken
  holds : ∀ j, (h'.pc j).holds ↔ (h.pc j).holds
  pc : ∀ j, (h.pc j).holds → h'.pc j = h.pc j

inductive Steps (P : Code κ ℓ Ending σ) (h h' : Harts κ ℓ σ) : Event κ → Prop where
  | trap {i : ℕ} {c : κ} : h.pc i = .user → h' = h.goto i (.load c) → Steps P h h' (.trap i c)
  | load {i : ℕ} {c : κ} : h.pc i = .load c → h' = h.goto i (if h.bkl ≠ 0 then .load c else .exchange c) →
      Steps P h h' (.run i)
  | retry {i : ℕ} {c : κ} : h.pc i = .exchange c → h.bkl ≠ 0 → h' = { h with bkl := 1 }.goto i (.load c) →
      Steps P h h' (.run i)
  | take {i : ℕ} {c : κ} : h.pc i = .exchange c → h.bkl = 0 →
      h' = { h with bkl := 1, taken := h.taken ++ [(i, c)] }.goto i (.inside c (P.enter c)) → Steps P h h' (.run i)
  | work {i : ℕ} {c : κ} {l l' : ℓ} {m : σ} : h.pc i = .inside c l → P.step l h.memory = some (.inl l', m) →
      h' = { h with memory := m }.goto i (.inside c l') → Steps P h h' (.run i)
  | last {i : ℕ} {c : κ} {l : ℓ} {m : σ} : h.pc i = .inside c l → P.step l h.memory = some (.inr .unlocks, m) →
      h' = { h with memory := m }.goto i .store → Steps P h h' (.run i)
  | keep {i : ℕ} {c : κ} {l : ℓ} {m : σ} : h.pc i = .inside c l → P.step l h.memory = some (.inr .keeps, m) →
      h' = { h with memory := m }.goto i .user → Steps P h h' (.run i)
  | store {i : ℕ} : h.pc i = .store → h' = { h with bkl := 0 }.goto i .user → Steps P h h' (.run i)

lemma steps_of_step (hs : step P h e = some h') : Steps P h h' e := by
  cases e with
  | trap i c =>
    rw [step] at hs
    cases hp : h.pc i with
    | user =>
      rw [hp] at hs
      exact .trap hp (Option.some.inj hs).symm
    | _ =>
      rw [hp] at hs
      cases hs
  | run i =>
    rw [step] at hs
    cases hp : h.pc i with
    | user =>
      rw [hp] at hs
      cases hs
    | load c =>
      rw [hp] at hs
      exact .load hp (Option.some.inj hs).symm
    | exchange c =>
      rw [hp] at hs
      dsimp only at hs
      split_ifs at hs with hold
      · exact .retry hp hold (Option.some.inj hs).symm
      · exact .take hp (not_not.1 hold) (Option.some.inj hs).symm
    | inside c l =>
      rw [hp] at hs
      dsimp only at hs
      split at hs
      · cases hs
      · exact .work hp ‹_› (Option.some.inj hs).symm
      · exact .last hp ‹_› (Option.some.inj hs).symm
      · exact .keep hp ‹_› (Option.some.inj hs).symm
    | store =>
      rw [hp] at hs
      exact .store hp (Option.some.inj hs).symm

lemma quiet_goto {b : ℤ} (hb : b = 0 ↔ h.bkl = 0) (hi : ¬ (h.pc i).holds) (hp : ¬ p.holds) :
    Quiet h ({ h with bkl := b }.goto i p) := by
  refine ⟨hb, rfl, rfl, fun j => ?_, fun j hj => ?_⟩
  · rw [goto_pc]
    split_ifs with hji
    · rw [hji]
      exact iff_of_false hp hi
    · exact Iff.rfl
  · rw [goto_pc, if_neg]
    rintro rfl
    exact hi hj

/-- How far the code under the lock has come: the sections that are done ran one after another,
and there is at most one more. -/
inductive Stage (P : Code κ ℓ Ending σ) (m : σ) (h : Harts κ ℓ σ) (done : List (κ × Ending)) : Prop where
  | free : h.bkl = 0 → (∀ j, ¬ (h.pc j).holds) → P.Serial m done h.memory → (∀ x ∈ done, x.2 = .unlocks) →
      h.taken.map Prod.snd = done.map Prod.fst → Stage P m h done
  | inside {i : ℕ} {c : κ} {l : ℓ} {m' : σ} : h.bkl ≠ 0 → (∀ j, (h.pc j).holds → j = i) → h.pc i = .inside c l →
      P.Serial m done m' → P.Part c m' l h.memory → (∀ x ∈ done, x.2 = .unlocks) →
      h.taken.map Prod.snd = done.map Prod.fst ++ [c] → Stage P m h done
  | store {i : ℕ} : h.bkl ≠ 0 → (∀ j, (h.pc j).holds → j = i) → h.pc i = .store → P.Serial m done h.memory →
      (∀ x ∈ done, x.2 = .unlocks) → h.taken.map Prod.snd = done.map Prod.fst → Stage P m h done
  | kept {before : List (κ × Ending)} {c : κ} {m' : σ} : h.bkl ≠ 0 → (∀ j, ¬ (h.pc j).holds) →
      P.Serial m before m' → P.Whole c m' .keeps h.memory → done = before ++ [(c, .keeps)] →
      h.taken.map Prod.snd = done.map Prod.fst → Stage P m h done

lemma Stage.quiet (hst : Stage P m h done) (hq : Quiet h h') : Stage P m h' done := by
  have hnone : (∀ j, ¬ (h.pc j).holds) → ∀ j, ¬ (h'.pc j).holds := fun hn j hj => hn j ((hq.holds j).1 hj)
  have hone : ∀ i, (∀ j, (h.pc j).holds → j = i) → ∀ j, (h'.pc j).holds → j = i :=
    fun i hn j hj => hn j ((hq.holds j).1 hj)
  cases hst with
  | free hb hn hs hu ht => exact .free (hq.bkl.2 hb) (hnone hn) (hq.memory ▸ hs) hu (hq.taken ▸ ht)
  | inside hb ho hp hs hpart hu ht =>
    refine .inside (fun hz => hb (hq.bkl.1 hz)) (hone _ ho) ?_ hs (hq.memory ▸ hpart) hu (hq.taken ▸ ht)
    rw [hq.pc _ (by rw [hp]; trivial), hp]
  | store hb ho hp hs hu ht =>
    refine .store (fun hz => hb (hq.bkl.1 hz)) (hone _ ho) ?_ (hq.memory ▸ hs) hu (hq.taken ▸ ht)
    rw [hq.pc _ (by rw [hp]; trivial), hp]
  | kept hb hn hs hw hd ht =>
    exact .kept (fun hz => hb (hq.bkl.1 hz)) (hnone hn) hs (hq.memory ▸ hw) hd (hq.taken ▸ ht)

lemma Stage.of_inside (hst : Stage P m h done) (hp : h.pc i = .inside c l) :
    ∃ m', h.bkl ≠ 0 ∧ (∀ j, (h.pc j).holds → j = i) ∧ P.Serial m done m' ∧ P.Part c m' l h.memory ∧
      (∀ x ∈ done, x.2 = .unlocks) ∧ h.taken.map Prod.snd = done.map Prod.fst ++ [c] := by
  have hi : (h.pc i).holds := by rw [hp]; trivial
  cases hst with
  | free hb hn => exact absurd hi (hn i)
  | inside hb ho hp' hs hpart hu ht =>
    obtain rfl := ho i hi
    rw [hp] at hp'
    cases hp'
    exact ⟨_, hb, ho, hs, hpart, hu, ht⟩
  | store hb ho hp' =>
    obtain rfl := ho i hi
    rw [hp] at hp'
    cases hp'
  | kept hb hn => exact absurd hi (hn i)

lemma goto_only (ho : ∀ j, (h.pc j).holds → j = i) : ∀ j, ((h.goto i p).pc j).holds → j = i := by
  intro j hj
  rw [goto_pc] at hj
  split_ifs at hj with hji
  · exact hji
  · exact ho j hj

lemma goto_none (ho : ∀ j, (h.pc j).holds → j = i) (hp : ¬ p.holds) : ∀ j, ¬ ((h.goto i p).pc j).holds := by
  intro j hj
  obtain rfl := goto_only ho j hj
  rw [goto_pc, if_pos rfl] at hj
  exact hp hj

lemma all_snoc (hu : ∀ x ∈ done, x.2 = Ending.unlocks) : ∀ x ∈ done ++ [(c, Ending.unlocks)], x.2 = .unlocks := by
  intro x hx
  obtain hx | hx := List.mem_append.1 hx
  · exact hu x hx
  · rw [List.mem_singleton.1 hx]

lemma Stage.step (hst : Stage P m h done) (hs : step P h e = some h') : ∃ done', Stage P m h' done' := by
  cases steps_of_step hs with
  | trap hp heq =>
    subst heq
    exact ⟨done, hst.quiet (quiet_goto Iff.rfl (by rw [hp]; exact id) id)⟩
  | load hp heq =>
    subst heq
    refine ⟨done, hst.quiet (quiet_goto Iff.rfl (by rw [hp]; exact id) ?_)⟩
    split_ifs <;> exact id
  | retry hp hb heq =>
    subst heq
    exact ⟨done, hst.quiet (quiet_goto (iff_of_false one_ne_zero hb) (by rw [hp]; exact id) id)⟩
  | @take i c hp hb heq =>
    subst heq
    cases hst with
    | free _ hn hs hu ht =>
      have ho : ∀ j, (h.pc j).holds → j = i := fun j hj => absurd hj (hn j)
      refine ⟨done,
        @Stage.inside _ _ _ P m _ done i c (P.enter c) h.memory one_ne_zero (goto_only ho) ?_ hs .enter hu ?_⟩
      · rw [goto_pc, if_pos rfl]
      · rw [goto_taken, List.map_append, ht]
        rfl
    | inside hb' => exact absurd hb hb'
    | store hb' => exact absurd hb hb'
    | kept hb' => exact absurd hb hb'
  | work hp hw heq =>
    subst heq
    obtain ⟨m', hb, ho, hs, hpart, hu, ht⟩ := hst.of_inside hp
    refine ⟨done, .inside hb (goto_only ho) ?_ hs (.step hpart hw) hu ht⟩
    rw [goto_pc, if_pos rfl]
  | @last i c l t hp hw heq =>
    subst heq
    obtain ⟨m', hb, ho, hs, hpart, hu, ht⟩ := hst.of_inside hp
    refine ⟨done ++ [(c, .unlocks)], .store hb (goto_only ho) ?_ (hs.snoc (hpart.whole (.last hw))) (all_snoc hu) ?_⟩
    · rw [goto_pc, if_pos rfl]
    · rw [goto_taken, ht, List.map_append]
      rfl
  | @keep i c l t hp hw heq =>
    subst heq
    obtain ⟨m', hb, ho, hs, hpart, hu, ht⟩ := hst.of_inside hp
    refine ⟨done ++ [(c, .keeps)], .kept hb (goto_none ho id) hs (hpart.whole (.last hw)) rfl ?_⟩
    rw [goto_taken, ht, List.map_append]
    rfl
  | @store i hp heq =>
    subst heq
    have hi : (h.pc i).holds := by rw [hp]; trivial
    cases hst with
    | free _ hn => exact absurd hi (hn i)
    | inside _ ho hp' =>
      obtain rfl := ho i hi
      rw [hp] at hp'
      cases hp'
    | store _ ho hp' hs hu ht =>
      obtain rfl := ho i hi
      exact ⟨done, .free rfl (goto_none ho id) hs hu ht⟩
    | kept _ hn => exact absurd hi (hn i)

lemma Stage.runs (hst : Stage P m h done) (hr : runs P h es = some h') : ∃ done', Stage P m h' done' := by
  induction es generalizing h done with
  | nil =>
    cases hr
    exact ⟨done, hst⟩
  | cons e es ih =>
    obtain ⟨h₁, hs, hr⟩ := Option.bind_eq_some_iff.1 hr
    obtain ⟨done₁, hst₁⟩ := hst.step hs
    exact ih hst₁ hr

lemma stage_init (P : Code κ ℓ Ending σ) (m : σ) : Stage P m (bklInit m) [] :=
  .free rfl (fun _ => id) .nil (fun _ hx => absurd hx List.not_mem_nil) rfl

lemma takenBy_append {x : ℕ × κ} : Harts.takenBy { h with taken := h.taken ++ [x] } j =
    h.takenBy j ++ if x.1 = j then [x.2] else [] := by
  rw [Harts.takenBy, Harts.takenBy, List.filter_append, List.map_append]
  congr 1
  by_cases hx : x.1 = j
  · simp [hx]
  · simp [hx]

lemma traps_step (hs : step P h e = some h') (j : ℕ) :
    h.takenBy j ++ (h.pc j).waiting ++ traps j [e] = h'.takenBy j ++ (h'.pc j).waiting := by
  cases steps_of_step hs with
  | @trap i c hp heq =>
    subst heq
    rw [goto_pc]
    by_cases hji : j = i
    · subst hji
      rw [hp, if_pos rfl, traps, if_pos rfl]
      simp [Pc.waiting, traps, Harts.takenBy]
    · rw [if_neg hji, traps, if_neg (Ne.symm hji)]
      simp [traps, Harts.takenBy]
  | @load i c hp heq =>
    subst heq
    rw [goto_pc, traps, traps, List.append_nil]
    by_cases hji : j = i
    · subst hji
      rw [hp, if_pos rfl]
      split_ifs <;> rfl
    · rw [if_neg hji]
      rfl
  | @retry i c hp hb heq =>
    subst heq
    rw [goto_pc, traps, traps, List.append_nil]
    split_ifs with hji
    · subst hji
      rw [hp]
      rfl
    · rfl
  | @take i c hp hb heq =>
    subst heq
    rw [goto_pc, traps, traps, List.append_nil]
    have htaken := @takenBy_append _ _ _ { h with bkl := 1 } j (i, c)
    rw [show Harts.takenBy (Harts.goto _ i (.inside c (P.enter c))) j =
      Harts.takenBy { h with bkl := 1, taken := h.taken ++ [(i, c)] } j from rfl, htaken]
    by_cases hji : j = i
    · subst hji
      rw [hp, if_pos rfl, if_pos rfl]
      simp [Pc.waiting, Harts.takenBy]
    · rw [if_neg hji, if_neg (Ne.symm hji), List.append_nil]
      rfl
  | @work i c l l' t hp hw heq | @last i c l t hp hw heq | @keep i c l t hp hw heq | @store i hp heq =>
    subst heq
    rw [goto_pc, traps, traps, List.append_nil]
    split_ifs with hji
    · subst hji
      rw [hp]
      rfl
    · rfl

lemma traps_append : traps j (es ++ es') = traps j es ++ traps j es' := by
  induction es with
  | nil => rfl
  | cons e es ih =>
    cases e with
    | trap i c =>
      rw [List.cons_append, traps, traps, ih]
      split_ifs <;> rfl
    | run i => exact ih

lemma traps_runs (hr : runs P h es = some h') (j : ℕ) :
    h.takenBy j ++ (h.pc j).waiting ++ traps j es = h'.takenBy j ++ (h'.pc j).waiting := by
  induction es generalizing h with
  | nil =>
    cases hr
    rw [traps, List.append_nil]
  | cons e es ih =>
    obtain ⟨h₁, hs, hr⟩ := Option.bind_eq_some_iff.1 hr
    have hone := traps_step hs j
    rw [← List.singleton_append, traps_append, ← List.append_assoc, hone]
    exact ih hr

/-- Whatever the order of the accesses, no two harts hold the lock, and the memory is what the
sections leave that got it, one whole section after another in the order of the lock and then
part of one more. Each hart gets the lock for what it trapped for, in this order. -/
theorem bkl_serial (hr : runs P (bklInit m) es = some h) :
    (∀ i j, (h.pc i).holds → (h.pc j).holds → i = j) ∧
      (∀ i, traps i es = h.takenBy i ++ (h.pc i).waiting) ∧
      ∃ done m', P.Serial m done m' ∧
        ((∀ i c l, h.pc i ≠ .inside c l) ∧ h.memory = m' ∧ h.taken.map Prod.snd = done.map Prod.fst ∨
          ∃ i c l, h.pc i = .inside c l ∧ P.Part c m' l h.memory ∧
            h.taken.map Prod.snd = done.map Prod.fst ++ [c]) := by
  obtain ⟨done, hst⟩ := (stage_init P m).runs hr
  have horder : ∀ i, traps i es = h.takenBy i ++ (h.pc i).waiting := fun i => traps_runs hr i
  cases hst with
  | free _ hn hs _ ht =>
    refine ⟨fun i _ hi => absurd hi (hn i), horder, done, _, hs, .inl ⟨fun i c l hp => hn i ?_, rfl, ht⟩⟩
    rw [hp]
    trivial
  | @inside i c l m' _ ho hp hs hpart _ ht =>
    exact ⟨fun i j hi hj => (ho i hi).trans (ho j hj).symm, horder, done, m', hs, .inr ⟨i, c, l, hp, hpart, ht⟩⟩
  | @store i _ ho hp hs _ ht =>
    refine ⟨fun i j hi hj => (ho i hi).trans (ho j hj).symm, horder, done, _, hs, .inl ⟨fun j c l hp' => ?_, rfl, ht⟩⟩
    obtain rfl := ho j (by rw [hp']; trivial)
    rw [hp] at hp'
    cases hp'
  | kept _ hn hs hw hd ht =>
    subst hd
    refine ⟨fun i _ hi => absurd hi (hn i), horder, _, _, hs.snoc hw, .inl ⟨fun i c l hp => hn i ?_, rfl, ht⟩⟩
    rw [hp]
    trivial

def adding : Code ℕ (ℕ × Option ℕ) Ending ℕ where
  enter c := (c, none)
  step
    | (c, none), m => some (.inl (c, some m), m)
    | (c, some x), _ => some (.inr .unlocks, x + c)

lemma adding_whole (c m : ℕ) : adding.Whole c m .unlocks (m + c) := .step rfl (.last rfl)

def twoTurns : List (Event ℕ) :=
  [.trap 0 5, .trap 1 7, .run 0, .run 1, .run 0, .run 1, .run 0, .run 1, .run 0, .run 1, .run 0, .run 1, .run 1, .run 1]

theorem bkl_serial_two : ∃ h, runs adding (bklInit 0) twoTurns = some h ∧
    (∀ i j, (h.pc i).holds → (h.pc j).holds → i = j) ∧
    (∀ i, traps i twoTurns = h.takenBy i ++ (h.pc i).waiting) ∧
    ∃ done m', adding.Serial 0 done m' ∧
      ((∀ i c l, h.pc i ≠ .inside c l) ∧ h.memory = m' ∧ h.taken.map Prod.snd = done.map Prod.fst ∨
        ∃ i c l, h.pc i = .inside c l ∧ adding.Part c m' l h.memory ∧
          h.taken.map Prod.snd = done.map Prod.fst ++ [c]) := by
  obtain ⟨h, hr⟩ := Option.isSome_iff_exists.1 (show (runs adding (bklInit 0) twoTurns).isSome = true by decide)
  exact ⟨h, hr, bkl_serial hr⟩

def Dead (h : Harts κ ℓ σ) : Prop := h.bkl ≠ 0 ∧ ∀ j, ¬ (h.pc j).holds

lemma dead_step (hd : Dead h) (hs : step P h e = some h') :
    Dead h' ∧ h'.memory = h.memory ∧ h'.taken = h.taken := by
  obtain ⟨hb, hn⟩ := hd
  have hquiet : Quiet h h' → Dead h' ∧ h'.memory = h.memory ∧ h'.taken = h.taken := fun hq =>
    ⟨⟨fun hz => hb (hq.bkl.1 hz), fun j hj => hn j ((hq.holds j).1 hj)⟩, hq.memory, hq.taken⟩
  cases steps_of_step hs with
  | trap hp heq =>
    subst heq
    exact hquiet (quiet_goto Iff.rfl (by rw [hp]; exact id) id)
  | load hp heq =>
    subst heq
    refine hquiet (quiet_goto Iff.rfl (by rw [hp]; exact id) ?_)
    rw [if_pos hb]
    exact id
  | retry hp _ heq =>
    subst heq
    exact hquiet (quiet_goto (iff_of_false one_ne_zero hb) (by rw [hp]; exact id) id)
  | take _ hz => exact absurd hz hb
  | @work i _ _ _ _ hp | @last i _ _ _ hp | @keep i _ _ _ hp | @store i hp => exact absurd (by rw [hp]; trivial) (hn i)

lemma dead_runs (hd : Dead h) (hr : runs P h es = some h') :
    Dead h' ∧ h'.memory = h.memory ∧ h'.taken = h.taken := by
  induction es generalizing h with
  | nil =>
    cases hr
    exact ⟨hd, rfl, rfl⟩
  | cons e es ih =>
    obtain ⟨h₁, hs, hr⟩ := Option.bind_eq_some_iff.1 hr
    obtain ⟨hd₁, hm, ht⟩ := dead_step hd hs
    obtain ⟨hd', hm', ht'⟩ := ih hd₁ hr
    exact ⟨hd', hm'.trans hm, ht'.trans ht⟩

theorem bkl_kept (hr : runs P (bklInit m) es = some h) (hp : h.pc i = .inside c l)
    (hw : P.step l h.memory = some (.inr .keeps, m')) (hr' : runs P h (.run i :: es') = some h') :
    h'.memory = m' ∧ h'.taken = h.taken ∧ h'.bkl ≠ 0 ∧ ∀ j, ¬ (h'.pc j).holds := by
  obtain ⟨done, hst⟩ := (stage_init P m).runs hr
  obtain ⟨_, hb, ho, -⟩ := hst.of_inside hp
  obtain ⟨h₁, hs, hr'⟩ := Option.bind_eq_some_iff.1 hr'
  have heq : h₁ = { h with memory := m' }.goto i .user := by
    rw [step, hp] at hs
    dsimp only at hs
    rw [hw] at hs
    exact (Option.some.inj hs).symm
  subst heq
  have hd : Dead ({ h with memory := m' }.goto i .user) := ⟨hb, goto_none ho id⟩
  obtain ⟨hd', hm, ht⟩ := dead_runs hd hr'
  exact ⟨hm, ht, hd'.1, hd'.2⟩

def careless : Code Ending Ending Ending ℕ where
  enter c := c
  step c m := some (.inr c, m + 1)

theorem bkl_kept_two : ∃ h h', runs careless (bklInit 0) [.trap 0 .keeps, .run 0, .run 0] = some h ∧
    runs careless h [.run 0, .trap 1 .unlocks, .run 1, .run 1] = some h' ∧ h'.memory = 1 ∧ h'.taken = h.taken := by
  refine ⟨_, _, rfl, rfl, ?_⟩
  obtain ⟨hm, ht, -⟩ := @bkl_kept _ _ _ careless _ _ [.trap 0 .keeps, .run 0, .run 0]
    [.trap 1 .unlocks, .run 1, .run 1] 0 1 0 .keeps .keeps rfl rfl rfl rfl
  exact ⟨hm, ht⟩

/-! Who gets the lock. -/

lemma runs_rest (hp : h.pc i = .inside c l) (hr : P.Rest l h.memory .unlocks m') :
    ∃ n, runs P h (List.replicate n (.run i)) = some ({ h with memory := m' }.goto i .store) := by
  obtain ⟨s, hs⟩ : ∃ s, h.memory = s := ⟨_, rfl⟩
  obtain ⟨e, he⟩ : ∃ e, Ending.unlocks = e := ⟨_, rfl⟩
  rw [hs, he] at hr
  induction hr generalizing h with
  | @last l s t e hlast =>
    subst hs he
    refine ⟨1, ?_⟩
    rw [List.replicate_one, runs_one, step, hp]
    dsimp only
    rw [hlast]
  | @step l l' s s' t e hstep _ ih =>
    subst hs
    obtain ⟨n, hn⟩ := @ih ({ h with memory := s' }.goto i (.inside c l')) (by rw [goto_pc, if_pos rfl]) rfl he
    refine ⟨n + 1, ?_⟩
    have hone : step P h (.run i) = some ({ h with memory := s' }.goto i (.inside c l')) := by
      rw [step, hp]
      dsimp only
      rw [hstep]
    rw [List.replicate_succ, runs, hone, Option.bind_eq_bind, Option.bind_some, hn]
    simp only [Harts.goto, Function.update_idem]

lemma runs_store (hp : h.pc i = .store) : runs P h [.run i] = some ({ h with bkl := 0 }.goto i .user) := by
  rw [runs_one, step, hp]

lemma runs_out (hp : h.pc i = .inside c l) (hr : P.Rest l h.memory .unlocks m') :
    ∃ n, runs P h (List.replicate n (.run i)) = some ({ h with bkl := 0, memory := m' }.goto i .user) := by
  obtain ⟨n, hn⟩ := runs_rest hp hr
  refine ⟨n + 1, ?_⟩
  rw [List.replicate_add, List.replicate_one]
  apply runs_snoc hn
  rw [runs_store (by rw [goto_pc, if_pos rfl])]
  simp only [Harts.goto, Function.update_idem]

lemma runs_in (hb : h.bkl = 0) (hw : (h.pc i).waiting = [c]) :
    ∃ n ≤ 2, runs P h (List.replicate n (.run i)) =
      some ({ h with bkl := 1, taken := h.taken ++ [(i, c)] }.goto i (.inside c (P.enter c))) := by
  have hexchange : ∀ h : Harts κ ℓ σ, h.bkl = 0 → h.pc i = .exchange c → runs P h [.run i] =
      some ({ h with bkl := 1, taken := h.taken ++ [(i, c)] }.goto i (.inside c (P.enter c))) := by
    intro h hb hp
    rw [runs_one, step, hp]
    exact if_neg (not_not.2 hb)
  cases hp : h.pc i with
  | load c' =>
    rw [hp] at hw
    cases hw
    refine ⟨2, le_rfl, ?_⟩
    have hone : step P h (.run i) = some (h.goto i (.exchange c)) := by
      rw [step, hp]
      dsimp only
      rw [if_neg (not_not.2 hb)]
    rw [List.replicate_succ, runs, hone, Option.bind_eq_bind, Option.bind_some, List.replicate_one,
      hexchange (h.goto i (.exchange c)) hb (by rw [goto_pc, if_pos rfl])]
    simp only [Harts.goto, Function.update_idem]
  | exchange c' =>
    rw [hp] at hw
    cases hw
    exact ⟨1, by omega, hexchange h hb hp⟩
  | _ =>
    rw [hp] at hw
    cases hw

/-- There is no deadlock: where all sections end with `bkl_unlock`, a hart that waits gets the lock
when only it and whoever holds the lock go on. -/
theorem bkl_gets (hends : ∀ done m' c, P.Serial m done m' → ∃ t, P.Whole c m' .unlocks t)
    (hkeeps : ∀ c s t, ¬ P.Whole c s .keeps t) (hr : runs P (bklInit m) es = some h)
    (hw : (h.pc i).waiting = [c]) :
    ∃ es' h', runs P h es' = some h' ∧ h'.pc i = .inside c (P.enter c) ∧
      ∀ e ∈ es', e = .run i ∨ ∃ j, (h.pc j).holds ∧ e = .run j := by
  obtain ⟨done, hst⟩ := (stage_init P m).runs hr
  have hfree : h.bkl = 0 → ∃ es' h', runs P h es' = some h' ∧ h'.pc i = .inside c (P.enter c) ∧
      ∀ e ∈ es', e = .run i ∨ ∃ j, (h.pc j).holds ∧ e = .run j := by
    intro hb
    obtain ⟨n, -, hn⟩ := runs_in hb hw
    refine ⟨_, _, hn, ?_, fun e he => .inl (List.eq_of_mem_replicate he)⟩
    rw [goto_pc, if_pos rfl]
  -- the holder first gives the lock back
  have hafter : ∀ j n m', (h.pc j).holds →
      runs P h (List.replicate n (.run j)) = some ({ h with bkl := 0, memory := m' }.goto j .user) →
      ∃ es' h', runs P h es' = some h' ∧ h'.pc i = .inside c (P.enter c) ∧
        ∀ e ∈ es', e = .run i ∨ ∃ j, (h.pc j).holds ∧ e = .run j := by
    intro j n m' hj hn
    have hij : i ≠ j := by
      rintro rfl
      cases hp : h.pc i <;> rw [hp] at hw hj <;> first | exact hj | cases hw
    have hw' : ((Harts.goto { h with bkl := 0, memory := m' } j .user).pc i).waiting = [c] := by
      rw [goto_pc, if_neg hij]
      exact hw
    obtain ⟨k, -, hk⟩ := @runs_in _ _ _ P _ i c rfl hw'
    refine ⟨_, _, runs_snoc hn hk, ?_, fun e he => ?_⟩
    · rw [goto_pc, if_pos rfl]
    · obtain he | he := List.mem_append.1 he
      · exact .inr ⟨j, hj, List.eq_of_mem_replicate he⟩
      · exact .inl (List.eq_of_mem_replicate he)
  cases hst with
  | free hb => exact hfree hb
  | @inside j c' l m' _ ho hp hs hpart =>
    obtain ⟨t, ht⟩ := hends done m' c' hs
    obtain ⟨n, hn⟩ := runs_out hp (hpart.rest ht)
    exact hafter j n t (by rw [hp]; trivial) hn
  | @store j _ ho hp =>
    exact hafter j 1 h.memory (by rw [hp]; trivial) (runs_store hp)
  | kept _ _ _ hk => exact absurd hk (hkeeps _ _ _)

lemma adding_keeps (c s t : ℕ) : ¬ adding.Whole c s .keeps t := by
  intro h
  cases h with
  | last h => cases h
  | step h hr =>
    cases h
    cases hr with
    | last h => cases h
    | step h => cases h

theorem bkl_gets_two : ∃ h, runs adding (bklInit 0) [.trap 0 5, .run 0, .run 0, .trap 1 7] = some h ∧
    ∃ es' h', runs adding h es' = some h' ∧ h'.pc 1 = .inside 7 (7, none) := by
  refine ⟨_, rfl, ?_⟩
  obtain ⟨es', h', hr, hp, -⟩ := @bkl_gets _ _ _ adding _ [.trap 0 5, .run 0, .run 0, .trap 1 7] 0 1 7
    (fun _ m c _ => ⟨m + c, adding_whole c m⟩) adding_keeps rfl rfl
  exact ⟨es', h', hr, hp⟩

def accesses (i : ℕ) : List (Event κ) → ℕ
  | [] => 0
  | .trap _ _ :: es => accesses i es
  | .run j :: es => if j = i then accesses i es + 1 else accesses i es

lemma taken_step (hs : step P h e = some h') : h.taken.length ≤ h'.taken.length := by
  cases steps_of_step hs with
  | trap _ heq | load _ heq | retry _ _ heq | work _ _ heq | last _ _ heq | keep _ _ heq | store _ heq =>
    subst heq
    exact le_rfl
  | take _ _ heq =>
    subst heq
    rw [goto_taken, List.length_append]
    exact Nat.le_add_right ..

lemma taken_runs (hr : runs P h es = some h') : h.taken.length ≤ h'.taken.length := by
  induction es generalizing h with
  | nil =>
    cases hr
    exact le_rfl
  | cons e es ih =>
    obtain ⟨h₁, hs, hr⟩ := Option.bind_eq_some_iff.1 hr
    exact (taken_step hs).trans (ih hr)

lemma taken_grows (hb : h.bkl = 0) (hn : ∀ j, ¬ (h.pc j).holds)
    (hw : h.pc i = .load c ∧ 2 ≤ accesses i es ∨ h.pc i = .exchange c ∧ 1 ≤ accesses i es)
    (hr : runs P h es = some h') : h.taken.length < h'.taken.length := by
  induction es generalizing h with
  | nil =>
    obtain ⟨-, ha⟩ | ⟨-, ha⟩ := hw
    · exact absurd ha (Nat.not_succ_le_zero _)
    · exact absurd ha (Nat.not_succ_le_zero _)
  | cons e es ih =>
    obtain ⟨h₁, hs, hr⟩ := Option.bind_eq_some_iff.1 hr
    cases steps_of_step hs with
    | @trap j c' hp heq =>
      subst heq
      have hij : i ≠ j := by
        rintro rfl
        obtain ⟨hp', -⟩ | ⟨hp', -⟩ := hw
        · rw [hp] at hp'
          cases hp'
        · rw [hp] at hp'
          cases hp'
      refine @ih (h.goto j (.load c')) hb (fun k hk => ?_) ?_ hr
      · rw [goto_pc] at hk
        split_ifs at hk
        · exact hk
        · exact hn k hk
      · rw [goto_pc, if_neg hij]
        exact hw
    | @load j c' hp heq =>
      subst heq
      rw [if_neg (not_not.2 hb)] at hr
      refine @ih (h.goto j (.exchange c')) hb (fun k hk => ?_) ?_ hr
      · rw [goto_pc] at hk
        split_ifs at hk
        · exact hk
        · exact hn k hk
      · rw [goto_pc]
        by_cases hij : i = j
        · subst hij
          rw [accesses, if_pos rfl] at hw
          obtain ⟨hp', ha⟩ | ⟨hp', -⟩ := hw
          · rw [hp] at hp'
            cases hp'
            exact .inr ⟨if_pos rfl, Nat.le_of_succ_le_succ ha⟩
          · rw [hp] at hp'
            cases hp'
        · rw [accesses, if_neg (Ne.symm hij)] at hw
          rw [if_neg hij]
          exact hw
    | retry _ hz => exact absurd hb hz
    | take _ _ heq =>
      subst heq
      have hle := taken_runs hr
      rw [goto_taken, List.length_append] at hle
      exact hle
    | @work j _ _ _ _ hp | @last j _ _ _ hp | @keep j _ _ _ hp | @store j hp =>
      exact absurd (by rw [hp]; trivial) (hn j)

/-- A free lock is not passed up: by the second access of a hart that waits for it, it or another
hart has got the lock. -/
theorem bkl_taken (hr : runs P (bklInit m) es = some h) (hb : h.bkl = 0) (hw : (h.pc i).waiting = [c])
    (hr' : runs P h es' = some h') (ha : 2 ≤ accesses i es') : h.taken.length < h'.taken.length := by
  obtain ⟨done, hst⟩ := (stage_init P m).runs hr
  have hn : ∀ j, ¬ (h.pc j).holds := by
    cases hst with
    | free _ hn => exact hn
    | inside hz | store hz | kept hz => exact absurd hb hz
  cases hp : h.pc i with
  | load c' => exact taken_grows hb hn (.inl ⟨hp, ha⟩) hr'
  | exchange c' => exact taken_grows hb hn (.inr ⟨hp, Nat.le_of_succ_le ha⟩) hr'
  | _ =>
    rw [hp] at hw
    cases hw

theorem bkl_taken_one : ∃ h h', runs adding (bklInit 0) [.trap 0 5] = some h ∧
    runs adding h [.run 0, .run 0] = some h' ∧ h.taken.length < h'.taken.length := by
  refine ⟨_, _, rfl, rfl, ?_⟩
  exact @bkl_taken _ _ _ adding _ _ [.trap 0 5] [.run 0, .run 0] 0 0 5 rfl rfl rfl rfl le_rfl

lemma accesses_append : accesses i (es ++ es') = accesses i es + accesses i es' := by
  induction es with
  | nil => rw [List.nil_append, accesses, Nat.zero_add]
  | cons e es ih =>
    cases e with
    | trap _ _ => exact ih
    | run k =>
      rw [List.cons_append, accesses, accesses, ih]
      split_ifs
      · exact Nat.add_right_comm ..
      · rfl

lemma overtaken (hends : ∀ m, ∃ t, P.Whole c m .unlocks t) (hij : i ≠ j) {c' : κ} (hb : h.bkl = 0)
    (hi : h.pc i = .load c') (hj : h.pc j = .user) :
    ∃ es h', runs P h es = some h' ∧ h'.bkl = 0 ∧ h'.pc i = .load c' ∧ h'.pc j = .user ∧ 1 ≤ accesses i es ∧
      h'.taken = h.taken ++ [(j, c)] := by
  have htrap : runs P h [.trap j c] = some (h.goto j (.load c)) := by
    rw [runs_one, step, hj]
  obtain ⟨n, -, hin⟩ := @runs_in _ _ _ P (h.goto j (.load c)) j c hb (by rw [goto_pc, if_pos rfl]; rfl)
  obtain ⟨h₁, heq⟩ : ∃ h₁, h₁ = ({ h.goto j (.load c) with bkl := 1, taken := h.taken ++ [(j, c)] }).goto j
    (.inside c (P.enter c)) := ⟨_, rfl⟩
  have hi₁ : h₁.pc i = .load c' := by
    rw [heq, goto_pc, if_neg hij]
    change (h.goto j (.load c)).pc i = _
    rw [goto_pc, if_neg hij, hi]
  have hj₁ : h₁.pc j = .inside c (P.enter c) := by
    rw [heq, goto_pc, if_pos rfl]
  have hspin : runs P h₁ [.run i] = some (h₁.goto i (.load c')) := by
    rw [runs_one, step, hi₁, heq]
    rfl
  obtain ⟨t, ht⟩ := hends h₁.memory
  obtain ⟨k, hk⟩ := @runs_out _ _ _ P (h₁.goto i (.load c')) t j c (P.enter c)
    (by rw [goto_pc, if_neg hij.symm, hj₁]) ht
  refine ⟨_, _, runs_snoc htrap (runs_snoc (hin.trans (congrArg some heq.symm)) (runs_snoc hspin hk)), rfl,
    ?_, ?_, ?_, ?_⟩
  · rw [goto_pc, if_neg hij]
    exact if_pos rfl
  · rw [goto_pc, if_pos rfl]
  · rw [accesses_append, accesses_append, accesses_append, show accesses i [Event.run i] = 1 from if_pos rfl]
    omega
  · rw [goto_taken, goto_taken, heq, goto_taken]

/-- The lock is not fair: a hart may look at it as often as it likes and wait on, while another
one gets it again and again. -/
theorem bkl_unfair (hends : ∀ m, ∃ t, P.Whole c m .unlocks t) (hij : i ≠ j) (m : σ) (c' : κ) (n : ℕ) :
    ∃ es h, runs P (bklInit m) (.trap i c' :: es) = some h ∧ (h.pc i).waiting = [c'] ∧ n ≤ accesses i es ∧
      h.taken = List.replicate n (j, c) := by
  have hrounds : ∃ es h, runs P ((bklInit m).goto i (.load c')) es = some h ∧ h.bkl = 0 ∧ h.pc i = .load c' ∧
      h.pc j = .user ∧ n ≤ accesses i es ∧ h.taken = List.replicate n (j, c) := by
    induction n with
    | zero =>
      refine ⟨[], _, rfl, rfl, ?_, ?_, Nat.zero_le _, rfl⟩
      · rw [goto_pc, if_pos rfl]
      · rw [goto_pc, if_neg hij.symm]
        rfl
    | succ n ih =>
      obtain ⟨es, h, hr, hb, hi, hj, ha, ht⟩ := ih
      obtain ⟨es', h', hr', hb', hi', hj', ha', ht'⟩ := overtaken hends hij hb hi hj
      refine ⟨es ++ es', h', runs_snoc hr hr', hb', hi', hj', ?_, ?_⟩
      · rw [accesses_append]
        omega
      · rw [ht', ht, List.replicate_succ']
  obtain ⟨es, h, hr, -, hi, -, ha, ht⟩ := hrounds
  refine ⟨es, h, ?_, by rw [hi]; rfl, ha, ht⟩
  rw [runs, step]
  exact hr

theorem bkl_unfair_two : ∃ es h, runs adding (bklInit 0) (.trap 0 7 :: es) = some h ∧ (h.pc 0).waiting = [7] ∧
    100 ≤ accesses 0 es ∧ h.taken = List.replicate 100 (1, 5) :=
  @bkl_unfair _ _ _ adding 0 1 5 (fun m => ⟨m + 5, adding_whole 5 m⟩) Nat.zero_ne_one 0 7 100

/-! The kernel of `Kmi.Kernel` under the lock. -/

def Implements (P : Code Kernel.Event ℓ Ending Kernel.State) (ok : Kernel.State → Kernel.Event → Prop) : Prop :=
  ∀ k e ending k', Kernel.Reached ok k → P.Whole e k ending k' → ok k e ∧ Kernel.step k e = some k'

theorem interleaved_reached {P : Code Kernel.Event ℓ Ending Kernel.State} {ok : Kernel.State → Kernel.Event → Prop}
    {k : Kernel.State} {h : Harts Kernel.Event ℓ Kernel.State} {es : List (Event Kernel.Event)}
    (hP : Implements P ok) (hk : Kernel.Reached ok k) (hr : runs P (bklInit k) es = some h)
    (hout : ∀ i c l, h.pc i ≠ .inside c l) : Kernel.Reached ok h.memory := by
  obtain ⟨done, hst⟩ := (stage_init P k).runs hr
  have hserial : ∀ {done k'}, P.Serial k done k' → Kernel.Reached ok k' := fun hs =>
    hs.invariant hk fun e k ending k' hk hw => hk.step e (hP k e ending k' hk hw).1 (hP k e ending k' hk hw).2
  cases hst with
  | free _ _ hs => exact hserial hs
  | inside _ _ hp => exact absurd hp (hout _ _ _)
  | store _ _ _ hs => exact hserial hs
  | kept _ _ hs hw => exact hserial (hs.snoc hw)

def reading : Code Kernel.Event (Kernel.Event × Option Kernel.State) Ending Kernel.State where
  enter e := (e, none)
  step
    | (e, none), k => some (.inl (e, some k), k)
    | (e, some k), _ => (Kernel.step k e).map fun k' => (.inr .unlocks, k')

lemma reading_implements : Implements reading fun _ _ => True := by
  intro k e ending k' _ hw
  cases hw with
  | last h => cases h
  | step h hrest =>
    cases h
    cases hrest with
    | last h =>
      obtain ⟨k₁, hk, heq⟩ := Option.map_eq_some_iff.1 h
      cases heq
      exact ⟨trivial, hk⟩
    | step h =>
      obtain ⟨k₁, -, heq⟩ := Option.map_eq_some_iff.1 h
      cases heq

def comingUp : List (Event Kernel.Event) :=
  [.trap 0 (.entry 0 (.syscall (.ipcNotify 1)) []), .run 0, .trap 1 Kernel.secondProcessor, .run 1, .run 0, .run 1,
    .run 0, .run 1, .run 0, .run 1, .run 0, .run 1, .run 1, .run 1, .run 1, .run 1]

theorem interleaved_reached_two : ∃ k h, Kernel.booted = some k ∧ runs reading (bklInit k) comingUp = some h ∧
    h.taken.map Prod.fst = [0, 1] ∧ h.memory.tp 1 = some 7 ∧ Kernel.Reached (fun _ _ => True) h.memory := by
  have hrun : (Kernel.booted.bind fun k => (runs reading (bklInit k) comingUp).map fun h =>
      (h.bkl, h.taken.map Prod.fst, h.memory.tp 1)) = some (0, [0, 1], some 7) := by
    decide +kernel
  obtain ⟨k, hk, hrest⟩ := Option.bind_eq_some_iff.1 hrun
  obtain ⟨h, hr, hobs⟩ := Option.map_eq_some_iff.1 hrest
  simp only [Prod.mk.injEq] at hobs
  obtain ⟨hb, htaken, htp⟩ := hobs
  refine ⟨k, h, hk, hr, htaken, htp, interleaved_reached reading_implements (.boot .w64 4096 _ hk) hr ?_⟩
  intro i c l hp
  obtain ⟨done, hst⟩ := (stage_init reading k).runs hr
  obtain ⟨_, hne, -⟩ := hst.of_inside hp
  exact hne hb

end Kmi.Bkl
