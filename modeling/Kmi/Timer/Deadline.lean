import Kmi.Timer.Runs

/-! The deadline that the hardware timer is armed for. -/

namespace Kmi.Timer

open Kmi.SpTree Kmi.Mem Kmi.Regions

def Armed (s : Timers) : Prop :=
  s.pending ≠ [] → ∃ a, s.armed = some a ∧ ∀ n ∈ s.pending, a ≤ (s.timer n).ticks

/-- A request comes due no later than every timer that is pending already. Where an
interrupt uses its deadline up, it has a tree to search and only one timer to find. -/
def Timely (w : ℕ) (oneShot : Bool) (s : Timers) (e : Event) : Prop :=
  (oneShot = true → Apt w s e) ∧
    match e with
    | .newAbs _ _ _ ticks => ∀ n ∈ s.pending, ticks ≤ (s.timer n).ticks
    | .newRel _ _ _ ticks currentTicks => ∀ n ∈ s.pending, ticks + currentTicks ≤ (s.timer n).ticks
    | .free _ => True
    | .handle => oneShot = true → s.pending.length ≤ 1

variable {w fuel : ℕ} {oneShot : Bool} {s s' : Timers}

lemma newAbsTimer_armed {ti tid : ℕ} {fresh : Bool} {ticks : Ticks} {r : Timers × ℤ}
    (h : newAbsTimer w fuel s ti fresh tid ticks = some r) :
    Armed r.1 ↔ ∀ n ∈ s.pending, ticks ≤ (s.timer n).ticks := by
  simp only [newAbsTimer, newTimer, insertTimer, getNode, Option.bind_eq_bind,
    Option.bind_eq_some_iff] at h
  obtain ⟨x, ⟨s₁, hs₁, y, -, z, -, hx⟩, hr⟩ := h
  cases hr
  cases hx
  split at hs₁
  · cases hs₁
  rename_i hti
  cases hs₁
  have hold : ∀ n ∈ s.pending, n ≠ ti := fun n hn he => hti (he ▸ hn)
  simp only [Armed]
  constructor
  · intro ha n hn
    obtain ⟨a, he, hle⟩ := ha (by simp)
    cases he
    simpa [hold n hn] using hle n (by simp [hn])
  · intro hle _
    refine ⟨ticks, rfl, fun n hn => ?_⟩
    obtain rfl | hn := List.mem_cons.mp hn
    · simp
    · simpa [hold n hn] using hle n hn

lemma removeTimer_armed {n : ℕ} (ha : Armed s) (h : removeTimer fuel s n = some s') :
    Armed s' := by
  obtain ⟨hp, ht, harm⟩ := removeTimer_frame h
  intro hne
  rw [hp] at hne ⊢
  obtain ⟨a, he, hle⟩ := ha fun hnil => hne (by simp [hnil])
  refine ⟨a, harm.trans he, fun m hm => ?_⟩
  rw [ht]
  exact hle m (List.mem_of_mem_erase hm)

lemma newestTimer_pending {n : ℕ} (hx : Exact s) (hn : newestTimer fuel s = some n) :
    n ∈ s.pending := by
  have hne : s.pending ≠ [] := by
    intro hnil
    obtain ⟨t, hw, hperm, -⟩ := hx
    rw [hnil] at hperm
    obtain ⟨root, hroot, -⟩ := Option.bind_eq_some_iff.mp hn
    have hmem := (hroot ▸ hw.rep).mem_of_ptr
    exact absurd (hperm.mem_iff.mp hmem) (by simp)
  obtain ⟨k, hk, hmem⟩ := newestTimer_mem hx hne (le_max_right fuel s.pending.length)
  rw [newestTimer_mono (le_max_left _ _) hn] at hk
  cases hk
  exact hmem

lemma step_armed {e : Event} (ha : Armed s) (hx : oneShot = true → Exact s)
    (ht : Timely w oneShot s e) (h : step w oneShot fuel s e = some s') : Armed s' := by
  cases e with
  | newAbs ti fresh tid ticks =>
    simp only [step, Option.map_eq_some_iff] at h
    obtain ⟨r, hr, rfl⟩ := h
    exact (newAbsTimer_armed hr).mpr ht.2
  | newRel ti fresh tid ticks now =>
    simp only [step, Option.map_eq_some_iff] at h
    obtain ⟨r, hr, rfl⟩ := h
    exact (newAbsTimer_armed hr).mpr ht.2
  | free cid =>
    simp only [step, sysFreeTimer, Option.bind_eq_bind, Option.map_eq_some_iff,
      Option.bind_eq_some_iff] at h
    obtain ⟨r, ⟨found, -, hr⟩, rfl⟩ := h
    cases found with
    | none =>
      cases hr
      exact ha
    | some n =>
      simp only [Option.bind_eq_some_iff] at hr
      obtain ⟨s₁, hs₁, hr⟩ := hr
      cases hr
      exact removeTimer_armed ha hs₁
  | handle =>
    simp only [step, handleTimer, Option.bind_eq_bind, Option.bind_eq_some_iff] at h
    obtain ⟨r, ⟨n, hn, s₁, hs₁, hr⟩, he⟩ := h
    cases hr
    cases oneShot with
    | false =>
      cases he
      exact removeTimer_armed ha hs₁
    | true =>
      cases he
      -- the timer that the interrupt was armed for is the only one, and is gone
      have hmem := newestTimer_pending (hx rfl) hn
      have hone := ht.2 rfl
      obtain ⟨hp, -, -⟩ := removeTimer_frame hs₁
      intro hne
      refine absurd ?_ hne
      change s₁.pending = []
      rw [hp, ← List.length_eq_zero_iff, List.length_erase_of_mem hmem]
      omega

lemma Reached.armed (h : Reached w oneShot (Timely w oneShot) s) :
    Armed s ∧ (oneShot = true → Reached w oneShot (Apt w) s) := by
  induction h with
  | initial timer => exact ⟨fun h => absurd rfl h, fun _ => .initial timer⟩
  | step fuel _ ht hs ih =>
    obtain ⟨ha, hr⟩ := ih
    refine ⟨step_armed ha (fun ho => (hr ho).exact.1) ht hs, fun ho => ?_⟩
    exact (hr ho).step fuel (ht.1 ho) hs

theorem deadline_armed (h : Reached w oneShot (Timely w oneShot) s) : Armed s := h.armed.1

theorem deadline_armed_two_pending :
    ∃ s, Reached 64 false (Timely 64 false) s ∧ s.pending = [2, 1] ∧ Armed s := by
  obtain ⟨s₁, hs₁⟩ := Option.isSome_iff_exists.mp
    (by rfl : (step 64 false 1 (initial fun _ => ⟨0, 0, 0⟩) (.newAbs 1 true 5 200)).isSome)
  have h₁ : s₁.pending = [1] ∧ (s₁.timer 1).ticks = 200 := by
    have : (step 64 false 1 (initial fun _ => ⟨0, 0, 0⟩) (.newAbs 1 true 5 200)).map
        (fun s => (s.pending, (s.timer 1).ticks)) = some ([1], 200) := rfl
    rw [hs₁] at this
    simpa using this
  have hrun : ((step 64 false 1 (initial fun _ => ⟨0, 0, 0⟩) (.newAbs 1 true 5 200)).bind
      fun s => step 64 false 2 s (.newAbs 2 true 6 100)).map Timers.pending = some [2, 1] := rfl
  obtain ⟨s, hs, hp⟩ := Option.map_eq_some_iff.mp hrun
  rw [hs₁, Option.bind_some] at hs
  have hr₁ : Reached 64 false (Timely 64 false) s₁ :=
    (Reached.initial _).step 1 (by simp [Timely, initial]) hs₁
  have hr := hr₁.step 2 (by simp [Timely, h₁]) hs
  exact ⟨s, hr, hp, deadline_armed hr⟩

theorem later_timer_disarms_earlier :
    ∃ s, Reached 64 false (fun _ _ => True) s ∧ ¬ Armed s := by
  have hrun : ([Event.newAbs 1 true 5 100, .newAbs 2 true 6 200].foldlM (step 64 false 4)
      (initial fun _ => ⟨0, 0, 0⟩)).map (fun s => (s.pending, s.armed, (s.timer 1).ticks)) =
      some ([2, 1], some 200, 100) := by decide +kernel
  obtain ⟨s, hs, he⟩ := Option.map_eq_some_iff.mp hrun
  simp only [Prod.mk.injEq] at he
  obtain ⟨hpend, harm, hticks⟩ := he
  refine ⟨s, (Reached.initial _).play hs, fun ha => ?_⟩
  obtain ⟨a, hea, hle⟩ := ha (by simp [hpend])
  cases harm.symm.trans hea
  have := hle 1 (by simp [hpend])
  rw [hticks] at this
  exact absurd this (by decide)

end Kmi.Timer
