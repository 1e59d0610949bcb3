import Kmi.Timer.Deadline
import Kmi.Timer.Ids

/-! What a timer interrupt finds. The hardware keeps the deadline of the last request, also
when the timer that it was for is gone. -/

namespace Kmi.Timer

open BinaryTree Kmi.Library.PointerTree Kmi.SpTree Kmi.Mem Kmi.Regions

def SafeAt (s : Timers) (now : Ticks) : Prop :=
  ∃ fuel n s', newestTimer fuel s = some n ∧ handleTimer fuel s = some (s', (s.timer n).tid) ∧
    s'.pending = s.pending.erase n ∧ (s.timer n).ticks ≤ now

def SafeInterrupts (s : Timers) : Prop :=
  ∀ a, s.armed = some a → ∀ now, a ≤ now → SafeAt s now

def Due (s : Timers) (xs : List ℕ) (now : Ticks) : Prop :=
  ∃ n ∈ xs, (s.timer n).ticks ≤ now ∧ ∀ m ∈ xs, now < (s.timer m).ticks → s.cids n < s.cids m

def Covered (s : Timers) (xs : List ℕ) : Prop := ∀ a, s.armed = some a → Due s xs a

/-- A removal leaves a timer that is due at the deadline which stays armed. Only the timer
at the root can be freed, and an interrupt removes the one with the smallest id. -/
def Leaves (oneShot : Bool) (s : Timers) : Event → Prop
  | .free cid => ∀ n, s.root = some n → s.cids n = cid → Covered s (s.pending.erase n)
  | .handle => oneShot = false → ∀ n ∈ s.pending, (∀ m ∈ s.pending, s.cids n ≤ s.cids m) →
      Covered s (s.pending.erase n)
  | _ => True

def Fits (w : ℕ) : Event → Prop
  | .newAbs _ _ _ ticks => ticks.toNat < 2 ^ (w - 1)
  | .newRel _ _ _ ticks currentTicks => (ticks + currentTicks).toNat < 2 ^ (w - 1)
  | _ => True

def Late (s : Timers) : Prop := ∀ n ∈ s.pending, ((s.timer n).ticks.toNat : ℤ) ≤ s.cids n

variable {w fuel : ℕ} {oneShot : Bool} {s s' : Timers}

lemma Due.later {xs : List ℕ} {now now' : Ticks} (h : Due s xs now) (hle : now ≤ now') :
    Due s xs now' := by
  obtain ⟨n, hn, hticks, hlt⟩ := h
  refine ⟨n, hn, BitVec.le_trans hticks hle, fun m hm hnow => ?_⟩
  apply hlt m hm
  rw [BitVec.lt_def] at hnow ⊢
  rw [BitVec.le_def] at hle
  omega

lemma Due.congr {xs : List ℕ} {now : Ticks} (ht : s'.timer = s.timer) :
    Due s' xs now ↔ Due s xs now := by
  simp only [Due, Timers.cids, ht]

lemma Covered.congr {xs : List ℕ} (ht : s'.timer = s.timer) (ha : s'.armed = s.armed) :
    Covered s' xs ↔ Covered s xs := by
  simp only [Covered, ha, Due.congr ht]

lemma newestTimer_least {n : ℕ} (hx : Exact s) (h : newestTimer fuel s = some n) :
    ∀ m ∈ s.pending, s.cids n ≤ s.cids m := by
  obtain ⟨t, hw, hperm, hsort⟩ := hx
  simp only [newestTimer, Option.bind_eq_bind, Option.bind_eq_some_iff] at h
  obtain ⟨a, ha, hn⟩ := h
  cases t with
  | nil =>
    have hnil : s.root = none := hw.rep
    rw [ha] at hnil
    cases hnil
  | node b l r =>
    obtain rfl : a = b := Option.some.inj (ha.symm.trans hw.rep.1)
    obtain ⟨c, k, kr, he, hfirst⟩ := spFirst_spec a l r
    have hrep := hw.rep
    rw [ha] at hrep
    have hk := hfirst _ _ (max fuel (c.length + 1)) hrep (by omega)
    rw [spFirst_mono (le_max_left _ _) hn] at hk
    cases hk
    have hin : inorder (node a l r) = n :: (inorder kr ++ after (leftSpine c)) := by
      simp [he, inorder_plug]
    rw [hin] at hperm hsort
    intro m hm
    obtain rfl | hm := List.mem_cons.mp (hperm.mem_iff.mpr hm)
    · exact le_rfl
    · exact (List.rel_of_pairwise_cons hsort hm).le

lemma handleTimer_of_newest {n : ℕ} (h : newestTimer fuel s = some n)
    (hs : removeTimer fuel s n = some s') : handleTimer fuel s = some (s', (s.timer n).tid) := by
  simp only [handleTimer, h, hs, Option.bind_eq_bind, Option.bind_some]

lemma Exact.safeAt_iff (hx : Exact s) {now : Ticks} : SafeAt s now ↔ Due s s.pending now := by
  constructor
  · rintro ⟨fuel, n, s', hn, -, -, hticks⟩
    refine ⟨n, newestTimer_pending hx hn, hticks, fun m hm hnow => ?_⟩
    obtain hlt | he := (newestTimer_least hx hn m hm).lt_or_eq
    · exact hlt
    · rw [← hx.cids_inj (newestTimer_pending hx hn) hm he] at hnow
      rw [BitVec.lt_def] at hnow
      rw [BitVec.le_def] at hticks
      omega
  · rintro ⟨k, hk, hticks, hlt⟩
    have hne : s.pending ≠ [] := List.ne_nil_of_mem hk
    obtain ⟨n, hn, hmem⟩ := newestTimer_mem hx hne (Nat.le_succ s.pending.length)
    obtain ⟨s', hs', -⟩ := removeTimer_exact hx hmem (Nat.lt_succ_self _)
    refine ⟨_, n, s', hn, handleTimer_of_newest hn hs', (removeTimer_frame hs').1, ?_⟩
    by_contra hlate
    have hlater := hlt n hmem (by
      rw [BitVec.le_def] at hlate
      rw [BitVec.lt_def]
      omega)
    have hleast := newestTimer_least hx hn k hk
    omega

lemma Exact.safeInterrupts_iff (hx : Exact s) : SafeInterrupts s ↔ Covered s s.pending := by
  constructor
  · intro h a ha
    exact hx.safeAt_iff.mp (h a ha a (BitVec.le_refl a))
  · intro h a ha now hnow
    exact hx.safeAt_iff.mpr ((h a ha).later hnow)

lemma newAbsTimer_covered {ti tid : ℕ} {fresh : Bool} {ticks : Ticks} {r : Timers × ℤ}
    (hx : Exact s) (hl : Late s) (hfit : ticks.toNat < 2 ^ (w - 1))
    (h : newAbsTimer w fuel s ti fresh tid ticks = some r) :
    Late r.1 ∧ Covered r.1 r.1.pending := by
  obtain ⟨t, hw, hperm, -⟩ := hx
  simp only [newAbsTimer, newTimer, Option.bind_eq_bind, Option.bind_eq_some_iff] at h
  obtain ⟨r₁, ⟨s₀, hs₀, hins⟩, hr⟩ := h
  cases hr
  obtain ⟨hti, hpend, -, htimer, -⟩ := getNode_frame hs₀
  have hw₀ := getNode_wellFormed hs₀ hw hperm
  have hne : ∀ x ∈ s.pending, x ≠ ti := fun x hx he => hti (he ▸ hx)
  obtain ⟨s₂, hs₂⟩ : ∃ s₂ : Timers, s₂ = { s₀ with
    timer := Function.update s₀.timer ti ⟨tid, idOf w ticks, ticks⟩ } := ⟨_, rfl⟩
  have hw₂ : WellFormed s₂.root s₂.heap t := by rwa [hs₂]
  have hlo : s₂.cids ti = ticks.toNat := by simp [hs₂, Timers.cids, idOf_eq hfit]
  rw [← hs₂] at hins
  obtain ⟨hle, -, hpass⟩ := insertTimer_passes hw₂ hperm hti hins
  obtain ⟨-, hpend', -, htimer'⟩ := insertTimer_frame hins
  have hp : r₁.1.pending = ti :: s.pending := by rw [hpend', hs₂, hpend]
  have hnew : r₁.1.cids ti = r₁.2 ∧ (r₁.1.timer ti).ticks = ticks := by
    simp [Timers.cids, htimer', hs₂]
  have hold : ∀ n ∈ s.pending, r₁.1.timer n = s.timer n ∧ s₂.cids n = s.cids n := by
    intro n hn
    simp [Timers.cids, htimer', hs₂, hne n hn, htimer]
  have hlate : ∀ n ∈ ti :: s.pending, ((r₁.1.timer n).ticks.toNat : ℤ) ≤ r₁.1.cids n := by
    intro n hn
    obtain rfl | hn := List.mem_cons.mp hn
    · rw [hnew.1, hnew.2, ← hlo]
      exact hle
    · rw [Timers.cids, (hold n hn).1]
      exact hl n hn
  refine ⟨by rwa [← hp] at hlate, ?_⟩
  rintro a ⟨⟩
  obtain ⟨n, hn, hc, hticks⟩ : ∃ n ∈ ti :: s.pending, r₁.1.cids n = ticks.toNat ∧
      (r₁.1.timer n).ticks ≤ ticks := by
    obtain he | hlt := hle.eq_or_lt
    · exact ⟨ti, List.mem_cons_self, by rw [hnew.1, ← he, hlo], by
        rw [hnew.2]
        exact BitVec.le_refl ticks⟩
    · -- the id was taken, by a timer that is due no later than its id says
      obtain ⟨b, hb, hcb, -⟩ := hpass _ le_rfl hlt
      have hbc : r₁.1.cids b = ticks.toNat := by
        rw [← hlo, ← hcb, (hold b hb).2, Timers.cids, (hold b hb).1]
        rfl
      refine ⟨b, List.mem_cons_of_mem _ hb, hbc, ?_⟩
      have := hlate b (List.mem_cons_of_mem _ hb)
      rw [BitVec.le_def]
      omega
  change Due r₁.1 r₁.1.pending ticks
  rw [hp]
  refine ⟨n, hn, hticks, fun m hm hlt => ?_⟩
  have := hlate m hm
  rw [BitVec.lt_def] at hlt
  omega

lemma findTimer_found {cid : ℤ} {n : ℕ} (hx : Exact s)
    (h : findTimer s cid fuel s.root = some (some n)) : s.root = some n := by
  by_contra hroot
  have hne : ∀ a, s.root = some a → s.cids a ≠ cid := by
    intro a ha he
    have hfound := findTimer_mono (Nat.le_succ fuel) h
    rw [findTimer_root ha he] at hfound
    cases hfound
    exact hroot ha
  have hmiss := findTimer_misses hx hne (le_max_right fuel s.pending.length)
  rw [findTimer_mono (le_max_left _ _) h] at hmiss
  cases hmiss

lemma removeTimer_late {n : ℕ} (hl : Late s) (h : removeTimer fuel s n = some s') : Late s' := by
  obtain ⟨hp, ht, -⟩ := removeTimer_frame h
  intro m hm
  rw [hp] at hm
  rw [Timers.cids, ht]
  exact hl m (List.mem_of_mem_erase hm)

lemma removeTimer_covered {n : ℕ} (h : removeTimer fuel s n = some s') :
    Covered s' s'.pending ↔ Covered s (s.pending.erase n) := by
  obtain ⟨hp, ht, ha⟩ := removeTimer_frame h
  rw [hp]
  exact Covered.congr ht ha

lemma sysFreeTimer_covered {cid : ℤ} {r : Timers × ℤ} (hx : Exact s) (hl : Late s)
    (hc : Covered s s.pending) (h : sysFreeTimer fuel s cid = some r) :
    Late r.1 ∧ (Covered r.1 r.1.pending ↔ Leaves oneShot s (.free cid)) := by
  simp only [sysFreeTimer, Option.bind_eq_bind, Option.bind_eq_some_iff] at h
  obtain ⟨found, hfound, h⟩ := h
  cases found with
  | none =>
    cases h
    refine ⟨hl, fun _ n hn he => ?_, fun _ => hc⟩
    have hroot := findTimer_mono (Nat.le_succ fuel) hfound
    rw [findTimer_root hn he] at hroot
    cases hroot
  | some n =>
    simp only [Option.bind_eq_some_iff] at h
    obtain ⟨s₁, hs₁, h⟩ := h
    cases h
    have hroot := findTimer_found hx hfound
    refine ⟨removeTimer_late hl hs₁, ?_⟩
    rw [removeTimer_covered hs₁]
    constructor
    · intro h m hm _
      obtain rfl : n = m := Option.some.inj (hroot.symm.trans hm)
      exact h
    · intro h
      exact h n hroot (findTimer_cid hfound)

lemma handle_covered (hx : Exact s) (hl : Late s) (h : step w oneShot fuel s .handle = some s') :
    Late s' ∧ (Covered s' s'.pending ↔ Leaves oneShot s .handle) := by
  simp only [step, handleTimer, Option.bind_eq_bind, Option.bind_eq_some_iff] at h
  obtain ⟨r, ⟨n, hn, s₁, hs₁, hr⟩, he⟩ := h
  cases hr
  have hl₁ := removeTimer_late hl hs₁
  cases oneShot with
  | true =>
    cases he
    exact ⟨hl₁, fun _ hf => (by cases hf), fun _ a ha => (by cases ha)⟩
  | false =>
    cases he
    refine ⟨hl₁, (removeTimer_covered hs₁).trans ⟨fun h _ m hm hleast => ?_, fun h => ?_⟩⟩
    · have hsame : n = m := by
        apply hx.cids_inj (newestTimer_pending hx hn) hm
        exact le_antisymm (newestTimer_least hx hn m hm)
          (hleast n (newestTimer_pending hx hn))
      exact hsame ▸ h
    · exact h rfl n (newestTimer_pending hx hn) (newestTimer_least hx hn)

lemma step_covered {e : Event} (hx : Exact s) (hl : Late s) (hc : Covered s s.pending)
    (hfit : Fits w e) (h : step w oneShot fuel s e = some s') :
    Late s' ∧ (Covered s' s'.pending ↔ Leaves oneShot s e) := by
  cases e with
  | newAbs ti fresh tid ticks =>
    simp only [step, Option.map_eq_some_iff] at h
    obtain ⟨r, hr, rfl⟩ := h
    obtain ⟨hl', hc'⟩ := newAbsTimer_covered hx hl hfit hr
    exact ⟨hl', fun _ => trivial, fun _ => hc'⟩
  | newRel ti fresh tid ticks now =>
    simp only [step, Option.map_eq_some_iff] at h
    obtain ⟨r, hr, rfl⟩ := h
    obtain ⟨hl', hc'⟩ := newAbsTimer_covered hx hl hfit hr
    exact ⟨hl', fun _ => trivial, fun _ => hc'⟩
  | free cid =>
    simp only [step, Option.map_eq_some_iff] at h
    obtain ⟨r, hr, rfl⟩ := h
    exact sysFreeTimer_covered hx hl hc hr
  | handle => exact handle_covered hx hl h

def Attended (w : ℕ) (oneShot : Bool) (s : Timers) (e : Event) : Prop :=
  Apt w s e ∧ Fits w e ∧ Leaves oneShot s e

lemma Reached.covered (h : Reached w oneShot (Attended w oneShot) s) :
    Reached w oneShot (Apt w) s ∧ Late s ∧ Covered s s.pending := by
  induction h with
  | initial timer =>
    refine ⟨.initial timer, fun n hn => ?_, fun a ha => ?_⟩
    · cases hn
    · cases ha
  | step fuel _ ha hs ih =>
    obtain ⟨hr, hl, hc⟩ := ih
    obtain ⟨hl', hiff⟩ := step_covered hr.exact.1 hl hc ha.2.1 hs
    exact ⟨hr.step fuel ha.1 hs, hl', hiff.mpr ha.2.2⟩

/-- An interrupt at or after the armed deadline always finds a timer that is due, as long as
no removal takes the last one of these; the first removal that does makes some interrupt
unsafe. -/
theorem interrupts_safe (h : Reached w oneShot (Attended w oneShot) s) :
    SafeInterrupts s ∧ ∀ e fuel s', Apt w s e → Fits w e → step w oneShot fuel s e = some s' →
      (SafeInterrupts s' ↔ Leaves oneShot s e) := by
  obtain ⟨hr, hl, hc⟩ := h.covered
  refine ⟨hr.exact.1.safeInterrupts_iff.mpr hc, fun e fuel s' ha hfit hs => ?_⟩
  rw [(hr.step fuel ha hs).exact.1.safeInterrupts_iff]
  exact (step_covered hr.exact.1 hl hc hfit hs).2

theorem interrupts_safe_one_pending :
    ∃ s, Reached 64 false (Attended 64 false) s ∧ s.pending = [1] ∧ s.armed = some 10 ∧
      SafeInterrupts s := by
  have hrun : (step 64 false 1 (initial fun _ => ⟨0, 0, 0⟩) (.newAbs 1 true 5 10)).map
      (fun s => (s.pending, s.armed)) = some ([1], some 10) := rfl
  obtain ⟨s, hs, he⟩ := Option.map_eq_some_iff.mp hrun
  simp only [Prod.mk.injEq] at he
  have hr : Reached 64 false (Attended 64 false) s :=
    (Reached.initial _).step 1 ⟨apt_initial, (by decide : (10 : Ticks).toNat < 2 ^ 63), trivial⟩ hs
  exact ⟨s, hr, he.1, he.2, (interrupts_safe hr).1⟩

/-- The timer for 10 is freed and its interrupt comes all the same: there is no tree. And of
the timers for 20 and for 10 the first is served at 11, by the second interrupt at the
deadline 10. -/
theorem interrupt_without_timer :
    (∃ s, Reached 64 true (fun _ _ => True) s ∧ s.armed = some 10 ∧
      (∀ fuel, handleTimer fuel s = none) ∧ ¬ SafeInterrupts s) ∧
    ∃ s, Reached 64 false (fun _ _ => True) s ∧ s.armed = some 10 ∧
      newestTimer 4 s = some 1 ∧ (s.timer 1).ticks = 20 ∧ ¬ SafeAt s 11 := by
  constructor
  · have hrun : ([Event.newAbs 1 true 5 10, .free 10].foldlM (step 64 true 4)
        (initial fun _ => ⟨0, 0, 0⟩)).map (fun s => (s.root, s.armed)) =
        some (none, some 10) := by decide +kernel
    obtain ⟨s, hs, he⟩ := Option.map_eq_some_iff.mp hrun
    simp only [Prod.mk.injEq] at he
    obtain ⟨hroot, harm⟩ := he
    have hnone : ∀ fuel, handleTimer fuel s = none := by
      intro fuel
      simp [handleTimer, newestTimer, hroot]
    refine ⟨s, (Reached.initial _).play hs, harm, hnone, fun hsafe => ?_⟩
    obtain ⟨fuel, n, s', -, hh, -⟩ := hsafe 10 harm 10 (by decide)
    rw [hnone] at hh
    cases hh
  · have hrun : ([Event.newAbs 1 true 5 20, .newAbs 2 true 6 10, .handle].foldlM (step 64 false 4)
        (initial fun _ => ⟨0, 0, 0⟩)).map
          (fun s => (s.armed, newestTimer 4 s, (s.timer 1).ticks)) =
        some (some 10, some 1, 20) := by decide +kernel
    obtain ⟨s, hs, he⟩ := Option.map_eq_some_iff.mp hrun
    simp only [Prod.mk.injEq] at he
    obtain ⟨harm, hn, hticks⟩ := he
    refine ⟨s, (Reached.initial _).play hs, harm, hn, hticks, ?_⟩
    rintro ⟨fuel, n, s', hn', -, -, hle⟩
    have hmax := newestTimer_mono (le_max_left fuel 4) hn'
    rw [newestTimer_mono (le_max_right fuel 4) hn] at hmax
    cases hmax
    rw [hticks] at hle
    exact absurd hle (by decide)

end Kmi.Timer
