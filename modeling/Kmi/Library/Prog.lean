import Mathlib.Tactic

/-! Programs that return, or leave for good with a reason. The state is kept when they
leave, so that both ends have a postcondition. -/

namespace Kmi.Library.Prog

variable {ε σ α β : Type}

def Ends (x : EStateM ε σ α) (Q : α → σ → Prop) (E : ε → σ → Prop) (s : σ) : Prop :=
  match x s with
  | .ok a s' => Q a s'
  | .error e s' => E e s'

variable {Q Q' : α → σ → Prop} {E E' : ε → σ → Prop} {s : σ}

lemma Ends.mono {x : EStateM ε σ α} (h : Ends x Q E s) (hq : ∀ a s', Q a s' → Q' a s')
    (he : ∀ e s', E e s' → E' e s') : Ends x Q' E' s := by
  unfold Ends at h ⊢
  cases hx : x s with
  | ok a s' =>
    rw [hx] at h
    exact hq a s' h
  | error e s' =>
    rw [hx] at h
    exact he e s' h

lemma Ends.and {x : EStateM ε σ α} (h : Ends x Q E s) (h' : Ends x Q' E' s) :
    Ends x (fun a s' => Q a s' ∧ Q' a s') (fun e s' => E e s' ∧ E' e s') s := by
  unfold Ends at h h' ⊢
  cases hx : x s with
  | ok a s' =>
    rw [hx] at h h'
    exact ⟨h, h'⟩
  | error e s' =>
    rw [hx] at h h'
    exact ⟨h, h'⟩

lemma ends_bind {x : EStateM ε σ α} {f : α → EStateM ε σ β} {Q : β → σ → Prop} :
    Ends (x >>= f) Q E s ↔ Ends x (fun a s' => Ends (f a) Q E s') E s := by
  simp only [Ends, bind, EStateM.bind]
  cases x s <;> rfl

lemma bind_ok {x : EStateM ε σ α} {f : α → EStateM ε σ β} {a : α} {s' : σ} (h : x s = .ok a s') :
    (x >>= f) s = f a s' := by
  simp only [bind, EStateM.bind, h]

lemma Ends.bind {x : EStateM ε σ α} {f : α → EStateM ε σ β} {Q' : β → σ → Prop}
    (h : Ends x Q E s) (hf : ∀ a s', Q a s' → Ends (f a) Q' E s') : Ends (x >>= f) Q' E s :=
  ends_bind.2 (h.mono hf fun _ _ he => he)

@[simp]
lemma ends_pure {a : α} : Ends (pure a : EStateM ε σ α) Q E s ↔ Q a s := Iff.rfl

@[simp]
lemma ends_throw {e : ε} : Ends (throw e : EStateM ε σ α) Q E s ↔ E e s := Iff.rfl

@[simp]
lemma ends_get {Q : σ → σ → Prop} : Ends (get : EStateM ε σ σ) Q E s ↔ Q s s := Iff.rfl

@[simp]
lemma ends_modify {f : σ → σ} {Q : Unit → σ → Prop} :
    Ends (modify f : EStateM ε σ PUnit) Q E s ↔ Q () (f s) := Iff.rfl

lemma ends_ite {p : Prop} [Decidable p] {x y : EStateM ε σ α} :
    Ends (if p then x else y) Q E s ↔ (p → Ends x Q E s) ∧ (¬ p → Ends y Q E s) := by
  split_ifs with h <;> simp [h]

lemma ends_of_eq_ok {x : EStateM ε σ α} {a : α} {s' : σ} (hx : x s = .ok a s') (h : Ends x Q E s) :
    Q a s' := by
  simpa only [Ends, hx] using h

lemma ends_of_eq_error {x : EStateM ε σ α} {e : ε} {s' : σ} (hx : x s = .error e s')
    (h : Ends x Q E s) : E e s' := by
  simpa only [Ends, hx] using h

lemma ends_iff_of_ok {x : EStateM ε σ α} {a : α} {s' : σ} (hx : x s = .ok a s') : Ends x Q E s ↔ Q a s' := by
  simp only [Ends, hx]

lemma Ends.iff_of_decides {x : EStateM ε σ α} {p : Prop}
    (h : Ends x (fun a s' => p ∧ Q a s') (fun e s' => p ∧ E e s' ∨ ¬ p ∧ ¬ E e s') s) : Ends x Q E s ↔ p := by
  unfold Ends at h ⊢
  cases hx : x s with
  | ok a s' =>
    rw [hx] at h
    exact iff_of_true h.2 h.1
  | error e s' =>
    rw [hx] at h
    obtain ⟨hp, he⟩ | ⟨hp, he⟩ := h
    · exact iff_of_true he hp
    · exact iff_of_false he hp

structure Composes (R : σ → σ → Prop) (L : ε → σ → σ → Prop) : Prop where
  refl : ∀ s, R s s
  trans : ∀ {s s' s''}, R s s' → R s' s'' → R s s''
  leave : ∀ {e s s' s''}, R s s' → L e s' s'' → L e s s''

def Within (R : σ → σ → Prop) (L : ε → σ → σ → Prop) (x : EStateM ε σ α) : Prop :=
  ∀ s, Ends x (fun _ s' => R s s') (fun e s' => L e s s') s

section

variable {R : σ → σ → Prop} {L : ε → σ → σ → Prop}

lemma Within.from {x : EStateM ε σ α} {s s' : σ} (hc : Composes R L) (h : Within R L x) (hs : R s s') :
    Ends x (fun _ s'' => R s s'') (fun e s'' => L e s s'') s' :=
  (h s').mono (fun _ _ hr => hc.trans hs hr) fun _ _ hl => hc.leave hs hl

lemma Within.bind {x : EStateM ε σ α} {f : α → EStateM ε σ β} (hc : Composes R L) (hx : Within R L x)
    (hf : ∀ a, Within R L (f a)) : Within R L (x >>= f) := by
  intro s
  apply (hx s).bind
  intro a s' hs
  exact (hf a).from hc hs

lemma within_pure (hc : Composes R L) (a : α) : Within R L (pure a) := fun s => hc.refl s

lemma within_get (hc : Composes R L) : Within R L get := fun s => hc.refl s

lemma within_modify {f : σ → σ} (h : ∀ s, R s (f s)) : Within R L (modify f) := h

end

end Kmi.Library.Prog
