import Mathlib.Tactic

/-! Sections of code that work on one memory step by step, and what it means that they have run
one after another. -/

namespace Kmi.Library.Critical

variable {κ ℓ ε σ : Type}

structure Code (κ ℓ ε σ : Type) where
  enter : κ → ℓ
  step : ℓ → σ → Option ((ℓ ⊕ ε) × σ)

namespace Code

variable (P : Code κ ℓ ε σ)

inductive Part (c : κ) (s : σ) : ℓ → σ → Prop where
  | enter : Part c s (P.enter c) s
  | step {l l' : ℓ} {t t' : σ} : Part c s l t → P.step l t = some (.inl l', t') → Part c s l' t'

inductive Rest : ℓ → σ → ε → σ → Prop where
  | last {l : ℓ} {s t : σ} {e : ε} : P.step l s = some (.inr e, t) → Rest l s e t
  | step {l l' : ℓ} {s s' t : σ} {e : ε} : P.step l s = some (.inl l', s') → Rest l' s' e t → Rest l s e t

def Whole (c : κ) (s : σ) (e : ε) (t : σ) : Prop := P.Rest (P.enter c) s e t

inductive Serial (s : σ) : List (κ × ε) → σ → Prop where
  | nil : Serial s [] s
  | snoc {cs : List (κ × ε)} {t t' : σ} {c : κ} {e : ε} :
      Serial s cs t → P.Whole c t e t' → Serial s (cs ++ [(c, e)]) t'

variable {P} {c : κ} {s s' t t' : σ} {l l' : ℓ} {e : ε} {cs : List (κ × ε)}

lemma Part.whole (h : P.Part c s l t) (hr : P.Rest l t e t') : P.Whole c s e t' := by
  induction h with
  | enter => exact hr
  | step _ hs ih =>
    apply ih
    exact .step hs hr

lemma Part.rest (h : P.Part c s l t) (hw : P.Whole c s e t') : P.Rest l t e t' := by
  induction h with
  | enter => exact hw
  | step _ hs ih =>
    cases ih with
    | last hlast =>
      rw [hs] at hlast
      cases hlast
    | step hs' hr =>
      rw [hs] at hs'
      cases hs'
      exact hr

lemma Serial.invariant {I : σ → Prop} (h : P.Serial s cs t) (hs : I s)
    (hI : ∀ c s e t, I s → P.Whole c s e t → I t) : I t := by
  induction h with
  | nil => exact hs
  | snoc _ hw ih =>
    apply hI _ _ _ _ ih
    exact hw

end Code

end Kmi.Library.Critical
