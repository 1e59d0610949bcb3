import Mathlib.Tactic

/-! Search for a pattern in a text from window to window. The character at the end of a window
says how far the next one may lie. -/

namespace Kmi.Library.Horspool

variable {α : Type} {text pat : ℕ → α} {n m pos q : ℕ} {skip : α → ℕ} {hit : ℕ → Bool} {r : Option ℕ}

def Occurs (text : ℕ → α) (n : ℕ) (pat : ℕ → α) (m q : ℕ) : Prop :=
  q + m ≤ n ∧ ∀ i < m, text (q + i) = pat i

def First (text : ℕ → α) (n : ℕ) (pat : ℕ → α) (m : ℕ) : Option ℕ → Prop
  | none => ∀ q, ¬ Occurs text n pat m q
  | some q => Occurs text n pat m q ∧ ∀ q' < q, ¬ Occurs text n pat m q'

structure Safe (pat : ℕ → α) (m : ℕ) (skip : α → ℕ) : Prop where
  le : ∀ c, skip c ≤ m
  le_last : ∀ i, i + 1 < m → skip (pat i) ≤ m - 1 - i

def search (hit : ℕ → Bool) (text : ℕ → α) (n m : ℕ) (skip : α → ℕ) : ℕ → ℕ → Option (Option ℕ)
  | 0, _ => none
  | fuel + 1, pos =>
    if n < pos + m then some none
    else if hit pos then some (some pos)
    else search hit text n m skip fuel (pos + skip (text (pos + m - 1)))

lemma Safe.skipped (h : Safe pat m skip) (hno : ¬ Occurs text n pat m pos)
    (hlo : pos ≤ q) (hhi : q < pos + skip (text (pos + m - 1))) : ¬ Occurs text n pat m q := by
  rintro ⟨hle, hall⟩
  have hskip := h.le (text (pos + m - 1))
  obtain rfl | hlt := hlo.eq_or_lt
  · exact hno ⟨hle, hall⟩
  · -- the last character of the window is the one of the pattern at this place
    have hchar := hall (pos + m - 1 - q) (by omega)
    rw [show q + (pos + m - 1 - q) = pos + m - 1 by omega] at hchar
    have hlast := h.le_last (pos + m - 1 - q) (by omega)
    rw [← hchar] at hlast
    omega

lemma search_first (h : Safe pat m skip) (hhit : ∀ q, q + m ≤ n → (hit q = true ↔ Occurs text n pat m q))
    (fuel : ℕ) (hbefore : ∀ q < pos, ¬ Occurs text n pat m q) (hr : search hit text n m skip fuel pos = some r) :
    First text n pat m r := by
  induction fuel generalizing pos with
  | zero => cases hr
  | succ fuel ih =>
    rw [search] at hr
    split_ifs at hr with hend hpos
    · cases hr
      intro q hq
      have hle := hq.1
      exact hbefore q (by omega) hq
    · cases hr
      exact ⟨(hhit pos (by omega)).1 hpos, hbefore⟩
    · refine ih (fun q hq => ?_) hr
      by_cases hlt : q < pos
      · exact hbefore q hlt
      · exact h.skipped (fun hocc => hpos ((hhit pos (by omega)).2 hocc)) (by omega) hq

lemma search_returns (hskip : ∀ c, 0 < skip c) (hm : 0 < m) (fuel : ℕ) (hfuel : n ≤ pos + fuel) :
    ∃ r, search hit text n m skip (fuel + 1) pos = some r := by
  induction fuel generalizing pos with
  | zero => exact ⟨none, by rw [search, if_pos (by omega)]⟩
  | succ fuel ih =>
    rw [search]
    split_ifs with hend
    · exact ⟨none, rfl⟩
    · exact ⟨some pos, rfl⟩
    · have := hskip (text (pos + m - 1))
      exact ih (by omega)

lemma search_spins (hle : pos + m ≤ n) (hmiss : hit pos = false) (hskip : skip (text (pos + m - 1)) = 0) (fuel : ℕ) :
    search hit text n m skip fuel pos = none := by
  induction fuel with
  | zero => rfl
  | succ fuel ih => rw [search, if_neg (by omega), hmiss, if_neg Bool.false_ne_true, hskip, Nat.add_zero, ih]

end Kmi.Library.Horspool
