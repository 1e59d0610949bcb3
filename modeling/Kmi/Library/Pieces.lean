import Mathlib.Tactic

/-! Pieces of a line that follow each other without a gap, some of them marked. Where no two
unmarked pieces touch, the marked ones say which pieces there are. -/

namespace Kmi.Library.Pieces

structure Piece (α : Type*) where
  start : α
  stop : α
  marked : Bool
deriving DecidableEq

variable {α : Type*} [LinearOrder α] {s e : α} {p : Piece α} {ps qs : List (Piece α)}

def Tiled : α → List (Piece α) → α → Prop
  | s, [], e => s = e
  | s, p :: ps, e => p.start = s ∧ s < p.stop ∧ Tiled p.stop ps e

def Merged (ps : List (Piece α)) : Prop :=
  ps.IsChain fun p q => p.marked = true ∨ q.marked = true

lemma Tiled.le (h : Tiled s ps e) : s ≤ e := by
  induction ps generalizing s with
  | nil => exact le_of_eq h
  | cons p ps ih =>
    obtain ⟨-, hlt, hrest⟩ := h
    exact hlt.le.trans (ih hrest)

lemma Tiled.mem (h : Tiled s ps e) (hp : p ∈ ps) : s ≤ p.start ∧ p.start < p.stop ∧ p.stop ≤ e := by
  induction ps generalizing s with
  | nil => cases hp
  | cons q ps ih =>
    obtain ⟨hstart, hlt, hrest⟩ := h
    obtain rfl | hp := List.mem_cons.1 hp
    · exact ⟨hstart.ge, hstart ▸ hlt, hrest.le⟩
    · obtain ⟨h₁, h₂, h₃⟩ := ih hrest hp
      exact ⟨hlt.le.trans h₁, h₂, h₃⟩

lemma Tiled.stop_le {q : Piece α} (hp : Tiled s (p :: ps) e) (hq : Tiled s (q :: qs) e)
    (hm : Merged (p :: ps)) (hpu : p.marked = false) (hqu : q.marked = false)
    (hmarked : ∀ r : Piece α, r.marked = true → r ∈ p :: ps → r ∈ q :: qs) : q.stop ≤ p.stop := by
  obtain ⟨-, -, hps⟩ := hp
  obtain ⟨-, -, hqs⟩ := hq
  cases ps with
  | nil =>
    have hend : p.stop = e := hps
    exact hend ▸ hqs.le
  | cons r ps =>
    obtain ⟨hr, -, -⟩ := hps
    have hru : r.marked = true := by
      have := (List.isChain_cons_cons.1 hm).1
      rwa [hpu, Bool.false_eq_true, false_or] at this
    obtain rfl | hrq := List.mem_cons.1 (hmarked r hru (by simp))
    · rw [hqu] at hru
      cases hru
    · rw [← hr]
      exact (hqs.mem hrq).1

lemma Tiled.head_eq {q : Piece α} (hp : Tiled s (p :: ps) e) (hq : Tiled s (q :: qs) e)
    (hmem : p ∈ q :: qs) : p = q := by
  obtain ⟨hps, -, -⟩ := hp
  obtain ⟨-, hlt, hqs⟩ := hq
  obtain heq | hin := List.mem_cons.1 hmem
  · exact heq
  · have := (hqs.mem hin).1
    exact absurd (hlt.trans_le this) (hps ▸ lt_irrefl _)

theorem Tiled.unique (hps : Tiled s ps e) (hqs : Tiled s qs e) (hmp : Merged ps) (hmq : Merged qs)
    (hmarked : ∀ r : Piece α, r.marked = true → (r ∈ ps ↔ r ∈ qs)) : ps = qs := by
  induction ps generalizing s qs with
  | nil =>
    cases qs with
    | nil => rfl
    | cons q qs =>
      obtain ⟨-, hlt, hrest⟩ := hqs
      have hse : s = e := hps
      exact absurd (hlt.trans_le hrest.le) (hse ▸ lt_irrefl _)
  | cons p ps ih =>
    cases qs with
    | nil =>
      obtain ⟨-, hlt, hrest⟩ := hps
      have hse : s = e := hqs
      exact absurd (hlt.trans_le hrest.le) (hse ▸ lt_irrefl _)
    | cons q qs =>
      have hhead : p = q := by
        cases hpu : p.marked with
        | true => exact hps.head_eq hqs ((hmarked p hpu).1 List.mem_cons_self)
        | false =>
          cases hqu : q.marked with
          | true => exact (hqs.head_eq hps ((hmarked q hqu).2 List.mem_cons_self)).symm
          | false =>
            have hle := hps.stop_le hqs hmp hpu hqu fun r hr => (hmarked r hr).1
            have hge := hqs.stop_le hps hmq hqu hpu fun r hr => (hmarked r hr).2
            obtain ⟨a, b, u⟩ := p
            obtain ⟨a', b', u'⟩ := q
            simp only [Piece.mk.injEq]
            exact ⟨hps.1.trans hqs.1.symm, le_antisymm hge hle, hpu.trans hqu.symm⟩
      subst hhead
      obtain ⟨hp, hlt, hps⟩ := hps
      obtain ⟨-, -, hqs⟩ := hqs
      -- a piece behind the head is not the head
      have hne : ∀ r rs, Tiled p.stop rs e → r ∈ rs → r ≠ p := by
        rintro r rs hrs hr rfl
        exact absurd ((hrs.mem hr).1) (not_le.2 (hp ▸ hlt))
      rw [ih hps hqs hmp.tail hmq.tail]
      intro r hr
      constructor
      · intro hmem
        obtain rfl | hin := List.mem_cons.1 ((hmarked r hr).1 (List.mem_cons_of_mem _ hmem))
        · exact absurd rfl (hne r ps hps hmem)
        · exact hin
      · intro hmem
        obtain rfl | hin := List.mem_cons.1 ((hmarked r hr).2 (List.mem_cons_of_mem _ hmem))
        · exact absurd rfl (hne r qs hqs hmem)
        · exact hin

end Kmi.Library.Pieces
