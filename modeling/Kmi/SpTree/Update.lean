import Kmi.SpTree.Turns

/-! The rebalancing loop keeps every well-formed tree well formed. -/

namespace Kmi.SpTree

open BinaryTree Kmi.Library.PointerTree

structure WellFormed (root : Option ℕ) (h : SpHeap) (t : BinaryTree ℕ) : Prop where
  rep : Rep h.links none root t
  nodup : (inorder t).Nodup
  hints : ∀ n ∈ inorder t, 0 ≤ h.hint n

def SameOutside (s : List ℕ) (h h' : SpHeap) : Prop :=
  ∀ x ∉ s, SameAt h.links h'.links x ∧ h'.hint x = h.hint x

lemma SameOutside.trans {s : List ℕ} {h₁ h₂ h₃ : SpHeap} (h : SameOutside s h₁ h₂)
    (h' : SameOutside s h₂ h₃) : SameOutside s h₁ h₃ := by
  intro x hx
  obtain ⟨⟨ha, hb, hc⟩, hd⟩ := h x hx
  obtain ⟨⟨ha', hb', hc'⟩, hd'⟩ := h' x hx
  exact ⟨⟨ha'.trans ha, hb'.trans hb, hc'.trans hc⟩, hd'.trans hd⟩

variable {root : Option ℕ} {h : SpHeap} {c : List (Frame ℕ)} {n : ℕ} {l r : BinaryTree ℕ}

@[simp] lemma sideHint_none (h : SpHeap) : sideHint h none = 0 := rfl

@[simp] lemma sideHint_some (h : SpHeap) (n : ℕ) : sideHint h (some n) = h.hint n + 1 := rfl

lemma sideHint_nonneg {t : BinaryTree ℕ} {up p : Option ℕ} (hr : Rep h.links up p t)
    (hh : ∀ x ∈ inorder t, 0 ≤ h.hint x) : 0 ≤ sideHint h p := by
  cases p with
  | none => exact le_rfl
  | some a =>
    have := hh a hr.mem_of_ptr
    rw [sideHint_some]
    omega

lemma maxHint_nonneg (hw : WellFormed root h (plug c (node n l r))) : 0 ≤ maxHint h n := by
  obtain ⟨up, p, -, rfl, -, hl, hr⟩ := rep_plug.mp hw.rep
  have hh : ∀ x, x ∈ inorder l ∨ x ∈ inorder r → 0 ≤ h.hint x := by
    intro x hx
    refine hw.hints x ?_
    simp only [inorder_plug, inorder_node, List.mem_append, List.mem_cons]
    tauto
  have hl' := sideHint_nonneg hl fun x hx => hh x (Or.inl hx)
  have hr' := sideHint_nonneg hr fun x hx => hh x (Or.inr hx)
  unfold maxHint
  split <;> assumption

lemma child_of_balance (hw : WellFormed root h (plug c (node n l r))) :
    (balance h n < -1 → ∃ b d k, r = node k b d ∧ h.links.right n = some k) ∧
      (1 < balance h n → ∃ b d k, l = node k b d ∧ h.links.left n = some k) := by
  obtain ⟨up, p, -, rfl, -, hl, hr⟩ := rep_plug.mp hw.rep
  have hh : ∀ x, x ∈ inorder l ∨ x ∈ inorder r → 0 ≤ h.hint x := by
    intro x hx
    refine hw.hints x ?_
    simp only [inorder_plug, inorder_node, List.mem_append, List.mem_cons]
    tauto
  have hl' := sideHint_nonneg hl fun x hx => hh x (Or.inl hx)
  have hr' := sideHint_nonneg hr fun x hx => hh x (Or.inr hx)
  constructor
  · intro hb
    cases r with
    | nil =>
      have he : h.links.right n = none := hr
      simp only [balance, he, sideHint_none] at hb
      omega
    | node k b d => exact ⟨b, d, k, rfl, hr.1⟩
  · intro hb
    cases l with
    | nil =>
      have he : h.links.left n = none := hl
      simp only [balance, he, sideHint_none] at hb
      omega
    | node k b d => exact ⟨b, d, k, rfl, hl.1⟩

lemma rebalance_spec (hw : WellFormed root h (plug c (node n l r))) :
    ∃ root' m' l' k r', rebalance root h n = some (root', m') ∧
      WellFormed root' ⟨m', h.hint⟩ (plug c (node k l' r')) ∧
      inorder (node k l' r') = inorder (node n l r) ∧
      SameOutside (inorder (plug c (node n l r))) h ⟨m', h.hint⟩ := by
  have hchild := child_of_balance hw
  by_cases hlt : balance h n < -1
  · obtain ⟨b, d, k, rfl, hk⟩ := hchild.1 hlt
    obtain ⟨m', hm, hrep, hsame⟩ := turnRight_rep hw.rep hw.nodup
    have hin : inorder (node k (node n l b) d) = inorder (node n l (node k b d)) := by simp
    have hall : inorder (plug c (node k (node n l b) d)) =
        inorder (plug c (node n l (node k b d))) := by
      simp only [inorder_plug, hin]
    refine ⟨_, m', _, k, _, by rw [rebalance, if_pos hlt, hm, hk, Option.map_some],
      ⟨hrep, ?_, ?_⟩, hin, fun x hx => ⟨hsame x hx, rfl⟩⟩
    · rw [hall]
      exact hw.nodup
    · rw [hall]
      exact hw.hints
  · by_cases hgt : 1 < balance h n
    · obtain ⟨b, d, k, rfl, hk⟩ := hchild.2 hgt
      obtain ⟨m', hm, hrep, hsame⟩ := turnLeft_rep hw.rep hw.nodup
      have hin : inorder (node k b (node n d r)) = inorder (node n (node k b d) r) := by simp
      have hall : inorder (plug c (node k b (node n d r))) =
          inorder (plug c (node n (node k b d) r)) := by
        simp only [inorder_plug, hin]
      refine ⟨_, m', _, k, _, by rw [rebalance, if_neg hlt, if_pos hgt, hm, hk, Option.map_some],
        ⟨hrep, ?_, ?_⟩, hin, fun x hx => ⟨hsame x hx, rfl⟩⟩
      · rw [hall]
        exact hw.nodup
      · rw [hall]
        exact hw.hints
    · exact ⟨root, h.links, l, n, r, by rw [rebalance, if_neg hlt, if_neg hgt], hw, rfl,
        fun x _ => ⟨⟨rfl, rfl, rfl⟩, rfl⟩⟩

lemma WellFormed.setHint {t : BinaryTree ℕ} (hw : WellFormed root h t) {v : ℤ} (hv : 0 ≤ v)
    (n : ℕ) : WellFormed root ⟨h.links, Function.update h.hint n v⟩ t := by
  refine ⟨hw.rep, hw.nodup, fun x hx => ?_⟩
  by_cases he : x = n
  · simpa [he] using hv
  · simpa [he] using hw.hints x hx

lemma setHint_sameOutside {s : List ℕ} {n : ℕ} (hn : n ∈ s) (v : ℤ) :
    SameOutside s h ⟨h.links, Function.update h.hint n v⟩ := by
  intro x hx
  have : x ≠ n := fun e => hx (e ▸ hn)
  exact ⟨⟨rfl, rfl, rfl⟩, by simp [this]⟩

lemma maxHint_nonneg_of_mem {t : BinaryTree ℕ} (hw : WellFormed root h t)
    (hn : n ∈ inorder t) : 0 ≤ maxHint h n := by
  obtain ⟨c, l, r, rfl⟩ := exists_plug hn
  exact maxHint_nonneg hw

lemma update_round (fuel : ℕ) (hw : WellFormed root h (plug c (node n l r))) :
    ∃ root' h' l' k r', WellFormed root' h' (plug c (node k l' r')) ∧
      inorder (plug c (node k l' r')) = inorder (plug c (node n l r)) ∧
      SameOutside (inorder (plug c (node n l r))) h h' ∧
      (update (fuel + 1) root h (some n) = some (root', h') ∨
        update (fuel + 1) root h (some n) = update fuel root' h' (h.links.parent n)) := by
  obtain ⟨root', m', l', k, r', hb, hw', hin, hsame⟩ := rebalance_spec hw
  have hall : inorder (plug c (node k l' r')) = inorder (plug c (node n l r)) := by
    simp only [inorder_plug, hin]
  have hmem : n ∈ inorder (plug c (node n l r)) := by simp [inorder_plug]
  have hnn := maxHint_nonneg_of_mem hw' (hall ▸ hmem)
  refine ⟨root', ⟨m', Function.update h.hint n (maxHint ⟨m', h.hint⟩ n)⟩, l', k, r',
    hw'.setHint hnn n, hall, hsame.trans (setHint_sameOutside hmem _), ?_⟩
  by_cases hc : maxHint ⟨m', h.hint⟩ n = 0 ∨ maxHint ⟨m', h.hint⟩ n ≠ h.hint n
  · right
    simp [update, hb, hc]
  · left
    simp [update, hb, hc]

lemma update_spec (fuel : ℕ) (hw : WellFormed root h (plug c (node n l r)))
    (hf : c.length < fuel) :
    ∃ root' h' t', update fuel root h (some n) = some (root', h') ∧ WellFormed root' h' t' ∧
      inorder t' = inorder (plug c (node n l r)) ∧
      SameOutside (inorder (plug c (node n l r))) h h' := by
  induction c generalizing root h n l r fuel with
  | nil =>
    obtain ⟨fuel, rfl⟩ := Nat.exists_eq_succ_of_ne_zero (by omega : fuel ≠ 0)
    obtain ⟨root', h', l', k, r', hw', hin, hsame, hu⟩ := update_round fuel hw
    have hp : h.links.parent n = none := hw.rep.2.1
    rw [hp] at hu
    refine ⟨root', h', _, ?_, hw', hin, hsame⟩
    rcases hu with hu | hu
    · exact hu
    · rw [hu]
      cases fuel <;> rfl
  | cons f c ih =>
    obtain ⟨fuel, rfl⟩ := Nat.exists_eq_succ_of_ne_zero (by omega : fuel ≠ 0)
    obtain ⟨root', h', l', k, r', hw', hin, hsame, hu⟩ := update_round fuel hw
    rcases hu with hu | hu
    · exact ⟨root', h', _, hu, hw', hin, hsame⟩
    · obtain ⟨up, p, hc, rfl, hp, _⟩ := rep_plug.mp hw.rep
      have hlen : c.length < fuel := by
        simp only [List.length_cons] at hf
        omega
      have hnext : ∃ a la ra, up = some a ∧ plug (f :: c) (node k l' r') = plug c (node a la ra) := by
        cases f with
        | left a s => exact ⟨a, _, _, hc.1, rfl⟩
        | right a s => exact ⟨a, _, _, hc.1, rfl⟩
      obtain ⟨a, la, ra, rfl, hplug⟩ := hnext
      rw [hplug] at hw' hin
      obtain ⟨root'', h'', t'', hu', hw'', hin', hsame'⟩ := ih fuel hw' hlen
      rw [hin] at hin' hsame'
      exact ⟨root'', h'', t'', by rw [hu, hp, hu'], hw'', hin', hsame.trans hsame'⟩

end Kmi.SpTree
