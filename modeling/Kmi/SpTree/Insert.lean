import Kmi.SpTree.Update

/-! Insertion puts the new node next to its parent in the order. -/

namespace Kmi.SpTree

open BinaryTree Kmi.Library.PointerTree

def side (h : SpHeap) (p : ℕ) : SpDir → Option ℕ
  | .left => h.links.left p
  | .right => h.links.right p

def beside (p n : ℕ) : SpDir → List ℕ
  | .left => [n, p]
  | .right => [p, n]

structure Zeroed (h : SpHeap) (n : ℕ) : Prop where
  left : h.links.left n = none
  right : h.links.right n = none
  parent : h.links.parent n = none
  hint : h.hint n = 0

variable {root : Option ℕ} {h : SpHeap} {n p : ℕ} {t : BinaryTree ℕ} {d : SpDir}

lemma singleton_wellFormed (hz : Zeroed h n) : WellFormed (some n) h (node n nil nil) := by
  refine ⟨⟨rfl, hz.parent, hz.left, hz.right⟩, by simp, ?_⟩
  intro x hx
  obtain rfl : x = n := by simpa using hx
  exact hz.hint.ge

lemma exists_vacant (hw : WellFormed root h t) (hp : p ∈ inorder t) (hv : side h p d = none) :
    ∃ f c, t = plug (f :: c) nil ∧ Hole h.links none root (f :: c) (some p) none ∧
      ∃ s, f = (match d with | .left => .left p s | .right => .right p s) := by
  obtain ⟨c, l, r, rfl⟩ := exists_plug hp
  obtain ⟨up, q, hc, rfl, hpp, hl, hr⟩ := rep_plug.mp hw.rep
  cases d with
  | left =>
    have hl' : h.links.left p = none := hv
    rw [hl'] at hl
    obtain rfl : l = nil := hl.ptr_eq_none.mp rfl
    exact ⟨.left p r, c, rfl, ⟨rfl, hl', hr, hpp ▸ hc⟩, r, rfl⟩
  | right =>
    have hr' : h.links.right p = none := hv
    rw [hr'] at hr
    obtain rfl : r = nil := hr.ptr_eq_none.mp rfl
    exact ⟨.right p l, c, rfl, ⟨rfl, hr', hl, hpp ▸ hc⟩, l, rfl⟩

def attach (m : Links ℕ) (p n : ℕ) : SpDir → Links ℕ
  | .left => (m.setLeft p (some n)).setParent n (some p)
  | .right => (m.setRight p (some n)).setParent n (some p)

lemma attach_sameAt (m : Links ℕ) {p n x : ℕ} (d : SpDir) (hp : x ≠ p) (hn : x ≠ n) :
    SameAt m (attach m p n d) x := by
  cases d <;> simp [SameAt, attach, hp, hn]

lemma attach_wellFormed {f : Frame ℕ} {c : List (Frame ℕ)} {s : BinaryTree ℕ}
    (hw : WellFormed root h (plug (f :: c) nil))
    (hc : Hole h.links none root (f :: c) (some p) none) (hn : n ∉ inorder (plug (f :: c) nil))
    (hz : Zeroed h n) (hf : f = (match d with | .left => .left p s | .right => .right p s)) :
    WellFormed root ⟨attach h.links p n d, h.hint⟩ (plug (f :: c) (node n nil nil)) := by
  have hd := hw.nodup
  have hin : inorder (plug (f :: c) (node n nil nil)) = before (f :: c) ++ n :: after (f :: c) := by
    simp [inorder_plug]
  rw [inorder_plug] at hd hn
  simp only [inorder_nil, List.append_nil] at hd hn
  refine ⟨rep_plug.mpr ⟨some p, some n, ?_, rfl, ?_, ?_, ?_⟩, ?_, ?_⟩
  · have hne : ∀ x, x ∈ inorder s ∨ x ∈ before c ++ after c → x ≠ p ∧ x ≠ n := by
      cases d <;> subst hf <;>
        simp only [before, after, List.nodup_append, List.mem_append, List.nodup_cons,
          List.mem_cons, List.cons_append, List.append_assoc] at hd hn ⊢ <;> grind
    have hpn : p ≠ n := by
      cases d <;> subst hf <;> simp only [before, after, List.mem_append, List.mem_cons] at hn <;>
        grind
    have hsame : ∀ x, x ∈ inorder s ∨ x ∈ before c ++ after c →
        SameAt h.links (attach h.links p n d) x :=
      fun x hx => attach_sameAt _ _ (hne x hx).1 (hne x hx).2
    cases d <;> subst hf
    · obtain ⟨-, -, hs, hc⟩ := hc
      exact ⟨rfl, by simp [attach], by simpa [attach] using hs.congr fun x hx => hsame x (Or.inl hx),
        by simpa [attach, hpn] using hc.congr fun x hx => hsame x (Or.inr hx)⟩
    · obtain ⟨-, -, hs, hc⟩ := hc
      exact ⟨rfl, by simp [attach], by simpa [attach] using hs.congr fun x hx => hsame x (Or.inl hx),
        by simpa [attach, hpn] using hc.congr fun x hx => hsame x (Or.inr hx)⟩
  · cases d <;> simp [attach]
  · have hpn : n ≠ p := by
      rintro rfl
      exact hn (hc.ptr_mem n rfl)
    cases d <;> simp [attach, Library.PointerTree.Rep, hpn, hz.left]
  · have hpn : n ≠ p := by
      rintro rfl
      exact hn (hc.ptr_mem n rfl)
    cases d <;> simp [attach, Library.PointerTree.Rep, hpn, hz.right]
  · rw [hin, List.nodup_middle, List.nodup_cons]
    exact ⟨hn, hd⟩
  · intro x hx
    rw [hin] at hx
    by_cases he : x = n
    · exact he ▸ hz.hint.ge
    · refine hw.hints x ?_
      simp only [inorder_plug, inorder_nil, List.append_nil, List.mem_append, List.mem_cons] at hx ⊢
      tauto

lemma spInsert_hole {fuel : ℕ} {f : Frame ℕ} {c : List (Frame ℕ)} {s : BinaryTree ℕ}
    (hw : WellFormed root h (plug (f :: c) nil))
    (hc : Hole h.links none root (f :: c) (some p) none) (hn : n ∉ inorder (plug (f :: c) nil))
    (hz : Zeroed h n) (hs : f = (match d with | .left => .left p s | .right => .right p s))
    (hf : (inorder (plug (f :: c) nil)).length < fuel) :
    ∃ root' h' t', spInsert fuel root h (some p) n d = some (root', h') ∧ WellFormed root' h' t' ∧
      inorder t' = before (f :: c) ++ n :: after (f :: c) ∧
      SameOutside (n :: inorder (plug (f :: c) nil)) h h' := by
  have hw' := attach_wellFormed hw hc hn hz hs
  have hlen := length_le_plug (f :: c) (nil : BinaryTree ℕ)
  obtain ⟨root', h', t', hu, hw'', hin, hsame⟩ := update_spec fuel hw' (by omega)
  have hp : p ∈ inorder (plug (f :: c) nil) := by
    have := hc.ptr_mem p rfl
    simpa [inorder_plug] using this
  obtain ⟨a, -, rfl⟩ := hc.root_mem (by simp)
  refine ⟨root', h', t', ?_, hw'', ?_, ?_⟩
  · rw [← hu]
    cases d <;> rfl
  · rw [hin, inorder_plug]
    simp
  · have hmem : ∀ x, x ∉ n :: inorder (plug (f :: c) nil) →
        x ∉ inorder (plug (f :: c) (node n nil nil)) := by
      intro x hx
      simp only [inorder_plug, inorder_nil, inorder_node, List.mem_append, List.mem_cons,
        List.append_nil, List.nil_append] at hx ⊢
      tauto
    intro x hx
    have hxp : x ≠ p := by
      rintro rfl
      exact hx (List.mem_cons_of_mem _ hp)
    have hxn : x ≠ n := by
      rintro rfl
      exact hx (by simp)
    obtain ⟨h₁, h₂⟩ := hsame x (hmem x hx)
    obtain ⟨ha, hb, hc⟩ := attach_sameAt h.links d hxp hxn
    exact ⟨⟨h₁.1.trans ha, h₁.2.1.trans hb, h₁.2.2.trans hc⟩, h₂⟩

lemma spInsert_nonempty {fuel : ℕ} (hw : WellFormed root h t) (hp : p ∈ inorder t)
    (hv : side h p d = none) (hn : n ∉ inorder t) (hz : Zeroed h n)
    (hf : (inorder t).length < fuel) :
    ∃ root' h' t', spInsert fuel root h (some p) n d = some (root', h') ∧ WellFormed root' h' t' ∧
      (∃ xs ys, inorder t = xs ++ p :: ys ∧ inorder t' = xs ++ beside p n d ++ ys) ∧
      SameOutside (n :: inorder t) h h' := by
  obtain ⟨f, c, rfl, hc, s, hs⟩ := exists_vacant hw hp hv
  obtain ⟨root', h', t', hi, hw', hin, hsame⟩ := spInsert_hole hw hc hn hz hs hf
  refine ⟨root', h', t', hi, hw', ?_, hsame⟩
  rw [hin, inorder_plug]
  cases d <;> subst hs
  · exact ⟨before c, inorder s ++ after c, by simp [before, after], by simp [before, after, beside]⟩
  · exact ⟨before c ++ inorder s, after c, by simp [before, after], by simp [before, after, beside]⟩

lemma spInsert_empty (fuel : ℕ) (q : Option ℕ) (hz : Zeroed h n) :
    spInsert fuel none h q n d = some (some n, h) ∧ WellFormed (some n) h (node n nil nil) :=
  ⟨rfl, singleton_wellFormed hz⟩

end Kmi.SpTree
