import Kmi.SpTree.Model

/-! The two turns keep the tree and its order. -/

namespace Kmi.SpTree

open BinaryTree Kmi.Library.PointerTree

variable {m : Links ℕ} {root : Option ℕ} {c : List (Frame ℕ)}

lemma turnLeft_rep {n l : ℕ} {a b r : BinaryTree ℕ}
    (h : Rep m none root (plug c (node n (node l a b) r)))
    (hd : (inorder (plug c (node n (node l a b) r))).Nodup) :
    ∃ m', turnLeft m n = some m' ∧
      Rep m' none (if root = some n then some l else root) (plug c (node l a (node n b r))) ∧
      ∀ x ∉ inorder (plug c (node n (node l a b) r)), SameAt m m' x := by
  obtain ⟨up, p, hc, rfl, hpn, ⟨hl, hpl, ha, hb⟩, hr⟩ := rep_plug.mp h
  rw [inorder_plug] at hd
  have hup : ∀ x, up = some x → x ∈ before c ++ after c := fun x hx => hc.ptr_mem x hx
  have hbm : ∀ x, m.right l = some x → x ∈ inorder b := fun x hx => Rep.mem_of_ptr (hx ▸ hb)
  simp only [inorder_node, List.nodup_append, List.nodup_cons, List.mem_append, List.mem_cons,
    List.cons_append, List.append_assoc] at hd hup
  let m₁ := (((m.setParent l up).setLeft n (m.right l)).setParent n (some l)).setRight l (some n)
  let m₂ := m₁.relink up n (some l)
  let m₃ := m₂.adopt (m.right l) n
  have hne : l ≠ n := by grind
  have hupn : up ≠ some n := by grind
  have hupl : up ≠ some l := by grind
  have hin : ∀ x, x ∈ inorder a ∨ x ∈ inorder b ∨ x ∈ inorder r → x ≠ n ∧ x ≠ l ∧ up ≠ some x := by
    grind
  have hout : ∀ x, x ∈ before c ∨ x ∈ after c → x ≠ n ∧ x ≠ l ∧ m.right l ≠ some x := by
    grind
  have htop : ∀ x, x ≠ n → x ≠ l → SameAt m m₁ x := by
    intro x hn hl
    simp [SameAt, m₁, hn, hl]
  have hsame : ∀ x, x ≠ n → x ≠ l → up ≠ some x → m.right l ≠ some x → SameAt m m₃ x := by
    intro x hn hl hu hb
    simp [SameAt, m₃, m₂, m₁, hn, hl, relink_left_of_ne _ _ _ hu, relink_right_of_ne _ _ _ hu,
      adopt_parent, hb]
  have hturn : turnLeft m n = some m₃ := by
    simp [turnLeft, hl, hpn, m₃, m₂, m₁, relink_left_of_ne _ _ _ hupn]
  refine ⟨m₃, hturn, rep_plug.mpr ⟨up, some l, ?_, rfl, ?_, ?_, ?_⟩, ?_⟩
  · have h₁ : Hole m₁ none root c up (some n) := hc.congr fun x hx => by
      have := hout x (by simpa using hx)
      exact htop x this.1 this.2.1
    have h₂ := h₁.relink (by grind) (by grind) (some l)
    refine h₂.congr fun x hx => ?_
    have := hout x (by simpa using hx)
    simp [SameAt, m₃, m₂, adopt_parent, this]
  · have : m.right l ≠ some l := by grind
    simp [m₃, m₂, m₁, adopt_parent, this, hne]
  · have hll : m₃.left l = m.left l := by simp [m₃, m₂, m₁, relink_left_of_ne _ _ _ hupl, hne]
    rw [hll]
    refine ha.congr fun x hx => ?_
    have := hin x (Or.inl hx)
    exact hsame x this.1 this.2.1 this.2.2 (by grind)
  · have hrl : m₃.right l = some n := by simp [m₃, m₂, m₁, relink_right_of_ne _ _ _ hupl]
    have hln : m₃.left n = m.right l := by simp [m₃, m₂, m₁, relink_left_of_ne _ _ _ hupn]
    have hrn : m₃.right n = m.right n := by
      simp [m₃, m₂, m₁, relink_right_of_ne _ _ _ hupn, hne.symm]
    have hmn : m.right l ≠ some n := by grind
    refine ⟨hrl, by simp [m₃, m₂, m₁, adopt_parent, hmn], ?_, ?_⟩
    · rw [hln]
      refine hb.reparent (by grind) ?_ ?_
      · intro x hx
        have := hin x (Or.inr (Or.inl (hbm x hx)))
        simp [m₃, m₂, m₁, this, relink_left_of_ne _ _ _ this.2.2, relink_right_of_ne _ _ _ this.2.2,
          adopt_parent, hx]
      · intro x hx hne
        have := hin x (Or.inr (Or.inl hx))
        exact hsame x this.1 this.2.1 this.2.2 hne
    · rw [hrn]
      refine hr.congr fun x hx => ?_
      have := hin x (Or.inr (Or.inr hx))
      exact hsame x this.1 this.2.1 this.2.2 (by grind)
  · intro x hx
    simp only [inorder_plug, inorder_node, List.mem_append, List.mem_cons] at hx
    exact hsame x (by grind) (by grind) (by grind) (by grind)


lemma turnRight_eq {n r : ℕ} (hr : m.right n = some r)
    (hp : ∀ a, m.parent n = some a → a ≠ n ∧ a ≠ r ∧ (m.left a = some n ↔ m.right a ≠ some n)) :
    turnRight m n = (turnLeft m.mirror n).map Links.mirror := by
  let m₁ := (((m.setParent r (m.parent n)).setRight n (m.left r)).setParent n (some r)).setLeft r
    (some n)
  have hright : turnRight m n = some ((m₁.relink (m.parent n) n (some r)).adopt
      ((m₁.relink (m.parent n) n (some r)).right n) n) := by
    simp only [turnRight, hr]
    rfl
  have hleft : turnLeft m.mirror n = some ((m₁.mirror.relink (m.parent n) n (some r)).adopt
      ((m₁.mirror.relink (m.parent n) n (some r)).left n) n) := by
    have hl : m.mirror.left n = some r := hr
    simp only [turnLeft, hl]
    rfl
  have hmir : m₁.mirror.relink (m.parent n) n (some r) =
      (m₁.relink (m.parent n) n (some r)).mirror := by
    refine relink_mirror fun a ha => ?_
    obtain ⟨hn, hr, hc⟩ := hp a ha
    simpa [m₁, hn, hr] using hc
  rw [hright, hleft, hmir]
  generalize m₁.relink (m.parent n) n (some r) = m₂
  change some (m₂.adopt (m₂.right n) n) = some (m₂.mirror.adopt (m₂.right n) n).mirror
  cases m₂.right n <;> rfl

lemma turnRight_rep {n r : ℕ} {a b d : BinaryTree ℕ}
    (h : Rep m none root (plug c (node n a (node r b d))))
    (hd : (inorder (plug c (node n a (node r b d)))).Nodup) :
    ∃ m', turnRight m n = some m' ∧
      Rep m' none (if root = some n then some r else root) (plug c (node r (node n a b) d)) ∧
      ∀ x ∉ inorder (plug c (node n a (node r b d))), SameAt m m' x := by
  have hm := h.mirror
  have hdm : (inorder (mirror (plug c (node n a (node r b d))))).Nodup := by
    rwa [inorder_mirror, List.nodup_reverse]
  rw [mirror_plug] at hm hdm
  obtain ⟨m', hturn, hrep, hsame⟩ := turnLeft_rep hm hdm
  refine ⟨m'.mirror, ?_, ?_, fun x hx => (hsame x ?_).mirror⟩
  · obtain ⟨up, p, hc, rfl, hpn, _, ⟨hr, _⟩⟩ := rep_plug.mp h
    rw [inorder_plug] at hd
    rw [turnRight_eq hr, hturn, Option.map_some]
    intro x hx
    have hup := hc.ptr_mem x (hpn ▸ hx)
    simp only [inorder_node, List.nodup_append, List.nodup_cons, List.mem_append, List.mem_cons,
      List.append_assoc] at hd hup
    refine ⟨by grind, by grind, hc.child_iff (by simp; grind) ?_ x (hpn ▸ hx)⟩
    rintro rfl
    simp [before, after] at hup
  · have := hrep.mirror
    rw [mirror_plug] at this
    simpa [mirror, mirror_mirror, Function.comp_def, Frame.mirror_mirror] using this
  · have he : inorder (plug (c.map Frame.mirror) (node n (node r (mirror d) (mirror b)) (mirror a))) =
        (inorder (plug c (node n a (node r b d)))).reverse := by
      rw [← inorder_mirror, mirror_plug]
      rfl
    rw [he]
    simpa using hx
end Kmi.SpTree
