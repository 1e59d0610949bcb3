import Mathlib.Data.Tree.Basic
import Mathlib.Tactic

/-! Binary trees stored in memory with left, right and parent pointers. A tree
is read through the shape it represents; a focused node through its context. -/

namespace Kmi.Library.PointerTree

open BinaryTree

variable {P : Type}

structure Links (P : Type) where
  left : P → Option P
  right : P → Option P
  parent : P → Option P

def inorder : BinaryTree P → List P
  | nil => []
  | node a l r => inorder l ++ a :: inorder r

inductive Frame (P : Type) where
  | left (a : P) (sibling : BinaryTree P)
  | right (a : P) (sibling : BinaryTree P)

def plug : List (Frame P) → BinaryTree P → BinaryTree P
  | [], t => t
  | .left a r :: c, t => plug c (node a t r)
  | .right a l :: c, t => plug c (node a l t)

def before : List (Frame P) → List P
  | [] => []
  | .left _ _ :: c => before c
  | .right a l :: c => before c ++ (inorder l ++ [a])

def after : List (Frame P) → List P
  | [] => []
  | .left a r :: c => a :: inorder r ++ after c
  | .right _ _ :: c => after c

@[simp] lemma inorder_nil : inorder (nil : BinaryTree P) = [] := rfl

@[simp] lemma inorder_node (a : P) (l r : BinaryTree P) :
    inorder (node a l r) = inorder l ++ a :: inorder r := rfl

lemma inorder_plug (c : List (Frame P)) (t : BinaryTree P) :
    inorder (plug c t) = before c ++ inorder t ++ after c := by
  induction c generalizing t with
  | nil => simp [plug, before, after]
  | cons f c ih => cases f <;> simp [plug, before, after, ih]

lemma plug_append (c d : List (Frame P)) (t : BinaryTree P) :
    plug (c ++ d) t = plug d (plug c t) := by
  induction c generalizing t with
  | nil => rfl
  | cons f c ih => cases f <;> simp [plug, ih]

lemma exists_plug {t : BinaryTree P} {a : P} (h : a ∈ inorder t) :
    ∃ c l r, t = plug c (node a l r) := by
  induction t with
  | nil => simp at h
  | node b l r ihl ihr =>
    simp only [inorder_node, List.mem_append, List.mem_cons] at h
    rcases h with h | rfl | h
    · obtain ⟨c, l', r', rfl⟩ := ihl h
      exact ⟨c ++ [.left b r], l', r', by simp [plug_append, plug]⟩
    · exact ⟨[], l, r, rfl⟩
    · obtain ⟨c, l', r', rfl⟩ := ihr h
      exact ⟨c ++ [.right b l], l', r', by simp [plug_append, plug]⟩

lemma length_le_plug (c : List (Frame P)) (t : BinaryTree P) :
    c.length + (inorder t).length ≤ (inorder (plug c t)).length := by
  induction c generalizing t with
  | nil => simp [plug]
  | cons f c ih =>
    cases f with
    | left a r =>
      have := ih (node a t r)
      simp only [plug, inorder_node, List.length_append, List.length_cons] at this ⊢
      omega
    | right a l =>
      have := ih (node a l t)
      simp only [plug, inorder_node, List.length_append, List.length_cons] at this ⊢
      omega

def Rep (m : Links P) : Option P → Option P → BinaryTree P → Prop
  | _, p, nil => p = none
  | up, p, node a l r =>
    p = some a ∧ m.parent a = up ∧ Rep m (some a) (m.left a) l ∧ Rep m (some a) (m.right a) r

def Hole (m : Links P) (top root : Option P) : List (Frame P) → Option P → Option P → Prop
  | [], up, p => up = top ∧ root = p
  | .left a r :: c, up, p =>
    up = some a ∧ m.left a = p ∧ Rep m (some a) (m.right a) r ∧
      Hole m top root c (m.parent a) (some a)
  | .right a l :: c, up, p =>
    up = some a ∧ m.right a = p ∧ Rep m (some a) (m.left a) l ∧
      Hole m top root c (m.parent a) (some a)

lemma rep_plug {m : Links P} {top root : Option P} {c : List (Frame P)} {t : BinaryTree P} :
    Rep m top root (plug c t) ↔ ∃ up p, Hole m top root c up p ∧ Rep m up p t := by
  induction c generalizing t with
  | nil =>
    constructor
    · intro h
      exact ⟨top, root, ⟨rfl, rfl⟩, h⟩
    · rintro ⟨_, _, ⟨rfl, rfl⟩, h⟩
      exact h
  | cons f c ih =>
    cases f with
    | left a r =>
      rw [plug, ih]
      constructor
      · rintro ⟨up, p, hc, rfl, hp, hl, hr⟩
        exact ⟨some a, m.left a, ⟨rfl, rfl, hr, hp ▸ hc⟩, hl⟩
      · rintro ⟨_, _, ⟨rfl, rfl, hr, hc⟩, hl⟩
        exact ⟨m.parent a, some a, hc, rfl, rfl, hl, hr⟩
    | right a l =>
      rw [plug, ih]
      constructor
      · rintro ⟨up, p, hc, rfl, hp, hl, hr⟩
        exact ⟨some a, m.right a, ⟨rfl, rfl, hl, hp ▸ hc⟩, hr⟩
      · rintro ⟨_, _, ⟨rfl, rfl, hl, hc⟩, hr⟩
        exact ⟨m.parent a, some a, hc, rfl, rfl, hl, hr⟩

lemma Rep.ptr_eq_none {m : Links P} {up p : Option P} {t : BinaryTree P} (h : Rep m up p t) :
    p = none ↔ t = nil := by
  cases t with
  | nil => exact ⟨fun _ => rfl, fun _ => h⟩
  | node a l r => simp [h.1]

lemma Rep.unique {m : Links P} {up up' p : Option P} {t t' : BinaryTree P} (h : Rep m up p t)
    (h' : Rep m up' p t') : t = t' := by
  induction t generalizing up up' p t' with
  | nil =>
    obtain rfl : p = none := h
    exact (h'.ptr_eq_none.1 rfl).symm
  | node a l r ihl ihr =>
    obtain ⟨rfl, -, hl, hr⟩ := h
    cases t' with
    | nil => cases h'
    | node b l' r' =>
      obtain ⟨heq, -, hl', hr'⟩ := h'
      obtain rfl := Option.some.inj heq
      rw [ihl hl hl', ihr hr hr']

lemma Rep.mem_of_ptr {m : Links P} {up : Option P} {a : P} {t : BinaryTree P}
    (h : Rep m up (some a) t) : a ∈ inorder t := by
  cases t with
  | nil => cases h
  | node b l r =>
    obtain rfl : a = b := Option.some.inj h.1
    simp

lemma Hole.up_mem {m : Links P} {top root up p : Option P} {c : List (Frame P)}
    (h : Hole m top root c up p) (hc : c ≠ []) : ∃ a ∈ before c ++ after c, up = some a := by
  cases c with
  | nil => exact (hc rfl).elim
  | cons f c =>
    cases f with
    | left b r => exact ⟨b, by simp [after], h.1⟩
    | right b l => exact ⟨b, by simp [before], h.1⟩

lemma Hole.ptr_mem {m : Links P} {root up p : Option P} {c : List (Frame P)}
    (h : Hole m none root c up p) (a : P) (ha : up = some a) : a ∈ before c ++ after c := by
  by_cases hc : c = []
  · subst hc
    simp [h.1] at ha
  · obtain ⟨b, hb, he⟩ := h.up_mem hc
    exact Option.some.inj (he.symm.trans ha) ▸ hb

def SameAt (m m' : Links P) (x : P) : Prop :=
  m'.left x = m.left x ∧ m'.right x = m.right x ∧ m'.parent x = m.parent x

lemma Rep.congr {m m' : Links P} {up p : Option P} {t : BinaryTree P} (h : Rep m up p t)
    (hs : ∀ x ∈ inorder t, SameAt m m' x) : Rep m' up p t := by
  induction t generalizing up p with
  | nil => exact h
  | node a l r ihl ihr =>
    obtain ⟨rfl, hp, hl, hr⟩ := h
    obtain ⟨ha, hb, hc⟩ := hs a (by simp)
    refine ⟨rfl, hc.trans hp, ?_, ?_⟩
    · rw [ha]
      exact ihl hl fun x hx => hs x (by simp [hx])
    · rw [hb]
      exact ihr hr fun x hx => hs x (by simp [hx])

lemma Rep.reparent {m m' : Links P} {up up' p : Option P} {t : BinaryTree P} (h : Rep m up p t)
    (hn : (inorder t).Nodup)
    (hroot : ∀ a, p = some a → m'.left a = m.left a ∧ m'.right a = m.right a ∧ m'.parent a = up')
    (hs : ∀ x ∈ inorder t, p ≠ some x → SameAt m m' x) : Rep m' up' p t := by
  cases t with
  | nil => exact h
  | node a l r =>
    obtain ⟨rfl, hp, hl, hr⟩ := h
    obtain ⟨ha, hb, hc⟩ := hroot a rfl
    simp only [inorder_node, List.nodup_append, List.nodup_cons, List.mem_cons] at hn
    refine ⟨rfl, hc, ?_, ?_⟩
    · rw [ha]
      refine hl.congr fun x hx => hs x (by simp [hx]) ?_
      rintro ⟨⟩
      exact hn.2.2 a hx a (Or.inl rfl) rfl
    · rw [hb]
      refine hr.congr fun x hx => hs x (by simp [hx]) ?_
      rintro ⟨⟩
      exact hn.2.1.1 hx

lemma Hole.congr {m m' : Links P} {top root up p : Option P} {c : List (Frame P)}
    (h : Hole m top root c up p) (hs : ∀ x ∈ before c ++ after c, SameAt m m' x) :
    Hole m' top root c up p := by
  induction c generalizing up p with
  | nil => exact h
  | cons f c ih =>
    cases f with
    | left a r =>
      obtain ⟨rfl, rfl, hr, hc⟩ := h
      obtain ⟨hl', hr', hp'⟩ := hs a (by simp [before, after])
      refine ⟨rfl, hl', ?_, ?_⟩
      · rw [hr']
        exact hr.congr fun x hx => hs x (by simp [before, after, hx])
      · rw [hp']
        exact ih hc fun x hx => hs x (by simp [before, after] at hx ⊢; tauto)
    | right a l =>
      obtain ⟨rfl, rfl, hl, hc⟩ := h
      obtain ⟨hl', hr', hp'⟩ := hs a (by simp [before, after])
      refine ⟨rfl, hr', ?_, ?_⟩
      · rw [hl']
        exact hl.congr fun x hx => hs x (by simp [before, after, hx])
      · rw [hp']
        exact ih hc fun x hx => hs x (by simp [before, after] at hx ⊢; tauto)

lemma Hole.root_mem {m : Links P} {top root up p : Option P} {c : List (Frame P)}
    (h : Hole m top root c up p) (hc : c ≠ []) : ∃ a ∈ before c ++ after c, root = some a := by
  induction c generalizing up p with
  | nil => exact (hc rfl).elim
  | cons f c ih =>
    have hcase : ∀ a : P, Hole m top root c (m.parent a) (some a) →
        root = some a ∨ ∃ b ∈ before c ++ after c, root = some b := by
      intro a ha
      cases c with
      | nil => exact Or.inl ha.2
      | cons g c => exact Or.inr (ih ha (by simp))
    cases f with
    | left a r =>
      rcases hcase a h.2.2.2 with hr | ⟨b, hb, hr⟩
      · exact ⟨a, by simp [before, after], hr⟩
      · exact ⟨b, by simp [before, after] at hb ⊢; tauto, hr⟩
    | right a l =>
      rcases hcase a h.2.2.2 with hr | ⟨b, hb, hr⟩
      · exact ⟨a, by simp [before, after], hr⟩
      · exact ⟨b, by simp [before, after] at hb ⊢; tauto, hr⟩

lemma Hole.child_iff {m : Links P} {top root up : Option P} {c : List (Frame P)} {n : P}
    (h : Hole m top root c up (some n)) (hn : n ∉ before c ++ after c) (hc : c ≠ []) (a : P)
    (ha : up = some a) : m.left a = some n ↔ m.right a ≠ some n := by
  cases c with
  | nil => exact (hc rfl).elim
  | cons f c =>
    cases f with
    | left b r =>
      obtain ⟨rfl, hl, hr, _⟩ := h
      obtain rfl : b = a := Option.some.inj ha
      refine ⟨fun _ he => hn ?_, fun _ => hl⟩
      rw [he] at hr
      simp [after, hr.mem_of_ptr]
    | right b l =>
      obtain ⟨rfl, hr, hl, _⟩ := h
      obtain rfl : b = a := Option.some.inj ha
      refine ⟨fun he => (hn ?_).elim, fun he => (he hr).elim⟩
      rw [he] at hl
      simp [before, hl.mem_of_ptr]

section Mirror

def mirror : BinaryTree P → BinaryTree P
  | nil => nil
  | node a l r => node a (mirror r) (mirror l)

def Links.mirror (m : Links P) : Links P := ⟨m.right, m.left, m.parent⟩

def Frame.mirror : Frame P → Frame P
  | .left a r => .right a (PointerTree.mirror r)
  | .right a l => .left a (PointerTree.mirror l)

lemma inorder_mirror (t : BinaryTree P) : inorder (mirror t) = (inorder t).reverse := by
  induction t with
  | nil => rfl
  | node a l r ihl ihr => simp [mirror, ihl, ihr]

lemma mirror_mirror (t : BinaryTree P) : mirror (mirror t) = t := by
  induction t with
  | nil => rfl
  | node a l r ihl ihr => simp [mirror, ihl, ihr]

lemma Frame.mirror_mirror (f : Frame P) : f.mirror.mirror = f := by
  cases f <;> simp [Frame.mirror, PointerTree.mirror_mirror]

lemma mirror_plug (c : List (Frame P)) (t : BinaryTree P) :
    mirror (plug c t) = plug (c.map Frame.mirror) (mirror t) := by
  induction c generalizing t with
  | nil => rfl
  | cons f c ih => cases f <;> simp [plug, Frame.mirror, ih, mirror]

lemma Rep.mirror {m : Links P} {up p : Option P} {t : BinaryTree P} (h : Rep m up p t) :
    Rep m.mirror up p (PointerTree.mirror t) := by
  induction t generalizing up p with
  | nil => exact h
  | node a l r ihl ihr => exact ⟨h.1, h.2.1, ihr h.2.2.2, ihl h.2.2.1⟩

lemma SameAt.mirror {m m' : Links P} {x : P} (h : SameAt m.mirror m' x) : SameAt m m'.mirror x :=
  ⟨h.2.1, h.1, h.2.2⟩

end Mirror

variable [DecidableEq P]

def Links.setLeft (m : Links P) (n : P) (v : Option P) : Links P :=
  { m with left := Function.update m.left n v }

def Links.setRight (m : Links P) (n : P) (v : Option P) : Links P :=
  { m with right := Function.update m.right n v }

def Links.setParent (m : Links P) (n : P) (v : Option P) : Links P :=
  { m with parent := Function.update m.parent n v }

section Fields

variable (m : Links P) (n x : P) (v : Option P)

@[simp] lemma setLeft_left : (m.setLeft n v).left x = if x = n then v else m.left x := by
  simp [Links.setLeft, Function.update_apply]

@[simp] lemma setLeft_right : (m.setLeft n v).right = m.right := rfl

@[simp] lemma setLeft_parent : (m.setLeft n v).parent = m.parent := rfl

@[simp] lemma setRight_left : (m.setRight n v).left = m.left := rfl

@[simp] lemma setRight_right : (m.setRight n v).right x = if x = n then v else m.right x := by
  simp [Links.setRight, Function.update_apply]

@[simp] lemma setRight_parent : (m.setRight n v).parent = m.parent := rfl

@[simp] lemma setParent_left : (m.setParent n v).left = m.left := rfl

@[simp] lemma setParent_right : (m.setParent n v).right = m.right := rfl

@[simp] lemma setParent_parent : (m.setParent n v).parent x = if x = n then v else m.parent x := by
  simp [Links.setParent, Function.update_apply]

end Fields

def Links.relink (m : Links P) (up : Option P) (old : P) (new : Option P) : Links P :=
  match up with
  | none => m
  | some a => if m.left a = some old then m.setLeft a new else m.setRight a new

def Links.adopt (m : Links P) (child : Option P) (n : P) : Links P :=
  match child with
  | none => m
  | some a => m.setParent a (some n)

@[simp] lemma relink_parent (m : Links P) (up : Option P) (old : P) (new : Option P) :
    (m.relink up old new).parent = m.parent := by
  cases up with
  | none => rfl
  | some a => by_cases h : m.left a = some old <;> simp [Links.relink, h]

lemma relink_left_of_ne (m : Links P) {up : Option P} (old : P) (new : Option P) {x : P}
    (hx : up ≠ some x) : (m.relink up old new).left x = m.left x := by
  cases up with
  | none => rfl
  | some a =>
    have : x ≠ a := fun e => hx (e ▸ rfl)
    by_cases h : m.left a = some old <;> simp [Links.relink, h, this]

lemma relink_right_of_ne (m : Links P) {up : Option P} (old : P) (new : Option P) {x : P}
    (hx : up ≠ some x) : (m.relink up old new).right x = m.right x := by
  cases up with
  | none => rfl
  | some a =>
    have : x ≠ a := fun e => hx (e ▸ rfl)
    by_cases h : m.left a = some old <;> simp [Links.relink, h, this]

lemma relink_sameAt (m : Links P) {up : Option P} (old : P) (new : Option P) {x : P}
    (hx : up ≠ some x) : SameAt m (m.relink up old new) x :=
  ⟨relink_left_of_ne m old new hx, relink_right_of_ne m old new hx, by rw [relink_parent]⟩

@[simp] lemma adopt_left (m : Links P) (child : Option P) (n : P) :
    (m.adopt child n).left = m.left := by
  cases child <;> rfl

@[simp] lemma adopt_right (m : Links P) (child : Option P) (n : P) :
    (m.adopt child n).right = m.right := by
  cases child <;> rfl

lemma adopt_parent (m : Links P) (child : Option P) (n x : P) :
    (m.adopt child n).parent x = if child = some x then some n else m.parent x := by
  cases child with
  | none => rfl
  | some a => by_cases h : x = a <;> simp [Links.adopt, h, eq_comm]

lemma adopt_mirror (m : Links P) (child : Option P) (n : P) :
    m.mirror.adopt child n = (m.adopt child n).mirror := by
  cases child <;> rfl

lemma relink_mirror {m : Links P} {up : Option P} {n : P} {q : Option P}
    (h : ∀ a, up = some a → (m.left a = some n ↔ m.right a ≠ some n)) :
    m.mirror.relink up n q = (m.relink up n q).mirror := by
  cases up with
  | none => rfl
  | some a =>
    have ha := h a rfl
    by_cases hl : m.left a = some n
    · have hr : m.mirror.left a ≠ some n := ha.mp hl
      simp only [Links.relink, hl, hr, if_true, if_false]
      rfl
    · have hr : m.mirror.left a = some n := by
        by_contra hr
        exact hl (ha.mpr hr)
      simp only [Links.relink, hl, hr, if_true, if_false]
      rfl

lemma Hole.relink {m : Links P} {top root up : Option P} {c : List (Frame P)} {n : P}
    (h : Hole m top root c up (some n)) (hd : (before c ++ after c).Nodup)
    (hn : n ∉ before c ++ after c) (q : Option P) :
    Hole (m.relink up n q) top (if root = some n then q else root) c up q := by
  cases c with
  | nil =>
    obtain ⟨rfl, rfl⟩ := h
    exact ⟨rfl, if_pos rfl⟩
  | cons f c =>
    have hroot : root ≠ some n := by
      rintro rfl
      obtain ⟨a, ha, he⟩ := h.root_mem (by simp)
      exact hn (Option.some.inj he ▸ ha)
    rw [if_neg hroot]
    cases f with
    | left a r =>
      obtain ⟨rfl, hl, hr, hc⟩ := h
      simp only [before, after, List.nodup_append, List.mem_append, List.nodup_cons,
        List.mem_cons, List.cons_append] at hd
      have hne : ∀ x, x ∈ inorder r ∨ x ∈ before c ++ after c → some a ≠ some x := by
        rintro x hx ⟨⟩
        simp only [List.mem_append] at hx
        grind
      refine ⟨rfl, by simp [Links.relink, hl], ?_, ?_⟩
      · have hra : (m.relink (some a) n q).right a = m.right a := by simp [Links.relink, hl]
        rw [hra]
        exact hr.congr fun x hx => relink_sameAt m n q (hne x (Or.inl hx))
      · rw [relink_parent]
        exact hc.congr fun x hx => relink_sameAt m n q (hne x (Or.inr hx))
    | right a l =>
      obtain ⟨rfl, hr, hl, hc⟩ := h
      have hla : m.left a ≠ some n := by
        intro he
        rw [he] at hl
        exact hn (by simp [before, hl.mem_of_ptr])
      simp only [before, after, List.nodup_append, List.mem_append, List.nodup_cons,
        List.mem_cons, List.append_assoc] at hd
      have hne : ∀ x, x ∈ inorder l ∨ x ∈ before c ++ after c → some a ≠ some x := by
        rintro x hx ⟨⟩
        simp only [List.mem_append] at hx
        grind
      refine ⟨rfl, by simp [Links.relink, hla], ?_, ?_⟩
      · have hra : (m.relink (some a) n q).left a = m.left a := by simp [Links.relink, hla]
        rw [hra]
        exact hl.congr fun x hx => relink_sameAt m n q (hne x (Or.inl hx))
      · rw [relink_parent]
        exact hc.congr fun x hx => relink_sameAt m n q (hne x (Or.inr hx))

end Kmi.Library.PointerTree
