import Kmi.SpTree.Update

/-! The neighbour of a removed node in the order takes its place. -/

namespace Kmi.SpTree

open BinaryTree Kmi.Library.PointerTree

def leftSpine (s : List (ℕ × BinaryTree ℕ)) : List (Frame ℕ) :=
  s.map fun x => .left x.1 x.2

@[simp] lemma before_leftSpine (s : List (ℕ × BinaryTree ℕ)) : before (leftSpine s) = [] := by
  induction s with
  | nil => rfl
  | cons x s ih => simpa [leftSpine, before] using ih

lemma spFirst_spec (a : ℕ) (l r : BinaryTree ℕ) :
    ∃ s k kr, node a l r = plug (leftSpine s) (node k nil kr) ∧
      ∀ m up fuel, Rep m up (some a) (node a l r) → s.length < fuel →
        spFirst fuel m a = some k := by
  induction l generalizing a r with
  | nil =>
    refine ⟨[], a, r, rfl, fun m up fuel h hf => ?_⟩
    obtain ⟨fuel, rfl⟩ := Nat.exists_eq_succ_of_ne_zero (by omega : fuel ≠ 0)
    have hl : m.left a = none := h.2.2.1
    simp [spFirst, hl]
  | node b bl br ihl _ =>
    obtain ⟨s, k, kr, he, hfirst⟩ := ihl b br
    refine ⟨s ++ [(a, r)], k, kr, by simp [he, leftSpine, plug_append, plug],
      fun m up fuel h hf => ?_⟩
    simp only [List.length_append, List.length_singleton] at hf
    obtain ⟨fuel, rfl⟩ := Nat.exists_eq_succ_of_ne_zero (by omega : fuel ≠ 0)
    have hl : m.left a = some b := h.2.2.1.1
    have hrep : Rep m (some a) (some b) (node b bl br) := hl ▸ h.2.2.1
    simpa [spFirst, hl] using hfirst m _ fuel hrep (by omega)

variable {m : Links ℕ} {root : Option ℕ} {c : List (Frame ℕ)} {n k : ℕ} {l kr : BinaryTree ℕ}

lemma replaceRight_child (h : Rep m none root (plug c (node n l (node k nil kr))))
    (hd : (inorder (plug c (node n l (node k nil kr)))).Nodup) :
    ∃ m', replaceRight m n k = some m' ∧
      Rep m' none (if root = some n then some k else root) (plug c (node k l kr)) ∧
      ∀ x ∉ inorder (plug c (node n l (node k nil kr))), SameAt m m' x := by
  obtain ⟨up, p, hc, rfl, hpn, hl, ⟨hr, hpk, hlk, hkr⟩⟩ := rep_plug.mp h
  rw [inorder_plug] at hd
  have hup : ∀ x, up = some x → x ∈ before c ++ after c := fun x hx => hc.ptr_mem x hx
  have hlm : ∀ x, m.left n = some x → x ∈ inorder l := fun x hx => Rep.mem_of_ptr (hx ▸ hl)
  have hkm : ∀ x, m.right k = some x → x ∈ inorder kr := fun x hx => Rep.mem_of_ptr (hx ▸ hkr)
  simp only [inorder_node, inorder_nil, List.nodup_append, List.nodup_cons, List.mem_append,
    List.mem_cons, List.nil_append, List.append_assoc] at hd hup
  let m₁ := (m.setParent k up).setLeft k (m.left n)
  let m₂ := m₁.relink up n (some k)
  let m₃ := m₂.adopt (m.left n) k
  have hnk : n ≠ k := by grind
  have hupn : up ≠ some n := by grind
  have hupk : up ≠ some k := by grind
  have hleft : m.left n ≠ some k := by grind
  have hsame : ∀ x, x ≠ k → up ≠ some x → m.left n ≠ some x → SameAt m m₃ x := by
    intro x hk hu hl
    simp [SameAt, m₃, m₂, m₁, hk, relink_left_of_ne _ _ _ hu, relink_right_of_ne _ _ _ hu,
      adopt_parent, hl]
  have hrep : replaceRight m n k = some m₃ := by
    simp [replaceRight, hpk, hpn, hleft, hupn, hr, m₃, m₂, m₁, hnk, relink_left_of_ne _ _ _ hupn]
  refine ⟨m₃, hrep, rep_plug.mpr ⟨up, some k, ?_, rfl, ?_, ?_, ?_⟩, ?_⟩
  · have h₁ : Hole m₁ none root c up (some n) := hc.congr fun x hx => by
      have : x ≠ k := by
        rintro rfl
        simp only [List.mem_append] at hx
        grind
      simp [SameAt, m₁, this]
    refine (h₁.relink (by grind) (by grind) (some k)).congr fun x hx => ?_
    have : m.left n ≠ some x := by
      intro he
      have := hlm x he
      simp only [List.mem_append] at hx
      grind
    simp [SameAt, m₃, m₂, adopt_parent, this]
  · simp [m₃, m₂, m₁, adopt_parent, hleft]
  · have hlk' : m₃.left k = m.left n := by simp [m₃, m₂, m₁, relink_left_of_ne _ _ _ hupk]
    rw [hlk']
    refine hl.reparent (by grind) ?_ ?_
    · intro x hx
      have hxl := hlm x hx
      have hu : up ≠ some x := by grind
      have hk : x ≠ k := by grind
      simp [m₃, m₂, m₁, hk, relink_left_of_ne _ _ _ hu, relink_right_of_ne _ _ _ hu, adopt_parent, hx]
    · intro x hx hne
      exact hsame x (by grind) (by grind) hne
  · have hrk' : m₃.right k = m.right k := by simp [m₃, m₂, m₁, relink_right_of_ne _ _ _ hupk]
    rw [hrk']
    exact hkr.congr fun x hx => hsame x (by grind) (by grind) (by grind)
  · intro x hx
    simp only [inorder_plug, inorder_node, inorder_nil, List.mem_append, List.mem_cons] at hx
    exact hsame x (by grind) (by grind) (by grind)

lemma cut_least {top p : Option ℕ} {rp : ℕ} {sib : BinaryTree ℕ} {s : List (ℕ × BinaryTree ℕ)}
    (h : Rep m top p (plug (leftSpine ((rp, sib) :: s)) (node k nil kr)))
    (hd : (inorder (plug (leftSpine ((rp, sib) :: s)) (node k nil kr))).Nodup)
    (ht : ∀ a, top = some a → a ∉ inorder (plug (leftSpine ((rp, sib) :: s)) (node k nil kr))) :
    m.parent k = some rp ∧ m.left rp = some k ∧ (m.parent rp = top → p = some rp) ∧
      Rep ((m.setLeft rp (m.right k)).adopt (m.right k) rp) top p
        (plug (leftSpine ((rp, sib) :: s)) kr) := by
  obtain ⟨up, q, hc, rfl, hpk, hlk, hkr⟩ := rep_plug.mp h
  rw [inorder_plug] at hd
  have hkm : ∀ x, m.right k = some x → x ∈ inorder kr := fun x hx => Rep.mem_of_ptr (hx ▸ hkr)
  simp only [inorder_node, inorder_nil, List.nil_append, before_leftSpine, List.cons_append,
    List.nodup_append, List.nodup_cons, List.mem_append] at hd
  obtain rfl : up = some rp := hc.1
  have hleft : m.left rp = some k := hc.2.1
  have hrp : rp ∈ after (leftSpine ((rp, sib) :: s)) := by simp [leftSpine, after]
  refine ⟨hpk, hleft, ?_, rep_plug.mpr ⟨some rp, m.right k, ?_, ?_⟩⟩
  · intro he
    by_cases hs : s = []
    · subst hs
      exact hc.2.2.2.2
    · obtain ⟨a, ha, hup⟩ := hc.2.2.2.up_mem (by simpa [leftSpine] using hs)
      refine (ht a (he ▸ hup) ?_).elim
      have hs' : before (List.map (fun x : ℕ × BinaryTree ℕ => Frame.left x.1 x.2) s) = [] :=
        before_leftSpine s
      simp only [hs', List.nil_append] at ha
      simp [inorder_plug, leftSpine, after, ha]
  · have hk : k ∉ before (leftSpine ((rp, sib) :: s)) ++ after (leftSpine ((rp, sib) :: s)) := by
      rw [before_leftSpine]
      simp only [List.nil_append]
      grind
    have hp : p ≠ some k := by
      obtain ⟨a, ha, rfl⟩ := hc.root_mem (by simp [leftSpine])
      rintro ⟨⟩
      exact hk ha
    have h₁ := hc.relink (by rw [before_leftSpine]; grind) hk (m.right k)
    rw [if_neg hp] at h₁
    refine h₁.congr fun x hx => ?_
    have hx' : m.right k ≠ some x := by
      intro he
      rw [before_leftSpine] at hx
      have := hkm x he
      simp only [List.nil_append] at hx
      grind
    simp [SameAt, Links.relink, hleft, adopt_parent, hx']
  · refine hkr.reparent (by grind) ?_ ?_
    · intro x hx
      have hne : x ≠ rp := by
        have := hkm x hx
        grind
      simp [hne, adopt_parent, hx]
    · intro x hx hne
      have hxr : x ≠ rp := by grind
      simp [SameAt, hxr, adopt_parent, hne]

lemma replaceRight_deep {rp : ℕ} {sib : BinaryTree ℕ} {s : List (ℕ × BinaryTree ℕ)}
    (h : Rep m none root (plug c (node n l (plug (leftSpine ((rp, sib) :: s)) (node k nil kr)))))
    (hd : (inorder (plug c
      (node n l (plug (leftSpine ((rp, sib) :: s)) (node k nil kr))))).Nodup) :
    ∃ m', replaceRight m n k = some m' ∧
      Rep m' none (if root = some n then some k else root)
        (plug c (node k l (plug (leftSpine ((rp, sib) :: s)) kr))) ∧
      ∀ x ∉ inorder (plug c (node n l (plug (leftSpine ((rp, sib) :: s)) (node k nil kr)))),
        SameAt m m' x := by
  obtain ⟨up, p, hc, rfl, hpn, hl, hr⟩ := rep_plug.mp h
  rw [inorder_plug, inorder_node] at hd
  have hup : ∀ x, up = some x → x ∈ before c ++ after c := fun x hx => hc.ptr_mem x hx
  have hlm : ∀ x, m.left n = some x → x ∈ inorder l := fun x hx => Rep.mem_of_ptr (hx ▸ hl)
  have hR : inorder (plug (leftSpine ((rp, sib) :: s)) (node k nil kr)) =
      k :: (inorder kr ++ after (leftSpine ((rp, sib) :: s))) := by simp [inorder_plug]
  have hR' : inorder (plug (leftSpine ((rp, sib) :: s)) kr) =
      inorder kr ++ after (leftSpine ((rp, sib) :: s)) := by simp [inorder_plug]
  have hrp : rp ∈ after (leftSpine ((rp, sib) :: s)) := by simp [leftSpine, after]
  simp only [List.nodup_append, List.nodup_cons, List.mem_append, List.mem_cons,
    List.append_assoc, hR] at hd hup
  obtain ⟨hpk, hlk, hprp, hcut⟩ := cut_least hr (by grind) (by grind)
  obtain ⟨x, hxs, hx⟩ : ∃ x ∈ after (leftSpine ((rp, sib) :: s)), m.right n = some x := by
    obtain ⟨_, _, hs, _⟩ := rep_plug.mp hr
    simpa using hs.root_mem (by simp [leftSpine])
  have hkm : ∀ y, m.right k = some y → y ∈ inorder kr := by
    obtain ⟨_, _, -, -, -, -, hkr⟩ := rep_plug.mp hr
    exact fun y hy => Rep.mem_of_ptr (hy ▸ hkr)
  let m₀ := (m.setLeft rp (m.right k)).adopt (m.right k) rp
  let m₁ := if m₀.parent rp = some n then m₀.setParent rp (some k) else m₀
  let m₃ := ((((m₁.setParent k up).setLeft k (m.left n)).setRight k (some x)).setParent x (some k))
  let m₄ := m₃.relink up n (some k)
  let m₅ := m₄.adopt (m.left n) k
  have hnk : n ≠ k := by grind
  have hnrp : n ≠ rp := by grind
  have hkx : x ≠ k := by grind
  have hupn : up ≠ some n := by grind
  have hupk : up ≠ some k := by grind
  have hrk : m.right k ≠ some rp := by grind
  have hm₀rp : m₀.parent rp = m.parent rp := by simp [m₀, adopt_parent, hrk]
  have h₃l : ∀ y, m₃.left y = if y = k then m.left n else m₀.left y := by
    intro y
    by_cases hp : m₀.parent rp = some n <;> simp [m₃, m₁, hp]
  have h₃r : ∀ y, m₃.right y = if y = k then some x else m.right y := by
    intro y
    by_cases hp : m₀.parent rp = some n <;> simp [m₃, m₁, hp, m₀]
  have h₃p : ∀ y, m₃.parent y = if y = x then some k else if y = k then up else m₀.parent y := by
    intro y
    by_cases hp : m₀.parent rp = some n
    · obtain rfl : x = rp := Option.some.inj (hx.symm.trans (hprp (hm₀rp.symm.trans hp)))
      by_cases hyx : y = x <;> simp [m₃, m₁, hp, hyx]
    · simp [m₃, m₁, hp]
  have hsame : ∀ y, y ≠ k → y ≠ x → up ≠ some y → m.left n ≠ some y → SameAt m₀ m₅ y := by
    intro y hk hx hu hl
    refine ⟨?_, ?_, ?_⟩
    · simp [m₅, m₄, relink_left_of_ne _ _ _ hu, h₃l, hk]
    · simp [m₅, m₄, relink_right_of_ne _ _ _ hu, h₃r, hk, m₀]
    · simp [m₅, m₄, adopt_parent, hl, h₃p, hx, hk]
  have hsame₀ : ∀ y, y ≠ rp → m.right k ≠ some y → SameAt m m₀ y := by
    intro y hy hk
    simp [SameAt, m₀, hy, adopt_parent, hk]
  have hall : ∀ y, y ≠ k → y ≠ x → up ≠ some y → m.left n ≠ some y → y ≠ rp →
      m.right k ≠ some y → SameAt m m₅ y := by
    intro y hk hx hu hl hrp hrk
    obtain ⟨h₁, h₂, h₃⟩ := hsame y hk hx hu hl
    obtain ⟨g₁, g₂, g₃⟩ := hsame₀ y hrp hrk
    exact ⟨h₁.trans g₁, h₂.trans g₂, h₃.trans g₃⟩
  have hrep : replaceRight m n k = some m₅ := by
    have hln : m₀.left n = m.left n := by simp [m₀, hnrp]
    have hrn : m₀.right n = some x := by simp [m₀, hx]
    have h₁l : m₁.left n = m.left n := by
      by_cases hp : m₀.parent rp = some n <;> simp [m₁, hp, hln]
    have h₁r : m₁.right n = some x := by
      by_cases hp : m₀.parent rp = some n <;> simp [m₁, hp, hrn]
    have h₄l : (m₃.relink up n (some k)).left n = m.left n := by
      rw [relink_left_of_ne _ _ _ hupn, h₃l, if_neg hnk, hln]
    have hm₀ : (m.setLeft rp (m.right k)).adopt (m.right k) rp = m₀ := rfl
    simp only [replaceRight, hpk, hpn, hlk, Option.bind_eq_bind, Option.bind_some, if_true, hm₀]
    have hm₁ : (if m₀.parent rp = some n then m₀.setParent rp (some k) else m₀) = m₁ := rfl
    have hr₁ : ((m₁.setParent k up).setLeft k (m.left n)).right n = some x := h₁r
    rw [hm₁]
    simp only [setParent_left, hr₁, Option.bind_some, ne_eq, hkx, not_false_eq_true, if_true, h₁l]
    change some (Links.adopt (m₃.relink up n (some k)) ((m₃.relink up n (some k)).left n) k) = _
    rw [h₄l]
  refine ⟨m₅, hrep, rep_plug.mpr ⟨up, some k, ?_, rfl, ?_, ?_, ?_⟩, ?_⟩
  · have h₁ : Hole m₃ none root c up (some n) := hc.congr fun y hy => by
      simp only [List.mem_append] at hy
      have hyk : y ≠ k := by grind
      have hyx : y ≠ x := by grind
      obtain ⟨g₁, g₂, g₃⟩ := hsame₀ y (by grind) (by grind)
      exact ⟨by simpa [h₃l, hyk] using g₁, by simp [h₃r, hyk], by simpa [h₃p, hyk, hyx] using g₃⟩
    refine (h₁.relink (by grind) (by grind) (some k)).congr fun y hy => ?_
    have : m.left n ≠ some y := by
      intro he
      have := hlm y he
      simp only [List.mem_append] at hy
      grind
    simp [SameAt, m₅, m₄, adopt_parent, this]
  · have : m.left n ≠ some k := by grind
    simp [m₅, m₄, adopt_parent, this, h₃p, hkx.symm]
  · have hlk' : m₅.left k = m.left n := by simp [m₅, m₄, relink_left_of_ne _ _ _ hupk, h₃l]
    rw [hlk']
    refine hl.reparent (by grind) ?_ ?_
    · intro y hy
      have hyl := hlm y hy
      have hu : up ≠ some y := by grind
      have hk : y ≠ k := by grind
      have hrp : y ≠ rp := by grind
      simp [m₅, m₄, hk, relink_left_of_ne _ _ _ hu, relink_right_of_ne _ _ _ hu, adopt_parent, hy,
        h₃l, h₃r, m₀, hrp]
    · intro y hy hne
      exact hall y (by grind) (by grind) (by grind) hne (by grind) (by grind)
  · have hrk' : m₅.right k = some x := by simp [m₅, m₄, relink_right_of_ne _ _ _ hupk, h₃r]
    have hux : up ≠ some x := by grind
    have hlx : m.left n ≠ some x := by grind
    rw [hrk']
    rw [hx] at hcut
    refine hcut.reparent (by grind) ?_ ?_
    · intro y hy
      obtain rfl : x = y := Option.some.inj hy
      simp [m₅, m₄, relink_left_of_ne _ _ _ hux, relink_right_of_ne _ _ _ hux, adopt_parent, hlx,
        h₃l, h₃r, h₃p, hkx, m₀]
    · intro y hy hne
      rw [hR', List.mem_append] at hy
      exact hsame y (by grind) (by grind) (by grind) (by grind)
  · intro y hy
    simp only [inorder_plug, inorder_node, inorder_nil, List.mem_append, List.mem_cons,
      before_leftSpine] at hy
    exact hall y (by grind) (by grind) (by grind) (by grind) (by grind) (by grind)

lemma replaceRight_rep {s : List (ℕ × BinaryTree ℕ)}
    (h : Rep m none root (plug c (node n l (plug (leftSpine s) (node k nil kr)))))
    (hd : (inorder (plug c (node n l (plug (leftSpine s) (node k nil kr))))).Nodup) :
    ∃ m', replaceRight m n k = some m' ∧
      Rep m' none (if root = some n then some k else root)
        (plug c (node k l (plug (leftSpine s) kr))) ∧
      ∀ x ∉ inorder (plug c (node n l (plug (leftSpine s) (node k nil kr)))), SameAt m m' x := by
  cases s with
  | nil => exact replaceRight_child h hd
  | cons x s => exact replaceRight_deep h hd

lemma replaceLeft_eq (hp : ∀ a, m.parent n = some a → a ≠ k ∧ m.parent k ≠ some a ∧
      (m.left a = some n ↔ m.right a ≠ some n)) :
    replaceLeft m n k = (replaceRight m.mirror n k).map Links.mirror := by
  cases hk : m.parent k with
  | none => simp [replaceLeft, replaceRight, hk, Links.mirror]
  | some lp =>
    let m₁ := if m.right lp = some k then (m.setRight lp (m.left k)).adopt (m.left k) lp else m
    let m₂ := if m₁.parent lp = some n then m₁.setParent lp (some k) else m₁
    let m₃ := (m₂.setParent k (m.parent n)).setRight k (m₂.right n)
    let m₄ := fun x => if x ≠ k then (m₃.setLeft k (some x)).setParent x (some k) else m₃
    let p := m.parent n
    have hl : replaceLeft m n k = (m₃.left n).bind fun x =>
        some (((m₄ x).relink p n (some k)).adopt (((m₄ x).relink p n (some k)).right n) k) := by
      simp only [replaceLeft, hk, Option.bind_eq_bind, Option.bind_some]
      rfl
    have h₁ : (if m.mirror.left lp = some k then
        (m.mirror.setLeft lp (m.mirror.right k)).adopt (m.mirror.right k) lp else m.mirror) =
        m₁.mirror := by
      by_cases he : m.right lp = some k
      · have he' : m.mirror.left lp = some k := he
        simp only [m₁, he, he', if_true]
        exact adopt_mirror (m.setRight lp (m.left k)) (m.left k) lp
      · have he' : m.mirror.left lp ≠ some k := he
        simp [m₁, he, he']
    have h₂ : (if m₁.mirror.parent lp = some n then m₁.mirror.setParent lp (some k) else m₁.mirror) =
        m₂.mirror := by
      by_cases he : m₁.parent lp = some n
      · have he' : m₁.mirror.parent lp = some n := he
        simp only [m₂, he, he', if_true]
        rfl
      · have he' : m₁.mirror.parent lp ≠ some n := he
        simp [m₂, he, he']
    have h₄ : ∀ x, (if x ≠ k then (m₃.mirror.setRight k (some x)).setParent x (some k)
        else m₃.mirror) = (m₄ x).mirror := by
      intro x
      by_cases he : x = k
      · simp [m₄, he]
      · simp only [m₄, he, ne_eq, not_false_eq_true, if_true]
        rfl
    have hr : replaceRight m.mirror n k = (m₃.left n).bind fun x =>
        some (((m₄ x).mirror.relink p n (some k)).adopt
          (((m₄ x).mirror.relink p n (some k)).left n) k) := by
      have hk' : m.mirror.parent k = some lp := hk
      simp only [replaceRight, hk', Option.bind_eq_bind, Option.bind_some, h₁, h₂, ← h₄]
      rfl
    rw [hl, hr]
    cases m₃.left n with
    | none => rfl
    | some x =>
      have hmir : (m₄ x).mirror.relink p n (some k) = ((m₄ x).relink p n (some k)).mirror := by
        refine relink_mirror fun a ha => ?_
        obtain ⟨hak, halp, hiff⟩ := hp a ha
        have hne : a ≠ lp := fun e => halp (e ▸ hk)
        have hs₁ : m₁.left a = m.left a ∧ m₁.right a = m.right a := by
          by_cases he : m.right lp = some k <;> simp [m₁, he, hne]
        have hs₂ : m₂.left a = m₁.left a ∧ m₂.right a = m₁.right a := by
          by_cases he : m₁.parent lp = some n <;> simp [m₂, he]
        have hs₄ : (m₄ x).left a = m₂.left a ∧ (m₄ x).right a = m₂.right a := by
          by_cases he : x = k <;> simp [m₄, he, m₃, hak]
        rw [hs₄.1, hs₄.2, hs₂.1, hs₂.2, hs₁.1, hs₁.2]
        exact hiff
      simp only [Option.bind_some, Option.map_some, hmir, adopt_mirror]
      rfl

lemma replaceLeft_rep {s : List (ℕ × BinaryTree ℕ)} {r kl : BinaryTree ℕ}
    (h : Rep m none root
      (plug c (node n (plug ((leftSpine s).map Frame.mirror) (node k kl nil)) r)))
    (hd : (inorder
      (plug c (node n (plug ((leftSpine s).map Frame.mirror) (node k kl nil)) r))).Nodup) :
    ∃ m', replaceLeft m n k = some m' ∧
      Rep m' none (if root = some n then some k else root)
        (plug c (node k (plug ((leftSpine s).map Frame.mirror) kl) r)) ∧
      ∀ x ∉ inorder (plug c (node n (plug ((leftSpine s).map Frame.mirror) (node k kl nil)) r)),
        SameAt m m' x := by
  have hmir : ∀ t r, mirror (plug c (node n (plug ((leftSpine s).map Frame.mirror) t) r)) =
      plug (c.map Frame.mirror) (node n (mirror r) (plug (leftSpine s) (mirror t))) := by
    intro t r
    simp [mirror_plug, mirror, Function.comp_def, Frame.mirror_mirror]
  have hm := h.mirror
  have hdm := List.nodup_reverse.mpr hd
  rw [← inorder_mirror, hmir] at hdm
  rw [hmir] at hm
  obtain ⟨m', hm', hrep, hsame⟩ := replaceRight_rep hm hdm
  refine ⟨m'.mirror, ?_, ?_, fun x hx => (hsame x ?_).mirror⟩
  · rw [replaceLeft_eq, hm', Option.map_some]
    obtain ⟨up, p, hc, rfl, hpn, hl, -⟩ := rep_plug.mp h
    rw [inorder_plug, inorder_node, inorder_plug] at hd
    intro a ha
    have hup := hc.ptr_mem a (hpn ▸ ha)
    obtain ⟨upk, q, hs, rfl, hpk, -⟩ := rep_plug.mp hl
    have hne : c ≠ [] := by
      rintro rfl
      simp [before, after] at hup
    have hupk : upk = some n ∨
        ∃ b ∈ before ((leftSpine s).map Frame.mirror) ++ after ((leftSpine s).map Frame.mirror),
          upk = some b := by
      by_cases he : (leftSpine s).map Frame.mirror = []
      · rw [he] at hs
        exact Or.inl hs.1
      · exact Or.inr (hs.up_mem he)
    simp only [inorder_node, List.nodup_append, List.nodup_cons, List.mem_append, List.mem_cons,
      List.append_assoc] at hd hup hupk
    refine ⟨by grind, by grind, hc.child_iff (by simp only [List.mem_append]; grind) hne a (hpn ▸ ha)⟩
  · have := hrep.mirror
    rw [mirror_plug] at this
    simpa [mirror, mirror_plug, mirror_mirror, Function.comp_def, Frame.mirror_mirror] using this
  · have := inorder_mirror (plug c (node n (plug ((leftSpine s).map Frame.mirror) (node k kl nil)) r))
    rw [hmir] at this
    change x ∉ inorder (plug (c.map Frame.mirror)
      (node n (mirror r) (plug (leftSpine s) (mirror (node k kl nil)))))
    rw [this]
    simpa using hx

lemma spLast_eq (fuel : ℕ) (m : Links ℕ) (n : ℕ) : spLast fuel m n = spFirst fuel m.mirror n := by
  induction fuel generalizing n with
  | zero => rfl
  | succ fuel ih =>
    cases hr : m.right n with
    | none => simp [spLast, spFirst, hr, Links.mirror]
    | some r =>
      have hl : m.mirror.left n = some r := hr
      simp only [spLast, spFirst, hr, hl, ih]

lemma spLast_spec (a : ℕ) (l r : BinaryTree ℕ) :
    ∃ s k kl, node a l r = plug ((leftSpine s).map Frame.mirror) (node k kl nil) ∧
      ∀ m up fuel, Rep m up (some a) (node a l r) → s.length < fuel →
        spLast fuel m a = some k := by
  obtain ⟨s, k, kr, he, hfirst⟩ := spFirst_spec a (mirror r) (mirror l)
  refine ⟨s, k, mirror kr, ?_, fun m up fuel h hf => ?_⟩
  · have := congrArg mirror he
    simpa [mirror, mirror_plug, mirror_mirror] using this
  · rw [spLast_eq]
    exact hfirst _ _ fuel h.mirror hf

end Kmi.SpTree
