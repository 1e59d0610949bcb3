import Mathlib.Tactic

/-! Doubly linked lists stored in memory through next and previous pointers. -/

namespace Kmi.Library.LinkedList

variable {P : Type}

@[ext]
structure Chain (P : Type) where
  next : P → Option P
  prev : P → Option P

def Seg (m : Chain P) : Option P → Option P → List P → Option P → Option P → Prop
  | up, first, [], last, exit => last = up ∧ first = exit
  | up, first, x :: xs, last, exit =>
    first = some x ∧ m.prev x = up ∧ Seg m (some x) (m.next x) xs last exit

variable {m m' : Chain P} {up first last exit : Option P} {xs ys : List P} {x : P}

lemma seg_append : Seg m up first (xs ++ ys) last exit ↔
    ∃ mid enter, Seg m up first xs mid enter ∧ Seg m mid enter ys last exit := by
  induction xs generalizing up first with
  | nil =>
    constructor
    · intro h
      exact ⟨up, first, ⟨rfl, rfl⟩, h⟩
    · rintro ⟨_, _, ⟨rfl, rfl⟩, h⟩
      exact h
  | cons x xs ih =>
    constructor
    · rintro ⟨rfl, hp, hs⟩
      obtain ⟨mid, enter, h₁, h₂⟩ := ih.mp hs
      exact ⟨mid, enter, ⟨rfl, hp, h₁⟩, h₂⟩
    · rintro ⟨mid, enter, ⟨rfl, hp, h₁⟩, h₂⟩
      exact ⟨rfl, hp, ih.mpr ⟨mid, enter, h₁, h₂⟩⟩

lemma Seg.congr (h : Seg m up first xs last exit)
    (hs : ∀ x ∈ xs, m'.next x = m.next x ∧ m'.prev x = m.prev x) :
    Seg m' up first xs last exit := by
  induction xs generalizing up first with
  | nil => exact h
  | cons x xs ih =>
    obtain ⟨rfl, hp, hrest⟩ := h
    obtain ⟨hn, hp'⟩ := hs x (by simp)
    refine ⟨rfl, hp'.trans hp, ?_⟩
    rw [hn]
    exact ih hrest fun y hy => hs y (by simp [hy])

lemma mem_of_first (h : Seg m up (some x) xs last none) : x ∈ xs := by
  cases xs with
  | nil => cases h.2
  | cons y ys => simp [Option.some.inj h.1]

lemma mem_of_last (h : Seg m none first xs (some x) exit) : x ∈ xs := by
  induction xs using List.reverseRecOn with
  | nil => cases h.1
  | append_singleton xs z _ =>
    obtain ⟨mid, enter, -, -, -, hl, -⟩ := seg_append.mp h
    simp [Option.some.inj hl]

variable [DecidableEq P]

def Chain.setNext (m : Chain P) (p : Option P) (v : Option P) : Chain P :=
  match p with
  | none => m
  | some a => { m with next := Function.update m.next a v }

def Chain.setPrev (m : Chain P) (p : Option P) (v : Option P) : Chain P :=
  match p with
  | none => m
  | some a => { m with prev := Function.update m.prev a v }

@[simp] lemma setNext_next (m : Chain P) (p v : Option P) (x : P) :
    (m.setNext p v).next x = if p = some x then v else m.next x := by
  cases p with
  | none => rfl
  | some a => by_cases h : x = a <;> simp [Chain.setNext, h, eq_comm]

@[simp] lemma setNext_prev (m : Chain P) (p v : Option P) : (m.setNext p v).prev = m.prev := by
  cases p <;> rfl

@[simp] lemma setPrev_next (m : Chain P) (p v : Option P) : (m.setPrev p v).next = m.next := by
  cases p <;> rfl

@[simp] lemma setPrev_prev (m : Chain P) (p v : Option P) (x : P) :
    (m.setPrev p v).prev x = if p = some x then v else m.prev x := by
  cases p with
  | none => rfl
  | some a => by_cases h : x = a <;> simp [Chain.setPrev, h, eq_comm]

lemma setNext_setPrev_comm (m : Chain P) (p v q w : Option P) :
    (m.setNext p v).setPrev q w = (m.setPrev q w).setNext p v := by
  cases p <;> cases q <;> rfl

lemma Seg.setNext_last (h : Seg m none first xs last exit) (hd : xs.Nodup) (v : Option P) :
    Seg (m.setNext last v) none (if last = none then v else first) xs last v := by
  induction xs using List.reverseRecOn with
  | nil =>
    obtain ⟨rfl, rfl⟩ := h
    exact ⟨rfl, rfl⟩
  | append_singleton xs z _ =>
    obtain ⟨mid, enter, h₁, rfl, hp, rfl, hz⟩ := seg_append.mp h
    have hd' : z ∉ xs ∧ xs.Nodup := by
      rw [List.nodup_append] at hd
      exact ⟨fun hx => hd.2.2 z hx z (by simp) rfl, hd.1⟩
    rw [if_neg (by simp)]
    refine seg_append.mpr ⟨mid, some z, h₁.congr fun y hy => ?_, rfl, by simpa using hp, rfl, by simp⟩
    have : z ≠ y := fun e => hd'.1 (e ▸ hy)
    simp [this]

lemma Seg.setPrev_first (h : Seg m up first xs last none) (hd : xs.Nodup) (v : Option P) :
    Seg (m.setPrev first v) v first xs (if first = none then v else last) none := by
  cases xs with
  | nil =>
    obtain ⟨rfl, rfl⟩ := h
    exact ⟨rfl, rfl⟩
  | cons x xs =>
    obtain ⟨rfl, hp, hs⟩ := h
    rw [List.nodup_cons] at hd
    rw [if_neg (by simp)]
    refine ⟨rfl, by simp, ?_⟩
    rw [setPrev_next]
    refine hs.congr fun y hy => ?_
    have : x ≠ y := fun e => hd.1 (e ▸ hy)
    simp [this]

def IsList (m : Chain P) (head : Option P) (xs : List P) : Prop :=
  xs.Nodup ∧ ∃ last, Seg m none head xs last none

def Chain.push (m : Chain P) (head : Option P) (x : P) : Chain P :=
  (m.setNext (some x) head).setPrev head (some x)

def Chain.skip (m : Chain P) (x : P) : Chain P :=
  (m.setPrev (m.next x) (m.prev x)).setNext (m.prev x) (m.next x)

def Chain.unlink (m : Chain P) (x : P) : Chain P :=
  ((m.skip x).setNext (some x) none).setPrev (some x) none

def Chain.insertBefore (m : Chain P) (x n : P) : Chain P :=
  (((m.setPrev (some n) (m.prev x)).setNext (some n) (some x)).setPrev (some x) (some n)).setNext
    (m.prev x) (some n)

def Chain.insertAfter (m : Chain P) (x n : P) : Chain P :=
  (((m.setPrev (some n) (some x)).setNext (some n) (m.next x)).setNext (some x) (some n)).setPrev
    (m.next x) (some n)

variable {head : Option P}

lemma IsList.push (h : IsList m head xs) (hx : x ∉ xs) (hp : m.prev x = none) :
    IsList (m.push head x) (some x) (x :: xs) := by
  obtain ⟨hd, last, hs⟩ := h
  have hs' : Seg (m.setNext (some x) head) none head xs last none := hs.congr fun y hy => by
    have : x ≠ y := fun e => hx (e ▸ hy)
    simp [this]
  have hh : head ≠ some x := by
    rintro rfl
    exact hx (mem_of_first hs)
  refine ⟨List.nodup_cons.mpr ⟨hx, hd⟩, if head = none then some x else last, rfl,
    by simp [Chain.push, hp, hh], ?_⟩
  have hn : (m.push head x).next x = head := by simp [Chain.push]
  rw [hn]
  exact hs'.setPrev_first hd (some x)

omit [DecidableEq P] in
lemma Seg.first_eq (h : Seg m up first xs last none) : first = xs.head? := by
  cases xs with
  | nil => exact h.2
  | cons x xs => exact h.1

omit [DecidableEq P] in
lemma Seg.last_eq (h : Seg m none first xs last exit) : last = xs.getLast? := by
  induction xs using List.reverseRecOn with
  | nil => exact h.1
  | append_singleton xs z _ =>
    obtain ⟨mid, enter, -, -, -, rfl, -⟩ := seg_append.mp h
    simp

omit [DecidableEq P] in
lemma isList_iff : IsList m head xs ↔ head = xs.head? ∧ IsList m xs.head? xs := by
  constructor
  · rintro ⟨hd, last, hs⟩
    obtain rfl := hs.first_eq
    exact ⟨rfl, hd, last, hs⟩
  · rintro ⟨rfl, h⟩
    exact h

omit [DecidableEq P] in
lemma isList_append_cons_iff {zs : List P} : IsList m (xs ++ x :: zs).head? (xs ++ x :: zs) ↔
    (xs ++ x :: zs).Nodup ∧ (∃ first, Seg m none first xs (m.prev x) (some x)) ∧
      m.prev x = xs.getLast? ∧ m.next x = zs.head? ∧ ∃ last, Seg m (some x) (m.next x) zs last none := by
  constructor
  · rintro ⟨hd, last, hs⟩
    obtain ⟨mid, enter, h₁, rfl, rfl, h₂⟩ := seg_append.mp hs
    exact ⟨hd, ⟨_, h₁⟩, h₁.last_eq, h₂.first_eq, last, h₂⟩
  · rintro ⟨hd, ⟨first, h₁⟩, -, -, last, h₂⟩
    have hs : Seg m none first (xs ++ x :: zs) last none :=
      seg_append.mpr ⟨m.prev x, some x, h₁, rfl, rfl, h₂⟩
    obtain rfl := hs.first_eq
    exact ⟨hd, last, hs⟩

omit [DecidableEq P] in
lemma nodup_append_cons {ys zs : List P} (h : (ys ++ x :: zs).Nodup) :
    (ys.Nodup ∧ zs.Nodup) ∧ x ∉ ys ∧ x ∉ zs ∧ ∀ y ∈ ys, y ∉ zs := by
  have h := List.nodup_middle.mp h
  rw [List.nodup_cons, List.mem_append, not_or, List.nodup_append] at h
  exact ⟨⟨h.2.1, h.2.2.1⟩, h.1.1, h.1.2, fun y hy hz => h.2.2.2 y hy y hz rfl⟩

lemma IsList.skip {zs : List P} (h : IsList m (xs ++ x :: zs).head? (xs ++ x :: zs)) :
    IsList (m.skip x) (xs ++ zs).head? (xs ++ zs) := by
  obtain ⟨hd, ⟨first, h₁⟩, hp, hn, last, h₂⟩ := isList_append_cons_iff.mp h
  obtain ⟨⟨hys, hzs⟩, hxy, hxz, hdis⟩ := nodup_append_cons hd
  have hs : Seg (m.skip x) none (if m.prev x = none then m.next x else first) (xs ++ zs)
      (if m.next x = none then m.prev x else last) none := by
    refine seg_append.mpr ⟨m.prev x, m.next x, ?_, ?_⟩
    · refine (h₁.setNext_last hys (m.next x)).congr fun y hy => ?_
      have hyn : m.next x ≠ some y := by
        intro he
        rw [he] at h₂
        exact hdis y hy (mem_of_first h₂)
      simp [Chain.skip, hyn]
    · refine (h₂.setPrev_first hzs (m.prev x)).congr fun z hz => ?_
      have hzp : m.prev x ≠ some z := by
        intro he
        rw [he] at h₁
        exact hdis z (mem_of_last h₁) hz
      simp [Chain.skip, hzp]
  rw [hs.first_eq] at hs
  refine ⟨?_, _, hs⟩
  exact hd.sublist (List.Sublist.append_left (List.sublist_cons_self _ _) _)

lemma IsList.unlink (h : IsList m head xs) (hx : x ∈ xs) :
    IsList (m.unlink x) (if head = some x then m.next x else head) (xs.erase x) := by
  obtain ⟨rfl, h⟩ := isList_iff.mp h
  obtain ⟨ys, zs, rfl⟩ := List.append_of_mem hx
  obtain ⟨hd, -, -, hn, -⟩ := isList_append_cons_iff.mp h
  obtain ⟨-, hxy, hxz, -⟩ := nodup_append_cons hd
  obtain ⟨hd', last, hs⟩ := h.skip
  rw [List.erase_append_right _ hxy, List.erase_cons_head]
  have hhead : (if (ys ++ x :: zs).head? = some x then m.next x else (ys ++ x :: zs).head?) =
      (ys ++ zs).head? := by
    cases ys with
    | nil => simp [hn]
    | cons y ys =>
      have : y ≠ x := fun e => hxy (by simp [e])
      simp [this]
  rw [hhead]
  refine ⟨hd', last, hs.congr fun y hy => ?_⟩
  have hne : x ≠ y := by
    rintro rfl
    simp_all
  simp [Chain.unlink, hne]

omit [DecidableEq P] in
lemma IsList.next_first_ne (h : IsList m (some x) xs) : m.next x ≠ some x := by
  obtain ⟨hd, last, hs⟩ := h
  cases xs with
  | nil => cases hs.2
  | cons y ys =>
    obtain ⟨he, -, hrest⟩ := hs
    obtain rfl := Option.some.inj he
    intro hx
    rw [hx] at hrest
    exact (List.nodup_cons.mp hd).1 (mem_of_first hrest)

lemma IsList.push_unlink (h : IsList m (some x) xs) : (m.unlink x).push (m.next x) x = m := by
  obtain ⟨hd, last, hs⟩ := h
  cases xs with
  | nil => cases hs.2
  | cons y ys =>
    obtain ⟨he, hp, hrest⟩ := hs
    obtain rfl := Option.some.inj he
    have hback : ∀ z, m.next x = some z → m.prev z = some x := by
      intro z hz
      rw [hz] at hrest
      cases ys with
      | nil => cases hrest.2
      | cons w ys =>
        obtain ⟨hw, hpw, -⟩ := hrest
        rwa [Option.some.inj hw]
    refine Chain.ext (funext fun z => ?_) (funext fun z => ?_)
    · by_cases hz : x = z
      · subst hz
        simp [Chain.push, Chain.unlink, Chain.skip]
      · simp [Chain.push, Chain.unlink, Chain.skip, hz, hp]
    · by_cases hz : m.next x = some z
      · simp [Chain.push, Chain.unlink, Chain.skip, hz, hback z hz]
      · by_cases hzx : x = z
        · subst hzx
          simp [Chain.push, Chain.unlink, Chain.skip, hz, hp]
        · simp [Chain.push, Chain.unlink, Chain.skip, hz, hzx]

lemma unlink_push (hn : m.next x = none) (hp : m.prev x = none) : (m.push none x).unlink x = m := by
  refine Chain.ext (funext fun z => ?_) (funext fun z => ?_)
  · by_cases hz : x = z
    · subst hz
      simp [Chain.push, Chain.unlink, Chain.skip, hn]
    · simp [Chain.push, Chain.unlink, Chain.skip, hz, hp, Chain.setPrev]
  · by_cases hz : x = z
    · subst hz
      simp [Chain.push, Chain.unlink, Chain.skip, hp]
    · simp [Chain.push, Chain.unlink, Chain.skip, Ne.symm hz, Chain.setPrev]

lemma IsList.insertBefore {zs : List P} {n : P}
    (h : IsList m (xs ++ x :: zs).head? (xs ++ x :: zs)) (hnew : n ∉ xs ++ x :: zs) :
    IsList (m.insertBefore x n) (xs ++ [n] ++ x :: zs).head? (xs ++ [n] ++ x :: zs) := by
  obtain ⟨hd, ⟨first, h₁⟩, hp, hn, last, h₂⟩ := isList_append_cons_iff.mp h
  obtain ⟨⟨hys, hzs⟩, hxy, hxz, hdis⟩ := nodup_append_cons hd
  simp only [List.mem_append, List.mem_cons, not_or] at hnew
  have hpx : m.prev x ≠ some x := by
    intro he
    rw [he] at h₁
    exact hxy (mem_of_last h₁)
  have hpn : m.prev x ≠ some n := by
    intro he
    rw [he] at h₁
    exact hnew.1 (mem_of_last h₁)
  have hxn : x ≠ n := fun e => hnew.2.1 e.symm
  have hs : Seg (m.insertBefore x n) none (if m.prev x = none then some n else first)
      (xs ++ [n] ++ x :: zs) last none := by
    rw [List.append_assoc]
    refine seg_append.mpr ⟨m.prev x, some n, ?_, rfl, ?_, ?_⟩
    · refine (h₁.setNext_last hys (some n)).congr fun y hy => ?_
      have hny : n ≠ y := fun e => hnew.1 (e ▸ hy)
      have hxy : x ≠ y := fun e => hxy (e ▸ hy)
      simp [Chain.insertBefore, hny, hxy]
    · simp [Chain.insertBefore, hxn]
    · refine ⟨by simp [Chain.insertBefore, hpn], by simp [Chain.insertBefore], ?_⟩
      have hnext : (m.insertBefore x n).next x = m.next x := by
        simp [Chain.insertBefore, hpx, hnew.2.1]
      rw [hnext]
      refine h₂.congr fun z hz => ?_
      have hnz : n ≠ z := fun e => hnew.2.2 (e ▸ hz)
      have hxz : x ≠ z := fun e => hxz (e ▸ hz)
      have hpz : m.prev x ≠ some z := by
        intro he
        rw [he] at h₁
        exact hdis z (mem_of_last h₁) hz
      simp [Chain.insertBefore, hnz, hxz, hpz]
  rw [hs.first_eq] at hs
  refine ⟨?_, _, hs⟩
  rw [List.append_assoc, List.singleton_append, List.nodup_middle, List.nodup_cons]
  exact ⟨by simp [hnew], hd⟩

lemma IsList.insertAfter {zs : List P} {n : P}
    (h : IsList m (xs ++ x :: zs).head? (xs ++ x :: zs)) (hnew : n ∉ xs ++ x :: zs) :
    IsList (m.insertAfter x n) (xs ++ x :: n :: zs).head? (xs ++ x :: n :: zs) := by
  obtain ⟨hd, ⟨first, h₁⟩, hp, hn, last, h₂⟩ := isList_append_cons_iff.mp h
  obtain ⟨⟨hys, hzs⟩, hxy, hxz, hdis⟩ := nodup_append_cons hd
  simp only [List.mem_append, List.mem_cons, not_or] at hnew
  have hnx : m.next x ≠ some x := by
    intro he
    rw [he] at h₂
    exact hxz (mem_of_first h₂)
  have hnn : m.next x ≠ some n := by
    intro he
    rw [he] at h₂
    exact hnew.2.2 (mem_of_first h₂)
  have hxn : x ≠ n := fun e => hnew.2.1 e.symm
  have hs : Seg (m.insertAfter x n) none first (xs ++ x :: n :: zs)
      (if m.next x = none then some n else last) none := by
    refine seg_append.mpr ⟨m.prev x, some x, ?_, rfl, ?_, ?_⟩
    · refine h₁.congr fun y hy => ?_
      have hny : n ≠ y := fun e => hnew.1 (e ▸ hy)
      have hxy : x ≠ y := fun e => hxy (e ▸ hy)
      have hyn : m.next x ≠ some y := by
        intro he
        rw [he] at h₂
        exact hdis y hy (mem_of_first h₂)
      simp [Chain.insertAfter, hny, hxy, hyn]
    · simp [Chain.insertAfter, hnx, hnew.2.1]
    · refine ⟨by simp [Chain.insertAfter], by simp [Chain.insertAfter, hnn], ?_⟩
      have hnext : (m.insertAfter x n).next n = m.next x := by
        simp [Chain.insertAfter, hxn]
      rw [hnext]
      refine (h₂.setPrev_first hzs (some n)).congr fun z hz => ?_
      have hnz : n ≠ z := fun e => hnew.2.2 (e ▸ hz)
      have hxz : x ≠ z := fun e => hxz (e ▸ hz)
      simp [Chain.insertAfter, hnz, hxz]
  rw [hs.first_eq] at hs
  refine ⟨?_, _, hs⟩
  have hperm : (xs ++ x :: n :: zs).Perm (n :: (xs ++ x :: zs)) := by
    have := @List.perm_middle _ n (xs ++ [x]) zs
    simpa using this
  rw [hperm.nodup_iff, List.nodup_cons]
  exact ⟨by simp [hnew], hd⟩

omit [DecidableEq P] in
lemma IsList.neighbours_mem (h : IsList m head xs) (hx : x ∈ xs) {y : P}
    (hy : m.next x = some y ∨ m.prev x = some y) : y ∈ xs := by
  obtain ⟨hd, last, hs⟩ := h
  obtain ⟨ys, zs, rfl⟩ := List.append_of_mem hx
  obtain ⟨mid, enter, h₁, rfl, rfl, h₂⟩ := seg_append.mp hs
  rcases hy with hy | hy
  · rw [hy] at h₂
    simp [mem_of_first h₂]
  · rw [hy] at h₁
    simp [mem_of_last h₁]

lemma unlink_of_not_mem (h : IsList m head xs) (hx : x ∈ xs) {y : P} (hy : y ∉ xs) :
    (m.unlink x).next y = m.next y ∧ (m.unlink x).prev y = m.prev y := by
  have hne : x ≠ y := fun e => hy (e ▸ hx)
  have hn : m.next x ≠ some y := fun e => hy (h.neighbours_mem hx (Or.inl e))
  have hp : m.prev x ≠ some y := fun e => hy (h.neighbours_mem hx (Or.inr e))
  simp [Chain.unlink, Chain.skip, hne, hn, hp]

lemma insertBefore_of_not_mem (h : IsList m head xs) (hx : x ∈ xs) {y n : P} (hy : y ∉ xs)
    (hyn : y ≠ n) : (m.insertBefore x n).next y = m.next y ∧ (m.insertBefore x n).prev y = m.prev y := by
  have hne : x ≠ y := fun e => hy (e ▸ hx)
  have hp : m.prev x ≠ some y := fun e => hy (h.neighbours_mem hx (Or.inr e))
  simp [Chain.insertBefore, hne, hp, hyn.symm]

lemma insertAfter_of_not_mem (h : IsList m head xs) (hx : x ∈ xs) {y n : P} (hy : y ∉ xs)
    (hyn : y ≠ n) : (m.insertAfter x n).next y = m.next y ∧ (m.insertAfter x n).prev y = m.prev y := by
  have hne : x ≠ y := fun e => hy (e ▸ hx)
  have hn : m.next x ≠ some y := fun e => hy (h.neighbours_mem hx (Or.inl e))
  simp [Chain.insertAfter, hne, hn, hyn.symm]

lemma unlink_self (m : Chain P) (x : P) :
    (m.unlink x).next x = none ∧ (m.unlink x).prev x = none := by
  simp [Chain.unlink]

omit [DecidableEq P] in
lemma IsList.congr (h : IsList m head xs)
    (hs : ∀ x ∈ xs, m'.next x = m.next x ∧ m'.prev x = m.prev x) : IsList m' head xs := by
  obtain ⟨hd, last, hl⟩ := h
  exact ⟨hd, last, hl.congr hs⟩

omit [DecidableEq P] in
lemma IsList.head_mem (h : IsList m (some x) xs) : x ∈ xs := by
  obtain ⟨-, last, hs⟩ := h
  exact mem_of_first hs

omit [DecidableEq P] in
lemma IsList.prev_head (h : IsList m (some x) xs) : m.prev x = none := by
  obtain ⟨-, last, hs⟩ := h
  cases xs with
  | nil => cases hs.2
  | cons y ys =>
    obtain ⟨hy, hp, -⟩ := hs
    rwa [← Option.some.inj hy] at hp

omit [DecidableEq P] in
lemma IsList.neighbours_ne (h : IsList m head xs) (hx : x ∈ xs) {y z : P} (hy : m.next x = some y)
    (hz : m.prev x = some z) : y ≠ z := by
  rintro rfl
  obtain ⟨rfl, h⟩ := isList_iff.mp h
  obtain ⟨ys, zs, rfl⟩ := List.append_of_mem hx
  obtain ⟨hd, -, hp, hn, -⟩ := isList_append_cons_iff.mp h
  obtain ⟨-, -, -, hdis⟩ := nodup_append_cons hd
  exact hdis y (List.mem_of_getLast? (hp.symm.trans hz)) (List.mem_of_head? (hn.symm.trans hy))

def Chain.flip (m : Chain P) : Chain P := ⟨m.prev, m.next⟩

@[simp] lemma flip_setNext (m : Chain P) (p v : Option P) :
    (m.setNext p v).flip = m.flip.setPrev p v := by
  cases p <;> rfl

@[simp] lemma flip_setPrev (m : Chain P) (p v : Option P) :
    (m.setPrev p v).flip = m.flip.setNext p v := by
  cases p <;> rfl

lemma flip_skip (m : Chain P) (x : P) : (m.skip x).flip = m.flip.skip x := by
  simp only [Chain.skip, flip_setNext, flip_setPrev]
  exact setNext_setPrev_comm _ _ _ _ _

inductive Met (f : P → Option P) : Option P → P → Prop
  | here {x : P} : Met f (some x) x
  | next {x y : P} : Met f (f x) y → Met f (some x) y

omit [DecidableEq P] in
lemma Met.of_closed {f : P → Option P} {S : P → Prop} {start : Option P} (h : Met f start x)
    (hstart : ∀ y, start = some y → S y) (hclosed : ∀ y z, S y → f y = some z → S z) : S x := by
  induction h with
  | here => exact hstart _ rfl
  | next _ ih => exact ih fun z hz => hclosed _ z (hstart _ rfl) hz

omit [DecidableEq P] in
lemma Seg.met (h : Seg m up first xs last exit) (hx : x ∈ xs) : Met m.next first x := by
  induction xs generalizing up first with
  | nil => simp at hx
  | cons y ys ih =>
    obtain ⟨rfl, -, hs⟩ := h
    obtain rfl | hx := List.mem_cons.1 hx
    · exact .here
    · exact .next (ih hs hx)

omit [DecidableEq P] in
lemma IsList.met_iff (h : IsList m head xs) : Met m.next head x ↔ x ∈ xs := by
  constructor
  · intro hm
    refine hm.of_closed (S := (· ∈ xs)) ?_ fun y z hy hz => h.neighbours_mem hy (.inl hz)
    rintro y rfl
    exact h.head_mem
  · obtain ⟨-, last, hs⟩ := h
    exact hs.met

end Kmi.Library.LinkedList
