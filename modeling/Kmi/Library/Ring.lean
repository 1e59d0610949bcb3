import Kmi.Library.LinkedList

/-! Doubly linked lists that are closed through a head of their own. -/

namespace Kmi.Library.LinkedList

variable {P : Type} {m m' : Chain P} {up first last exit : Option P} {xs ys zs : List P} {head x y u : P}

lemma Seg.first_of_exit (h : Seg m up first xs last (some u)) : first = some (xs.head?.getD u) := by
  cases xs with
  | nil => exact h.2
  | cons x xs => exact h.1

lemma Seg.last_of_up (h : Seg m (some u) first xs last exit) : last = some (xs.getLast?.getD u) := by
  induction xs using List.reverseRecOn with
  | nil => exact h.1
  | append_singleton xs z _ =>
    obtain ⟨mid, enter, -, -, -, rfl, -⟩ := seg_append.mp h
    rw [List.getLast?_append_cons]
    rfl

def Ring (m : Chain P) (head : P) (xs : List P) : Prop :=
  (head :: xs).Nodup ∧ Seg m (some head) (m.next head) xs (m.prev head) (some head)

lemma ring_nil : Ring m head [] ↔ m.next head = some head ∧ m.prev head = some head := by
  constructor
  · rintro ⟨-, hp, hn⟩
    exact ⟨hn, hp⟩
  · rintro ⟨hn, hp⟩
    exact ⟨List.nodup_singleton head, hp, hn⟩

lemma Ring.head_not_mem (h : Ring m head xs) : head ∉ xs := (List.nodup_cons.mp h.1).1

lemma Ring.nodup (h : Ring m head xs) : xs.Nodup := (List.nodup_cons.mp h.1).2

lemma Ring.next_head (h : Ring m head xs) : m.next head = some (xs.head?.getD head) := h.2.first_of_exit

lemma Ring.prev_head (h : Ring m head xs) : m.prev head = some (xs.getLast?.getD head) := h.2.last_of_up

lemma Ring.neighbours (h : Ring m head (ys ++ x :: zs)) :
    m.prev x = some (ys.getLast?.getD head) ∧ m.next x = some (zs.head?.getD head) := by
  obtain ⟨mid, enter, h₁, rfl, hp, h₂⟩ := seg_append.mp h.2
  exact ⟨hp.trans h₁.last_of_up, h₂.first_of_exit⟩

lemma Ring.next_ne_none (h : Ring m head xs) (hx : x ∈ xs) : m.next x ≠ none := by
  obtain ⟨ys, zs, rfl⟩ := List.append_of_mem hx
  rw [h.neighbours.2]
  exact Option.some_ne_none _

variable [DecidableEq P]

def Chain.addBack (m : Chain P) (head x : P) : Chain P :=
  (((m.setPrev (some head) (some x)).setNext (some x) (some head)).setPrev (some x) (m.prev head)).setNext
    (m.prev head) (some x)

lemma Ring.addBack (h : Ring m head xs) (hx : x ∉ head :: xs) : Ring (m.addBack head x) head (xs ++ [x]) := by
  have hxh : head ≠ x := fun e => hx (by simp [e])
  refine ⟨?_, ?_⟩
  · rw [← List.cons_append, List.nodup_append]
    refine ⟨h.1, List.nodup_singleton x, ?_⟩
    rintro a ha b hb rfl
    exact hx (List.mem_singleton.mp hb ▸ ha)
  · induction xs using List.reverseRecOn with
    | nil =>
      obtain ⟨hn, hp⟩ := ring_nil.mp h
      refine ⟨?_, ?_, ?_, ?_⟩
      · simp [Chain.addBack, hp]
      · simp [Chain.addBack, hp]
      · simp [Chain.addBack, hxh.symm]
      · simp [Chain.addBack, hp, hxh]
    | append_singleton ys z _ =>
      have hl : m.prev head = some z := by
        rw [h.prev_head, List.getLast?_append_cons]
        rfl
      have hhz : z ≠ head := fun e => h.head_not_mem (by simp [e])
      have hxz : x ≠ z := fun e => hx (by simp [e])
      obtain ⟨mid, enter, h₁, rfl, hpz, hlast, -⟩ := seg_append.mp h.2
      have hzy : ∀ y ∈ ys, z ≠ y ∧ x ≠ y ∧ head ≠ y := by
        intro y hy
        refine ⟨?_, ?_, ?_⟩
        · rintro rfl
          have := h.nodup
          rw [List.nodup_append] at this
          exact this.2.2 z hy z (by simp) rfl
        · rintro rfl
          exact hx (by simp [hy])
        · rintro rfl
          exact h.head_not_mem (by simp [hy])
      rw [List.append_assoc]
      refine seg_append.mpr ⟨mid, some z, ?_, rfl, ?_, ?_, ?_, ?_, ?_⟩
      · have hnext : (m.addBack head x).next head = m.next head := by
          simp [Chain.addBack, hl, hhz, hxh.symm]
        rw [hnext]
        refine h₁.congr fun y hy => ?_
        obtain ⟨h₁, h₂, h₃⟩ := hzy y hy
        simp [Chain.addBack, hl, h₁, h₂, h₃]
      · simpa [Chain.addBack, hxz, hhz.symm] using hpz
      · simp [Chain.addBack, hl]
      · simp [Chain.addBack, hl]
      · simp [Chain.addBack, hxh.symm]
      · simp [Chain.addBack, hl, hxz.symm]

end Kmi.Library.LinkedList
