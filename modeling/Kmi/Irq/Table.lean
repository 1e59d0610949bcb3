import Kmi.Kernel.Tcb

/-! The interrupt table of `src/irq.c` and the calls of `src/uapi/irq.c` on it. The words
of memory from the table on are given by their offset in bytes, so that an index past the
table reads and writes what lies there. -/

namespace Kmi.Irq

open Kernel (Tcb isSet CAP_IRQ ERR_PERM ERR_EXT)
open Rpc (OK ERR_NF ERR_INVAL IdWidth)

def sizeofId (w : IdWidth) : ℕ := w.bits / 8

def maxIrq (w : IdWidth) : ℕ := 4096 / sizeofId w

/-- `touched` only records the indices at which `irq_map` is read or written. -/
structure Table where
  width : IdWidth
  words : BitVec 64 → ℤ
  touched : List ℕ

def initIrq (w : IdWidth) : Table := ⟨w, fun _ => 0, []⟩

namespace Table

variable (m : Table)

def maxIrq : ℕ := Irq.maxIrq m.width

/-- The argument of a call as an `irq_t`. -/
def irqId (arg : BitVec 64) : ℕ := arg.toNat % 2 ^ m.width.bits

def offset (id : ℕ) : BitVec 64 := BitVec.ofNat 64 (sizeofId m.width * id)

def word (id : ℕ) : ℤ := m.words (m.offset id)

def touch (id : ℕ) : Table := { m with touched := id :: m.touched }

def setWord (id : ℕ) (tid : ℤ) : Table := { m with words := Function.update m.words (m.offset id) tid }

end Table

def activateIrq (_ : ℕ) : ℤ := OK

def deactivateIrq (_ : ℕ) : ℤ := OK

def getIrq : ℕ := 0

def registerIrq (m : Table) (t : Tcb) (id : ℕ) : ℤ × Table :=
  if m.maxIrq ≤ id then (ERR_INVAL, m)
  else if m.word id ≠ 0 then (ERR_EXT, m.touch id)
  else (activateIrq id, ((m.touch id).touch id).setWord id t.thread.tid)

def unregisterIrq (m : Table) (t : Tcb) (id : ℕ) : ℤ × Table :=
  if m.word id ≠ t.thread.tid then (ERR_PERM, m.touch id)
  else (deactivateIrq id, ((m.touch id).touch id).setWord id 0)

def sysIrqReq (m : Table) (t : Tcb) (arg : BitVec 64) : ℤ × Table :=
  if !isSet t.caps CAP_IRQ then (ERR_PERM, m)
  else if t.callback = 0 ∨ t.notifyId = 0 then (ERR_NF, m)
  else registerIrq m t (m.irqId arg)

def sysFreeIrq (m : Table) (t : Tcb) (arg : BitVec 64) : ℤ × Table :=
  if !isSet t.caps CAP_IRQ then (ERR_PERM, m)
  else unregisterIrq m t (m.irqId arg)

/-- Whom an interrupt is for: nobody has registered it, the thread is dead or an orphan, or it is
there to be notified. -/
inductive Served (α : Type) where
  | unregistered
  | dead
  | owner (t : α)

def handleIrq {α : Type} (m : Table) (getTcb : ℤ → Option α) (orphan : α → Bool) : Option (Served α × Table) :=
  let id := getIrq
  if id < m.maxIrq then
    let tid := m.word id
    let m := m.touch id
    if tid = 0 then some (.unregistered, m)
    else
      match getTcb tid with
      | none => some (.dead, (m.touch id).setWord id 0)
      | some t => if orphan t then some (.dead, (m.touch id).setWord id 0) else some (.owner t, m)
  else none

lemma getIrq_lt (m : Table) : getIrq < m.maxIrq := by
  rw [Table.maxIrq]
  cases m.width <;> decide

lemma handleIrq_cases {α : Type} (m : Table) (getTcb : ℤ → Option α) (orphan : α → Bool) :
    m.word getIrq = 0 ∧ handleIrq m getTcb orphan = some (.unregistered, m.touch getIrq) ∨
    m.word getIrq ≠ 0 ∧ (∀ t, getTcb (m.word getIrq) = some t → orphan t) ∧
      handleIrq m getTcb orphan = some (.dead, ((m.touch getIrq).touch getIrq).setWord getIrq 0) ∨
    ∃ t, m.word getIrq ≠ 0 ∧ getTcb (m.word getIrq) = some t ∧ orphan t = false ∧
      handleIrq m getTcb orphan = some (.owner t, m.touch getIrq) := by
  unfold handleIrq
  rw [if_pos (getIrq_lt m)]
  by_cases hz : m.word getIrq = 0
  · exact .inl ⟨hz, by rw [if_pos hz]⟩
  · rw [if_neg hz]
    cases hg : getTcb (m.word getIrq) with
    | none => exact .inr (.inl ⟨hz, nofun, rfl⟩)
    | some t =>
      cases ho : orphan t with
      | true =>
        refine .inr (.inl ⟨hz, fun t' ht' => ?_, by simp only [ho, if_true]⟩)
        obtain rfl := Option.some.inj ht'
        exact ho
      | false => exact .inr (.inr ⟨t, hz, rfl, ho, by simp only [ho, Bool.false_eq_true, if_false]⟩)

lemma getTcb_of_owner {α : Type} {m m' : Table} {getTcb : ℤ → Option α} {orphan : α → Bool} {t : α}
    (h : handleIrq m getTcb orphan = some (.owner t, m')) : ∃ tid, getTcb tid = some t := by
  obtain ⟨-, heq⟩ | ⟨-, -, heq⟩ | ⟨u, -, hu, -, heq⟩ := handleIrq_cases m getTcb orphan
  · rw [heq] at h
    cases h
  · rw [heq] at h
    cases h
  · rw [heq] at h
    cases h
    exact ⟨_, hu⟩

end Kmi.Irq
