import Kmi.Library.LinkedList

/-! The queue of inter-processor interrupts, from `src/ipi.c` with `include/kmi/queue.h` and
`include/kmi/list.h`. A write through a null pointer has no result. -/

namespace Kmi.Ipi

open Kmi.Library.LinkedList

inductive Node where
  | fifo
  | thread (tid : ℕ)
deriving DecidableEq, Repr

abbrev Heads := Chain Node

def listAddBetween (h : Heads) (new : Node) (prev : Option Node) (next : Node) : Option Heads := do
  let h := h.setPrev (some next) (some new)
  let h := h.setNext (some new) (some next)
  let h := h.setPrev (some new) prev
  let prev ← prev
  some (h.setNext (some prev) (some new))

def listAddTail (h : Heads) (new head : Node) : Option Heads :=
  listAddBetween h new (h.prev head) head

def listLink (h : Heads) (prev next : Option Node) : Option Heads := do
  let next ← next
  let h := h.setPrev (some next) prev
  let prev ← prev
  some (h.setNext (some prev) (some next))

/-- The source hands the two neighbours to `__list_link` the other way round. -/
def listDelEntry (h : Heads) (entry : Node) : Option Heads :=
  listLink h (h.next entry) (h.prev entry)

def listDel (h : Heads) (entry : Node) : Option Heads := do
  let h ← listDelEntry h entry
  some ((h.setNext (some entry) none).setPrev (some entry) none)

def inList (h : Heads) (entry : Node) : Bool := h.next entry ≠ none

def listEmpty (h : Heads) (head : Node) : Bool := h.next head = some head

def listFront (h : Heads) (head : Node) : Option Node :=
  if listEmpty h head then none else h.next head

def queuePush (h : Heads) (new head : Node) : Option Heads :=
  if inList h new then some h else listAddTail h new head

def queuePop (h : Heads) (head : Node) : Option (Heads × Option Node) :=
  match listFront h head with
  | none => some (h, none)
  | some e => do
    let h ← listDel h e
    some (h, some e)

def queueDel (h : Heads) (head : Node) : Option Heads :=
  if inList h head then listDel h head else some h

/-- The arguments stand the other way round than `queue_push` takes them. -/
def sendIpi (h : Heads) (t : ℕ) : Option Heads := queuePush h .fifo (.thread t)

def unqueueIpi (h : Heads) (t : ℕ) : Option Heads := queueDel h (.thread t)

/-- The part of `handle_ipi` up to the thread that it then notifies. -/
def handleIpi (h : Heads) : Option (Heads × Option Node) := queuePop h .fifo

/-- The queue after `INIT_QUEUE`, with the heads in threads zeroed by `create_thread`. -/
def initHeads : Heads :=
  ⟨fun n => if n = .fifo then some .fifo else none, fun n => if n = .fifo then some .fifo else none⟩

inductive Event where
  | send (t : ℕ)
  | unqueue (t : ℕ)
  | handle
deriving DecidableEq, Repr

def run (h : Heads) : List Event → Option (List (Option Node))
  | [] => some []
  | .send t :: es => do
    let h ← sendIpi h t
    run h es
  | .unqueue t :: es => do
    let h ← unqueueIpi h t
    run h es
  | .handle :: es => do
    let (h, r) ← handleIpi h
    let rs ← run h es
    some (r :: rs)

def waits (pending : List ℕ) : Event → List ℕ
  | .send t => if t ∈ pending then pending else pending ++ [t]
  | .unqueue t => pending.erase t
  | .handle => pending.tail

def ought (pending : List ℕ) : List Event → List (Option Node)
  | [] => []
  | .handle :: es => pending.head?.map Node.thread :: ought (waits pending .handle) es
  | e :: es => ought (waits pending e) es

def sent (pending : List ℕ) : List Event → List ℕ
  | [] => pending
  | .handle :: es => sent pending es
  | e :: es => sent (waits pending e) es

lemma sendIpi_init (t : ℕ) : sendIpi initHeads t = some initHeads := rfl

lemma unqueueIpi_init (t : ℕ) : unqueueIpi initHeads t = some initHeads := rfl

lemma handleIpi_init : handleIpi initHeads = some (initHeads, none) := rfl

lemma run_init (es : List Event) :
    run initHeads es = some (List.replicate (es.count .handle) none) := by
  induction es with
  | nil => rfl
  | cons e es ih =>
    cases e with
    | send t =>
      rw [run, sendIpi_init, Option.bind_eq_bind, Option.bind_some, ih, List.count_cons_of_ne (by simp)]
    | unqueue t =>
      rw [run, unqueueIpi_init, Option.bind_eq_bind, Option.bind_some, ih,
        List.count_cons_of_ne (by simp)]
    | handle =>
      rw [run, handleIpi_init, List.count_cons_self, List.replicate_succ]
      simp only [Option.bind_eq_bind, Option.bind_some, ih]

lemma ought_none_iff (pending : List ℕ) (es : List Event) :
    ought pending es = List.replicate (es.count .handle) none ↔
      ∀ before after, es = before ++ .handle :: after → sent pending before = [] := by
  induction es generalizing pending with
  | nil => simp [ought]
  | cons e es ih =>
    by_cases he : e = .handle
    · subst he
      rw [ought, List.count_cons_self, List.replicate_succ, List.cons.injEq, Option.map_eq_none_iff,
        List.head?_eq_none_iff, ih]
      constructor
      · rintro ⟨rfl, h⟩ before after heq
        cases before with
        | nil => rfl
        | cons e' before =>
          obtain ⟨rfl, rfl⟩ := List.cons.inj heq
          exact h before after rfl
      · intro h
        obtain rfl : pending = [] := h [] es rfl
        refine ⟨rfl, fun before after heq => ?_⟩
        exact h (.handle :: before) after (by rw [heq]; rfl)
    · have hought : ought pending (e :: es) = ought (waits pending e) es := by
        cases e with
        | handle => exact absurd rfl he
        | send t => rfl
        | unqueue t => rfl
      have hsent : ∀ before, sent pending (e :: before) = sent (waits pending e) before := by
        intro before
        cases e with
        | handle => exact absurd rfl he
        | send t => rfl
        | unqueue t => rfl
      rw [hought, List.count_cons_of_ne he, ih]
      constructor
      · intro h before after heq
        cases before with
        | nil =>
          obtain ⟨rfl, -⟩ := List.cons.inj heq
          exact absurd rfl he
        | cons e' before =>
          obtain ⟨rfl, rfl⟩ := List.cons.inj heq
          rw [hsent]
          exact h before after rfl
      · intro h before after heq
        rw [← hsent]
        exact h (e :: before) after (by rw [heq]; rfl)

theorem ipi_queue_iff (es : List Event) :
    run initHeads es = some (ought [] es) ↔
      ∀ before after, es = before ++ .handle :: after → sent [] before = [] := by
  rw [run_init, Option.some.injEq, eq_comm]
  exact ought_none_iff [] es

theorem sent_thread_is_lost :
    run initHeads [.send 7, .handle] = some [none] ∧
      ought [] [.send 7, .handle] = [some (.thread 7)] ∧
      run initHeads [.send 7, .handle] ≠ some (ought [] [.send 7, .handle]) := by
  decide

end Kmi.Ipi
