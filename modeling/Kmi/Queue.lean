import Kmi.Ipi
import Kmi.Library.Ring

/-! The queue of `include/kmi/queue.h` over runs of its calls, against the list that it
stands for. -/

namespace Kmi.Queue

open Kmi.Library.LinkedList Kmi.Ipi

inductive Call where
  | push (t : ℕ)
  | pop
  | del (t : ℕ)
deriving DecidableEq, Repr

def Call.exec (h : Heads) : Call → Option (Heads × List (Option Node))
  | .push t => (queuePush h (.thread t) .fifo).map fun h => (h, [])
  | .pop => (queuePop h .fifo).map fun r => (r.1, [r.2])
  | .del t => (queueDel h (.thread t)).map fun h => (h, [])

def runCalls (h : Heads) : List Call → Option (Heads × List (Option Node))
  | [] => some (h, [])
  | c :: cs => do
    let r ← c.exec h
    let r' ← runCalls r.1 cs
    some (r'.1, r.2 ++ r'.2)

def Call.queued (ts : List ℕ) : Call → List ℕ
  | .push t => if t ∈ ts then ts else ts ++ [t]
  | .pop => ts.tail
  | .del t => ts.erase t

def Call.returned (ts : List ℕ) : Call → List (Option Node)
  | .pop => [ts.head?.map Node.thread]
  | _ => []

def queuedAfter (ts : List ℕ) : List Call → List ℕ
  | [] => ts
  | c :: cs => queuedAfter (c.queued ts) cs

def returnedBy (ts : List ℕ) : List Call → List (Option Node)
  | [] => []
  | c :: cs => c.returned ts ++ returnedBy (c.queued ts) cs

/-- The run does not fault, pops return the entries in push order, and `in_queue` knows
which are left. -/
def Fifo (cs : List Call) : Prop :=
  ∃ h, runCalls initHeads cs = some (h, returnedBy [] cs) ∧
    ∀ t, inList h (.thread t) = true ↔ t ∈ queuedAfter [] cs

def Call.Removes (ts : List ℕ) : Call → Prop
  | .push _ => False
  | .pop => ts ≠ []
  | .del t => t ∈ ts

def OneQueued (ts : List ℕ) : List Call → Prop
  | [] => True
  | c :: cs => (c.Removes ts → ts.length ≤ 1) ∧ OneQueued (c.queued ts) cs

structure Holds (h : Heads) (ts : List ℕ) : Prop where
  ring : Ring h .fifo (ts.map Node.thread)
  others : ∀ t, t ∉ ts → h.next (.thread t) = none

variable {h h' : Heads} {ts : List ℕ} {t : ℕ} {c : Call} {cs : List Call}

lemma initHeads_holds : Holds initHeads [] :=
  ⟨ring_nil.mpr ⟨rfl, rfl⟩, fun _ _ => rfl⟩

lemma thread_mem : Node.thread t ∈ ts.map Node.thread ↔ t ∈ ts := by
  rw [List.mem_map]
  constructor
  · rintro ⟨t', ht, he⟩
    cases he
    exact ht
  · exact fun ht => ⟨t, ht, rfl⟩

lemma Holds.nodup (hh : Holds h ts) : ts.Nodup := hh.ring.nodup.of_map _

lemma Holds.inList_iff (hh : Holds h ts) : inList h (.thread t) = true ↔ t ∈ ts := by
  rw [inList, decide_eq_true_iff]
  constructor
  · intro hn
    by_contra ht
    exact hn (hh.others t ht)
  · exact fun ht => hh.ring.next_ne_none (thread_mem.mpr ht)

lemma listAddTail_eq {x : Node} (hp : h.prev .fifo ≠ none) :
    listAddTail h x .fifo = some (h.addBack .fifo x) := by
  obtain ⟨p, hp⟩ := Option.ne_none_iff_exists'.mp hp
  rw [listAddTail, listAddBetween, Chain.addBack, hp]
  rfl

lemma Holds.push (hh : Holds h ts) (t : ℕ) :
    ∃ h', Call.exec h (.push t) = some (h', []) ∧ Holds h' ((Call.push t).queued ts) := by
  rw [Call.exec, Call.queued, queuePush]
  split_ifs with hin ht ht
  · exact ⟨h, rfl, hh⟩
  · exact absurd (hh.inList_iff.mp hin) ht
  · exact absurd (hh.inList_iff.mpr ht) hin
  · have hx : Node.thread t ∉ Node.fifo :: ts.map Node.thread := by
      rw [List.mem_cons, not_or, thread_mem]
      exact ⟨by simp, ht⟩
    have hp : h.prev .fifo ≠ none := by
      rw [hh.ring.prev_head]
      exact Option.some_ne_none _
    rw [listAddTail_eq hp]
    refine ⟨_, rfl, ?_, fun t' ht' => ?_⟩
    · rw [List.map_append]
      exact hh.ring.addBack hx
    · rw [List.mem_append, not_or, List.mem_singleton] at ht'
      have hl : h.prev .fifo ≠ some (.thread t') := by
        rw [hh.ring.prev_head, List.getLast?_map]
        cases hlast : ts.getLast? with
        | none => simp
        | some l =>
          simp only [Option.map_some, Option.getD_some, ne_eq, Option.some.injEq, Node.thread.injEq]
          rintro rfl
          exact ht'.1 (List.mem_of_getLast? hlast)
      have htt : t ≠ t' := fun e => ht'.2 e.symm
      simp [Chain.addBack, hl, htt, hh.others t' ht'.1]

lemma Holds.del_one (hh : Holds h [t]) :
    ∃ h', listDel h (.thread t) = some h' ∧ Holds h' [] := by
  obtain ⟨hp, hn⟩ := @Ring.neighbours _ h [] [] .fifo (.thread t) hh.ring
  have hp' : h.prev (.thread t) = some .fifo := hp
  have hn' : h.next (.thread t) = some .fifo := hn
  rw [listDel, listDelEntry, listLink, hp', hn']
  refine ⟨_, rfl, ring_nil.mpr ⟨?_, ?_⟩, fun t' _ => ?_⟩
  · simp
  · simp
  · by_cases he : t' = t
    · simp [he]
    · have hne : t ≠ t' := fun e => he e.symm
      simp [hne, hh.others t' (by simpa using he)]

lemma Holds.front (hh : Holds h ts) : listFront h .fifo = ts.head?.map Node.thread := by
  rw [listFront, listEmpty, hh.ring.next_head]
  cases ts with
  | nil => rfl
  | cons t ts => rfl

lemma Holds.step (hh : Holds h ts) (hc : c.Removes ts → ts.length ≤ 1) :
    ∃ h', c.exec h = some (h', c.returned ts) ∧ Holds h' (c.queued ts) := by
  cases c with
  | push t => exact hh.push t
  | pop =>
    rw [Call.exec, Call.returned, Call.queued, queuePop, hh.front]
    cases ts with
    | nil => exact ⟨h, rfl, hh⟩
    | cons t ts =>
      have hle := hc (List.cons_ne_nil t ts)
      rw [List.length_cons] at hle
      obtain rfl : ts = [] := List.length_eq_zero_iff.mp (by omega)
      obtain ⟨h', hd, hh'⟩ := hh.del_one
      refine ⟨h', ?_, hh'⟩
      rw [List.head?_cons, Option.map_some]
      dsimp only
      rw [hd]
      rfl
  | del t =>
    rw [Call.exec, Call.queued, queueDel, show (Call.del t).returned ts = [] from rfl]
    split_ifs with hin
    · have ht := hh.inList_iff.mp hin
      have hpos := List.length_pos_of_mem ht
      obtain ⟨a, rfl⟩ := List.length_eq_one_iff.mp (show ts.length = 1 by have := hc ht; omega)
      obtain rfl := List.mem_singleton.mp ht
      obtain ⟨h', hd, hh'⟩ := hh.del_one
      refine ⟨h', by rw [hd]; rfl, ?_⟩
      rwa [List.erase_cons_head]
    · refine ⟨h, rfl, ?_⟩
      rwa [List.erase_of_not_mem fun ht => hin (hh.inList_iff.mpr ht)]

lemma Holds.run (hh : Holds h ts) (hc : OneQueued ts cs) :
    ∃ h', runCalls h cs = some (h', returnedBy ts cs) ∧ Holds h' (queuedAfter ts cs) := by
  induction cs generalizing h ts with
  | nil => exact ⟨h, rfl, hh⟩
  | cons c cs ih =>
    obtain ⟨h₁, hstep, hh₁⟩ := hh.step hc.1
    obtain ⟨h₂, hrun, hh₂⟩ := ih hh₁ hc.2
    refine ⟨h₂, ?_, hh₂⟩
    rw [runCalls, hstep, Option.bind_eq_bind, Option.bind_some, hrun]
    rfl

lemma queuePop_front {x : Node} (hx : x ≠ .fifo) (hn : h.next .fifo = some x) :
    queuePop h .fifo = (listDel h x).map fun h => (h, some x) := by
  have hf : listFront h .fifo = some x := by
    rw [listFront, listEmpty, hn]
    simp [hx]
  rw [queuePop, hf]
  cases hd : listDel h x with
  | none => simp [hd]
  | some h' => simp [hd]

lemma listDel_eq {x p n : Node} (hp : h.prev x = some p) (hn : h.next x = some n) :
    listDel h x = some ((((h.setPrev (some p) (some n)).setNext (some n) (some p)).setNext (some x)
      none).setPrev (some x) none) := by
  rw [listDel, listDelEntry, listLink, hp, hn]
  rfl

lemma pop_faults {x : Node} (hx : x ≠ .fifo) (hn : h.next .fifo = some x) (hp : h.prev x = none) :
    queuePop h .fifo = none := by
  rw [queuePop_front hx hn, listDel, listDelEntry, listLink, hp]
  cases h.next x <;> rfl

lemma pop_stays {x y p : Node} (hx : x ≠ .fifo) (hy : y ≠ .fifo) (hn : h.next .fifo = some x)
    (hxy : h.next x = some y) (hp : h.prev x = some p) :
    ∃ h', queuePop h .fifo = some (h', some x) ∧ queuePop h' .fifo = none := by
  rw [queuePop_front hx hn, listDel_eq hp hxy]
  refine ⟨_, rfl, pop_faults hx ?_ ?_⟩
  · simp [hx, hy, hn]
  · simp

def Broken (h : Heads) (ts : List ℕ) : Prop :=
  ∀ h', runCalls h [.pop, .pop] ≠ some (h', returnedBy ts [.pop, .pop])

lemma broken_of_fault (hf : queuePop h .fifo = none) : Broken h ts := by
  intro h' hr
  rw [runCalls, Call.exec, hf] at hr
  cases hr

lemma broken_of_next_fault {x : Option Node} (hp : queuePop h .fifo = some (h', x))
    (hf : queuePop h' .fifo = none) : Broken h ts := by
  intro h₂ hr
  rw [runCalls, Call.exec, hp, Option.map_some, Option.bind_eq_bind, Option.bind_some, runCalls,
    Call.exec, hf] at hr
  cases hr

lemma broken_of_wrong {x : Node} (hx : x ≠ .fifo) (hn : h.next .fifo = some x)
    (hne : ts.head?.map Node.thread ≠ some x) : Broken h ts := by
  intro h₂ hr
  rw [runCalls, Call.exec, queuePop_front hx hn] at hr
  cases hd : listDel h x with
  | none =>
    rw [hd] at hr
    cases hr
  | some h₁ =>
    rw [hd, Option.map_some, Option.map_some, Option.bind_eq_bind, Option.bind_some] at hr
    obtain ⟨r, -, hr⟩ := Option.bind_eq_some_iff.mp hr
    have hout := congrArg Prod.snd (Option.some.inj hr)
    exact hne (List.cons.inj hout).1.symm

lemma Holds.del_front {a b : ℕ} (hh : Holds h (a :: b :: ts)) :
    ∃ h', listDel h (.thread a) = some h' ∧ queuePop h' .fifo = none := by
  obtain ⟨hp, hn⟩ := @Ring.neighbours _ h [] (.thread b :: ts.map Node.thread) .fifo (.thread a) hh.ring
  have hfirst : h.next .fifo = some (.thread a) := hh.ring.next_head
  refine ⟨_, listDel_eq hp hn, @pop_faults _ (.thread a) (by simp) ?_ ?_⟩
  · simp [hfirst]
  · simp

lemma Holds.del_behind {a t : ℕ} {pre post : List ℕ} (hh : Holds h (a :: pre ++ t :: post)) :
    ∃ h', listDel h (.thread t) = some h' ∧ Broken h' (a :: pre ++ post) := by
  have hring : Ring h .fifo ((a :: pre).map Node.thread ++ .thread t :: post.map Node.thread) := by
    have := hh.ring
    rwa [List.map_append, List.map_cons] at this
  obtain ⟨hp, hn⟩ := hring.neighbours
  obtain ⟨hpa, hna⟩ := @Ring.neighbours _ h [] (pre.map Node.thread ++ .thread t :: post.map Node.thread)
    .fifo (.thread a) hring
  have hfirst : h.next .fifo = some (.thread a) := hring.next_head
  have hnd := List.nodup_cons.mp hh.nodup
  have hat : a ≠ t := by
    rintro rfl
    exact hnd.1 (List.mem_append_right _ List.mem_cons_self)
  obtain ⟨y, hay⟩ : ∃ y, h.next (.thread a) = some (.thread y) := by
    cases pre with
    | nil => exact ⟨t, hna⟩
    | cons y pre => exact ⟨y, hna⟩
  refine ⟨_, listDel_eq hp hn, ?_⟩
  cases post with
  | nil =>
    induction pre using List.reverseRecOn with
    | nil =>
      obtain ⟨h', hpop, hf⟩ := @pop_stays ((((h.setPrev (some (.thread a)) (some .fifo)).setNext
        (some .fifo) (some (.thread a))).setNext (some (.thread t)) none).setPrev (some (.thread t)) none)
        (.thread a) (.thread y) .fifo (by simp) (by simp) (by simp) (by simp [hat.symm, hay])
        (by simp [hat.symm])
      exact broken_of_next_fault hpop hf
    | append_singleton pre l _ =>
      -- the head now leads to the last entry that is left
      have hla : l ≠ a := by
        rintro rfl
        exact hnd.1 (by simp)
      have hl : (((a :: (pre ++ [l])).map Node.thread).getLast?.getD .fifo) = .thread l := by
        rw [← List.cons_append, List.map_append, List.map_singleton, List.getLast?_append_cons]
        rfl
      rw [hl]
      apply @broken_of_wrong _ _ (.thread l) (by simp)
      · simp
      · simp [hla.symm]
  | cons b post =>
    -- the head still leads to the first entry, which still leads on
    have hba : b ≠ a := by
      rintro rfl
      exact hnd.1 (by simp)
    generalize (((a :: pre).map Node.thread).getLast?.getD .fifo) = p
    have hprev : ∃ q, ((((h.setPrev (some p) (some (.thread b))).setNext (some (.thread b))
        (some p)).setNext (some (.thread t)) none).setPrev (some (.thread t)) none).prev (.thread a) =
          some q := by
      by_cases hpa' : p = .thread a
      · exact ⟨.thread b, by simp [hpa', hat.symm]⟩
      · exact ⟨.fifo, by simpa [hpa', hat.symm] using hpa⟩
    obtain ⟨q, hq⟩ := hprev
    obtain ⟨h', hpop, hf⟩ := @pop_stays _ (.thread a) (.thread y) q (by simp) (by simp)
      (by simp [hfirst]) (by simp [hat.symm, hba, hay]) hq
    exact broken_of_next_fault hpop hf

lemma Holds.removal_breaks (hh : Holds h ts) (hr : c.Removes ts) (hlen : 2 ≤ ts.length) :
    ∃ h', c.exec h = some (h', c.returned ts) ∧ Broken h' (c.queued ts) := by
  obtain ⟨a, b, ts, rfl⟩ : ∃ a b us, ts = a :: b :: us := by
    cases ts with
    | nil => simp at hlen
    | cons a ts =>
      cases ts with
      | nil => simp at hlen
      | cons b ts => exact ⟨a, b, ts, rfl⟩
  cases c with
  | push t => cases hr
  | pop =>
    obtain ⟨h', hd, hf⟩ := hh.del_front
    refine ⟨h', ?_, broken_of_fault hf⟩
    rw [Call.exec, @queuePop_front h (.thread a) (by simp) hh.ring.next_head, hd]
    rfl
  | del t =>
    have hin := hh.inList_iff.mpr hr
    rw [Call.exec, queueDel, if_pos hin, Call.queued]
    by_cases hta : t = a
    · subst hta
      obtain ⟨h', hd, hf⟩ := hh.del_front
      exact ⟨h', by rw [hd]; rfl, broken_of_fault hf⟩
    · have ht : t ∈ b :: ts := List.mem_of_ne_of_mem hta hr
      obtain ⟨pre, post, he, htp⟩ := List.eq_append_cons_of_mem ht
      rw [he, ← List.cons_append] at hh ⊢
      obtain ⟨h', hd, hb⟩ := hh.del_behind
      refine ⟨h', by rw [hd]; rfl, ?_⟩
      rwa [List.erase_append_right _ (by simp [hta, htp]), List.erase_cons_head]

lemma runCalls_append {ds : List Call} {out : List (Option Node)} (h₁ : runCalls h cs = some (h', out)) :
    runCalls h (cs ++ ds) = (runCalls h' ds).map fun r => (r.1, out ++ r.2) := by
  induction cs generalizing h out with
  | nil =>
    cases h₁
    simp
  | cons c cs ih =>
    rw [runCalls] at h₁
    obtain ⟨r, hr, h₁⟩ := Option.bind_eq_some_iff.mp h₁
    obtain ⟨r', hr', h₁⟩ := Option.bind_eq_some_iff.mp h₁
    cases h₁
    rw [List.cons_append, runCalls, hr, Option.bind_eq_bind, Option.bind_some, ih hr']
    cases hd : runCalls r'.1 ds <;> simp

lemma returnedBy_append (ts : List ℕ) (cs ds : List Call) :
    returnedBy ts (cs ++ ds) = returnedBy ts cs ++ returnedBy (queuedAfter ts cs) ds := by
  induction cs generalizing ts with
  | nil => rfl
  | cons c cs ih => rw [List.cons_append, returnedBy, returnedBy, queuedAfter, ih, List.append_assoc]

lemma OneQueued.of_append {ds : List Call} (h : OneQueued ts (cs ++ ds)) : OneQueued ts cs := by
  induction cs generalizing ts with
  | nil => trivial
  | cons c cs ih => exact ⟨h.1, ih h.2⟩

lemma fifo_of_oneQueued (h : OneQueued [] cs) : Fifo cs := by
  obtain ⟨h', hr, hh⟩ := initHeads_holds.run h
  exact ⟨h', hr, fun t => hh.inList_iff⟩

/-- The queue is a queue in every run that takes entries out only one at a time, at every
point of it, and no longer once one is taken out from among others. -/
theorem queue_is_fifo (h : OneQueued [] cs) :
    (∀ before after, cs = before ++ after → Fifo before) ∧
      ∀ c, c.Removes (queuedAfter [] cs) → 2 ≤ (queuedAfter [] cs).length →
        ¬ Fifo (cs ++ [c, .pop, .pop]) := by
  refine ⟨?_, fun c hr hlen hf => ?_⟩
  · rintro before after rfl
    exact fifo_of_oneQueued h.of_append
  · obtain ⟨h₁, hrun, hh⟩ := initHeads_holds.run h
    obtain ⟨h₂, hc, hb⟩ := hh.removal_breaks hr hlen
    obtain ⟨h₃, hf, -⟩ := hf
    rw [runCalls_append hrun, runCalls, hc, Option.bind_eq_bind, Option.bind_some, returnedBy_append,
      returnedBy] at hf
    obtain ⟨r, hr, he⟩ := Option.map_eq_some_iff.mp hf
    obtain ⟨⟨h₄, out⟩, hr', he'⟩ := Option.bind_eq_some_iff.mp hr
    cases he'
    obtain ⟨-, hout⟩ := Prod.mk.inj he
    obtain rfl := List.append_cancel_left (List.append_cancel_left hout)
    exact hb h₄ hr'

def twoWait : List Call := [.push 1, .pop, .push 2, .push 1, .push 2]

theorem queue_is_fifo_twoWait :
    (∀ before after, twoWait = before ++ after → Fifo before) ∧
      ∀ c, c.Removes (queuedAfter [] twoWait) → 2 ≤ (queuedAfter [] twoWait).length →
        ¬ Fifo (twoWait ++ [c, .pop, .pop]) := by
  have hone : OneQueued [] twoWait :=
    ⟨False.elim, fun _ => le_rfl, False.elim, False.elim, False.elim, trivial⟩
  exact queue_is_fifo hone

theorem second_pop_faults :
    runCalls initHeads [.push 1, .push 2, .pop, .pop] = none ∧
      returnedBy [] [.push 1, .push 2, .pop, .pop] = [some (.thread 1), some (.thread 2)] ∧
      ¬ Fifo [.push 1, .push 2, .pop, .pop] := by
  have hnone : runCalls initHeads [.push 1, .push 2, .pop, .pop] = none := by decide
  refine ⟨hnone, by decide, ?_⟩
  rintro ⟨h, hr, -⟩
  rw [hnone] at hr
  cases hr

end Kmi.Queue
