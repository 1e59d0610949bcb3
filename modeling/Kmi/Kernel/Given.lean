import Mathlib.Data.List.ReduceOption
import Kmi.Kernel.Transparent

/-! Creations that get everything they ask for. -/

namespace Kmi.Kernel

open Library.Prog

variable {α : Type} {k k' : State} {e p q t : ℕ} {answers : List (Option ℕ)}

structure Offers (k : State) : Prop where
  nodup : k.answers.reduceOption.Nodup
  fresh : ∀ a ∈ k.answers.reduceOption, k.stackPages a = false ∧ k.pages a = false ∧ k.nodes a = false

def withPage (k : State) (p : ℕ) : State :=
  { k with answers := k.answers.tail, pages := Function.update k.pages p true }

def withNode (k : State) (p : ℕ) : State :=
  { k with answers := k.answers.tail, nodes := Function.update k.nodes p true }

def withStack (k : State) (p : ℕ) : State :=
  { k with answers := k.answers.tail, stackPages := Function.update k.stackPages p true }

lemma Offers.head (ho : Offers k) (h : k.answers = some p :: answers) :
    k.stackPages p = false ∧ k.pages p = false ∧ k.nodes p = false :=
  ho.fresh p (by simp [h])

lemma Offers.give (ho : Offers k) (h : k.answers = some p :: answers) (hans : k'.answers = k.answers.tail)
    (hstack : ∀ a, a ≠ p → k'.stackPages a = k.stackPages a) (hpages : ∀ a, a ≠ p → k'.pages a = k.pages a)
    (hnodes : ∀ a, a ≠ p → k'.nodes a = k.nodes a) : Offers k' := by
  obtain ⟨hnodup, hfresh⟩ := ho
  rw [h, List.reduceOption_cons_of_some] at hnodup hfresh
  obtain ⟨hnot, hrest⟩ := List.nodup_cons.1 hnodup
  have hans : k'.answers = answers := by rw [hans, h, List.tail_cons]
  rw [← hans] at hnot hrest hfresh
  refine ⟨hrest, fun a ha => ?_⟩
  have hne : a ≠ p := fun h => hnot (h ▸ ha)
  rw [hstack a hne, hpages a hne, hnodes a hne]
  exact hfresh a (List.mem_cons_of_mem _ ha)

lemma Offers.withPage (ho : Offers k) (h : k.answers = some p :: answers) : Offers (withPage k p) :=
  ho.give h rfl (fun _ _ => rfl) (fun _ ha => Function.update_of_ne ha _ _) fun _ _ => rfl

lemma Offers.withNode (ho : Offers k) (h : k.answers = some p :: answers) : Offers (withNode k p) :=
  ho.give h rfl (fun _ _ => rfl) (fun _ _ => rfl) fun _ ha => Function.update_of_ne ha _ _

lemma Offers.withStack (ho : Offers k) (h : k.answers = some p :: answers) : Offers (withStack k p) :=
  ho.give h rfl (fun _ ha => Function.update_of_ne ha _ _) (fun _ _ => rfl) fun _ _ => rfl

lemma setTcb_setTcb (k : State) (a : ℕ) (x y : Tcb) : (k.setTcb a x).setTcb a y = k.setTcb a y := by
  simp [State.setTcb]

@[simp]
lemma withPage_tcb (k : State) (p : ℕ) : (withPage k p).tcb = k.tcb := rfl

@[simp]
lemma withNode_tcb (k : State) (p : ℕ) : (withNode k p).tcb = k.tcb := rfl

@[simp]
lemma withPage_answers (k : State) (p : ℕ) : (withPage k p).answers = k.answers.tail := rfl

@[simp]
lemma setTcb_answers (k : State) (a : ℕ) (x : Tcb) : (k.setTcb a x).answers = k.answers := rfl

@[simp]
lemma setTcb_tcb_self (k : State) (a : ℕ) (x : Tcb) : (k.setTcb a x).tcb a = x := by
  simp [State.setTcb]

lemma Offers.setTcb (ho : Offers k) (a : ℕ) (x : Tcb) : Offers (k.setTcb a x) := ⟨ho.nodup, ho.fresh⟩

def withPages (k : State) : List ℕ → State
  | [] => k
  | p :: ps => withPages (withPage k p) ps

def referenced (k : State) (p : ℕ) : State := k.setTcb p { k.tcb p with refcount := (k.tcb p).refcount + 1 }

structure NextTid (k : State) : Prop where
  few : k.startTid < numTcbs
  free : k.tcbs (validTid k.startTid) = none

structure Listed (n : ℕ) (k k' : State) : Prop where
  tcbs : k'.tcbs = Function.update k.tcbs (validTid k.startTid) (some n)
  tid : (k'.tcb n).thread.tid = validTid k.startTid
  others : ∀ a, a ≠ n → (k'.tcb a).thread.tid = (k.tcb a).thread.tid

lemma Listed.new {n : ℕ} (h : Listed n k k') (hn : NextTid k) : k'.getTcb (validTid k.startTid) = some n := by
  have hpos := validTid_pos k.startTid
  unfold State.getTcb
  rw [if_neg (by omega), validTid_mod hn.few, h.tcbs, Function.update_self]
  simp only
  rw [if_pos h.tid]

lemma NextTid.unknown (hn : NextTid k) : k.getTcb (validTid k.startTid) = none := by
  have hpos := validTid_pos k.startTid
  unfold State.getTcb
  rw [if_neg (by omega), validTid_mod hn.few, hn.free]

lemma Listed.old {n : ℕ} {id : ℤ} (h : Listed n k k') (hn : NextTid k) (hq : k.getTcb id = some q) (hne : q ≠ n) :
    k'.getTcb id = some q := by
  unfold State.getTcb at hq ⊢
  split at hq
  · cases hq
  rename_i hpos
  rw [if_neg hpos, h.tcbs]
  split at hq
  · cases hq
  · rename_i a ha
    have hslot : id % numTcbs ≠ validTid k.startTid := by
      intro hs
      rw [hs, hn.free] at ha
      cases ha
    rw [Function.update_of_ne hslot, ha]
    split at hq
    · rename_i htid
      obtain rfl := Option.some.inj hq
      rw [← h.others a hne] at htid
      exact if_pos htid
    · cases hq

structure Ready (k : State) (n : ℕ) : Prop where
  stack : k.stackPages n = true
  vmem : ∃ v, (k.tcb n).rpcVmem = some v ∧ k.pages v = true
  page : ∃ a, (k.tcb n).rpcPage = some a ∧ k.pages a = true
  tables : (k.tcb n).rpcTables.length = 2 ∧ ∀ a ∈ (k.tcb n).rpcTables, k.pages a = true
  rpcStack : (k.tcb n).thread.rpcStack = Rpc.rpcStackTop
  rpcIdx : (k.tcb n).thread.rpcIdx = Rpc.rpcPages - 1
  regs : (k.tcb n).thread.regs = Rpc.rpcStackTop - Rpc.sizeofCallCtx (k.tcb n).thread.width

structure ProcReady (k : State) (n : ℕ) : Prop where
  procVmem : ∃ v, (k.tcb n).procVmem = some v ∧ k.pages v = true
  region : ∃ r, (k.tcb n).region = some r ∧ k.nodes r = true

structure SameNew (x y : Tcb) : Prop where
  width : y.thread.width = x.thread.width
  rpcVmem : y.rpcVmem = x.rpcVmem
  rpcPage : y.rpcPage = x.rpcPage
  rpcTables : y.rpcTables = x.rpcTables
  procVmem : y.procVmem = x.procVmem
  region : y.region = x.region
  rpcStack : y.thread.rpcStack = x.thread.rpcStack
  rpcIdx : y.thread.rpcIdx = x.thread.rpcIdx
  regs : y.thread.regs = x.thread.regs
  tid : y.thread.tid = x.thread.tid
  pid : y.thread.pid = x.thread.pid

lemma Ready.congr {n : ℕ} (h : Ready k n) (hs : SameNew (k.tcb n) (k'.tcb n)) (hstack : k'.stackPages = k.stackPages)
    (hpages : k'.pages = k.pages) : Ready k' n where
  stack := by
    rw [hstack]
    exact h.stack
  vmem := by
    rw [hs.rpcVmem, hpages]
    exact h.vmem
  page := by
    rw [hs.rpcPage, hpages]
    exact h.page
  tables := by
    rw [hs.rpcTables, hpages]
    exact h.tables
  rpcStack := hs.rpcStack.trans h.rpcStack
  rpcIdx := hs.rpcIdx.trans h.rpcIdx
  regs := by rw [hs.regs, hs.width, h.regs]

lemma ProcReady.congr {n : ℕ} (h : ProcReady k n) (hs : SameNew (k.tcb n) (k'.tcb n)) (hpages : k'.pages = k.pages)
    (hnodes : k'.nodes = k.nodes) : ProcReady k' n where
  procVmem := by
    rw [hs.procVmem, hpages]
    exact h.procVmem
  region := by
    rw [hs.region, hnodes]
    exact h.region

lemma referenced_tcb (k : State) (p a : ℕ) : (referenced k p).tcb a =
    { k.tcb a with refcount := if a = p then (k.tcb a).refcount + 1 else (k.tcb a).refcount } := by
  rw [referenced, setTcb_tcb]
  split_ifs with h
  · rw [h]
  · rfl

structure Building (n : ℕ) (ps : List ℕ) (k k' : State) : Prop extends Listed n k k' where
  stack : k'.stackPages n = true
  pages : ∀ p ∈ ps, k'.pages p = true
  procVmem : ∀ a, a ≠ n → (k'.tcb a).procVmem = (k.tcb a).procVmem

def entered (k : State) (n : ℕ) : State := seated (withStack k n) n 0

lemma entered_stackPages (k : State) (n : ℕ) : (entered k n).stackPages = (withStack k n).stackPages := by
  simp [entered, seated, withStack]

lemma Offers.entered {n : ℕ} (ho : Offers k) (h : k.answers = some n :: answers) : Offers (entered k n) := by
  obtain ⟨hnodup, hfresh⟩ := ho.withStack h
  refine ⟨hnodup, fun a ha => ?_⟩
  rw [entered_stackPages]
  exact hfresh a ha

lemma Building.referenced {n : ℕ} {ps : List ℕ} (h : Building n ps k k') (a : ℕ) :
    Building n ps k (referenced k' a) where
  tcbs := h.tcbs
  tid := by
    rw [referenced_tcb]
    exact h.tid
  others := fun x hx => by
    rw [referenced_tcb]
    exact h.others x hx
  stack := h.stack
  pages := h.pages
  procVmem := fun x hx => by
    rw [referenced_tcb]
    exact h.procVmem x hx

lemma sameNew_refcount (x : Tcb) (n : ℤ) : SameNew x { x with refcount := n } :=
  ⟨rfl, rfl, rfl, rfl, rfl, rfl, rfl, rfl, rfl, rfl, rfl⟩

lemma Ready.referenced {n : ℕ} (h : Ready k n) (a : ℕ) : Ready (referenced k a) n := by
  have hnew : SameNew (k.tcb n) ((Kernel.referenced k a).tcb n) := by
    rw [referenced_tcb]
    exact sameNew_refcount _ _
  exact h.congr hnew rfl rfl

structure Founded (n : ℕ) (k k' : State) : Prop extends Listed n k k' where
  ready : Ready k' n
  procReady : ProcReady k' n
  pid : (k'.tcb n).thread.pid = validTid k.startTid
  rid : (k'.tcb n).rid = validTid k.startTid
  orphan : (k'.tcb n).orphan = false
  copied : (k'.tcb n).copied = []
  same : ∀ x, x ≠ n → k'.tcb x = k.tcb x
  offers : Offers k'
  answers : k'.answers = k.answers.drop 7

lemma Founded.isProc {n : ℕ} (h : Founded n k k') : (k'.tcb n).isProc = true := by
  simp [Tcb.isProc, h.orphan, h.rid, h.tid]

lemma Offers.withPages {ps : List ℕ} (ho : Offers k) (h : k.answers = ps.map some ++ answers) :
    Offers (withPages k ps) ∧ (Kernel.withPages k ps).answers = answers := by
  induction ps generalizing k with
  | nil => exact ⟨ho, h⟩
  | cons p ps ih => exact ih (ho.withPage h) (by rw [withPage_answers, h]; rfl)

end Kmi.Kernel
