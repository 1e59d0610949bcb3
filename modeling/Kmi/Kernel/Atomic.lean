import Kmi.Kernel.Copy

/-! A creation that reports an error has changed nothing, and one that succeeds is complete,
where the allocators give all or nothing. -/

namespace Kmi.Kernel

open Library.Prog

open Rpc (ERR_OOMEM ERR_INVAL)

variable {α : Type} {k k' : State} {e p q t : ℕ} {answers : List (Option ℕ)} {areas : List Area}

def Takes (n : ℕ) (k k' : State) : Prop := ∃ ps : List ℕ, ps.length = n ∧ k.answers = ps.map some ++ k'.answers

lemma Takes.trans {n m : ℕ} {k'' : State} (h : Takes n k k') (h' : Takes m k' k'') : Takes (n + m) k k'' := by
  obtain ⟨ps, hps, hk⟩ := h
  obtain ⟨qs, hqs, hk'⟩ := h'
  refine ⟨ps ++ qs, by rw [List.length_append, hps, hqs], ?_⟩
  rw [hk, hk', List.map_append, List.append_assoc]

lemma supplied_append (ps : List ℕ) (answers : List (Option ℕ)) :
    supplied ps.length (ps.map some ++ answers) = true := by
  induction ps with
  | nil => rw [List.length_nil, supplied]
  | cons p ps ih => exact ih

lemma Takes.supplied {n : ℕ} (h : Takes n k k') : supplied n k.answers = true := by
  obtain ⟨ps, rfl, hk⟩ := h
  rw [hk]
  exact supplied_append ps _

def status (k : State) (t : ℕ) : ℤ := (Rpc.getRegs (k.tcb t).thread).args.s

structure Unchanged (k k' : State) : Prop where
  getTcb : ∀ id, k'.getTcb id = k.getTcb id
  refcount : ∀ id a, k.getTcb id = some a → (k'.tcb a).refcount = (k.tcb a).refcount
  stackPages : k'.stackPages = k.stackPages
  pages : k'.pages = k.pages
  nodes : k'.nodes = k.nodes

lemma setArgs1_eq (t : ℕ) (s : ℤ) (k : State) : setArgs1 t s k =
    .ok () (k.setTcb t { k.tcb t with thread := setRet 2 ⟨s, 0, 0, 0, 0, 0⟩ (k.tcb t).thread }) := rfl

def answered (k : State) (t : ℕ) (s : ℤ) : State :=
  k.setTcb t { k.tcb t with thread := setRet 2 ⟨s, 0, 0, 0, 0, 0⟩ (k.tcb t).thread }

structure Dressed (n : ℕ) (k k' : State) : Prop where
  tcbs : k'.tcbs = k.tcbs
  tid : ∀ a, (k'.tcb a).thread.tid = (k.tcb a).thread.tid
  new : SameNew (k.tcb n) (k'.tcb n)
  stackPages : k'.stackPages = k.stackPages
  pages : k'.pages = k.pages
  nodes : k'.nodes = k.nodes

lemma SameNew.trans {x y z : Tcb} (h : SameNew x y) (h' : SameNew y z) : SameNew x z where
  width := h'.width.trans h.width
  rpcVmem := h'.rpcVmem.trans h.rpcVmem
  rpcPage := h'.rpcPage.trans h.rpcPage
  rpcTables := h'.rpcTables.trans h.rpcTables
  procVmem := h'.procVmem.trans h.procVmem
  region := h'.region.trans h.region
  rpcStack := h'.rpcStack.trans h.rpcStack
  rpcIdx := h'.rpcIdx.trans h.rpcIdx
  regs := h'.regs.trans h.regs
  tid := h'.tid.trans h.tid
  pid := h'.pid.trans h.pid

lemma Dressed.trans {n : ℕ} {k'' : State} (h : Dressed n k k') (h' : Dressed n k' k'') : Dressed n k k'' where
  tcbs := h'.tcbs.trans h.tcbs
  tid := fun a => (h'.tid a).trans (h.tid a)
  new := h.new.trans h'.new
  stackPages := h'.stackPages.trans h.stackPages
  pages := h'.pages.trans h.pages
  nodes := h'.nodes.trans h.nodes

lemma SameNew.refl (x : Tcb) : SameNew x x := ⟨rfl, rfl, rfl, rfl, rfl, rfl, rfl, rfl, rfl, rfl, rfl⟩

lemma Dressed.ready {n : ℕ} (h : Dressed n k k') (hr : Ready k n) : Ready k' n :=
  hr.congr h.new h.stackPages h.pages

lemma Dressed.procReady {n : ℕ} (h : Dressed n k k') (hr : ProcReady k n) : ProcReady k' n :=
  hr.congr h.new h.pages h.nodes

lemma Dressed.getTcb {n : ℕ} (h : Dressed n k k') (id : ℤ) : k'.getTcb id = k.getTcb id := by
  unfold State.getTcb
  simp only [h.tcbs, h.tid]

end Kmi.Kernel
