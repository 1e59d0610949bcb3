import Kmi.Kernel.Given

/-! What `copy_uvmem` needs to come back, and to copy all the memory of the parent. -/

namespace Kmi.Kernel

open Library.Prog

variable {k k' : State} {n : ℕ} {a : Area} {areas : List Area} {answers : List (Option ℕ)}

/-- The process whose pages a region shares, as `copy_uvmem` finds it. -/
structure Lender where
  rid : ℤ
  hasVmem : Bool
deriving DecidableEq, Repr

def lender (k : State) (pid : ℤ) : Option Lender :=
  (k.getTcb pid).map fun s => ⟨(k.tcb s).rid, (k.tcb s).procVmem.isSome⟩

def Area.needs (a : Area) : ℕ := a.nodes.getD 0 + a.pages

def needs (areas : List Area) : ℕ := (areas.map Area.needs).sum

def Area.copies (own : ℤ → Option Lender) (a : Area) : Bool :=
  match a.backing with
  | .own => a.whole
  | .nonbacked => false
  | .shared pid _ => a.whole && (own pid).isSome

def Area.placed (a : Area) (answers : List (Option ℕ)) : Bool := a.nodes.any fun m => supplied m answers

/-- The kernel gets over the copy of a region that the process `l` shares: there is memory
to read, and what is mapped in the end is a region of a living process. -/
def Area.borrows (a : Area) (known : Bool) (pid : ℤ) (l : Lender) (answers : List (Option ℕ)) : Bool :=
  (!a.walked || l.hasVmem) && (!(a.whole && supplied a.needs answers) || known && l.rid = pid)

def Area.spared (own : ℤ → Option Lender) (answers : List (Option ℕ)) (a : Area) : Bool :=
  match a.backing with
  | .shared pid known => (own pid).all fun l => a.placed answers && a.borrows known pid l answers
  | _ => a.placed answers

/-- Only references to processes and what the new one has been given are different, and
answers have been used up. -/
structure Copying (k k' : State) : Prop where
  used : ∃ m, k'.answers = k.answers.drop m
  tcb : ∀ a, ∃ r c, k'.tcb a = { k.tcb a with refcount := r, copied := c }
  tcbs : k'.tcbs = k.tcbs
  stackPages : k'.stackPages = k.stackPages
  pages : k'.pages = k.pages
  nodes : k'.nodes = k.nodes

lemma Copying.trans {k'' : State} (h : Copying k k') (h' : Copying k' k'') : Copying k k'' where
  used := by
    obtain ⟨m, hm⟩ := h.used
    obtain ⟨l, hl⟩ := h'.used
    exact ⟨m + l, by rw [hl, hm, List.drop_drop]⟩
  tcb := fun a => by
    obtain ⟨r, c, hr⟩ := h.tcb a
    obtain ⟨r', c', hr'⟩ := h'.tcb a
    exact ⟨r', c', by rw [hr', hr]⟩
  tcbs := h'.tcbs.trans h.tcbs
  stackPages := h'.stackPages.trans h.stackPages
  pages := h'.pages.trans h.pages
  nodes := h'.nodes.trans h.nodes

lemma Copying.getTcb (h : Copying k k') (id : ℤ) : k'.getTcb id = k.getTcb id := by
  have htid : ∀ a, (k'.tcb a).thread.tid = (k.tcb a).thread.tid := fun a => by
    obtain ⟨r, c, hr⟩ := h.tcb a
    rw [hr]
  unfold State.getTcb
  simp only [h.tcbs, htid]

lemma Copying.lender (h : Copying k k') : lender k' = lender k := by
  funext pid
  unfold Kernel.lender
  rw [h.getTcb]
  congr 1
  funext s
  obtain ⟨r, c, hr⟩ := h.tcb s
  rw [hr]

def Area.kept (own : ℤ → Option Lender) (answers : List (Option ℕ)) (a : Area) : Bool :=
  supplied a.needs answers && (a.copies own || a.backing = .nonbacked)

structure Copied (n : ℕ) (a : Area) (k k' : State) : Prop extends Copying k k' where
  copied : (k'.tcb n).copied = (k.tcb n).copied ++ if a.kept (Kernel.lender k) k.answers then [a] else []
  answers : a.copies (Kernel.lender k) = true → supplied a.needs k.answers = true →
    k'.answers = k.answers.drop a.needs

lemma lender_eq {pid : ℤ} {s : ℕ} (hs : k.getTcb pid = some s) :
    lender k pid = some ⟨(k.tcb s).rid, (k.tcb s).procVmem.isSome⟩ := by
  rw [lender, hs]
  rfl

/-- The processes as the copy finds them: the new one is there, and who had its page is not. -/
def lenders (k : State) (pid : ℤ) : Option Lender :=
  if pid = validTid k.startTid then some ⟨pid, true⟩
  else if k.getTcb pid = k.answers.head?.join then none
  else lender k pid

lemma Listed.getTcb_eq {id : ℤ} (h : Listed n k k') (hn : NextTid k) (hid : id ≠ validTid k.startTid) :
    k'.getTcb id = if k.getTcb id = some n then none else k.getTcb id := by
  have hother : (k'.tcb n).thread.tid ≠ id := by
    rw [h.tid]
    exact hid.symm
  unfold State.getTcb
  by_cases hpos : id ≤ 0
  · simp [hpos]
  rw [if_neg hpos, if_neg hpos, h.tcbs]
  by_cases hslot : id % numTcbs = validTid k.startTid
  · rw [hslot, Function.update_self, hn.free]
    simp [hother]
  · rw [Function.update_of_ne hslot]
    cases hc : k.tcbs (id % numTcbs) with
    | none => simp
    | some c =>
      by_cases hcn : c = n
      · subst hcn
        simp [hother]
      · simp [h.others c hcn, hcn]

lemma Founded.lender (h : Founded n k k') (hn : NextTid k) (hans : k.answers.head?.join = some n) :
    lender k' = lenders k := by
  funext pid
  unfold lenders
  by_cases hid : pid = validTid k.startTid
  · subst hid
    rw [if_pos rfl, lender_eq (h.toListed.new hn), h.rid]
    obtain ⟨v, hv, -⟩ := h.procReady.procVmem
    rw [hv]
    rfl
  · rw [if_neg hid, hans, Kernel.lender, h.toListed.getTcb_eq hn hid]
    split_ifs with hsome
    · rfl
    · rw [Kernel.lender]
      cases hget : k.getTcb pid with
      | none => rfl
      | some s =>
        have hs : s ≠ n := by
          rintro rfl
          exact hsome hget
        rw [Option.map_some, Option.map_some, h.same s hs]

end Kmi.Kernel
