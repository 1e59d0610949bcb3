import Kmi.Rpc.Scan

/-! The stack of activations that a thread's RPC stack stands for. -/

namespace Kmi.Rpc

structure Activation where
  pid : ℤ
  eid : ℤ
  exec : ℤ
  rpcStack : ℤ
  regs : ℤ
  saved : Regs

def activation (t : Thread) : Activation := ⟨t.pid, t.eid, t.exec, t.rpcStack, t.regs, getRegs t⟩

structure CallStack where
  current : Activation
  suspended : List Activation

namespace CallStack

def root (t : Thread) : CallStack :=
  ⟨⟨t.pid, t.eid, t.exec, t.rpcStack, t.regs, getRegs t⟩, []⟩

def answer (s : CallStack) (a : SysRet) : CallStack :=
  { s with current := { s.current with saved := { s.current.saved with args := a } } }

def fail (s : CallStack) (status : ℤ) : CallStack :=
  s.answer { s.current.saved.args with s := status, id := 0 }

def push (s : CallStack) (a : Activation) : CallStack := ⟨a, s.current :: s.suspended⟩

def replace (s : CallStack) (a : Activation) : CallStack := { s with current := a }

def pop (s : CallStack) (d0 d1 d2 d3 : ℤ) : CallStack :=
  match s.suspended with
  | [] => s.fail ERR_MISC
  | a :: rest => answer ⟨a, rest⟩ ⟨OK, s.current.pid, d0, d1, d2, d3⟩

def inRpc (s : CallStack) : Bool := !s.suspended.isEmpty

def pushes (s : CallStack) : Call → Bool
  | .req => true
  | .fwd => true
  | .tail => !s.inRpc
  | .kick => !s.inRpc

def forwards (s : CallStack) : Call → Bool
  | .req => false
  | .fwd => s.inRpc
  | .tail => false
  | .kick => s.inRpc

def caller (s : CallStack) (c : Call) : ℤ := if s.forwards c then s.current.eid else s.current.pid

def callee (s : CallStack) (w : IdWidth) (tid rpcStack : ℤ) (r : Proc) (c : Call) (d0 d1 d2 d3 : ℤ) : Activation :=
  ⟨r.rid, s.caller c, r.callback, rpcStack, rpcStack - sizeofCallCtx w,
    ⟨⟨s.caller c, tid, d0, d1, d2, d3⟩, rpcStack - basePageSize⟩⟩

def step (w : IdWidth) (procs : Procs) (tid : ℤ) (enough : Bool) (rpcStack : ℤ) (s : CallStack) :
    Event → CallStack
  | .user exec regs _ => { s with current := { s.current with exec := exec, saved := regs } }
  | .fault _ => s
  | .ipc c pid d0 d1 d2 d3 =>
    if s.pushes c && !enough then s.fail ERR_OOMEM
    else
      match procs pid with
      | none => s.fail ERR_INVAL
      | some r =>
        if !(isProc r && !zombie r) then s.fail ERR_INVAL
        else if s.pushes c then s.push (s.callee w tid rpcStack r c d0 d1 d2 d3)
        else s.replace (s.callee w tid s.current.rpcStack r c d0 d1 d2 d3)
  | .resp d0 d1 d2 d3 => s.pop d0 d1 d2 d3

end CallStack

def top (k : ℤ) : ℤ := rpcStackBase + basePageSize * (k + 1)

lemma top_inj {j k : ℤ} (h : top j = top k) : j = k := by
  simp only [top, basePageSize] at h
  omega

@[simp]
lemma ctxPage_top (w : IdWidth) (k : ℤ) : ctxPage w (top k) = k := by
  cases w <;> simp only [ctxPage, pageOf, top, sizeofCallCtx, basePageSize] <;> omega

@[simp]
lemma pageOf_top_sub (w : IdWidth) (k : ℤ) : pageOf (top k - sizeofCallCtx w - sizeofRegs) = k := by
  cases w <;> simp only [pageOf, top, sizeofCallCtx, sizeofRegs, basePageSize] <;> omega

@[simp]
lemma top_div (k : ℤ) : (top k - rpcStackBase) / basePageSize = k + 1 := by
  simp only [top, basePageSize]
  omega

lemma rpcPosition_eq (t : Thread) : rpcPosition t = top (t.rpcIdx - 1) := by
  simp only [rpcPosition, top, sub_add_cancel]

lemma rpcStackTop_eq : rpcStackTop = top 511 := by
  simp only [rpcStackTop, top, basePageSize]
  norm_num

lemma rpcStackEmpty_top (k : ℤ) : rpcStackEmpty (top k) = true ↔ k = 511 := by
  rw [rpcStackEmpty, decide_eq_true_iff, rpcStackTop_eq]
  exact ⟨top_inj, fun h => h ▸ rfl⟩

def Frames (w : IdWidth) (user : ℤ → Bool) (page : ℤ → StackPage) : ℤ → List Activation → Prop
  | k, [] => k = 511 ∧ user k = false
  | k, a :: rest => user k = false ∧ (page k).ctx = ⟨a.exec, a.rpcStack, a.eid, a.pid, false⟩ ∧
      ∃ k', a.rpcStack = top k' ∧ a.regs = top k' - sizeofCallCtx w ∧ (page k').regs = a.saved ∧
        k < k' ∧ (rest ≠ [] → k + 2 ≤ k') ∧ Frames w user page k' rest

def Cursor (t : Thread) (k : ℤ) (stack : List Activation) : Prop :=
  (0 ≤ t.rpcIdx ∧ t.rpcIdx < k ∧ t.user t.rpcIdx = true) ∨
  (stack = [] ∧ t.rpcIdx = 511 ∧ t.user 510 = false) ∨
  (stack = [] ∧ t.rpcIdx = 510 ∧ t.user 510 = false ∧ t.user 509 = false)

structure Layout (t : Thread) (k : ℤ) (stack : List Activation) : Prop where
  rpcStack : t.rpcStack = top k
  regs : t.regs = top k - sizeofCallCtx t.width
  user_zero : t.user 0 = true → t.rpcIdx = 0
  frames : Frames t.width t.user t.page k stack
  cursor : Cursor t k stack

structure Represents (t : Thread) (s : CallStack) : Prop where
  pid : t.pid = s.current.pid
  eid : t.eid = s.current.eid
  exec : t.exec = s.current.exec
  rpcStack : t.rpcStack = s.current.rpcStack
  regs : t.regs = s.current.regs
  saved : getRegs t = s.current.saved
  orphan : t.orphan = false
  idx_pos : 0 < t.rpcIdx
  layout : ∃ k, Layout t k s.suspended

variable {w : IdWidth} {user user' : ℤ → Bool} {page page' : ℤ → StackPage}

lemma Frames.congr {k : ℤ} {stack : List Activation} (h : Frames w user page k stack)
    (hu : ∀ i, k ≤ i → user i = false → user' i = false)
    (hc : ∀ i, k ≤ i → user i = false → (page' i).ctx = (page i).ctx)
    (hr : ∀ i, k < i → user i = false → (page' i).regs = (page i).regs) :
    Frames w user' page' k stack := by
  induction stack generalizing k with
  | nil => exact ⟨h.1, hu k le_rfl h.2⟩
  | cons a rest ih =>
    obtain ⟨hk, hctx, k', h₁, h₂, h₃, hlt, hgap, hrest⟩ := h
    have hk' : user k' = false := by
      cases rest with
      | nil => exact hrest.2
      | cons b rest => exact hrest.1
    refine ⟨hu k le_rfl hk, (hc k le_rfl hk).trans hctx, k', h₁, h₂, (hr k' hlt hk').trans h₃,
      hlt, hgap, ?_⟩
    apply ih hrest
    · exact fun i hi => hu i (by omega)
    · exact fun i hi => hc i (by omega)
    · exact fun i hi => hr i (by omega)

lemma Frames.le {k : ℤ} {stack : List Activation} (h : Frames w user page k stack) : k ≤ 511 := by
  induction stack generalizing k with
  | nil => exact h.1.le
  | cons a rest ih =>
    obtain ⟨-, -, k', -, -, -, hlt, -, hrest⟩ := h
    have := ih hrest
    omega

lemma Frames.user_eq {k : ℤ} {stack : List Activation} (h : Frames w user page k stack) :
    user k = false := by
  cases stack with
  | nil => exact h.2
  | cons a rest => exact h.1

lemma Frames.eq_nil_iff {k : ℤ} {stack : List Activation} (h : Frames w user page k stack) :
    stack = [] ↔ k = 511 := by
  cases stack with
  | nil => simp [h.1]
  | cons a rest =>
    obtain ⟨-, -, k', -, -, -, hlt, -, hrest⟩ := h
    have := hrest.le
    simp
    omega

namespace Layout

variable {t : Thread} {k : ℤ} {stack : List Activation}

lemma isRpc_iff (h : Layout t k stack) : isRpc t = true ↔ stack ≠ [] := by
  rw [isRpc, Bool.not_eq_true', ← Bool.not_eq_true, h.rpcStack, rpcStackEmpty_top,
    Ne, h.frames.eq_nil_iff]

lemma regsPage_eq (h : Layout t k stack) : regsPage t = k := by
  rw [regsPage, h.regs, pageOf_top_sub]

lemma idx_nonneg (h : Layout t k stack) : 0 ≤ t.rpcIdx := by
  rcases h.cursor with ⟨h, -, -⟩ | ⟨-, h, -⟩ | ⟨-, h, -⟩ <;> omega

lemma idx_le (h : Layout t k stack) : t.rpcIdx ≤ k := by
  have := h.frames.eq_nil_iff
  rcases h.cursor with ⟨-, h', -⟩ | ⟨h', h'', -⟩ | ⟨h', h'', -⟩
  · omega
  · rw [this] at h'
    omega
  · rw [this] at h'
    omega

lemma cursor_of_inRpc (h : Layout t k stack) (hs : stack ≠ []) :
    0 ≤ t.rpcIdx ∧ t.rpcIdx < k ∧ t.user t.rpcIdx = true := by
  rcases h.cursor with h | ⟨h, -⟩ | ⟨h, -⟩
  · exact h
  · exact absurd h hs
  · exact absurd h hs

lemma user_zero_of_pos (h : Layout t k stack) (hpos : 0 < t.rpcIdx) : t.user 0 = false := by
  by_contra hne
  have := h.user_zero (by simpa using hne)
  omega

end Layout

end Kmi.Rpc
