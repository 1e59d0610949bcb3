import Kmi.Rpc.Resume

/-! A thread whose RPC stack pointer `reset_rpc_stack` has put far above the stack. -/

namespace Kmi.Rpc

variable {t t' u u' : Thread} {k : ℤ} {user : ℤ → Bool} {page page' : ℤ → StackPage} {procs : Procs}
  {ctx ctx' : CallCtx} {stack : List Activation}

def resetStack : ℤ := rpcStackBase + basePageSize * 2 ^ 21

def framed (t : Thread) (addr : ℤ) : Bool :=
  0 ≤ pageOf (addr - sizeofCallCtx t.width - sizeofRegs) && ctxPage t.width addr < rpcPages

def unwindsIn (procs : Procs) (t : Thread) : ℕ → CallCtx → Bool
  | 0, _ => false
  | fuel + 1, ctx => framed t ctx.rpcStack &&
      (usable procs ctx.pid || rpcStackEmpty ctx.rpcStack || unwindsIn procs t fuel (ctxAt t ctx.rpcStack))

def staysIn (procs : Procs) (t : Thread) : Event → Bool
  | .ipc c pid _ _ _ _ => !((c.flags t).tail && usable procs pid) || framed t t.rpcStack
  | .resp .. => !isRpc t || framed t t.rpcStack && unwindsIn procs t 513 (ctxAt t t.rpcStack)
  | _ => true

/-- From the frame in page `k` on, the saved stack pointers lead to where `reset_rpc_stack`
has put the first and not to the top of the stack. -/
inductive Astray (page : ℤ → StackPage) : ℤ → Prop
  | reset : Astray page (2 ^ 21 - 1)
  | frame {k k' : ℤ} : k < 511 → (page k).ctx.rpcStack = top k' → k < k' → Astray page k' → Astray page k

lemma Astray.congr (h : Astray page k) (hc : ∀ i, k ≤ i → (page' i).ctx = (page i).ctx) : Astray page' k := by
  induction h with
  | reset => exact .reset
  | @frame k k' hk hs hlt _ ih =>
    refine .frame hk ?_ hlt (ih fun i hi => hc i (by omega))
    rw [hc k le_rfl, hs]

lemma Astray.ne (h : Astray page k) : k ≠ 511 := by
  cases h with
  | reset => norm_num
  | frame hk _ _ _ => omega

lemma framed_top : framed t (top k) = true ↔ 0 ≤ k ∧ k < 512 := by
  simp only [framed, pageOf_top_sub, ctxPage_top, rpcPages, Bool.and_eq_true, decide_eq_true_eq]

lemma Frames.unwindsIn {fuel : ℕ} (hf : Frames t.width user t.page k stack) (h0 : 0 ≤ k) (hs : ctx.rpcStack = top k)
    (hfuel : stack.length < fuel) : unwindsIn procs t fuel ctx = true := by
  induction fuel generalizing ctx k stack with
  | zero => omega
  | succ fuel ih =>
    have hk : framed t (top k) = true := framed_top.2 ⟨h0, by have := hf.le; omega⟩
    rw [Rpc.unwindsIn, hs, hk, Bool.true_and]
    cases stack with
    | nil => simp [(rpcStackEmpty_top k).2 hf.1]
    | cons a rest =>
      obtain ⟨-, hctx, k', hs', -, -, hlt, -, hrest⟩ := hf
      have hnext : (ctxAt t (top k)).rpcStack = top k' := by rw [ctxAt, ctxPage_top, hctx, hs']
      have := ih hrest (by omega) hnext (by simpa using hfuel)
      simp [this]

lemma Layout.staysIn (hl : Layout t k stack) (e : Event) : staysIn procs t e = true := by
  have hk := hl.idx_nonneg.trans hl.idx_le
  have hframed : framed t t.rpcStack = true := by
    rw [hl.rpcStack]
    exact framed_top.2 ⟨hk, by have := hl.frames.le; omega⟩
  cases e with
  | user exec regs page => rfl
  | fault addr => rfl
  | ipc c pid d0 d1 d2 d3 => simp [Rpc.staysIn, hframed]
  | resp d0 d1 d2 d3 =>
    cases hrpc : isRpc t with
    | false => simp [Rpc.staysIn, hrpc]
    | true =>
      have hf := hl.frames
      cases stack with
      | nil => exact absurd rfl (hl.isRpc_iff.1 hrpc)
      | cons a rest =>
        obtain ⟨-, hctx, k', hs', -, -, hlt, -, hrest⟩ := hf
        have hnext : (ctxAt t t.rpcStack).rpcStack = top k' := by
          rw [ctxAt, hl.rpcStack, ctxPage_top, hctx, hs']
        have hlen := hrest.length_le
        have hin : unwindsIn procs t 513 (ctxAt t t.rpcStack) = true :=
          hrest.unwindsIn (by omega) hnext (by omega)
        simp [Rpc.staysIn, hframed, hin]

lemma Astray.next (h : Astray page k) (hf : framed t (top k) = true) :
    ∃ k', (page k).ctx.rpcStack = top k' ∧ k < k' ∧ Astray page k' := by
  rw [framed_top] at hf
  cases h with
  | reset => norm_num at hf
  | frame _ hs hlt hrest => exact ⟨_, hs, hlt, hrest⟩

def Lost (t : Thread) : Prop := t.rpcIdx ≤ 511 ∧ ∃ k, t.rpcStack = top k ∧ Astray t.page k ∧ t.rpcIdx ≤ k ∧
  (t.rpcIdx = k → t.user t.rpcIdx = true)

lemma lost_of_reset (hs : t.rpcStack = resetStack) (hi : t.rpcIdx = 511) : Lost t := by
  refine ⟨hi.le, 2 ^ 21 - 1, hs.trans ?_, .reset, by rw [hi]; norm_num, fun he => ?_⟩
  · simp only [resetStack, top, sub_add_cancel]
  · rw [hi] at he
    norm_num at he

lemma Lost.isRpc (h : Lost t) : isRpc t = true := by
  obtain ⟨-, k, hs, ha, -⟩ := h
  have hk := ha.ne
  rw [Rpc.isRpc, Bool.not_eq_true', ← Bool.not_eq_true, hs, rpcStackEmpty_top]
  exact hk

lemma setRegs_ctx (r : Regs) (i : ℤ) : ((setRegs t r).page i).ctx = (t.page i).ctx := by
  by_cases hi : i = regsPage t <;> simp [setRegs, hi]

lemma Lost.setRegs (h : Lost t) (r : Regs) : Lost (setRegs t r) := by
  obtain ⟨hidx, k, hs, ha, hle, hu⟩ := h
  exact ⟨hidx, k, hs, ha.congr fun i _ => setRegs_ctx r i, hle, hu⟩

def Spares (t : Thread) : Event → Prop
  | .user _ _ page => ∀ i, ctxPage t.width t.rpcStack ≤ i → t.user i = true → (page i).ctx = (t.page i).ctx
  | _ => True

lemma unwind_astray {fuel : ℕ} (h : unwind procs fuel u ctx = some (u', ctx'))
    (hin : unwindsIn procs t fuel ctx = true) (hpage : ∀ i, (u.page i).ctx = (t.page i).ctx)
    (hk : ctx.rpcStack = top k) (ha : Astray t.page k) :
    ∃ k', ctx'.rpcStack = top k' ∧ framed t (top k') = true ∧ Astray t.page k' ∧
      ∀ i, (u'.page i).ctx = (t.page i).ctx := by
  induction fuel generalizing u ctx k with
  | zero => cases h
  | succ fuel ih =>
    rw [unwindsIn, Bool.and_eq_true] at hin
    obtain ⟨hf, hrest⟩ := hin
    rw [hk] at hf
    have hempty : rpcStackEmpty ctx.rpcStack = false := by
      rw [← Bool.not_eq_true, hk, rpcStackEmpty_top]
      exact ha.ne
    rw [unwind] at h
    by_cases hp : usable procs ctx.pid = true
    · rw [if_pos hp] at h
      obtain ⟨rfl, rfl⟩ := Prod.mk.inj (Option.some.inj h)
      exact ⟨k, hk, hf, ha, hpage⟩
    rw [if_neg hp, hempty, if_neg Bool.false_ne_true] at h
    rw [Bool.not_eq_true] at hp
    rw [hp, hempty, Bool.false_or, Bool.false_or] at hrest
    obtain ⟨k', hs, -, ha'⟩ := ha.next hf
    have hctx : ctxAt u ctx.rpcStack = ctxAt t ctx.rpcStack := by
      rw [ctxAt, ctxAt, hk, ctxPage_top, ctxPage_top, hpage]
    have hs' : (ctxAt t ctx.rpcStack).rpcStack = top k' := by rw [ctxAt, hk, ctxPage_top, hs]
    rw [hctx] at h
    refine ih h hrest (fun i => ?_) hs' ha'
    split_ifs
    · exact hpage i
    · exact (setRegs_ctx _ i).trans (hpage i)

lemma Lost.leave {a : SysRet} (h : Lost t) (hf : framed t t.rpcStack = true)
    (hin : unwindsIn procs t 513 (ctxAt t t.rpcStack) = true) (hs : leaveRpc procs t a = some t') : Lost t' := by
  obtain ⟨hidx, k, hk, ha, hle, hu⟩ := h
  rw [hk] at hf
  obtain ⟨k₁, hs₁, -, ha₁⟩ := ha.next hf
  have hs₁' : (ctxAt t t.rpcStack).rpcStack = top k₁ := by rw [ctxAt, hk, ctxPage_top, hs₁]
  simp only [leaveRpc, Option.bind_eq_bind, Option.bind_eq_some_iff] at hs
  obtain ⟨⟨u, ctx⟩, hun, hs⟩ := hs
  obtain ⟨k', hctx, hf', ha', hpage⟩ := unwind_astray hun hin (fun i => by
    split_ifs
    · rfl
    · exact setRegs_ctx _ i) hs₁' ha₁
  rw [framed_top] at hf'
  split_ifs at hs
  obtain ⟨v, hv, hs⟩ := Option.bind_eq_some_iff.1 hs
  obtain rfl := Option.some.inj hs
  obtain ⟨⟨user, y⟩, -, hv⟩ := Option.bind_eq_some_iff.1 hv
  obtain rfl := Option.some.inj hv
  have hback : (ctx.rpcStack - rpcStackBase) / basePageSize - 2 = k' - 1 := by
    rw [hctx, top_div]
    omega
  refine ⟨?_, k', hctx, ha'.congr fun i _ => hpage i, ?_, ?_⟩
  · change (ctx.rpcStack - rpcStackBase) / basePageSize - 2 ≤ 511
    omega
  · change (ctx.rpcStack - rpcStackBase) / basePageSize - 2 ≤ k'
    omega
  · intro he
    change (ctx.rpcStack - rpcStackBase) / basePageSize - 2 = k' at he
    omega

lemma Lost.enter_push {r : Proc} {a : SysRet} {forward notify : Bool} (h : Lost t)
    (hs : enterRpc t r a ⟨false, forward, notify⟩ = some t') : Lost t' := by
  obtain ⟨hidx, k, hk, ha, hle, -⟩ := h
  obtain ⟨user, x, hc⟩ := clearDown_of_enterRpc hs
  rw [enterRpc_push r a _ _ hc] at hs
  obtain rfl := Option.some.inj hs
  refine ⟨by change t.rpcIdx - 2 ≤ 511; omega, t.rpcIdx - 1, rfl, ?_, by change t.rpcIdx - 2 ≤ _; omega, ?_⟩
  · refine .frame (by omega) (by simp [hk]) (show t.rpcIdx - 1 < k by omega) (ha.congr fun i hi => ?_)
    have : i ≠ t.rpcIdx - 1 := by omega
    simp [this]
  · intro he
    change t.rpcIdx - 2 = t.rpcIdx - 1 at he
    omega

lemma Lost.enter_replace {r : Proc} {a : SysRet} {forward : Bool} (h : Lost t) (hf : framed t t.rpcStack = true)
    (hs : enterRpc t r a ⟨true, forward, false⟩ = some t') : Lost t' := by
  have hrpc := h.isRpc
  obtain ⟨hidx, k, hk, ha, hle, hu⟩ := h
  obtain ⟨user, x, hc⟩ := clearDown_of_enterRpc hs
  rw [enterRpc_replace r a _ hk hrpc hc] at hs
  obtain rfl := Option.some.inj hs
  rw [hk, framed_top] at hf
  have hk511 := ha.ne
  obtain ⟨hx, -, hlow, -⟩ := clearDown_spec hc hidx
  obtain ⟨-, hxu, -⟩ := hlow (by omega)
  have hxk : x + 1 ≤ k := by
    by_contra hlt
    obtain rfl : x = t.rpcIdx := by omega
    rw [hu (by omega)] at hxu
    cases hxu
  refine ⟨by change x + 1 ≤ 511; omega, k, hk, ha.congr fun i _ => ?_, hxk, fun _ => by simp⟩
  by_cases hi : i = k <;> simp [hi]

lemma Lost.step {e : Event} (h : Lost t) (hin : staysIn procs t e = true) (hsp : Spares t e)
    (hs : step procs t e = some t') : Lost t' := by
  cases e with
  | user exec regs page =>
    obtain rfl := Option.some.inj hs
    obtain ⟨hidx, k, hk, ha, hle, hu⟩ := h
    rw [Spares, hk, ctxPage_top] at hsp
    have hpages : Lost { t with page := fun i => if t.user i then page i else t.page i } := by
      refine ⟨hidx, k, hk, ha.congr fun i hi => ?_, hle, hu⟩
      dsimp only
      split_ifs with hui
      · exact hsp i hi hui
      · rfl
    exact hpages.setRegs regs
  | fault addr =>
    obtain ⟨hidx, k, hk, ha, hle, hu⟩ := id h
    obtain ⟨-, -, hlt, rfl⟩ | ⟨-, rfl⟩ := handlePagefault_some hs
    · refine ⟨by change pageOf addr ≤ 511; omega, k, hk, ha, by change pageOf addr ≤ k; omega, fun he => ?_⟩
      change pageOf addr = k at he
      omega
    · exact h
  | ipc c pid d0 d1 d2 d3 =>
    obtain ⟨-, status, rfl⟩ | ⟨⟨-, hp⟩, r, a, he⟩ := sysIpc_cases hs
    · exact h.setRegs _
    · cases htail : (c.flags t).tail with
      | true =>
        have hf : c.flags t = ⟨true, (c.flags t).forward, false⟩ := by
          cases c <;> simp_all [Call.flags]
        rw [hf] at he
        refine h.enter_replace ?_ he
        simpa [staysIn, htail, hp] using hin
      | false =>
        have hf : c.flags t = ⟨false, (c.flags t).forward, (c.flags t).notify⟩ := by rw [← htail]
        rw [hf] at he
        exact h.enter_push he
  | resp d0 d1 d2 d3 =>
    change (if Rpc.isRpc t then _ else _) = _ at hs
    rw [if_pos h.isRpc] at hs
    simp only [staysIn, h.isRpc, Bool.not_true, Bool.false_or, Bool.and_eq_true] at hin
    exact h.leave hin.1 hin.2 hs

end Kmi.Rpc
