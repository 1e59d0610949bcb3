import Kmi.Rpc.Steps

/-! The frames of the RPC stack in every run, also past processes that are gone. -/

namespace Kmi.Rpc

variable {t t' : Thread} {k : ℤ} {stack : List Activation} {procs : Procs}

def Enters (procs : Procs) (t : Thread) (c : Call) (pid : ℤ) : Prop :=
  ((c.flags t).tail = true ∨ enoughRpcStack t = true) ∧ usable procs pid = true

lemma sysIpc_cases {c : Call} {pid d0 d1 d2 d3 : ℤ}
    (h : sysIpc procs t c pid d0 d1 d2 d3 = some t') :
    (¬ Enters procs t c pid ∧ ∃ status, t' = setArgs1 t status) ∨
    (Enters procs t c pid ∧ ∃ r a, enterRpc t r a (c.flags t) = some t') := by
  simp only [sysIpc, doIpc] at h
  by_cases hroom : (!(c.flags t).tail && !enoughRpcStack t) = true
  · rw [if_pos hroom] at h
    refine .inl ⟨?_, _, (Option.some.inj h).symm⟩
    rintro ⟨he | he, -⟩ <;> simp [he] at hroom
  rw [if_neg hroom] at h
  have hroom : (c.flags t).tail = true ∨ enoughRpcStack t = true := by
    simpa [or_iff_not_imp_left] using hroom
  cases hr : procs pid with
  | none =>
    simp only [hr] at h
    refine .inl ⟨?_, _, (Option.some.inj h).symm⟩
    rintro ⟨-, he⟩
    simp [usable, hr] at he
  | some r =>
    simp only [hr] at h
    by_cases hok : (isProc r && !zombie r) = true
    · rw [if_pos hok] at h
      exact .inr ⟨⟨hroom, by simpa only [usable, hr] using hok⟩, r, _, h⟩
    · rw [if_neg hok] at h
      refine .inl ⟨?_, _, (Option.some.inj h).symm⟩
      rintro ⟨-, he⟩
      simp only [usable, hr] at he
      exact hok he

lemma clearDown_of_enterRpc {r : Proc} {a : SysRet} {flags : IpcFlags}
    (h : enterRpc t r a flags = some t') :
    ∃ user x, clearDown 513 t.user t.rpcIdx = some (user, x) := by
  cases hc : clearDown 513 t.user t.rpcIdx with
  | some ux => exact ⟨ux.1, ux.2, rfl⟩
  | none =>
    cases ht : flags.tail <;>
      simp [enterRpc, newRpc, reuseRpc, setRetFast, setRegs, setCtx, ht, hc] at h

lemma isRpc_of_tail {c : Call} (h : (c.flags t).tail = true) : isRpc t = true := by
  cases c <;> simp_all [Call.flags]

lemma enterRpc_push_some {r : Proc} {a : SysRet} {c : Call}
    (h : enterRpc t r a (c.flags t) = some t') (htail : (c.flags t).tail = false) :
    ∃ user x, clearDown 513 t.user t.rpcIdx = some (user, x) ∧
      t'.width = t.width ∧ t'.rpcStack = top (t.rpcIdx - 1) ∧
      t'.regs = top (t.rpcIdx - 1) - sizeofCallCtx t'.width ∧
      t'.rpcIdx = t.rpcIdx - 2 ∧ t'.user = Function.update user (t.rpcIdx - 2) true ∧
      (t'.page (t.rpcIdx - 1)).ctx = ⟨t.exec, t.rpcStack, t.eid, t.pid, false⟩ ∧
      ∀ i, i ≠ t.rpcIdx - 1 → t'.page i = t.page i := by
  obtain ⟨user, x, hc⟩ := clearDown_of_enterRpc h
  have hf : c.flags t = ⟨false, (c.flags t).forward, false⟩ := by
    cases c <;> simp_all [Call.flags]
  rw [hf, enterRpc_push r a _ _ hc] at h
  obtain rfl := Option.some.inj h
  refine ⟨user, x, hc, rfl, rfl, rfl, rfl, rfl, ?_, fun i hi => Function.update_of_ne hi _ _⟩
  simp

lemma enterRpc_replace_some {r : Proc} {a : SysRet} {c : Call} (hk : t.rpcStack = top k)
    (h : enterRpc t r a (c.flags t) = some t') (htail : (c.flags t).tail = true) :
    ∃ user x, clearDown 513 t.user t.rpcIdx = some (user, x) ∧
      t'.width = t.width ∧ t'.rpcStack = t.rpcStack ∧ t'.regs = top k - sizeofCallCtx t.width ∧
      t'.rpcIdx = x + 1 ∧ t'.user = Function.update user (x + 1) true ∧
      (t'.page k).ctx = (t.page k).ctx ∧ ∀ i, i ≠ k → t'.page i = t.page i := by
  obtain ⟨user, x, hc⟩ := clearDown_of_enterRpc h
  have hf : c.flags t = ⟨true, (c.flags t).forward, false⟩ := by
    cases c <;> simp_all [Call.flags]
  rw [hf, enterRpc_replace r a _ hk (isRpc_of_tail htail) hc] at h
  obtain rfl := Option.some.inj h
  refine ⟨user, x, hc, rfl, rfl, rfl, rfl, rfl, ?_, fun i hi => Function.update_of_ne hi _ _⟩
  simp

lemma two_lt_of_enoughRpcStack (h : enoughRpcStack t = true) : 2 < t.rpcIdx := by
  simp only [enoughRpcStack, rpcPosition, basePageSize, rpcStackSize, ge_iff_le,
    decide_eq_true_eq] at h
  omega

def record (a : Activation) : CallCtx := ⟨a.exec, a.rpcStack, a.eid, a.pid, false⟩

lemma Frames.setRetFast_regs (a : SysRet) (h : Frames t.width t.user t.page k stack) :
    Frames t.width t.user (setRetFast { t with regs := top k - sizeofCallCtx t.width } a).page k stack := by
  apply h.congr
  · exact fun i _ hi => hi
  · intro i _ _
    by_cases he : i = k <;> simp [setRetFast, setRegs, regsPage, he]
  · intro i hi _
    have : i ≠ k := by omega
    simp [setRetFast, setRegs, regsPage, this]

def StopsAt (procs : Procs) (stack : List Activation) (b : Activation) (rest : List Activation) : Prop :=
  ∃ above, stack = above ++ b :: rest ∧ (∀ c ∈ above, usable procs c.pid = false) ∧
    (usable procs b.pid = true ∨ rest = [])

lemma StopsAt.suffix {b : Activation} {rest : List Activation} (h : StopsAt procs stack b rest) :
    b :: rest <:+ stack := by
  obtain ⟨above, rfl, -⟩ := h
  exact List.suffix_append _ _

lemma StopsAt.cons {a b : Activation} {rest : List Activation} (ha : usable procs a.pid = false)
    (h : StopsAt procs stack b rest) : StopsAt procs (a :: stack) b rest := by
  obtain ⟨above, rfl, hdead, hb⟩ := h
  exact ⟨a :: above, rfl, List.forall_mem_cons.2 ⟨ha, hdead⟩, hb⟩

lemma unwind_some {fuel : ℕ} {u u' : Thread} {ctx : CallCtx} {a : Activation}
    {rest : List Activation} (hf : Frames u.width u.user u.page k rest) (hs : a.rpcStack = top k)
    (hr : u.regs = top k - sizeofCallCtx u.width)
    (h : unwind procs fuel u (record a) = some (u', ctx)) :
    ∃ b rest' k', StopsAt procs (a :: rest) b rest' ∧ ctx = record b ∧ b.rpcStack = top k' ∧ k ≤ k' ∧
      Frames u.width u'.user u'.page k' rest' ∧ u'.regs = top k' - sizeofCallCtx u'.width ∧
      u'.width = u.width ∧ u'.user = u.user ∧ u'.rpcIdx = u.rpcIdx ∧ u'.rpcStack = u.rpcStack := by
  induction fuel generalizing u a rest k with
  | zero => cases h
  | succ fuel ih =>
    rw [unwind] at h
    split_ifs at h with hp he
    · obtain ⟨rfl, rfl⟩ := Prod.mk.inj (Option.some.inj h)
      exact ⟨a, rest, k, ⟨[], rfl, by simp, .inl hp⟩, rfl, hs, le_rfl, hf, hr, rfl, rfl, rfl, rfl⟩
    · obtain ⟨rfl, rfl⟩ := Prod.mk.inj (Option.some.inj h)
      simp only [record, hs, rpcStackEmpty_top] at he
      exact ⟨a, rest, k, ⟨[], rfl, by simp, .inr (hf.eq_nil_iff.2 he)⟩, rfl, hs, le_rfl, hf, hr, rfl,
        rfl, rfl, rfl⟩
    · simp only [record, hs, rpcStackEmpty_top] at he
      cases rest with
      | nil => exact absurd hf.1 he
      | cons b rest =>
        obtain ⟨-, hctx, k', hs', hr', -, hlt, -, hrest⟩ := hf
        have hrec : ctxAt u (record a).rpcStack = record b := by
          simp [ctxAt, record, hs, hctx]
        have hframes : Frames u.width u.user (setArgs1 { u with regs := top k' - sizeofCallCtx u.width } ERR_NF).page
            k' rest := hrest.setRetFast_regs _
        have hbs : (record b).rpcStack = top k' := hs'
        simp only [hrec, hbs] at h
        obtain ⟨c, rest', k'', hsuf, h₁, h₂, h₃, h₄⟩ := ih hframes hs' rfl h
        exact ⟨c, rest', k'', hsuf.cons (Bool.eq_false_iff.2 hp), h₁, h₂, by omega, h₄⟩

lemma leaveRpc_some {a : SysRet} (hl : Layout t k stack) (hne : stack ≠ [])
    (h : leaveRpc procs t a = some t') :
    ∃ b rest k', StopsAt procs stack b rest ∧ t'.pid = b.pid ∧ t'.eid = b.eid ∧
      t'.rpcStack = b.rpcStack ∧ Layout t' k' rest ∧ t'.rpcIdx = k' - 1 ∧
      ∀ j, k < j → j < k' → t'.user j = true := by
  cases stack with
  | nil => exact absurd rfl hne
  | cons b rest =>
    obtain ⟨-, hctx, k₁, hs, hr, -, hlt, hgap, hrest⟩ := hl.frames
    have hrec : ctxAt t t.rpcStack = record b := by
      simp [ctxAt, record, hl.rpcStack, hctx]
    have hbs : (record b).rpcStack = top k₁ := hs
    have hn : (record b).notify = false := rfl
    simp only [leaveRpc, hrec, hbs, hn, Bool.false_eq_true, if_false] at h
    have hframes := hrest.setRetFast_regs a
    cases hu : unwind procs 513 (setRetFast { t with regs := top k₁ - sizeofCallCtx t.width } a) (record b) with
    | none => simp [hu] at h
    | some uc =>
      obtain ⟨u, ctx⟩ := uc
      obtain ⟨c, rest', k', hsuf, rfl, hcs, hk', hf, hur, hwidth, huser, hidx, -⟩ :=
        unwind_some hframes hs rfl hu
      have hcs' : (record c).rpcStack = top k' := hcs
      change u.width = t.width at hwidth
      change u.user = t.user at huser
      change u.rpcIdx = t.rpcIdx at hidx
      simp only [hu, Option.bind_eq_bind, Option.bind_some] at h
      split_ifs at h with ho
      cases hc : clearUp 513 t.user t.rpcIdx with
      | none => simp [destroyRpc, huser, hidx, hc] at h
      | some uy =>
        obtain ⟨user, y⟩ := uy
        simp only [destroyRpc, huser, hidx, hc, Option.bind_eq_bind, Option.bind_some, hcs',
          top_div] at h
        obtain rfl := Option.some.inj h
        have hi : k' + 1 - 2 = k' - 1 := by omega
        have hr : k' + 1 - 1 = k' := by omega
        refine ⟨c, rest', k', hsuf, rfl, rfl, hcs.symm, ?_, hi, fun j hj hj' => ?_⟩
        · refine hl.pop hne (huser ▸ hf) (by omega) ?_ hc hwidth rfl hur hi (by rw [hr])
          intro hne'
          have : rest ≠ [] := by
            rintro rfl
            have := hsuf.suffix.length_le
            simp at this
            exact hne' this
          have := hgap this
          omega
        · have := hl.clearUp_le hne hc
          have hin : y + 1 ≤ j ∧ j < k' + 1 - 1 := by omega
          simp only [setRange, hin, and_self, if_true]

lemma handlePagefault_some {addr : ℤ} (h : handlePagefault t addr = some t') :
    (inRpcStack t addr = true ∧ 0 ≤ pageOf addr ∧ pageOf addr < t.rpcIdx ∧
      t' = { t with rpcIdx := pageOf addr, user := setRange t.user (pageOf addr) t.rpcIdx }) ∨
    (inRpcStack t addr = false ∧ t' = t) := by
  unfold handlePagefault at h
  split_ifs at h with hin
  · have hb : rpcStackBase % basePageSize = 0 := by decide
    have hp : pageOf (addr - addr % basePageSize) = pageOf addr := by
      simp only [pageOf, basePageSize] at hb ⊢
      omega
    have hbounds : 0 ≤ pageOf addr ∧ pageOf addr < t.rpcIdx := by
      simp only [inRpcStack, Bool.and_eq_true, decide_eq_true_eq] at hin
      simp only [pageOf, basePageSize] at hin ⊢
      omega
    simp only [growRpc, hp] at h
    split_ifs at h
    exact .inl ⟨hin, hbounds.1, hbounds.2, (Option.some.inj h).symm⟩
  · exact .inr ⟨by simpa using hin, (Option.some.inj h).symm⟩

lemma Layout.setRegs (h : Layout t k stack) (r : Regs) : Layout (setRegs t r) k stack := by
  apply h.rewrite (Rpc.setRegs t r) rfl rfl rfl rfl rfl
  · intro i _
    by_cases he : i = regsPage t <;> simp [Rpc.setRegs, he]
  · intro i hi _
    rw [← h.regsPage_eq] at hi
    simp [Rpc.setRegs, hi]

lemma Layout.userRun (h : Layout t k stack) (exec : ℤ) (regs : Regs) (page : ℤ → StackPage) :
    Layout (userRun t exec regs page) k stack := by
  apply Layout.setRegs
  apply h.rewrite { t with
    exec := exec
    page := fun i => if t.user i then page i else t.page i } rfl rfl rfl rfl rfl
  · intro i hi
    simp [hi]
  · intro i _ hi
    simp [hi]

lemma Layout.enter_push {r : Proc} {a : SysRet} {c : Call} (hl : Layout t k stack)
    (h : enterRpc t r a (c.flags t) = some t') (htail : (c.flags t).tail = false)
    (hroom : enoughRpcStack t = true) :
    Layout t' (t.rpcIdx - 1) (⟨t.pid, t.eid, t.exec, t.rpcStack, t.regs, getRegs t⟩ :: stack) := by
  obtain ⟨user, x, hc, hw, hs, hr, hi, hu, hctx, hpage⟩ := enterRpc_push_some h htail
  exact hl.push (two_lt_of_enoughRpcStack hroom).le hc rfl hw hs hr hi hu hctx hpage

lemma Layout.enter_replace {r : Proc} {a : SysRet} {c : Call} (hl : Layout t k stack)
    (h : enterRpc t r a (c.flags t) = some t') (htail : (c.flags t).tail = true) :
    Layout t' k stack := by
  obtain ⟨user, x, hc, hw, hs, hr, hi, hu, hctx, hpage⟩ := enterRpc_replace_some hl.rpcStack h htail
  have hne := hl.isRpc_iff.1 (isRpc_of_tail htail)
  exact hl.replace hne hc hw hs (hr.trans hl.regs.symm) hi hu hctx hpage

lemma Layout.root (hf : Fresh t) : Layout t 511 [] := by
  refine ⟨?_, ?_, fun h => by simp [hf.user] at h, ⟨rfl, hf.user _⟩,
    .inr (.inl ⟨rfl, hf.rpcIdx, hf.user _⟩)⟩
  · rw [hf.rpcStack, rpcStackTop_eq]
  · rw [hf.regs, rpcStackTop_eq]

lemma unwind_orphan {fuel : ℕ} {u : Thread} {ctx ctx' : CallCtx}
    (h : unwind procs fuel t ctx = some (u, ctx')) :
    u.orphan = (t.orphan || !usable procs ctx'.pid) := by
  induction fuel generalizing t ctx with
  | zero => cases h
  | succ fuel ih =>
    rw [unwind] at h
    split_ifs at h with hu he
    · cases h
      simp [hu]
    · cases h
      simp [hu]
    · rw [ih h]
      split_ifs <;> rfl

lemma destroyRpc_orphan (h : destroyRpc t = some t') : t'.orphan = t.orphan := by
  obtain ⟨x, -, h⟩ := Option.bind_eq_some_iff.mp h
  cases h
  rfl

lemma leaveRpc_orphan {a : SysRet} (h : leaveRpc procs t a = some t') :
    t'.orphan = (t.orphan || !usable procs t'.pid) := by
  simp only [leaveRpc, Option.bind_eq_bind, Option.bind_eq_some_iff] at h
  obtain ⟨⟨u, ctx⟩, hu, h⟩ := h
  have ho := unwind_orphan hu
  split_ifs at h
  all_goals
    obtain ⟨v, hv, h⟩ := Option.bind_eq_some_iff.mp h
    cases h
    change v.orphan = (t.orphan || !usable procs ctx.pid)
    rw [destroyRpc_orphan hv]
    change u.orphan = _
    rw [ho]
    split_ifs <;> rfl

lemma enterRpc_orphan {r : Proc} {a : SysRet} {flags : IpcFlags}
    (h : enterRpc t r a flags = some t') : t'.orphan = t.orphan := by
  obtain ⟨user, x, hc⟩ := clearDown_of_enterRpc h
  cases ht : flags.tail <;>
    · simp [enterRpc, newRpc, reuseRpc, setRetFast, setStackFast, setRegs,
        setCtx, ht, hc] at h
      rw [← h]

end Kmi.Rpc
