import Kmi.Kernel.Switch

/-! The handlers that neither create threads nor change capabilities. -/

namespace Kmi.Kernel

open Library.Prog

variable {α β : Type} {k k' k'' : State} {c : ℤ} {s t r : ℕ}

lemma unwind_tid {procs : Rpc.Procs} {fuel : ℕ} {x u : Rpc.Thread} {ctx ctx' : Rpc.CallCtx}
    (h : Rpc.unwind procs fuel x ctx = some (u, ctx')) : u.tid = x.tid := by
  induction fuel generalizing x ctx with
  | zero => cases h
  | succ fuel ih =>
    rw [Rpc.unwind] at h
    split at h
    · cases h
      rfl
    split at h
    · cases h
      rfl
    · rw [ih h]
      split <;> rfl

lemma unwound_tid {procs : Rpc.Procs} {x u : Rpc.Thread} {a : Rpc.SysRet} {ctx : Rpc.CallCtx}
    (h : unwound procs x a = some (u, ctx)) : u.tid = x.tid := by
  rw [unwind_tid h]
  split <;> rfl

lemma destroyRpc_tid {x u : Rpc.Thread} (h : Rpc.destroyRpc x = some u) : u.tid = x.tid := by
  unfold Rpc.destroyRpc at h
  cases hc : Rpc.clearUp 513 x.user x.rpcIdx with
  | none => simp [hc] at h
  | some found =>
    simp only [hc, Option.bind_eq_bind, Option.bind_some, Option.some.injEq] at h
    rw [← h]

lemma growRpc_tid {x u : Rpc.Thread} {top : ℤ} (h : Rpc.growRpc x top = some u) : u.tid = x.tid := by
  unfold Rpc.growRpc at h
  dsimp only at h
  split at h
  · rw [← Option.some.inj h]
  · cases h

lemma handlePagefault_tid {x u : Rpc.Thread} {addr : ℤ} (h : Rpc.handlePagefault x addr = some u) :
    u.tid = x.tid := by
  unfold Rpc.handlePagefault at h
  split at h
  · exact growRpc_tid h
  · rw [← Option.some.inj h]

lemma departs_unorphanize (t : ℕ) (k : State) : Departs (unorphanize t : K α) k := by
  unfold unorphanize
  refine Departs.mild_bind mild_get fun k _ _ => ?_
  refine Departs.mild_bind (mild_assert _) fun _ _ _ => ?_
  refine Departs.mild_bind (mild_deref _) fun init _ _ => ?_
  refine Departs.mild_bind (mild_referenceThread init) fun _ _ _ => ?_
  refine Departs.mild_bind (mild_modifyTcb fun _ => ?_) fun _ _ _ => ?_
  · exact ⟨rfl, rfl, rfl, rfl, rfl, fun _ => one_ne_zero⟩
  refine Departs.mild_bind (mild_cloneUvmem _ _) fun _ _ _ => ?_
  refine Departs.mild_bind (mild_assert _) fun _ _ _ => ?_
  refine Departs.mild_bind (mild_modifyThread fun _ => rfl) fun _ _ _ => ?_
  refine Departs.mild_bind (mild_modifyTcb fun _ => ?_) fun _ k' _ => ?_
  · exact ⟨rfl, rfl, rfl, rfl, rfl, id⟩
  exact departs_leave k'

lemma plain_setThread {x : Rpc.Thread} (h : x.tid = (k.tcb t).thread.tid) :
    Plain k (k.setTcb t { k.tcb t with thread := x }) :=
  plain_setTcb ⟨h, rfl, rfl, rfl, rfl, id⟩

lemma goes_leaveRpc (hk : Inv k) (ht : InTable k t) (a : Rpc.SysRet) : Goes (leaveRpc c t a) k := by
  unfold leaveRpc
  apply Goes.get_bind
  apply Goes.deref_bind
  rintro ⟨u, ctx⟩ hu
  have htid := unwound_tid hu
  have h₁ := plain_setThread htid
  refine Goes.bind_of (P := fun _ k' => Plain k k') ⟨h₁.steady, h₁⟩ fun _ k₁ _ h₁ => ?_
  split
  · exact (departs_unorphanize t k₁).goes
  apply Goes.deref_bind
  intro v hv
  have hvt : v.tid = u.tid := (destroyRpc_tid hv :)
  have h₂ : Plain k₁ (k₁.setTcb t { k₁.tcb t with thread := { v with pid := ctx.pid, eid := ctx.eid } }) := by
    apply plain_setThread
    rw [(h₁.core t).tid, ← htid]
    exact hvt
  refine Goes.bind_of (P := fun _ k' => Plain k₁ k') ⟨h₂.steady, h₂⟩ fun _ k₂ _ h₂ => ?_
  have h := h₁.trans h₂
  apply Goes.get_bind
  refine Goes.bind ?_ fun _ k₃ h₃ => ?_
  · apply goes_onlyIf
    exact fun _ => goes_notify (h.inv hk) (h.inTable.2 ht) 0
  · apply goes_onlyIf
    exact fun _ => (departs_leave k₃).goes

lemma goes_sysIpc (t : ℕ) (call : Rpc.Call) (pid d0 d1 d2 d3 : ℤ) (k : State) :
    Goes (sysIpc c t call pid d0 d1 d2 d3) k := by
  unfold sysIpc
  apply Goes.get_bind
  unfold doIpc
  apply Goes.get_bind
  dsimp only
  split
  · exact goes_setArgs1 t _ k
  split
  · exact goes_setArgs1 t _ k
  split
  · exact Goes.mild_bind (mild_enterRpc c t _ _ _) fun _ k₁ _ => (departs_leave k₁).goes
  · exact goes_setArgs1 t _ k

lemma goes_sysIpcResp (hk : Inv k) (ht : k.tp c = some t) (d0 d1 d2 d3 : ℤ) :
    Goes (sysIpcResp c t d0 d1 d2 d3) k := by
  unfold sysIpcResp
  apply Goes.get_bind
  dsimp only
  split
  · exact goes_setArgs1 t _ k
  have hdrop : Ends (unreferenceThread (k.getTcb (k.tcb t).thread.pid))
      (fun _ k' => Steady k k' ∧ InTable k' t) (fun e k' => e = .stuck ∨ Calm k k') k := by
    refine (unreferenceTcb_ends hk.toSound _).mono ?_ fun _ _ he => .inl he
    rintro _ k' ⟨hs, -⟩
    obtain ⟨hin, -, -, hrid⟩ := hk.current c t ht
    exact ⟨hs.steady fun _ => .inl rfl, (hs.kept t hin hrid nofun).1⟩
  refine Goes.bind_of hdrop fun _ k₁ h₁ ht₁ => ?_
  exact goes_leaveRpc (h₁.inv hk) ht₁ _

lemma goes_sysIpcNotify (hk : Inv k) (t : ℕ) (tid : ℤ) : Goes (sysIpcNotify c t tid) k := by
  unfold sysIpcNotify
  apply Goes.get_bind
  split
  · exact goes_setArgs1 t _ k
  split
  · exact goes_setArgs1 t _ k
  · rename_i r hr
    refine Goes.mild_bind (mild_setArgs1 t _) fun _ k₁ h₁ => ?_
    exact goes_notify (h₁.inv hk) (h₁.inTable.2 (getTcb_inTable hr)) _

structure Swapped (c : ℤ) (s : ℕ) (k k' : State) : Prop extends Calm k k' where
  tcbs_eq : k'.tcbs = k.tcbs
  tp : k'.tp = Function.update k.tp c (some s)

lemma swap_ends (hk : Inv k) (hs : Usable k c s) (t : ℕ) :
    Ends (swap c t s) (fun _ k' => Swapped c s k k') (fun e k' => e = .stuck ∨ Calm k k') k := by
  unfold swap
  rw [ends_bind]
  refine (mild_setArgs1 t _ k).mono ?_ fun _ _ he => .inl he
  intro _ k₁ h₁
  have hs₁ := h₁.usable hs
  have hk₁ := h₁.inv hk
  rw [ends_bind]
  refine (useTcb_ends hk₁).mono ?_ fun _ _ he => .inl he
  rintro _ _ rfl
  have hcalm := h₁.steady.toCalm.trans (used_calm hs₁)
  have hk₂ := used_inv hk₁ hs₁
  have hs₂ : InTable (used k₁ c s) s := hs₁.inTable
  have htcbs : (used k₁ c s).tcbs = k.tcbs := h₁.tcbs
  have htp : (used k₁ c s).tp = Function.update k.tp c (some s) := by
    rw [← h₁.tp]
    rfl
  generalize used k₁ c s = k₂ at hcalm hk₂ hs₂ htcbs htp ⊢
  rw [ends_bind, ends_get]
  dsimp only
  split
  · exact ((departs_unorphanize s k₂).after hcalm).mono (fun _ _ hf => hf.elim) fun _ _ he => he
  split
  · refine (notify_ends hk₂ hs₂ 0).mono ?_ ?_
    · rintro _ k₃ ⟨h₃, htcbs₃⟩
      exact ⟨hcalm.trans h₃.toCalm, htcbs₃.trans htcbs, h₃.tp.trans htp⟩
    · rintro e k' (he | hc)
      · exact .inl he
      · exact .inr (hcalm.trans hc)
  · exact ⟨hcalm, htcbs, htp⟩

def Calmly (x : K α) (k : State) : Prop :=
  Ends x (fun _ k' => Calm k k') (fun e k' => e = .stuck ∨ Calm k k') k

lemma Goes.calmly {x : K α} (h : Goes x k) : Calmly x k := Ends.mono h (fun _ _ hs => hs.toCalm) fun _ _ he => he

lemma Calmly.get_bind {f : State → K β} (h : Calmly (f k) k) : Calmly (get >>= f) k := h

lemma Calmly.deref_bind {p : Option α} {f : α → K β} (h : ∀ a, p = some a → Calmly (f a) k) :
    Calmly (deref p >>= f) k := by
  cases p with
  | none => exact .inl rfl
  | some a => exact h a rfl

lemma Swapped.left (h : Swapped c s k k') (hk : Inv k) (ht : k.tp c = some t) (hne : s ≠ t) (c' : ℤ) :
    k'.tp c' ≠ some t := by
  rw [h.tp]
  intro hc'
  by_cases hcc : c' = c
  · subst hcc
    rw [Function.update_self] at hc'
    exact hne (Option.some.inj hc')
  · rw [Function.update_of_ne hcc] at hc'
    exact hcc ((hk.current c' t hc').2.2.1.symm.trans (hk.current c t ht).2.2.1)

lemma Inv.running_of_current (hk : Inv k) (ht : k.tp c = some t) : k.running t = true := by
  obtain ⟨-, hcpu, hid, -⟩ := hk.current c t ht
  simp [State.running, hid, hcpu]

lemma calmly_swapTo {next : K Unit} (hk : Inv k) (ht : k.tp c = some t) (tid : ℤ)
    (hnext : ∀ s k', s ≠ t → Swapped c s k k' → Calmly next k') : Calmly (swapTo c t tid next) k := by
  unfold swapTo
  apply Calmly.get_bind
  split
  · exact (goes_setArgs1 t _ k).calmly
  · rename_i s hs
    split
    · exact (goes_setArgs1 t _ k).calmly
    split
    · exact (goes_setArgs1 t _ k).calmly
    · rename_i hz hrun
      have hidle : k.running s = false := by simpa using hrun
      have hus : Usable k c s := ⟨getTcb_inTable hs, by simpa [Tcb.zombie] using hz, .inl hidle⟩
      have hne : s ≠ t := by
        rintro rfl
        rw [hk.running_of_current ht] at hidle
        cases hidle
      refine ends_bind.2 ((swap_ends hk hus t).mono ?_ fun _ _ he => he)
      intro _ k₁ h₁
      refine Ends.mono (hnext s k₁ hne h₁) (fun _ _ h => h₁.toCalm.trans h) ?_
      rintro e k₂ (he | h₂)
      · exact .inl he
      · exact .inr (h₁.toCalm.trans h₂)

lemma calmly_sysSwap (hk : Inv k) (ht : k.tp c = some t) (tid : ℤ) : Calmly (sysSwap c t tid) k := by
  unfold sysSwap
  apply Calmly.get_bind
  refine Calmly.deref_bind fun p _ => ?_
  split
  · exact (goes_setArgs1 t _ k).calmly
  · exact calmly_swapTo hk ht tid fun _ k' _ _ => (goes_pure () k').calmly

lemma calmly_sysExit (hk : Inv k) (ht : k.tp c = some t) {tid : ℤ} (hne : tid ≠ 0) :
    Calmly (sysExit c t tid) k := by
  unfold sysExit
  apply Calmly.get_bind
  refine Calmly.deref_bind fun p _ => ?_
  rw [if_neg hne]
  split
  · exact (goes_setArgs1 t _ k).calmly
  split
  · exact (goes_setArgs1 t _ k).calmly
  · refine calmly_swapTo hk ht tid fun s k₁ hst h₁ => ?_
    have hk₁ := h₁.inv hk
    have ht₁ : InTable k₁ t := by
      rw [InTable, h₁.tcbs_eq]
      exact (hk.current c t ht).1
    refine (destroyThread_ends hk₁.toSound ht₁).mono ?_ fun _ _ he => .inl he
    intro _ k₂ h₂
    exact (h₂.steady fun c' => .inr (h₁.left hk ht hst c')).toCalm

lemma goes_sysSleep (t : ℕ) (k : State) : Goes (sysSleep t) k := by
  unfold sysSleep
  apply Goes.get_bind
  dsimp only
  split
  · exact goes_setArgs1 t _ k
  · refine .inr ⟨fun _ => .inl rfl, rfl, fun _ => rfl, fun hk => ?_⟩
    exact ⟨⟨hk.table, hk.listed, hk.alive, hk.ipi, hk.flags, hk.notes, hk.indices⟩, hk.cpu, hk.current⟩

lemma goes_memRefs (hk : Inv k) (refs : List MemRef) : Goes (memRefs refs) k := by
  induction refs generalizing k with
  | nil => exact goes_pure () k
  | cons ref refs ih =>
    refine Goes.bind ?_ fun _ k₁ h₁ => ih (h₁.inv hk)
    cases ref with
    | take tid =>
      apply Goes.get_bind
      split
      · exact goes_pure () k
      · exact goes_of_mild (mild_referenceThread _) k
    | drop tid =>
      apply Goes.get_bind
      refine (unreferenceTcb_ends hk.toSound tid).mono ?_ fun _ _ he => .inl he
      exact fun _ k' h => h.1.steady fun _ => .inl rfl

lemma lockOp_ends (op : LockOp) (k : State) :
    Ends (lockOp op) (fun _ k' => Steady k k' ∧ k'.tcbs = k.tcbs ∧ k'.tcb = k.tcb)
      (fun e k' => e = .stuck ∨ Calm k k') k := by
  refine ⟨⟨⟨fun _ => .inl rfl, rfl, fun _ => rfl, fun hk => ?_⟩, rfl⟩, rfl, rfl⟩
  exact ⟨⟨hk.table, hk.listed, hk.alive, hk.ipi, hk.flags, hk.notes, hk.indices⟩, hk.cpu, hk.current⟩

lemma goes_lockOp (op : LockOp) (k : State) : Goes (lockOp op) k :=
  (lockOp_ends op k).mono (fun _ _ h => h.1) fun _ _ he => he

lemma goes_serveIrq (hk : Inv k) {served : Irq.Served ℕ} (hin : ∀ t, served = .owner t → InTable k t) :
    Goes (serveIrq c served) k := by
  cases served with
  | unregistered => exact goes_pure () k
  | dead => exact goes_lockOp .unlock k
  | owner t => exact Goes.bind (goes_notify hk (hin t rfl) _) fun _ k₁ _ => goes_lockOp .unlock k₁

lemma goes_handleIrq (hk : Inv k) : Goes (handleIrq c) k := by
  unfold handleIrq
  refine Goes.bind (goes_lockOp .lock k) fun _ k₁ h₁ => ?_
  apply Goes.get_bind
  apply Goes.deref_bind
  rintro ⟨served, irqMap⟩ hserved
  have hmap : Mild (modify fun k : State => { k with irqMap := irqMap }) :=
    mild_modify fun _ => ⟨rfl, rfl, rfl, rfl, rfl, rfl, rfl, rfl, rfl, fun _ => .refl _⟩
  refine Goes.mild_bind hmap fun _ k₂ h₂ => goes_serveIrq (h₂.inv (h₁.inv hk)) fun t ht => ?_
  obtain ⟨tid, htid⟩ := Irq.getTcb_of_owner (ht ▸ hserved)
  exact h₂.inTable.2 (getTcb_inTable htid)

lemma goes_handleTimer (hk : Inv k) (tid : ℤ) : Goes (handleTimer c tid) k := by
  unfold handleTimer
  refine Goes.bind (goes_lockOp .lock k) fun _ k₁ h₁ => ?_
  apply Goes.get_bind
  split
  · exact goes_lockOp .unlock k₁
  · rename_i r hr
    split
    · exact goes_lockOp .unlock k₁
    · refine Goes.bind (goes_notify (h₁.inv hk) (getTcb_inTable hr) _) fun _ k₂ _ => ?_
      exact goes_lockOp .unlock k₂

lemma goes_handleIpi (hk : Inv k) : Goes (handleIpi c) k := by
  unfold handleIpi
  refine Goes.bind (goes_lockOp .lock k) fun _ k₁ h₁ => ?_
  have hk₁ := h₁.inv hk
  apply Goes.get_bind
  rw [hk₁.ipi, Ipi.handleIpi_init]
  have hp := plain_ipi hk₁.toSound
  apply Goes.deref_bind
  rintro _ ⟨⟩
  refine Goes.bind_of (P := fun _ k' => Plain k₁ k') ⟨hp.steady, hp⟩ fun _ k₂ _ _ => ?_
  exact goes_lockOp .unlock k₂

lemma goes_handleException (addr : ℤ) (k : State) : Goes (handleException c addr) k := by
  unfold handleException
  refine Goes.bind (goes_lockOp .lock k) fun _ k₁ _ => ?_
  refine Goes.bind ?_ fun _ k₂ _ => goes_lockOp .unlock k₂
  unfold handlePagefault
  apply Goes.get_bind
  refine Goes.deref_bind fun t _ => ?_
  split
  · refine Goes.deref_bind fun u hu => ?_
    exact (plain_setThread (handlePagefault_tid hu)).steady
  · refine Goes.deref_bind fun p _ => ?_
    exact goes_of_mild (mild_cloneUvmem _ _) k₁

lemma goes_wake (status : ℤ) (k : State) : Goes (wake c status) k := by
  unfold wake
  refine Goes.bind (goes_lockOp .lock k) fun _ k₁ _ => ?_
  apply Goes.get_bind
  refine Goes.deref_bind fun t _ => ?_
  exact Goes.mild_bind (mild_setArgs1 t status) fun _ k₂ _ => goes_lockOp .unlock k₂

end Kmi.Kernel
