import Kmi.Rpc.Bounds

/-! A notified thread in its handler, until it answers from the frame of the handler. -/

namespace Kmi.Rpc

variable {t t' u u' : Thread} {b k : ℤ} {stack : List Activation} {procs : Procs}

structure Undisturbed (b : ℤ) (t t' : Thread) : Prop where
  width : t'.width = t.width
  user : ∀ i, b ≤ i → t.user i = false → t'.user i = false
  ctx : ∀ i, b ≤ i → t.user i = false → (t'.page i).ctx = (t.page i).ctx
  regs : ∀ i, b < i → t.user i = false → (t'.page i).regs = (t.page i).regs

namespace Undisturbed

lemma refl (b : ℤ) (t : Thread) : Undisturbed b t t :=
  ⟨rfl, fun _ _ h => h, fun _ _ _ => rfl, fun _ _ _ => rfl⟩

lemma trans {t'' : Thread} (h : Undisturbed b t t') (h' : Undisturbed b t' t'') : Undisturbed b t t'' where
  width := h'.width.trans h.width
  user := fun i hi hu => h'.user i hi (h.user i hi hu)
  ctx := fun i hi hu => (h'.ctx i hi (h.user i hi hu)).trans (h.ctx i hi hu)
  regs := fun i hi hu => (h'.regs i hi (h.user i hi.le hu)).trans (h.regs i hi hu)

lemma of_page (hw : t'.width = t.width) (hu : t'.user = t.user) (hp : t'.page = t.page) : Undisturbed b t t' := by
  refine ⟨hw, fun i _ hi => ?_, fun i _ _ => ?_, fun i _ _ => ?_⟩
  · rw [hu]
    exact hi
  · rw [hp]
  · rw [hp]

lemma setRegs (r : Regs) (hb : regsPage t ≤ b) : Undisturbed b t (setRegs t r) := by
  refine ⟨rfl, fun _ _ h => h, fun i _ _ => ?_, fun i hi _ => ?_⟩
  · by_cases he : i = regsPage t <;> simp [Rpc.setRegs, he]
  · have : i ≠ regsPage t := by omega
    simp [Rpc.setRegs, this]

end Undisturbed

lemma Layout.quiet_regsPage (hl : Layout (quiet t) k stack) : regsPage t = k := hl.regsPage_eq

lemma undisturbed_setRegs (hl : Layout (quiet t) k stack) (hk : k ≤ b) (r : Regs) :
    Undisturbed b t (setRegs t r) := by
  apply Undisturbed.setRegs
  rw [hl.quiet_regsPage]
  exact hk

lemma undisturbed_userRun (hl : Layout (quiet t) k stack) (hk : k ≤ b) (exec : ℤ) (regs : Regs)
    (page : ℤ → StackPage) : Undisturbed b t (userRun t exec regs page) := by
  have hwrite : Undisturbed b t { t with exec := exec, page := fun i => if t.user i then page i else t.page i } := by
    refine ⟨rfl, fun _ _ h => h, fun i _ hi => ?_, fun i _ hi => ?_⟩
    · simp [hi]
    · simp [hi]
  refine hwrite.trans (Undisturbed.setRegs _ ?_)
  change regsPage t ≤ b
  rw [hl.quiet_regsPage]
  exact hk

lemma undisturbed_grow {p : ℤ} (hb : t.rpcIdx ≤ b) :
    Undisturbed b t { t with rpcIdx := p, user := setRange t.user p t.rpcIdx } := by
  refine ⟨rfl, fun i hi hu => ?_, fun _ _ _ => rfl, fun _ _ _ => rfl⟩
  have : ¬ i < t.rpcIdx := by omega
  simp [setRange, this, hu]

lemma undisturbed_push {r : Proc} {a : SysRet} {forward notify : Bool} (hl : Layout (quiet t) k stack)
    (hk : k ≤ b) (h : enterRpc t r a ⟨false, forward, notify⟩ = some t') : Undisturbed b t t' := by
  obtain ⟨user, x, hc⟩ := clearDown_of_enterRpc h
  have hidx : t.rpcIdx ≤ k := hl.idx_le
  obtain ⟨-, hclear, -⟩ := clearDown_spec hc (hidx.trans hl.frames.le)
  rw [enterRpc_push r a _ _ hc] at h
  obtain rfl := Option.some.inj h
  refine ⟨rfl, fun i hi hu => ?_, fun i hi _ => ?_, fun i hi _ => ?_⟩
  · have : i ≠ t.rpcIdx - 2 := by omega
    simp [this, hclear, clearRange, hu]
  · have : i ≠ t.rpcIdx - 1 := by omega
    simp [this]
  · have : i ≠ t.rpcIdx - 1 := by omega
    simp [this]

lemma undisturbed_replace {r : Proc} {a : SysRet} {forward notify : Bool} (hl : Layout (quiet t) k stack)
    (hne : stack ≠ []) (hk : k ≤ b) (h : enterRpc t r a ⟨true, forward, notify⟩ = some t') :
    Undisturbed b t t' := by
  obtain ⟨user, x, hc⟩ := clearDown_of_enterRpc h
  have hs : t.rpcStack = top k := hl.rpcStack
  have hlt : t.rpcIdx < k := (hl.cursor_of_inRpc hne).2.1
  have hk' : k ≤ 511 := hl.frames.le
  have hle : t.rpcIdx ≤ 511 := by omega
  obtain ⟨hx, hclear, hlow, -⟩ := clearDown_spec hc hle
  have hne' : x ≠ t.rpcIdx := by
    rintro rfl
    have hu : t.user t.rpcIdx = true := (hl.cursor_of_inRpc hne).2.2
    have hu' := (hlow (by omega)).2.1
    rw [hu] at hu'
    cases hu'
  have hrpc : isRpc t = true := hl.isRpc_iff.2 hne
  have heq : enterRpc t r a ⟨true, forward, notify⟩ = enterRpc t r a ⟨true, forward, false⟩ := rfl
  rw [heq, enterRpc_replace r a _ hs hrpc hc] at h
  obtain rfl := Option.some.inj h
  refine ⟨rfl, fun i hi hu => ?_, fun i hi _ => ?_, fun i hi _ => ?_⟩
  · have : i ≠ x + 1 := by omega
    simp [this, hclear, clearRange, hu]
  · by_cases he : i = k <;> simp [he]
  · have : i ≠ k := by omega
    simp [this]

lemma top_le_iff {j : ℤ} : top j ≤ top k ↔ j ≤ k := by
  simp only [top, basePageSize]
  omega

lemma undisturbed_answer {n : Bool} (a : SysRet) (hk : k ≤ b) :
    Undisturbed b t (if n then { t with regs := top k - sizeofCallCtx t.width }
      else setRetFast { t with regs := top k - sizeofCallCtx t.width } a) := by
  have hregs : Undisturbed b t { t with regs := top k - sizeofCallCtx t.width } := .of_page rfl rfl rfl
  cases n with
  | true => exact hregs
  | false =>
    refine hregs.trans (Undisturbed.setRegs _ ?_)
    rw [regsPage, pageOf_top_sub]
    exact hk

lemma unwind_next {fuel : ℕ} {ctx : CallCtx} {a : Activation} {n : Bool} {rest : List Activation}
    (hf : Frames u.width u.user (quiet u).page k rest) (hs : a.rpcStack = top k) (hp : usable procs a.pid = false)
    (hk : k ≠ 511) (h : unwind procs (fuel + 1) u (noisy a n) = some (u', ctx)) :
    ∃ c m rest' k' w, k < k' ∧ c.rpcStack = top k' ∧ Frames w.width w.user (quiet w).page k' rest' ∧
      w.regs = top k' - sizeofCallCtx w.width ∧ w.rpcStack = u.rpcStack ∧ (∀ b, k' ≤ b → Undisturbed b u w) ∧
      unwind procs fuel w (noisy c m) = some (u', ctx) := by
  have hp' : ¬ usable procs (noisy a n).pid = true := by
    change ¬ usable procs a.pid = true
    rw [hp]
    exact Bool.false_ne_true
  have he : ¬ rpcStackEmpty (noisy a n).rpcStack = true := by
    change ¬ rpcStackEmpty a.rpcStack = true
    rw [hs, rpcStackEmpty_top]
    exact hk
  rw [unwind, if_neg hp', if_neg he] at h
  cases rest with
  | nil => exact absurd hf.1 hk
  | cons c rest =>
    obtain ⟨-, hctx, k', hs', -, -, hlt, -, hrest⟩ := hf
    obtain ⟨m, hm⟩ := exists_noisy hctx
    have hrec : ctxAt u (noisy a n).rpcStack = noisy c m := by
      simp [ctxAt, noisy, record, hs, hm]
    have hcs : (noisy c m).rpcStack = top k' := hs'
    simp only [hrec, hcs] at h
    have hframes := hrest.quiet_answer m
      { (getRegs { u with regs := top k' - sizeofCallCtx u.width }).args with s := ERR_NF, id := 0 }
    refine ⟨c, m, rest, k', _, hlt, hs', ?_, ?_, ?_, fun b hb => undisturbed_answer _ hb, h⟩
    · cases m <;> exact hframes
    · cases m <;> rfl
    · cases m <;> rfl

lemma unwind_stop {fuel : ℕ} {ctx ctx' : CallCtx} (h : unwind procs (fuel + 1) u ctx = some (u', ctx'))
    (hp : usable procs ctx.pid = true ∨ rpcStackEmpty ctx.rpcStack = true) :
    ctx' = ctx ∧ ∃ o, u' = { u with orphan := o } := by
  rw [unwind] at h
  by_cases hu : usable procs ctx.pid = true
  · rw [if_pos hu] at h
    obtain ⟨rfl, rfl⟩ := Prod.mk.inj (Option.some.inj h)
    exact ⟨rfl, u.orphan, rfl⟩
  · rw [if_neg hu, if_pos (hp.resolve_left hu)] at h
    obtain ⟨rfl, rfl⟩ := Prod.mk.inj (Option.some.inj h)
    exact ⟨rfl, true, rfl⟩

lemma unwind_undisturbed {fuel : ℕ} {ctx : CallCtx} {a : Activation} {n : Bool} {rest : List Activation}
    (hf : Frames u.width u.user (quiet u).page k rest) (hs : a.rpcStack = top k)
    (hr : u.regs = top k - sizeofCallCtx u.width) (h : unwind procs fuel u (noisy a n) = some (u', ctx))
    (hb : ctx.rpcStack ≤ top b) : Undisturbed b u u' ∧ u'.rpcStack = u.rpcStack := by
  induction fuel generalizing u a n rest k with
  | zero => cases h
  | succ fuel ih =>
    by_cases hstop : usable procs a.pid = true ∨ k = 511
    · rw [← rpcStackEmpty_top, ← hs] at hstop
      obtain ⟨-, o, rfl⟩ := unwind_stop h hstop
      exact ⟨.of_page rfl rfl rfl, rfl⟩
    · rw [not_or, Bool.not_eq_true] at hstop
      obtain ⟨c, m, rest', k', w, -, hcs, hframes, hwr, hws, hw, hrun⟩ := unwind_next hf hs hstop.1 hstop.2 h
      obtain ⟨d, rest'', k'', m', -, rfl, hds, hle, -⟩ := quiet_unwind hframes hcs hwr hrun
      have hb' : k'' ≤ b := by
        rw [← @top_le_iff b k'', ← hds]
        exact hb
      obtain ⟨hun, hst⟩ := ih hframes hcs hwr hrun
      exact ⟨(hw b (by omega)).trans hun, hst.trans hws⟩

lemma undisturbed_leave {a : SysRet} (hl : Layout (quiet t) k stack) (hne : stack ≠ [])
    (h : leaveRpc procs t a = some t') (hb : t'.rpcStack ≤ top b) : Undisturbed b t t' := by
  cases stack with
  | nil => exact absurd rfl hne
  | cons c rest =>
    obtain ⟨-, hctx, k₁, hs, -, -, hlt, hgap, hrest⟩ := hl.frames
    obtain ⟨n, hn⟩ := exists_noisy hctx
    have hk : t.rpcStack = top k := hl.rpcStack
    have hrec : ctxAt t t.rpcStack = noisy c n := by
      simp [ctxAt, hk, hn]
    have hcs : (noisy c n).rpcStack = top k₁ := hs
    let v := { t with regs := top k₁ - sizeofCallCtx t.width }
    let w := if n then v else setRetFast v a
    have hframes : Frames w.width w.user (quiet w).page k₁ rest := by
      have := @Frames.quiet_answer t k₁ rest hrest n a
      cases n <;> exact this
    have hwr : w.regs = top k₁ - sizeofCallCtx w.width := by cases n <;> rfl
    have hwu : w.user = t.user := by cases n <;> rfl
    have hwi : w.rpcIdx = t.rpcIdx := by cases n <;> rfl
    have hsame : leaveRpc procs t a = (unwind procs 513 w (noisy c n)).bind fun uc =>
        if uc.1.orphan && !isRpc uc.1 then none
        else (destroyRpc { uc.1 with exec := uc.2.exec, rpcStack := uc.2.rpcStack }).bind fun v =>
          some { v with pid := uc.2.pid, eid := uc.2.eid } := by
      simp only [leaveRpc, hrec, hcs]
      rfl
    rw [hsame] at h
    obtain ⟨⟨u, ctx⟩, hu, h⟩ := Option.bind_eq_some_iff.1 h
    split_ifs at h
    obtain ⟨v', hd, hv⟩ := Option.bind_eq_some_iff.1 h
    obtain rfl := Option.some.inj hv
    obtain ⟨d, rest', k'', m', -, rfl, hds, hle, -, -, huser, hidx, -⟩ := quiet_unwind hframes hs hwr hu
    have hds : (noisy d m').rpcStack = top k'' := hds
    rw [hwu] at huser
    rw [hwi] at hidx
    cases hc : clearUp 513 t.user t.rpcIdx with
    | none => simp [destroyRpc, huser, hidx, hc] at hd
    | some uy =>
      obtain ⟨user, y⟩ := uy
      simp only [destroyRpc, huser, hidx, hc, Option.bind_eq_bind, Option.bind_some, hds, top_div] at hd
      obtain rfl := Option.some.inj hd
      have hb : k'' ≤ b := top_le_iff.1 hb
      have hle' : t.rpcIdx ≤ 511 := le_trans hl.idx_le hl.frames.le
      obtain ⟨-, -, -, -, hclear⟩ := clearUp_some hc hle'
      have hstay : (noisy d m').rpcStack ≤ top b := by
        rw [hds, top_le_iff]
        exact hb
      have hrun := (unwind_undisturbed hframes hs hwr hu hstay).1
      have hstart : Undisturbed b t w := undisturbed_answer a (by omega)
      refine (hstart.trans hrun).trans ⟨rfl, fun i hi hui => ?_, fun _ _ _ => rfl, fun _ _ _ => rfl⟩
      have hik : ¬ i < k'' := by omega
      have hui : u.user i = false := hui
      rw [huser] at hui
      simp [setRange, hik, hclear, clearRange, hui]

lemma undisturbed_stepFor {size : ℤ} {e : Event} (hl : Layout (quiet t) k stack) (hk : k ≤ b) (hb : b < 511)
    (h : stepFor size procs t e = some t') (hstay : t'.rpcStack ≤ top b) : Undisturbed b t t' := by
  have hne : stack ≠ [] := by
    rw [Ne, hl.frames.eq_nil_iff]
    omega
  cases e with
  | user exec regs page =>
    obtain rfl := Option.some.inj h
    exact undisturbed_userRun hl hk exec regs page
  | fault addr =>
    obtain ⟨-, -, -, rfl⟩ | ⟨-, rfl⟩ := handlePagefault_some h
    · apply undisturbed_grow
      have hidx : t.rpcIdx ≤ k := hl.idx_le
      omega
    · exact .refl b t'
  | ipc c pid d0 d1 d2 d3 =>
    obtain ⟨-, status, rfl⟩ | ⟨-, r, a, he⟩ := doIpcFor_cases h
    · exact undisturbed_setRegs hl hk _
    · cases htail : (c.flags t).tail with
      | true =>
        have hf : c.flags t = ⟨true, (c.flags t).forward, (c.flags t).notify⟩ := by rw [← htail]
        rw [hf] at he
        exact undisturbed_replace hl hne hk he
      | false =>
        have hf : c.flags t = ⟨false, (c.flags t).forward, (c.flags t).notify⟩ := by rw [← htail]
        rw [hf] at he
        exact undisturbed_push hl hk he
  | resp d0 d1 d2 d3 =>
    change (if isRpc t then _ else _) = _ at h
    split_ifs at h with hrpc
    · exact undisturbed_leave hl hne h hstay
    · obtain rfl := Option.some.inj h
      exact undisturbed_setRegs hl hk _

/-- What the thread does from where it starts in a frame until it answers from there:
it runs, it calls and is answered, it is notified and it may be detached. -/
inductive Serves (t : Thread) : Thread → Prop
  | start : Serves t t
  | event {u u' : Thread} (size : ℤ) (procs : Procs) (e : Event) : Serves t u → ThreadRoom size procs u e →
      stepFor size procs u e = some u' → u'.rpcStack ≤ t.rpcStack → Serves t u'
  | notified {u u' : Thread} (r : Proc) (a : SysRet) : Serves t u → 2 ≤ u.rpcIdx →
      enterRpc u r a notifyFlags = some u' → Serves t u'
  | detached {u : Thread} : Serves t u → Serves t { u with orphan := true }

lemma Serves.undisturbed (hs : Sound t) (ht : t.rpcStack = top b) (hb : b < 511) (h : Serves t u) :
    Sound u ∧ u.rpcStack ≤ t.rpcStack ∧ Undisturbed b t u := by
  induction h with
  | start => exact ⟨hs, le_rfl, .refl b t⟩
  | event size procs e _ hroom he hstay ih =>
    obtain ⟨hsound, hle, hun⟩ := ih
    have hsound' := (hsound.stepFor hroom he).1
    obtain ⟨k, stack, hl⟩ := hsound
    have hk : k ≤ b := by
      have hst : _ = top k := hl.rpcStack
      rw [← top_le_iff, ← hst, ← ht]
      exact hle
    exact ⟨hsound', hstay, hun.trans (undisturbed_stepFor hl hk hb he (ht ▸ hstay))⟩
  | @notified v v' r a _ hroom he ih =>
    obtain ⟨⟨k, stack, hl⟩, hle, hun⟩ := ih
    have hst : v.rpcStack = top k := hl.rpcStack
    have hk : k ≤ b := by
      rw [← top_le_iff, ← hst, ← ht]
      exact hle
    refine ⟨⟨_, _, hl.quiet_enter_push hroom he⟩, ?_, hun.trans (undisturbed_push hl hk he)⟩
    obtain ⟨user, x, hc⟩ := clearDown_of_enterRpc he
    have hidx : v.rpcIdx ≤ k := hl.idx_le
    rw [notifyFlags, enterRpc_push r a _ _ hc] at he
    obtain rfl := Option.some.inj he
    rw [ht]
    change top (v.rpcIdx - 1) ≤ top b
    rw [top_le_iff]
    omega
  | @detached v _ ih =>
    obtain ⟨⟨k, stack, hl⟩, hle, hun⟩ := ih
    have hl' : Layout (quiet { v with orphan := true }) k stack :=
      ⟨hl.rpcStack, hl.regs, hl.user_zero, hl.frames, hl.cursor⟩
    exact ⟨⟨k, stack, hl'⟩, hle, hun.trans (.of_page rfl rfl rfl)⟩

lemma leaveRpc_resumes_iff {x : Activation} (a : SysRet) (hl : Layout (quiet u) b stack) (hb : b < 511)
    (hctx : (u.page b).ctx = ⟨x.exec, x.rpcStack, x.eid, x.pid, true⟩) (hs : x.rpcStack = top k)
    (hr : x.regs = top k - sizeofCallCtx u.width) (hsaved : (u.page k).regs = x.saved) :
    (∃ u', leaveRpc procs u a = some u' ∧ activation u' = x) ↔ usable procs x.pid = true ∨ k = 511 := by
  have hne : stack ≠ [] := by
    rw [Ne, hl.frames.eq_nil_iff]
    omega
  have hst : u.rpcStack = top b := hl.rpcStack
  have hrec : ctxAt u u.rpcStack = noisy x true := by
    simp [ctxAt, hst, hctx, noisy, record]
  have hxs : (noisy x true).rpcStack = top k := hs
  let v := { u with regs := top k - sizeofCallCtx u.width }
  have hsame : leaveRpc procs u a = (unwind procs 513 v (noisy x true)).bind fun uc =>
      if uc.1.orphan && !isRpc uc.1 then none
      else (destroyRpc { uc.1 with exec := uc.2.exec, rpcStack := uc.2.rpcStack }).bind fun v =>
        some { v with pid := uc.2.pid, eid := uc.2.eid } := by
    simp only [leaveRpc, hrec, hxs]
    rfl
  have hin : isRpc u = true := hl.isRpc_iff.2 hne
  rw [hsame]
  constructor
  · rintro ⟨u', h, rfl⟩
    by_contra hgone
    rw [not_or, Bool.not_eq_true] at hgone
    obtain ⟨⟨w, ctx⟩, hu, h⟩ := Option.bind_eq_some_iff.1 h
    split_ifs at h
    obtain ⟨w', hd, hw⟩ := Option.bind_eq_some_iff.1 h
    obtain rfl := Option.some.inj hw
    -- the loop goes on to a frame above the one that was interrupted
    cases hst' : stack with
    | nil => exact hne hst'
    | cons c rest =>
      subst hst'
      obtain ⟨-, hcctx, k₁, hcs, -, -, -, -, hrest⟩ := hl.frames
      have hk₁ : k₁ = k := by
        apply top_inj
        rw [← hcs, ← hs]
        simp only [quiet, hctx, CallCtx.mk.injEq] at hcctx
        exact hcctx.2.1.symm
      subst hk₁
      have hframes : Frames v.width v.user (quiet v).page k₁ rest := hrest
      obtain ⟨d, m, rest', k', y, hlt, hds, hf, hyr, -, -, hrun⟩ := unwind_next hframes hs hgone.1 hgone.2 hu
      obtain ⟨e, rest'', k'', m', -, rfl, hes, hle, -⟩ := quiet_unwind hf hds hyr hrun
      obtain ⟨⟨user, i⟩, -, hd⟩ := Option.bind_eq_some_iff.1 hd
      obtain rfl := Option.some.inj hd
      have hback : top k'' = top k₁ := hes.symm.trans hs
      have := top_inj hback
      omega
  · intro hp
    have hp' : usable procs (noisy x true).pid = true ∨ rpcStackEmpty (noisy x true).rpcStack = true := by
      rw [hxs, rpcStackEmpty_top]
      exact hp
    have hex : ∃ o, unwind procs 513 v (noisy x true) = some ({ v with orphan := o }, noisy x true) := by
      rw [unwind]
      by_cases hu : usable procs (noisy x true).pid = true
      · exact ⟨v.orphan, by rw [if_pos hu]⟩
      · exact ⟨true, by rw [if_neg hu, if_pos (hp'.resolve_left hu)]⟩
    obtain ⟨o, hu⟩ := hex
    have hidx : 0 ≤ u.rpcIdx := hl.idx_nonneg
    have hle : u.rpcIdx ≤ 511 := le_trans hl.idx_le hl.frames.le
    obtain ⟨⟨user, y⟩, hc⟩ := @clearUp_exists u.user u.rpcIdx 513 hidx hle (by push_cast; omega)
    have hin' : ¬ (({ v with orphan := o } : Thread).orphan && !isRpc { v with orphan := o }) = true := by
      rw [show isRpc { v with orphan := o } = true from hin]
      simp
    rw [hu, Option.bind_some, if_neg hin']
    simp only [destroyRpc, show v.user = u.user from rfl, show v.rpcIdx = u.rpcIdx from rfl, hc,
      Option.bind_eq_bind, Option.bind_some]
    refine ⟨_, rfl, ?_⟩
    have hregs : pageOf (x.regs - sizeofRegs) = k := by rw [hr, pageOf_top_sub]
    simp only [activation, getRegs, regsPage, noisy, record, v, hregs, hsaved, ← hr]

lemma Serves.holds {r : Proc} {a : SysRet} (hs : Sound t) (hroom : 2 ≤ t.rpcIdx)
    (he : enterRpc t r a notifyFlags = some t') (h : Serves t' u) (hback : u.rpcStack = t'.rpcStack) :
    ∃ b k stack, Layout (quiet u) b stack ∧ b < 511 ∧ u.rpcStack = top b ∧
      (u.page b).ctx = ⟨t.exec, t.rpcStack, t.eid, t.pid, true⟩ ∧ t.rpcStack = top k ∧
      t.regs = top k - sizeofCallCtx u.width ∧ (u.page k).regs = getRegs t := by
  obtain ⟨k, stack, hl⟩ := hs
  have hidx : t.rpcIdx ≤ k := hl.idx_le
  have hk : k ≤ 511 := hl.frames.le
  have huk : t.user k = false := hl.frames.user_eq
  have hsound : Sound t' := ⟨_, _, hl.quiet_enter_push hroom he⟩
  have hkeep : Undisturbed k t t' := undisturbed_push hl le_rfl he
  obtain ⟨user, x, hc⟩ := clearDown_of_enterRpc he
  have hcleared : user (t.rpcIdx - 1) = false := hl.frame_cleared hc
  rw [notifyFlags, enterRpc_push r a _ _ hc] at he
  have hrec : t'.rpcStack = top (t.rpcIdx - 1) ∧ t'.user (t.rpcIdx - 1) = false ∧
      (t'.page (t.rpcIdx - 1)).ctx = ⟨t.exec, t.rpcStack, t.eid, t.pid, true⟩ ∧ t'.page k = t.page k := by
    obtain rfl := Option.some.inj he
    have hne : t.rpcIdx - 1 ≠ t.rpcIdx - 2 := by omega
    have hne' : k ≠ t.rpcIdx - 1 := by omega
    simp [hne, hne', hcleared]
  obtain ⟨hst', huser', hctx', hpage'⟩ := hrec
  obtain ⟨⟨k', stack', hl'⟩, -, hun⟩ := h.undisturbed hsound hst' (by omega)
  have hst : u.rpcStack = top (t.rpcIdx - 1) := hback.trans hst'
  have hk' : k' = t.rpcIdx - 1 := top_inj ((show u.rpcStack = top k' from hl'.rpcStack).symm.trans hst)
  subst hk'
  refine ⟨t.rpcIdx - 1, k, stack', hl', by omega, hst, (hun.ctx _ le_rfl huser').trans hctx', hl.rpcStack, ?_, ?_⟩
  · rw [hun.width, hkeep.width]
    exact hl.regs
  · rw [hun.regs k (by omega) (hkeep.user k le_rfl huk), hpage', getRegs, hl.quiet_regsPage]

lemma Serves.resumes_iff {r : Proc} {a : SysRet} (hs : Sound t) (hroom : 2 ≤ t.rpcIdx)
    (he : enterRpc t r a notifyFlags = some t') (h : Serves t' u) (hback : u.rpcStack = t'.rpcStack)
    (a' : SysRet) : (∃ u', leaveRpc procs u a' = some u' ∧ activation u' = activation t) ↔
      usable procs t.pid = true ∨ isRpc t = false := by
  obtain ⟨b, k, stack, hl, hb, -, hctx, hst, hregs, hsaved⟩ := h.holds hs hroom he hback
  have hiff := @leaveRpc_resumes_iff u b k stack procs (activation t) a' hl hb hctx hst hregs hsaved
  rw [hiff, isRpc, Bool.not_eq_false', hst, rpcStackEmpty_top]
  rfl

lemma Serves.stops {r : Proc} {a : SysRet} {ctx : CallCtx} (hs : Sound t) (hroom : 2 ≤ t.rpcIdx)
    (he : enterRpc t r a notifyFlags = some t') (h : Serves t' u) (hback : u.rpcStack = t'.rpcStack)
    (halive : usable procs t.pid = true ∨ isRpc t = false) {v v' : Thread}
    (hrun : unwind procs 513 v (ctxAt u u.rpcStack) = some (v', ctx)) : ctx.notify = true := by
  obtain ⟨b, k, stack, -, -, hb, hctx, -⟩ := h.holds hs hroom he hback
  have hrec : ctxAt u u.rpcStack = ⟨t.exec, t.rpcStack, t.eid, t.pid, true⟩ := by
    rw [ctxAt, hb, ctxPage_top, hctx]
  rw [isRpc, Bool.not_eq_false'] at halive
  rw [hrec] at hrun
  rw [(unwind_stop hrun halive).1]

end Kmi.Rpc
