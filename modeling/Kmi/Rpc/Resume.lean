import Kmi.Rpc.Bounds

/-! Where a response takes the thread when processes on its stack may be gone. -/

namespace Kmi.Rpc

variable {t t' u u' : Thread} {k : ℤ} {stack frames : List Activation} {procs : Procs}

def trackPids (procs : Procs) (t : Thread) (e : Event) (pids : List ℤ) : List ℤ :=
  match e with
  | .user .. => pids
  | .fault _ => pids
  | .ipc c pid _ _ _ _ =>
    if ((c.flags t).tail || enoughRpcStack t) && usable procs pid && !(c.flags t).tail then t.pid :: pids
    else pids
  | .resp .. => (pids.dropWhile fun p => !usable procs p).tail

lemma StopsAt.resumes {b : Activation} {rest : List Activation} (h : StopsAt procs stack b rest) :
    (usable procs b.pid = true ∧ (stack.map (·.pid)).find? (usable procs) = some b.pid) ∨
    (usable procs b.pid = false ∧ ∀ p ∈ stack.map (·.pid), usable procs p = false) := by
  obtain ⟨above, rfl, hdead, hb⟩ := h
  have habove : (above.map (·.pid)).find? (usable procs) = none := by
    rw [List.find?_eq_none]
    simpa using hdead
  cases hu : usable procs b.pid with
  | true =>
    refine .inl ⟨rfl, ?_⟩
    rw [List.map_append, List.find?_append, habove, Option.none_or, List.map_cons,
      List.find?_cons_of_pos hu]
  | false =>
    rw [hu] at hb
    obtain hb | rfl := hb
    · cases hb
    · refine .inr ⟨rfl, fun p hp => ?_⟩
      simp only [List.map_append, List.map_cons, List.map_nil, List.mem_append, List.mem_map,
        List.mem_singleton] at hp
      obtain ⟨c, hc, rfl⟩ | rfl := hp
      · exact hdead c hc
      · exact hu

lemma StopsAt.map_rest {b : Activation} {rest : List Activation} (h : StopsAt procs stack b rest) :
    ((stack.map (·.pid)).dropWhile fun p => !usable procs p).tail = rest.map (·.pid) := by
  obtain ⟨above, rfl, hdead, hb⟩ := h
  have habove : ∀ p ∈ above.map (·.pid), (!usable procs p) = true := by
    simpa using hdead
  rw [List.map_append, List.dropWhile_append_of_pos habove, List.map_cons, List.dropWhile_cons]
  split_ifs with hu
  · obtain hb | rfl := hb
    · rw [hb] at hu
      cases hu
    · rfl
  · rfl

lemma Layout.track_step {e : Event} (hl : Layout t k stack) (h : Rpc.step procs t e = some t') :
    ∃ k' stack', Layout t' k' stack' ∧
      stack'.map (·.pid) = Rpc.trackPids procs t e (stack.map (·.pid)) := by
  cases e with
  | user exec regs page =>
    obtain rfl := Option.some.inj h
    exact ⟨k, stack, hl.userRun exec regs page, rfl⟩
  | fault addr =>
    obtain ⟨-, hp, hlt, ht⟩ | ⟨-, rfl⟩ := handlePagefault_some h
    · exact ⟨k, stack, hl.grow hp hlt ht, rfl⟩
    · exact ⟨k, stack, hl, rfl⟩
  | ipc c pid d0 d1 d2 d3 =>
    obtain ⟨hne, status, rfl⟩ | ⟨⟨hroom, hu⟩, r, a, he⟩ := sysIpc_cases h
    · refine ⟨k, stack, hl.setRegs _, ?_⟩
      rw [Rpc.trackPids, if_neg]
      simp only [Bool.and_eq_true, Bool.or_eq_true]
      exact fun hc => hne ⟨hc.1.1, hc.1.2⟩
    · cases htail : (c.flags t).tail with
      | true =>
        refine ⟨k, stack, hl.enter_replace he htail, ?_⟩
        simp [Rpc.trackPids, htail]
      | false =>
        have hroom : enoughRpcStack t = true := by simpa [htail] using hroom
        refine ⟨_, _, hl.enter_push he htail hroom, ?_⟩
        simp [Rpc.trackPids, htail, hroom, hu]
  | resp d0 d1 d2 d3 =>
    change (if isRpc t then _ else _) = _ at h
    split_ifs at h with hrpc
    · obtain ⟨b, rest, k', hstop, -, -, -, hl', -⟩ := leaveRpc_some hl (hl.isRpc_iff.1 hrpc) h
      exact ⟨k', rest, hl', hstop.map_rest.symm⟩
    · obtain rfl := Option.some.inj h
      have hnil : stack = [] := not_not.1 fun hne => hrpc (hl.isRpc_iff.2 hne)
      refine ⟨k, stack, hl.setRegs _, ?_⟩
      rw [hnil]
      rfl

/-- A thread and the activations that it has suspended, over all runs of its own events in
which processes may come and go between any two. It handles its notifications itself. -/
inductive Away : Thread → List Activation → Prop
  | fresh {t : Thread} : Fresh t → Away t []
  | event {t t' : Thread} {frames : List Activation} (size : ℤ) (procs : Procs) (e : Event) : Away t frames →
      ThreadRoom size procs t e → stepFor size procs t e = some t' → Away t' (trackFrames size procs t e frames)
  | notified {t t' : Thread} {frames : List Activation} (r : Proc) (a : SysRet) : Away t frames → 2 ≤ t.rpcIdx →
      enterRpc t r a notifyFlags = some t' → Away t' (activation t :: frames)
  | detached {t : Thread} {frames : List Activation} : Away t frames → Away { t with orphan := true } frames

lemma Away.layout (h : Away t frames) : ∃ k, Layout (quiet t) k frames := by
  induction h with
  | @fresh t hf =>
    have hq : Fresh (quiet t) := ⟨hf.rpcStack, hf.rpcIdx, hf.regs, hf.user⟩
    exact ⟨511, .root hq⟩
  | event size procs e _ hroom hs ih =>
    obtain ⟨k, hl⟩ := ih
    obtain ⟨k', hl', -⟩ := hl.quiet_stepFor hroom hs
    exact ⟨k', hl'⟩
  | notified r a _ hroom he ih =>
    obtain ⟨k, hl⟩ := ih
    exact ⟨_, hl.quiet_enter_push hroom he⟩
  | detached _ ih =>
    obtain ⟨k, hl⟩ := ih
    exact ⟨k, hl.rpcStack, hl.regs, hl.user_zero, hl.frames, hl.cursor⟩

lemma StopsAt.find?_eq {b : Activation} {rest : List Activation} (h : StopsAt procs stack b rest) :
    stack.find? (fun a => usable procs a.pid) = if usable procs b.pid then some b else none := by
  obtain ⟨above, rfl, hdead, hb⟩ := h
  have habove : above.find? (fun a => usable procs a.pid) = none := by
    rw [List.find?_eq_none]
    simpa using hdead
  rw [List.find?_append, habove, Option.none_or]
  split_ifs with hu
  · simp [hu]
  · simp [hb.resolve_left hu, hu]

lemma Frames.length_le {user : ℤ → Bool} {page : ℤ → StackPage} (h : Frames w user page k stack) :
    k + stack.length ≤ 511 := by
  induction stack generalizing k with
  | nil =>
    have := h.1
    simp [this]
  | cons a rest ih =>
    obtain ⟨-, -, k', -, -, -, hlt, -, hrest⟩ := h
    have := ih hrest
    push_cast [List.length_cons]
    omega

lemma quiet_unwind_exists {fuel : ℕ} {a : Activation} {n : Bool} {rest : List Activation}
    (hf : Frames u.width u.user (quiet u).page k rest) (hs : a.rpcStack = top k) (hfuel : rest.length < fuel) :
    ∃ u' ctx, unwind procs fuel u (noisy a n) = some (u', ctx) := by
  induction fuel generalizing u a n rest k with
  | zero => omega
  | succ fuel ih =>
    rw [unwind]
    split_ifs with hp he
    · exact ⟨_, _, rfl⟩
    · exact ⟨_, _, rfl⟩
    · simp only [noisy, record, hs, rpcStackEmpty_top] at he
      cases rest with
      | nil => exact absurd hf.1 he
      | cons b rest =>
        obtain ⟨-, hctx, k', hs', -, -, -, -, hrest⟩ := hf
        obtain ⟨m, hm⟩ := exists_noisy hctx
        have hrec : ctxAt u (noisy a n).rpcStack = noisy b m := by
          simp [ctxAt, noisy, record, hs, hm]
        have hbs : (noisy b m).rpcStack = top k' := hs'
        simp only [hrec, hbs]
        have hframes := hrest.quiet_answer m
          { (getRegs { u with regs := top k' - sizeofCallCtx u.width }).args with s := ERR_NF, id := 0 }
        exact ih (by cases m <;> exact hframes) hs' (by simpa using hfuel)

lemma unwind_rpcStack {fuel : ℕ} {ctx ctx' : CallCtx} (h : unwind procs fuel u ctx = some (u', ctx')) :
    u'.rpcStack = u.rpcStack := by
  induction fuel generalizing u ctx with
  | zero => cases h
  | succ fuel ih =>
    rw [unwind] at h
    split_ifs at h
    · cases h
      rfl
    · cases h
      rfl
    · rw [ih h]
      split_ifs <;> rfl

lemma Layout.unwinds (hl : Layout (quiet t) k stack) (hne : stack ≠ []) (procs : Procs) (a : SysRet) :
    ∃ u v b m rest k', unwind procs 513 (answered t a) (ctxAt t t.rpcStack) = some (u, noisy b m) ∧
      StopsAt procs stack b rest ∧ isRpc u = true ∧ u.orphan = (t.orphan || !usable procs b.pid) ∧
      destroyRpc { u with exec := b.exec, rpcStack := b.rpcStack } = some v ∧ v.exec = b.exec ∧
      v.rpcStack = b.rpcStack ∧ v.orphan = u.orphan ∧ v.tid = t.tid ∧ b.rpcStack = top k' ∧ k' ≤ 511 ∧
      v.rpcIdx = k' - 1 := by
  cases stack with
  | nil => exact absurd rfl hne
  | cons c rest =>
    have hrpc : isRpc t = true := hl.isRpc_iff.2 hne
    obtain ⟨-, hctx, k₁, hs, -, -, hlt, -, hrest⟩ := hl.frames
    obtain ⟨n, hn⟩ := exists_noisy hctx
    have hk : t.rpcStack = top k := hl.rpcStack
    have hrec : ctxAt t t.rpcStack = noisy c n := by
      simp [ctxAt, hk, hn]
    have hlen := hrest.length_le
    have hidx : 0 ≤ t.rpcIdx := hl.idx_nonneg
    have hle : t.rpcIdx ≤ 511 := le_trans hl.idx_le hl.frames.le
    have hik : t.rpcIdx ≤ k := hl.idx_le
    have hframes : Frames (answered t a).width (answered t a).user (quiet (answered t a)).page k₁ rest := by
      have := @Frames.quiet_answer t k₁ rest hrest n a
      simp only [answered, hrec, show (noisy c n).rpcStack = top k₁ from hs, show (noisy c n).notify = n from rfl]
      cases n <;> exact this
    obtain ⟨u, ctx, hu⟩ := @quiet_unwind_exists (answered t a) k₁ procs 513 c n rest hframes hs (by omega)
    rw [← hrec] at hu
    obtain ⟨b, rest', k', m, hstop, rfl, hbs, -, -, hf, -, huser, hi, htid, -⟩ := hl.quiet_return hne hu
    have hst : u.rpcStack = t.rpcStack := by
      rw [unwind_rpcStack hu, answered]
      split_ifs <;> rfl
    have horphan : u.orphan = (t.orphan || !usable procs b.pid) := by
      rw [unwind_orphan hu, answered]
      split_ifs <;> rfl
    obtain ⟨⟨user, y⟩, hc⟩ := @clearUp_exists t.user t.rpcIdx 513 hidx hle (by push_cast; omega)
    have hd : ∃ v, destroyRpc { u with exec := b.exec, rpcStack := b.rpcStack } = some v ∧ v.exec = b.exec ∧
        v.rpcStack = b.rpcStack ∧ v.orphan = u.orphan ∧ v.tid = t.tid ∧ v.rpcIdx = k' - 1 := by
      simp only [destroyRpc, huser, hi, hc, Option.bind_eq_bind, Option.bind_some, hbs, top_div]
      exact ⟨_, rfl, rfl, rfl, rfl, htid, by change k' + 1 - 2 = k' - 1; omega⟩
    obtain ⟨v, hv, hexec, hrs, ho, hvt, hidx'⟩ := hd
    refine ⟨u, v, b, m, rest', k', hu, hstop, ?_, horphan, hv, hexec, hrs, ho, hvt, hbs, hf.le, hidx'⟩
    rw [isRpc, hst]
    exact hrpc

end Kmi.Rpc
