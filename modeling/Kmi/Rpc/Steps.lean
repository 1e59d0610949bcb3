import Kmi.Rpc.CallStack

/-! What each way of moving the RPC stack does to the frames in it. -/

namespace Kmi.Rpc

variable {t : Thread} {k : ℤ} {stack : List Activation}

lemma clearDown_spec {user user' : ℤ → Bool} {idx x : ℤ}
    (h : clearDown 513 user idx = some (user', x)) (hidx : idx ≤ 511) :
    x ≤ idx ∧ user' = clearRange user (x + 1) (idx + 1) ∧
      (idx < 511 → 0 ≤ x ∧ user x = false ∧ ∀ j, x < j → j ≤ idx → user j = true) ∧
      (¬ idx < 511 → x = idx) := by
  by_cases hlt : idx < 511
  · obtain ⟨h₀, h₁, h₂, h₃, h₄⟩ := clearDown_some h hlt
    exact ⟨h₁, h₄, fun _ => ⟨h₀, h₂, h₃⟩, fun h => absurd hlt h⟩
  · have hge : ¬ idx < rpcPages - 1 := by
      simp only [rpcPages]
      omega
    rw [clearDown, if_neg hge] at h
    obtain ⟨rfl, rfl⟩ := Prod.mk.inj (Option.some.inj h)
    exact ⟨le_rfl, (clearRange_self _).symm, fun h => absurd h hlt, fun _ => rfl⟩

lemma enterRpc_push (r : Proc) (a : SysRet) (forward notify : Bool) {user : ℤ → Bool} {x : ℤ}
    (hc : clearDown 513 t.user t.rpcIdx = some (user, x)) :
    enterRpc t r a ⟨false, forward, notify⟩ = some { t with
      exec := r.callback
      pid := r.rid
      eid := if forward then t.eid else t.pid
      regs := top (t.rpcIdx - 1) - sizeofCallCtx t.width
      rpcStack := top (t.rpcIdx - 1)
      rpcIdx := t.rpcIdx - 2
      user := Function.update user (t.rpcIdx - 2) true
      page := Function.update t.page (t.rpcIdx - 1)
        ⟨⟨t.exec, t.rpcStack, t.eid, t.pid, notify⟩, ⟨a, top (t.rpcIdx - 1) - basePageSize⟩⟩ } := by
  simp [enterRpc, newRpc, setRetFast, setStackFast, setRegs, getRegs, regsPage, setCtx,
    rpcPosition_eq, hc]

lemma enterRpc_replace (r : Proc) (a : SysRet) (forward : Bool) {user : ℤ → Bool} {x : ℤ}
    (hk : t.rpcStack = top k) (hrpc : isRpc t = true)
    (hc : clearDown 513 t.user t.rpcIdx = some (user, x)) :
    enterRpc t r a ⟨true, forward, false⟩ = some { t with
      exec := r.callback
      pid := r.rid
      eid := if forward then t.eid else t.pid
      regs := top k - sizeofCallCtx t.width
      rpcIdx := x + 1
      user := Function.update user (x + 1) true
      page := Function.update t.page k ⟨(t.page k).ctx, ⟨a, top k - basePageSize⟩⟩ } := by
  simp [enterRpc, reuseRpc, setRetFast, setStackFast, setRegs, getRegs, regsPage, hrpc, hk, hc]

lemma leaveRpc_pop {procs : Procs} (a : SysRet) {k' : ℤ} {exec eid pid : ℤ} {user : ℤ → Bool}
    {y : ℤ} (hk : t.rpcStack = top k) (ho : t.orphan = false) (hp : usable procs pid = true)
    (hctx : (t.page k).ctx = ⟨exec, top k', eid, pid, false⟩)
    (hc : clearUp 513 t.user t.rpcIdx = some (user, y)) :
    leaveRpc procs t a = some { t with
      exec := exec
      pid := pid
      eid := eid
      regs := top k' - sizeofCallCtx t.width
      rpcStack := top k'
      rpcIdx := k' - 1
      user := setRange user (y + 1) k'
      page := Function.update t.page k' ⟨(t.page k').ctx, ⟨a, (t.page k').regs.sp⟩⟩ } := by
  have hidx : k' + 1 - 2 = k' - 1 := by omega
  simp [leaveRpc, ctxAt, hk, hctx, unwind, hp, ho, destroyRpc, setRetFast, setRegs, getRegs,
    regsPage, hc, hidx]

namespace Layout

lemma clearDown_exists (h : Layout t k stack) (hpos : 0 < t.rpcIdx) :
    ∃ user x, clearDown 513 t.user t.rpcIdx = some (user, x) := by
  have := h.frames.le
  have := h.idx_le
  obtain ⟨⟨user, x⟩, hr⟩ := @Rpc.clearDown_exists t.user t.rpcIdx 513 (h.user_zero_of_pos hpos)
    hpos.le (by omega)
  exact ⟨user, x, hr⟩

lemma rewrite (h : Layout t k stack) (t' : Thread) (hw : t'.width = t.width) (hs : t'.rpcStack = t.rpcStack)
    (hr : t'.regs = t.regs) (hi : t'.rpcIdx = t.rpcIdx) (hu : t'.user = t.user)
    (hpage : ∀ i, t.user i = false → (t'.page i).ctx = (t.page i).ctx)
    (hregs : ∀ i, i ≠ k → t.user i = false → (t'.page i).regs = (t.page i).regs) :
    Layout t' k stack where
  rpcStack := hs.trans h.rpcStack
  regs := by rw [hr, hw, h.regs]
  user_zero := by
    rw [hu, hi]
    exact h.user_zero
  frames := by
    rw [hw]
    apply h.frames.congr
    · exact fun i _ hi => hu ▸ hi
    · exact fun i _ => hpage i
    · exact fun i hi => hregs i (by omega)
  cursor := by
    simpa only [Cursor, hi, hu] using h.cursor

lemma frame_cleared (h : Layout t k stack) {user : ℤ → Bool} {x : ℤ}
    (hc : clearDown 513 t.user t.rpcIdx = some (user, x)) : user (t.rpcIdx - 1) = false := by
  obtain ⟨hx, rfl, hlow, -⟩ := clearDown_spec hc (h.idx_le.trans h.frames.le)
  have hk := h.frames.le
  rcases h.cursor with ⟨-, hlt, hu⟩ | ⟨-, hidx, hu⟩ | ⟨-, hidx, hu, hu'⟩
  · obtain ⟨-, hxu, hbetween⟩ := hlow (by omega)
    have hne : x ≠ t.rpcIdx := by
      rintro rfl
      simp [hu] at hxu
    by_cases he : x = t.rpcIdx - 1
    · simpa [clearRange, ← he] using hxu
    · simp [clearRange]
      omega
  · simp [clearRange, hidx, hu]
  · simp [clearRange, hidx, hu']

lemma push {t' : Thread} {a : Activation} (h : Layout t k stack) {user : ℤ → Bool} {x : ℤ}
    (hroom : 2 ≤ t.rpcIdx) (hc : clearDown 513 t.user t.rpcIdx = some (user, x))
    (ha : a = ⟨t.pid, t.eid, t.exec, t.rpcStack, t.regs, getRegs t⟩)
    (hw : t'.width = t.width) (hs : t'.rpcStack = top (t.rpcIdx - 1))
    (hr : t'.regs = top (t.rpcIdx - 1) - sizeofCallCtx t'.width) (hi : t'.rpcIdx = t.rpcIdx - 2)
    (hu : t'.user = Function.update user (t.rpcIdx - 2) true)
    (hctx : (t'.page (t.rpcIdx - 1)).ctx = ⟨t.exec, t.rpcStack, t.eid, t.pid, false⟩)
    (hpage : ∀ i, i ≠ t.rpcIdx - 1 → t'.page i = t.page i) :
    Layout t' (t.rpcIdx - 1) (a :: stack) := by
  have hfc := h.frame_cleared hc
  obtain ⟨hx, rfl, -⟩ := clearDown_spec hc (h.idx_le.trans h.frames.le)
  have hik := h.idx_le
  have hkeep : ∀ i, t.rpcIdx - 1 ≤ i → t.user i = false → t'.user i = false := by
    intro i hi hui
    have : i ≠ t.rpcIdx - 2 := by omega
    simp [hu, this, clearRange, hui]
  subst ha
  refine ⟨hs, hr, ?_, ⟨?_, hctx, k, h.rpcStack, hw ▸ h.regs, ?_, by omega, ?_, ?_⟩, .inl ⟨?_, ?_, ?_⟩⟩
  · intro hzero
    by_contra hne
    have : (0 : ℤ) ≠ t.rpcIdx - 2 := by omega
    simp [hu, this, clearRange, h.user_zero_of_pos (by omega)] at hzero
  · have : t.rpcIdx - 1 ≠ t.rpcIdx - 2 := by omega
    rw [hu, Function.update_of_ne this]
    exact hfc
  · rw [hpage k (by omega), getRegs, h.regsPage_eq]
  · intro hne
    have := (h.cursor_of_inRpc hne).2.1
    omega
  · rw [hw]
    apply h.frames.congr
    · exact fun i hi => hkeep i (by omega)
    · exact fun i hi _ => by rw [hpage i (by omega)]
    · exact fun i hi _ => by rw [hpage i (by omega)]
  · omega
  · omega
  · simp [hu, hi]

lemma replace {t' : Thread} (h : Layout t k stack) (hne : stack ≠ []) {user : ℤ → Bool} {x : ℤ}
    (hc : clearDown 513 t.user t.rpcIdx = some (user, x)) (hw : t'.width = t.width)
    (hs : t'.rpcStack = t.rpcStack) (hr : t'.regs = t.regs) (hi : t'.rpcIdx = x + 1)
    (hu : t'.user = Function.update user (x + 1) true)
    (hctx : (t'.page k).ctx = (t.page k).ctx) (hpage : ∀ i, i ≠ k → t'.page i = t.page i) :
    Layout t' k stack := by
  obtain ⟨hpos, hlt, hui⟩ := h.cursor_of_inRpc hne
  have hk := h.frames.le
  obtain ⟨hx, rfl, hlow, -⟩ := clearDown_spec hc (by omega)
  obtain ⟨hx₀, hxu, -⟩ := hlow (by omega)
  have hne' : x ≠ t.rpcIdx := by
    rintro rfl
    simp [hui] at hxu
  refine ⟨hs.trans h.rpcStack, by rw [hr, hw, h.regs], ?_, ?_, .inl ⟨by omega, by omega, ?_⟩⟩
  · have : (0 : ℤ) ≠ x + 1 := by omega
    simp [hu, this, clearRange, h.user_zero_of_pos (by omega)]
  · rw [hw]
    apply h.frames.congr
    · intro i hi hui
      have : i ≠ x + 1 := by omega
      simp [hu, this, clearRange, hui]
    · intro i hi _
      by_cases he : i = k
      · rw [he, hctx]
      · rw [hpage i he]
    · exact fun i hi _ => by rw [hpage i (by omega)]
  · simp [hu, hi]

lemma clearUp_le {user : ℤ → Bool} {y : ℤ} (h : Layout t k stack) (hne : stack ≠ [])
    (hc : clearUp 513 t.user t.rpcIdx = some (user, y)) : y ≤ k := by
  have hidx := (h.cursor_of_inRpc hne).2.1
  have hk := h.frames.le
  obtain ⟨-, -, -, hbetween, -⟩ := clearUp_some hc (by omega)
  by_contra hgt
  have := hbetween k (by omega) (by omega)
  simp [h.frames.user_eq] at this

lemma pop {t' : Thread} {rest : List Activation} {k' : ℤ} {user : ℤ → Bool} {y : ℤ}
    (h : Layout t k stack) (hne : stack ≠ []) (hrest : Frames t.width t.user t'.page k' rest)
    (hlt : k < k') (hgap : rest ≠ [] → k + 2 ≤ k')
    (hc : clearUp 513 t.user t.rpcIdx = some (user, y)) (hw : t'.width = t.width)
    (hs : t'.rpcStack = top k') (hr : t'.regs = top k' - sizeofCallCtx t'.width) (hi : t'.rpcIdx = k' - 1)
    (hu : t'.user = setRange user (y + 1) k') : Layout t' k' rest := by
  obtain ⟨hpos, hidx, hui⟩ := h.cursor_of_inRpc hne
  have hk := h.frames.le
  have hk' := hrest.le
  have hyk := h.clearUp_le hne hc
  obtain ⟨hy, -, hyu, -, rfl⟩ := clearUp_some hc (by omega)
  refine ⟨hs, hr, ?_, ?_, ?_⟩
  · intro hzero
    have : ¬ y + 1 ≤ 0 := by omega
    have hold : (0 < t.rpcIdx ∨ y ≤ 0) ∧ t.user 0 = true := by
      simpa [hu, setRange, clearRange, this] using hzero
    have hidx := h.user_zero hold.2
    have : y = 0 := by omega
    have := hyu (by omega)
    simp_all
  · rw [hw]
    apply hrest.congr
    · intro i hi hui
      have : ¬ i < k' := by omega
      simp [hu, setRange, clearRange, this, hui]
    · exact fun i _ _ => rfl
    · exact fun i _ _ => rfl
  · by_cases hreach : y + 1 ≤ k' - 1
    · left
      refine ⟨by omega, by omega, ?_⟩
      simp [hu, hi, setRange, hreach]
    · -- the root activation has not grown its stack, so nothing was made accessible
      have hnil : rest = [] := by
        by_contra hne'
        have := hgap hne'
        omega
      have h511 := hrest.eq_nil_iff.1 hnil
      have hy510 : y = 510 := by omega
      right
      right
      refine ⟨hnil, by omega, ?_, ?_⟩
      · have := hyu (by omega)
        simp [hu, setRange, clearRange, hy510, ← this]
      · have : t.rpcIdx ≤ 509 := by omega
        simp [hu, setRange, clearRange, hy510, this]

lemma grow {t' : Thread} {p : ℤ} (h : Layout t k stack) (hp : 0 ≤ p) (hlt : p < t.rpcIdx)
    (ht : t' = { t with rpcIdx := p, user := setRange t.user p t.rpcIdx }) :
    Layout t' k stack := by
  subst ht
  have := h.idx_le
  refine ⟨h.rpcStack, h.regs, ?_, ?_, .inl ⟨hp, ?_, ?_⟩⟩
  · intro hzero
    by_contra hne
    have hne : ¬ p ≤ 0 := fun hle => hne (le_antisymm hle hp)
    have := h.user_zero (by simpa [setRange, hne] using hzero)
    omega
  · apply h.frames.congr
    · intro i hi hui
      have : ¬ i < t.rpcIdx := by omega
      simp [setRange, this, hui]
    · exact fun i _ _ => rfl
    · exact fun i _ _ => rfl
  · change p < k
    omega
  · simp [setRange, hlt]

end Layout

end Kmi.Rpc
