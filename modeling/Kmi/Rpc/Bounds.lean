import Kmi.Rpc.Refine
import Kmi.Rpc.Machine

/-! Every RPC stack operation stays within the stack of the thread it moves. -/

namespace Kmi.Rpc

variable {t t' u u' : Thread} {k : ℤ} {stack : List Activation} {procs : Procs} {m m' : Machine}

def quiet (t : Thread) : Thread :=
  { t with page := fun i => ⟨{ (t.page i).ctx with notify := false }, (t.page i).regs⟩ }

def Sound (t : Thread) : Prop := ∃ k stack, Layout (quiet t) k stack

lemma Layout.quiet_enter_push {r : Proc} {a : SysRet} {forward notify : Bool}
    (hl : Layout (quiet t) k stack) (hroom : 2 ≤ t.rpcIdx)
    (h : enterRpc t r a ⟨false, forward, notify⟩ = some t') :
    Layout (quiet t') (t.rpcIdx - 1) (activation t :: stack) := by
  obtain ⟨user, x, hc⟩ := clearDown_of_enterRpc h
  rw [enterRpc_push r a _ _ hc] at h
  obtain rfl := Option.some.inj h
  refine hl.push hroom hc rfl rfl rfl rfl rfl rfl ?_ fun i hi => ?_
  · simp [quiet]
  · simp [quiet, Function.update_of_ne (show i ≠ t.rpcIdx - 1 from hi)]

lemma Layout.quiet_enter_replace {r : Proc} {a : SysRet} {forward notify : Bool}
    (hl : Layout (quiet t) k stack) (hne : stack ≠ [])
    (h : enterRpc t r a ⟨true, forward, notify⟩ = some t') : Layout (quiet t') k stack := by
  obtain ⟨user, x, hc⟩ := clearDown_of_enterRpc h
  have hk : t.rpcStack = top k := hl.rpcStack
  have hrpc : isRpc t = true := hl.isRpc_iff.2 hne
  have heq : enterRpc t r a ⟨true, forward, notify⟩ = enterRpc t r a ⟨true, forward, false⟩ := rfl
  rw [heq, enterRpc_replace r a _ hk hrpc hc] at h
  obtain rfl := Option.some.inj h
  refine hl.replace hne hc rfl rfl hl.regs.symm rfl rfl ?_ fun i hi => ?_
  · simp [quiet]
  · simp [quiet, Function.update_of_ne hi]

lemma quiet_setRegs (r : Regs) : quiet (setRegs t r) = setRegs (quiet t) r := by
  have hpage : (quiet (setRegs t r)).page = (setRegs (quiet t) r).page := by
    funext i
    by_cases hi : i = regsPage t
    · subst hi
      simp [quiet, setRegs, regsPage]
    · simp [quiet, setRegs, regsPage, show i ≠ pageOf (t.regs - sizeofRegs) from hi]
  simp only [quiet, setRegs] at hpage ⊢
  rw [hpage]

lemma quiet_setRetFast (a : SysRet) : quiet (setRetFast t a) = setRetFast (quiet t) a :=
  quiet_setRegs _

lemma Layout.quiet_setArgs1 (hl : Layout (quiet t) k stack) (status : ℤ) :
    Layout (quiet (setArgs1 t status)) k stack := by
  rw [setArgs1, quiet_setRetFast]
  exact hl.setRegs _

lemma Layout.quiet_userRun (hl : Layout (quiet t) k stack) (exec : ℤ) (regs : Regs)
    (page : ℤ → StackPage) : Layout (quiet (Rpc.userRun t exec regs page)) k stack := by
  rw [Rpc.userRun, quiet_setRegs]
  apply Layout.setRegs
  apply hl.rewrite (quiet { t with
    exec := exec
    page := fun i => if t.user i then page i else t.page i }) rfl rfl rfl rfl rfl
  · intro i hi
    simp [quiet, show t.user i = false from hi]
  · intro i _ hi
    simp [quiet, show t.user i = false from hi]

lemma Frames.quiet_answer (h : Frames u.width u.user (quiet u).page k stack) (n : Bool) (a : SysRet) :
    Frames u.width u.user (quiet (if n then { u with regs := top k - sizeofCallCtx u.width }
      else setRetFast { u with regs := top k - sizeofCallCtx u.width } a)).page k stack := by
  cases n with
  | true => exact h
  | false =>
    simp only [Bool.false_eq_true, if_false, quiet_setRetFast]
    exact @Frames.setRetFast_regs (quiet u) k stack a h

def noisy (a : Activation) (n : Bool) : CallCtx := { record a with notify := n }

lemma exists_noisy {page : ℤ → StackPage} {a : Activation} {i : ℤ}
    (h : ({ (page i).ctx with notify := false } : CallCtx) = ⟨a.exec, a.rpcStack, a.eid, a.pid, false⟩) :
    ∃ n, (page i).ctx = noisy a n := by
  refine ⟨(page i).ctx.notify, ?_⟩
  simp only [CallCtx.mk.injEq, and_true] at h
  simp [noisy, record, ← h]

lemma quiet_unwind {fuel : ℕ} {ctx : CallCtx} {a : Activation} {n : Bool} {rest : List Activation}
    (hf : Frames u.width u.user (quiet u).page k rest) (hs : a.rpcStack = top k)
    (hr : u.regs = top k - sizeofCallCtx u.width)
    (h : unwind procs fuel u (noisy a n) = some (u', ctx)) :
    ∃ b rest' k' m, StopsAt procs (a :: rest) b rest' ∧ ctx = noisy b m ∧ b.rpcStack = top k' ∧ k ≤ k' ∧
      Frames u.width u.user (quiet u').page k' rest' ∧ u'.regs = top k' - sizeofCallCtx u'.width ∧
      u'.user = u.user ∧ u'.rpcIdx = u.rpcIdx ∧ u'.tid = u.tid ∧ u'.width = u.width := by
  induction fuel generalizing u a n rest k with
  | zero => cases h
  | succ fuel ih =>
    rw [unwind] at h
    by_cases hp : usable procs (noisy a n).pid = true
    · rw [if_pos hp] at h
      obtain ⟨rfl, rfl⟩ := Prod.mk.inj (Option.some.inj h)
      exact ⟨a, rest, k, n, ⟨[], rfl, by simp, .inl hp⟩, rfl, hs, le_rfl, hf, hr, rfl, rfl, rfl, rfl⟩
    rw [if_neg hp] at h
    by_cases he : rpcStackEmpty (noisy a n).rpcStack = true
    · rw [if_pos he] at h
      obtain ⟨rfl, rfl⟩ := Prod.mk.inj (Option.some.inj h)
      simp only [noisy, record, hs, rpcStackEmpty_top] at he
      exact ⟨a, rest, k, n, ⟨[], rfl, by simp, .inr (hf.eq_nil_iff.2 he)⟩, rfl, hs, le_rfl, hf, hr, rfl, rfl, rfl, rfl⟩
    rw [if_neg he] at h
    simp only [noisy, record, hs, rpcStackEmpty_top] at he
    cases rest with
    | nil => exact absurd hf.1 he
    | cons b rest =>
      obtain ⟨-, hctx, k', hs', hr', -, hlt, -, hrest⟩ := hf
      obtain ⟨m, hm⟩ := exists_noisy hctx
      have hrec : ctxAt u (noisy a n).rpcStack = noisy b m := by
        simp [ctxAt, noisy, record, hs, hm]
      have hbs : (noisy b m).rpcStack = top k' := hs'
      simp only [hrec, hbs] at h
      have hframes := hrest.quiet_answer m
        { (getRegs { u with regs := top k' - sizeofCallCtx u.width }).args with s := ERR_NF, id := 0 }
      obtain ⟨c, rest', k'', m', hsuf, h₁, h₂, h₃, h₄, h₅, h₆⟩ := ih (by cases m <;> exact hframes) hs'
        (by cases m <;> rfl) h
      refine ⟨c, rest', k'', m', hsuf.cons (Bool.eq_false_iff.2 hp), h₁, h₂, by omega, ?_, h₅, ?_⟩
      · cases m <;> exact h₄
      · cases m <;> exact h₆

def answered (t : Thread) (a : SysRet) : Thread :=
  let u := { t with regs := (ctxAt t t.rpcStack).rpcStack - sizeofCallCtx t.width }
  if (ctxAt t t.rpcStack).notify then u else setRetFast u a

lemma Layout.quiet_return {a : SysRet} {ctx : CallCtx} (hl : Layout (quiet t) k stack)
    (hne : stack ≠ []) (h : unwind procs 513 (answered t a) (ctxAt t t.rpcStack) = some (u, ctx)) :
    ∃ b rest k' m, StopsAt procs stack b rest ∧ ctx = noisy b m ∧ b.rpcStack = top k' ∧ k < k' ∧
      (rest ≠ [] → k + 2 ≤ k') ∧ Frames t.width t.user (quiet u).page k' rest ∧
      u.regs = top k' - sizeofCallCtx u.width ∧ u.user = t.user ∧ u.rpcIdx = t.rpcIdx ∧ u.tid = t.tid ∧
      u.width = t.width := by
  cases stack with
  | nil => exact absurd rfl hne
  | cons b rest =>
    obtain ⟨-, hctx, k₁, hs, -, -, hlt, hgap, hrest⟩ := hl.frames
    obtain ⟨n, hn⟩ := exists_noisy hctx
    have hk : t.rpcStack = top k := hl.rpcStack
    have hrec : ctxAt t t.rpcStack = noisy b n := by
      simp [ctxAt, hk, hn]
    have hbs : (noisy b n).rpcStack = top k₁ := hs
    have hbn : (noisy b n).notify = n := rfl
    simp only [answered, hrec, hbs, hbn] at h
    have hframes := @Frames.quiet_answer t k₁ rest hrest n a
    obtain ⟨c, rest', k', m, hsuf, rfl, hcs, hle, hf, hur, huser, hidx, htid, hwidth⟩ :=
      quiet_unwind (by cases n <;> exact hframes) hs (by cases n <;> rfl) h
    refine ⟨c, rest', k', m, hsuf, rfl, hcs, by omega, fun hne' => ?_, ?_, hur, ?_, ?_, ?_, ?_⟩
    · have : rest ≠ [] := by
        rintro rfl
        have := hsuf.suffix.length_le
        simp at this
        exact hne' this
      have := hgap this
      omega
    · cases n <;> exact hf
    · cases n <;> exact huser
    · cases n <;> exact hidx
    · cases n <;> exact htid
    · cases n <;> exact hwidth

lemma Layout.quiet_leave {a : SysRet} (hl : Layout (quiet t) k stack) (hne : stack ≠ [])
    (h : leaveRpc procs t a = some t') :
    ∃ b rest k', StopsAt procs stack b rest ∧ Layout (quiet t') k' rest ∧ t'.tid = t.tid := by
  change (unwind procs 513 (answered t a) (ctxAt t t.rpcStack)).bind _ = _ at h
  cases hu : unwind procs 513 (answered t a) (ctxAt t t.rpcStack) with
  | none => simp [hu] at h
  | some uc =>
    obtain ⟨u, ctx⟩ := uc
    obtain ⟨b, rest, k', m, hstop, rfl, hs, hlt, hgap, hf, hur, huser, hidx, htid, hwidth⟩ :=
      hl.quiet_return hne hu
    have hs : (noisy b m).rpcStack = top k' := hs
    simp only [hu, Option.bind_eq_bind, Option.bind_some] at h
    split_ifs at h with ho
    cases hc : clearUp 513 t.user t.rpcIdx with
    | none => simp [destroyRpc, huser, hidx, hc] at h
    | some uy =>
      obtain ⟨user, y⟩ := uy
      simp only [destroyRpc, huser, hidx, hc, Option.bind_eq_bind, Option.bind_some, hs, top_div] at h
      obtain rfl := Option.some.inj h
      have hi : k' + 1 - 2 = k' - 1 := by omega
      have hr : k' + 1 - 1 = k' := by omega
      refine ⟨b, rest, k', hstop, hl.pop hne hf hlt hgap hc hwidth rfl hur hi ?_, htid⟩
      change setRange user (y + 1) (k' + 1 - 1) = _
      rw [hr]

lemma mem_scanDown {fuel : ℕ} {user : ℤ → Bool} {idx i : ℤ} (h₀ : user 0 = false) (hidx : 0 ≤ idx)
    (h : i ∈ scanDown fuel user idx) : 0 ≤ i ∧ i < 511 := by
  induction fuel generalizing user idx with
  | zero => simp [scanDown] at h
  | succ fuel ih =>
    have hmax : rpcPages - 1 = 511 := rfl
    rw [scanDown, hmax] at h
    split_ifs at h with hlt hu
    · have hne : idx ≠ 0 := by
        rintro rfl
        simp [h₀] at hu
      rw [List.mem_cons] at h
      obtain rfl | h := h
      · omega
      · refine ih ?_ (by omega) h
        rwa [Function.update_of_ne hne.symm]
    · rw [List.mem_singleton] at h
      omega
    · simp at h

lemma minus_one_mem_scanDown (fuel : ℕ) {user : ℤ → Bool} (h : user 0 = true) :
    -1 ∈ scanDown (fuel + 2) user 0 := by
  have hmax : rpcPages - 1 = 511 := rfl
  rw [scanDown, hmax, if_pos (by norm_num), if_pos h, scanDown, hmax, if_pos (by norm_num)]
  split_ifs <;> simp

lemma mem_scanUp {fuel : ℕ} {user : ℤ → Bool} {idx i : ℤ} (hidx : 0 ≤ idx)
    (h : i ∈ scanUp fuel user idx) : 0 ≤ i ∧ i < 511 := by
  induction fuel generalizing user idx with
  | zero => simp [scanUp] at h
  | succ fuel ih =>
    have hmax : rpcPages - 1 = 511 := rfl
    rw [scanUp, hmax] at h
    split_ifs at h with hlt hu
    · rw [List.mem_cons] at h
      obtain rfl | h := h
      · omega
      · exact ih (by omega) h
    · rw [List.mem_singleton] at h
      omega
    · simp at h

lemma mem_pagesFrom {first stop i : ℤ} (h : i ∈ pagesFrom first stop) : first ≤ i ∧ i < stop := by
  simp only [pagesFrom, List.mem_map, List.mem_range] at h
  obtain ⟨j, hj, rfl⟩ := h
  omega

def InStack (tid : ℤ) (x : Touch) : Prop := x.owner = tid ∧ 0 ≤ x.page ∧ x.page < rpcPages

instance (tid : ℤ) (x : Touch) : Decidable (InStack tid x) := inferInstanceAs (Decidable (_ ∧ _ ∧ _))

def entryPages (tail : Bool) : ℤ := if tail then 1 else 2

section

variable {tid inUse : ℤ} {tail : Bool}

lemma Layout.clearDown_bounds {user : ℤ → Bool} {x : ℤ} (hl : Layout (quiet t) k stack)
    (hc : clearDown 513 t.user t.rpcIdx = some (user, x)) (hpos : 0 < t.rpcIdx) :
    0 ≤ x ∧ x ≤ t.rpcIdx ∧ (t.rpcIdx < 511 → ∀ j, x < j → j ≤ t.rpcIdx → t.user j = true) := by
  have hle : t.rpcIdx ≤ 511 := le_trans hl.idx_le hl.frames.le
  obtain ⟨hx, -, hlow, hhigh⟩ := clearDown_spec hc hle
  by_cases hlt : t.rpcIdx < 511
  · exact ⟨(hlow hlt).1, hx, fun _ => (hlow hlt).2.2⟩
  · have := hhigh hlt
    exact ⟨by omega, hx, fun h => absurd h hlt⟩

lemma Layout.enterTouches_iff (hl : Layout (quiet t) k stack) (hrpc : tail = true → stack ≠ []) :
    (∀ x ∈ enterTouches t inUse tail, InStack t.tid x) ↔ inUse = t.tid ∧ entryPages tail ≤ t.rpcIdx := by
  have hpos : 0 ≤ t.rpcIdx := hl.idx_nonneg
  have hk : k ≤ 511 := hl.frames.le
  have hle : t.rpcIdx ≤ k := hl.idx_le
  constructor
  · intro h
    refine ⟨(h _ (List.mem_cons_self ..)).1, ?_⟩
    cases tail with
    | false =>
      have hmem : (⟨t.tid, t.rpcIdx - 2⟩ : Touch) ∈ enterTouches t inUse false := by
        simp [enterTouches]
      have hpage : 0 ≤ t.rpcIdx - 2 := (h _ hmem).2.1
      simp only [entryPages, Bool.false_eq_true, if_false]
      omega
    | true =>
      by_contra hlt
      have hzero : t.rpcIdx = 0 := by
        simp only [entryPages, if_true] at hlt
        omega
      have hu : t.user t.rpcIdx = true := (hl.cursor_of_inRpc (hrpc rfl)).2.2
      have hscan : (-1 : ℤ) ∈ scanDown 513 t.user t.rpcIdx := by
        rw [hzero] at hu ⊢
        exact minus_one_mem_scanDown 511 hu
      have hmem : (⟨t.tid, -1⟩ : Touch) ∈ enterTouches t inUse true := by
        simp [enterTouches, hscan]
      have hpage : (0 : ℤ) ≤ -1 := (h _ hmem).2.1
      omega
  · rintro ⟨rfl, hroom⟩ x hx
    have hroom' : 0 < t.rpcIdx := by
      cases tail <;> simp [entryPages] at hroom <;> omega
    have hu₀ : t.user 0 = false := hl.user_zero_of_pos hroom'
    have hframe : 0 ≤ ctxPage t.width (if tail && isRpc t then t.rpcStack else rpcPosition t) ∧
        ctxPage t.width (if tail && isRpc t then t.rpcStack else rpcPosition t) < 512 := by
      split_ifs
      · have hs : t.rpcStack = top k := hl.rpcStack
        rw [hs, ctxPage_top]
        omega
      · rw [rpcPosition_eq, ctxPage_top]
        omega
    simp only [enterTouches, List.mem_cons, List.mem_map, List.mem_append] at hx
    obtain rfl | ⟨i, hi | hi, rfl⟩ := hx
    · exact ⟨rfl, hframe⟩
    · have := mem_scanDown hu₀ hpos hi
      exact ⟨rfl, this.1, by simp only [rpcPages]; omega⟩
    · refine ⟨rfl, ?_⟩
      simp only [rpcPages]
      cases tail with
      | false =>
        simp only [Bool.false_eq_true, if_false, List.mem_singleton, entryPages] at hi hroom
        omega
      | true =>
        have := (hl.cursor_of_inRpc (hrpc rfl)).2.1
        change t.rpcIdx < k at this
        simp only [if_true] at hi
        split at hi
        · simp at hi
        · rename_i user x hc
          have := hl.clearDown_bounds hc hroom'
          rw [List.mem_singleton] at hi
          omega

end

lemma Layout.destroyTouches_inStack {k' : ℤ} (hl : Layout (quiet t) k stack) (huser : u.user = t.user)
    (hidx : u.rpcIdx = t.rpcIdx) (htid : u.tid = t.tid) (hs : u.rpcStack = top k') (hk' : k' ≤ 511) :
    ∀ x ∈ destroyTouches u, InStack t.tid x := by
  intro x hx
  have hpos : 0 ≤ t.rpcIdx := hl.idx_nonneg
  have hle : t.rpcIdx ≤ 511 := le_trans hl.idx_le hl.frames.le
  simp only [destroyTouches, huser, hidx, htid, hs, top_div, add_sub_cancel_right] at hx
  have hscan : ∀ i ∈ scanUp 513 t.user t.rpcIdx, InStack t.tid ⟨t.tid, i⟩ := by
    intro i hi
    have := mem_scanUp hpos hi
    exact ⟨rfl, this.1, this.2.trans (by decide)⟩
  split at hx
  · obtain ⟨i, hi, rfl⟩ := List.mem_map.1 hx
    exact hscan i hi
  · rename_i user y hc
    obtain ⟨i, hi, rfl⟩ := List.mem_map.1 hx
    obtain hi | hi := List.mem_append.1 hi
    · exact hscan i hi
    · have := (clearUp_some hc hle).1
      have := mem_pagesFrom hi
      exact ⟨rfl, by change 0 ≤ i; omega, by change i < 512; omega⟩

def ThreadRoom (size : ℤ) (procs : Procs) (t : Thread) : Event → Prop
  | .ipc c pid _ _ _ _ => entersFor size procs t c pid = true → entryPages (c.flags t).tail ≤ t.rpcIdx
  | _ => True

def Room (procs : Procs) (m : Machine) : MachineEvent → Prop
  | .thread tid e => ∀ t, m.threads tid = some t → ThreadRoom m.rpcStackSize procs t e
  | .notify tid handler critical _ => ∀ t h r, m.threads tid = some t → m.threads handler = some h →
      procs handler = some r → notifies m.rpcStackSize t h r critical = true →
      handler = tid ∧ 2 ≤ t.rpcIdx
  | .setConf _ => True

lemma doIpcFor_cases {size : ℤ} {c : Call} {pid d0 d1 d2 d3 : ℤ}
    (h : doIpcFor size procs t pid d0 d1 d2 d3 (c.flags t) = some t') :
    (entersFor size procs t c pid = false ∧ ∃ status, t' = setArgs1 t status) ∨
      (entersFor size procs t c pid = true ∧ ∃ r a, enterRpc t r a (c.flags t) = some t') := by
  rw [doIpcFor] at h
  by_cases hroom : (!(c.flags t).tail && !enoughRpcStackFor size t) = true
  · rw [if_pos hroom] at h
    refine .inl ⟨?_, _, (Option.some.inj h).symm⟩
    simp only [Bool.and_eq_true, Bool.not_eq_true'] at hroom
    simp [entersFor, hroom]
  rw [if_neg hroom] at h
  have hroom : ((c.flags t).tail || enoughRpcStackFor size t) = true := by
    simpa [or_iff_not_imp_left] using hroom
  cases hr : procs pid with
  | none =>
    simp only [hr] at h
    exact .inl ⟨by simp [entersFor, usable, hr], _, (Option.some.inj h).symm⟩
  | some r =>
    simp only [hr] at h
    by_cases hok : (isProc r && !zombie r) = true
    · rw [if_pos hok] at h
      refine .inr ⟨?_, r, _, h⟩
      simp only [entersFor, hroom, usable, hr, hok, Bool.and_self]
    · rw [if_neg hok] at h
      refine .inl ⟨?_, _, (Option.some.inj h).symm⟩
      simp only [entersFor, usable, hr, Bool.eq_false_iff.2 hok, Bool.and_false]

lemma doIpcFor_enters {size : ℤ} {c : Call} {pid : ℤ} (h : entersFor size procs t c pid = true)
    (d0 d1 d2 d3 : ℤ) :
    ∃ r a, doIpcFor size procs t pid d0 d1 d2 d3 (c.flags t) = enterRpc t r a (c.flags t) := by
  simp only [entersFor, usable, Bool.and_eq_true, Bool.or_eq_true] at h
  obtain ⟨hroom, hp⟩ := h
  cases hr : procs pid with
  | none => simp [hr] at hp
  | some r =>
    simp only [hr] at hp
    refine ⟨r, ⟨if (c.flags t).forward then t.eid else t.pid, t.tid, d0, d1, d2, d3⟩, ?_⟩
    have hno : ¬ (!(c.flags t).tail && !enoughRpcStackFor size t) = true := by
      obtain h | h := hroom <;> simp [h]
    have hok : (isProc r && !zombie r) = true := by simpa using hp
    rw [doIpcFor, if_neg hno]
    simp only [hr, if_pos hok]

lemma enterRpc_tid {r : Proc} {a : SysRet} {flags : IpcFlags} (h : enterRpc t r a flags = some t') :
    t'.tid = t.tid := by
  obtain ⟨user, x, hc⟩ := clearDown_of_enterRpc h
  cases ht : flags.tail <;>
    · simp [enterRpc, newRpc, reuseRpc, setRetFast, setStackFast, setRegs, setCtx, ht, hc] at h
      rw [← h]

/-- The suspended activations after an event, innermost first: a call that enters a
process suspends the current one, an answer takes all off down to the first that can be resumed. -/
def trackFrames (size : ℤ) (procs : Procs) (t : Thread) (e : Event) (frames : List Activation) : List Activation :=
  match e with
  | .user .. => frames
  | .fault _ => frames
  | .ipc c pid _ _ _ _ =>
    if entersFor size procs t c pid && !(c.flags t).tail then activation t :: frames else frames
  | .resp .. => (frames.dropWhile fun a => !usable procs a.pid).tail

lemma StopsAt.rest_eq {b : Activation} {rest : List Activation} (h : StopsAt procs stack b rest) :
    (stack.dropWhile fun a => !usable procs a.pid).tail = rest := by
  obtain ⟨above, rfl, hdead, hb⟩ := h
  have habove : ∀ a ∈ above, (!usable procs a.pid) = true := by
    simpa using hdead
  rw [List.dropWhile_append_of_pos habove, List.dropWhile_cons]
  split_ifs with hu
  · obtain hb | rfl := hb
    · simp [hb] at hu
    · rfl
  · rfl

lemma Layout.quiet_stepFor {size : ℤ} {e : Event} (hl : Layout (quiet t) k stack)
    (hroom : ThreadRoom size procs t e) (h : stepFor size procs t e = some t') :
    ∃ k', Layout (quiet t') k' (trackFrames size procs t e stack) ∧ t'.tid = t.tid := by
  cases e with
  | user exec regs page =>
    obtain rfl := Option.some.inj h
    exact ⟨k, hl.quiet_userRun exec regs page, rfl⟩
  | fault addr =>
    obtain ⟨-, hp, hlt, rfl⟩ | ⟨-, rfl⟩ := handlePagefault_some h
    · exact ⟨k, hl.grow hp hlt rfl, rfl⟩
    · exact ⟨k, hl, rfl⟩
  | ipc c pid d0 d1 d2 d3 =>
    obtain ⟨hout, status, rfl⟩ | ⟨hin, r, a, he⟩ := doIpcFor_cases h
    · refine ⟨k, ?_, rfl⟩
      rw [trackFrames, hout]
      exact hl.quiet_setArgs1 status
    · have hroom := hroom hin
      cases htail : (c.flags t).tail with
      | true =>
        have hf : c.flags t = ⟨true, (c.flags t).forward, (c.flags t).notify⟩ := by rw [← htail]
        have htrack : trackFrames size procs t (.ipc c pid d0 d1 d2 d3) stack = stack := by
          simp [trackFrames, htail]
        rw [htrack]
        rw [hf] at he
        exact ⟨k, hl.quiet_enter_replace (hl.isRpc_iff.1 (isRpc_of_tail htail)) he, enterRpc_tid he⟩
      | false =>
        have hf : c.flags t = ⟨false, (c.flags t).forward, (c.flags t).notify⟩ := by rw [← htail]
        have htrack : trackFrames size procs t (.ipc c pid d0 d1 d2 d3) stack = activation t :: stack := by
          simp [trackFrames, hin, htail]
        rw [htail] at hroom
        rw [htrack]
        rw [hf] at he
        exact ⟨_, hl.quiet_enter_push hroom he, enterRpc_tid he⟩
  | resp d0 d1 d2 d3 =>
    change (if isRpc t then _ else _) = _ at h
    split_ifs at h with hrpc
    · obtain ⟨b, rest, k', hstop, hl', htid⟩ := hl.quiet_leave (hl.isRpc_iff.1 hrpc) h
      rw [trackFrames, hstop.rest_eq]
      exact ⟨k', hl', htid⟩
    · obtain rfl := Option.some.inj h
      have hnil : stack = [] := not_not.1 fun hne => hrpc (hl.isRpc_iff.2 hne)
      subst hnil
      exact ⟨k, hl.quiet_setArgs1 _, rfl⟩

lemma Sound.stepFor {size : ℤ} {e : Event} (hs : Sound t) (hroom : ThreadRoom size procs t e)
    (h : stepFor size procs t e = some t') : Sound t' ∧ t'.tid = t.tid := by
  obtain ⟨k, stack, hl⟩ := hs
  obtain ⟨k', hl', htid⟩ := hl.quiet_stepFor hroom h
  exact ⟨⟨k', _, hl'⟩, htid⟩

lemma Sound.threadTouches_iff {size : ℤ} {e : Event} (hs : Sound t) :
    (∀ x ∈ threadTouches size procs t e, InStack t.tid x) ↔ ThreadRoom size procs t e := by
  obtain ⟨k, stack, hl⟩ := hs
  cases e with
  | user exec regs page => simp [threadTouches, ThreadRoom]
  | fault addr =>
    simp only [ThreadRoom, iff_true, threadTouches]
    split_ifs with hin
    · intro x hx
      obtain ⟨i, hi, rfl⟩ := List.mem_map.1 hx
      have hle : t.rpcIdx ≤ 511 := le_trans hl.idx_le hl.frames.le
      have hmem := mem_pagesFrom hi
      have hb : rpcStackBase % basePageSize = 0 := by decide
      simp only [inRpcStack, Bool.and_eq_true, decide_eq_true_eq, pageOf, basePageSize] at hin hmem hb
      exact ⟨rfl, by change 0 ≤ i; omega, by change i < 512; omega⟩
    · simp
  | ipc c pid d0 d1 d2 d3 =>
    simp only [ThreadRoom, threadTouches]
    split_ifs with hin
    · have hrpc : (c.flags t).tail = true → stack ≠ [] :=
        fun htail => hl.isRpc_iff.1 (isRpc_of_tail htail)
      rw [hl.enterTouches_iff hrpc]
      simp [hin]
    · simp [hin]
  | resp d0 d1 d2 d3 =>
    simp only [ThreadRoom, iff_true, threadTouches]
    by_cases hrpc : isRpc t = true
    · rw [if_pos hrpc]
      generalize hu : unwind procs 513 _ _ = found
      cases found with
      | none => simp
      | some uc =>
        obtain ⟨u, ctx⟩ := uc
        obtain ⟨b, rest, k', n, -, rfl, hs, -, -, hf, -, huser, hidx, htid, -⟩ :=
          hl.quiet_return (hl.isRpc_iff.1 hrpc) hu
        exact @Layout.destroyTouches_inStack t { u with rpcStack := (noisy b n).rpcStack } k stack k' hl huser
          hidx htid hs hf.le
    · rw [if_neg hrpc]
      simp

structure Machine.Sound (m : Machine) : Prop where
  thread : ∀ tid t, m.threads tid = some t → Rpc.Sound t ∧ t.tid = tid

lemma Machine.Sound.update (hm : m.Sound) {tid : ℤ} {size : ℤ} (h : Rpc.Sound t) (htid : t.tid = tid) :
    Machine.Sound ⟨size, Function.update m.threads tid (some t)⟩ where
  thread := by
    intro i u hu
    by_cases hi : i = tid
    · simp only [hi, Function.update_self, Option.some.injEq] at hu
      rw [← hu, hi]
      exact ⟨h, htid⟩
    · simp only [ne_eq, hi, not_false_eq_true, Function.update_of_ne] at hu
      exact hm.thread i u hu

lemma Machine.Sound.step {e : MachineEvent} (hm : m.Sound) (hroom : Room procs m e)
    (h : m.step procs e = some m') : m'.Sound := by
  cases e with
  | thread tid e =>
    cases ht : m.threads tid with
    | none => simp [Machine.step, ht] at h
    | some t =>
      cases ht' : Rpc.stepFor m.rpcStackSize procs t e with
      | none => simp [Machine.step, ht, ht'] at h
      | some t' =>
        simp only [Machine.step, ht, ht', Option.bind_eq_bind, Option.bind_some] at h
        obtain rfl := Option.some.inj h
        obtain ⟨hs, htid⟩ := hm.thread tid t ht
        obtain ⟨hs', htid'⟩ := hs.stepFor (hroom t ht) ht'
        exact hm.update hs' (htid'.trans htid)
  | notify tid handler critical flags =>
    cases ht : m.threads tid with
    | none => simp [Machine.step, ht] at h
    | some t =>
      cases hh : m.threads handler with
      | none => simp [Machine.step, ht, hh] at h
      | some u =>
        cases hr : procs handler with
        | none => simp [Machine.step, ht, hh, hr] at h
        | some r =>
          simp only [Machine.step, ht, hh, hr, Option.bind_eq_bind, Option.bind_some] at h
          split_ifs at h with hn
          · obtain ⟨rfl, hidx⟩ := hroom t u r ht hh hr hn
            obtain rfl : t = u := Option.some.inj (ht.symm.trans hh)
            obtain ⟨⟨k, stack, hl⟩, htid⟩ := hm.thread handler t ht
            cases he : enterRpc t r ⟨0, t.tid, SYS_USER_NOTIFY, flags, t.eid, 0⟩ notifyFlags with
            | none => simp [runNotify, he] at h
            | some t' =>
              simp only [runNotify, he, Option.bind_eq_bind, Option.bind_some, if_true,
                Function.update_idem] at h
              obtain rfl := Option.some.inj h
              exact hm.update ⟨_, _, hl.quiet_enter_push hidx he⟩ ((enterRpc_tid he).trans htid)
          · obtain rfl := Option.some.inj h
            exact hm
  | setConf val =>
    obtain rfl := Option.some.inj h
    refine ⟨fun tid t ht => hm.thread tid t ?_⟩
    rw [Rpc.setConf] at ht
    split_ifs at ht <;> exact ht

lemma Machine.Sound.touches_iff {e : MachineEvent} (hm : m.Sound) :
    (∀ x ∈ m.touches procs e, InStack x.1 x.2) ↔ Room procs m e := by
  cases e with
  | thread tid e =>
    cases ht : m.threads tid with
    | none => simp [Machine.touches, Room, ht]
    | some t =>
      obtain ⟨hs, rfl⟩ := hm.thread tid t ht
      have := @Sound.threadTouches_iff t procs m.rpcStackSize e hs
      simpa [Machine.touches, Room, ht] using this
  | notify tid handler critical flags =>
    cases ht : m.threads tid with
    | none => simp [Machine.touches, Room, ht]
    | some t =>
      cases hh : m.threads handler with
      | none => simp [Machine.touches, Room, ht, hh]
      | some u =>
        cases hr : procs handler with
        | none => simp [Machine.touches, Room, ht, hh, hr]
        | some r =>
          obtain ⟨⟨k, stack, hl⟩, rfl⟩ := hm.thread tid t ht
          have := @Layout.enterTouches_iff t k stack handler false hl (by simp)
          simp only [entryPages, Bool.false_eq_true, if_false] at this
          cases hn : notifies m.rpcStackSize t u r critical with
          | false => simp [Machine.touches, Room, ht, hh, hr, hn]
          | true => simpa [Machine.touches, Room, ht, hh, hr, hn] using this
  | setConf val => simp [Machine.touches, Room]

inductive Machine.Reachable : Machine → Prop
  | boot {m : Machine} : (∀ tid t, m.threads tid = some t → Fresh t ∧ t.tid = tid) → Reachable m
  | step {m m' : Machine} (procs : Procs) (e : MachineEvent) : Reachable m → Room procs m e →
      m.step procs e = some m' → Reachable m'

lemma Machine.Reachable.sound (h : m.Reachable) : m.Sound := by
  induction h with
  | boot hf =>
    refine ⟨fun tid t ht => ?_⟩
    obtain ⟨hfresh, htid⟩ := hf tid t ht
    have hq : Fresh (quiet t) := ⟨hfresh.rpcStack, hfresh.rpcIdx, hfresh.regs, hfresh.user⟩
    exact ⟨⟨511, [], .root hq⟩, htid⟩
  | step procs e _ hroom hs ih => exact ih.step hroom hs

/-- `rpc_idx` stays in range in every run that keeps to the condition, and the
condition is exactly that the next operation stays within the thread's own stack. -/
theorem rpcStack_bounds (m : Machine) (h : m.Reachable) :
    (∀ tid t, m.threads tid = some t → 0 ≤ t.rpcIdx ∧ t.rpcIdx ≤ rpcPages - 1) ∧
      ∀ procs e, (∀ x ∈ m.touches procs e, InStack x.1 x.2) ↔ Room procs m e := by
  refine ⟨fun tid t ht => ?_, fun procs e => h.sound.touches_iff⟩
  obtain ⟨⟨k, stack, hl⟩, -⟩ := h.sound.thread tid t ht
  exact ⟨hl.idx_nonneg, le_trans hl.idx_le hl.frames.le⟩

def loneMachine : Machine := ⟨rpcStackSize, fun tid => if tid = 1 then some initThread else none⟩

lemma loneMachine_boot : loneMachine.Reachable := by
  apply Machine.Reachable.boot
  intro tid t ht
  simp only [loneMachine, Option.ite_none_right_eq_some, Option.some.injEq] at ht
  obtain ⟨rfl, rfl⟩ := ht
  exact ⟨initThread_fresh, rfl⟩

def Machine.runInStack (procs : Procs) (m : Machine) : List MachineEvent → Option Machine
  | [] => some m
  | e :: es =>
    if ∀ x ∈ m.touches procs e, InStack x.1 x.2 then do
      let m' ← m.step procs e
      m'.runInStack procs es
    else none

lemma Machine.Reachable.runInStack {es : List MachineEvent} (h : m.Reachable)
    (hr : m.runInStack procs es = some m') : m'.Reachable := by
  induction es generalizing m with
  | nil =>
    obtain rfl := Option.some.inj hr
    exact h
  | cons e es ih =>
    rw [Machine.runInStack] at hr
    split_ifs at hr with hin
    cases hs : m.step procs e with
    | none => simp [hs] at hr
    | some m₁ =>
      simp only [hs, Option.bind_eq_bind, Option.bind_some] at hr
      exact ih (.step procs e h (h.sound.touches_iff.1 hin) hs) hr

def grownRun : List MachineEvent :=
  [.thread 1 (.ipc .req 2 0 0 0 0), .thread 1 (.fault (rpcStackBase + 4096 * 505)),
    .thread 1 (.ipc .req 1 0 0 0 0), .thread 1 (.resp 0 0 0 0)]

def grownUser : ℤ → Bool :=
  let called := Function.update (fun _ => false) 509 true
  let grown := setRange called 505 509
  let left := Function.update (Function.update grown 505 false) 503 true
  setRange (Function.update left 503 false) 505 510

lemma grownUser_iff (i : ℤ) : grownUser i = true ↔ 505 ≤ i ∧ i ≤ 509 := by
  simp [grownUser, setRange, Function.update]
  omega

lemma exists_grown : ∃ (m : Machine) (t : Thread), m.Reachable ∧ m.threads 1 = some t ∧
    m.rpcStackSize = rpcStackSize ∧ t.rpcIdx = 509 ∧ t.rpcStack = top 510 ∧ t.user = grownUser := by
  have hrun : (loneMachine.runInStack twoProcs grownRun).bind (fun m =>
      (m.threads 1).map fun t => (m.rpcStackSize, t.rpcIdx, t.rpcStack, t.user)) =
        some (rpcStackSize, 509, top 510, grownUser) := rfl
  obtain ⟨m, hm, ht⟩ := Option.bind_eq_some_iff.1 hrun
  obtain ⟨t, ht, heq⟩ := Option.map_eq_some_iff.1 ht
  simp only [Prod.mk.injEq] at heq
  exact ⟨m, t, loneMachine_boot.runInStack hm, ht, heq⟩

theorem rpcStack_bounds_grown : ∃ (m : Machine) (t : Thread), m.Reachable ∧ m.threads 1 = some t ∧ isRpc t = true ∧
    (0 ≤ t.rpcIdx ∧ t.rpcIdx ≤ rpcPages - 1) ∧
    ∀ x ∈ m.touches twoProcs (.thread 1 (.ipc .req 2 1 2 3 4)), InStack x.1 x.2 := by
  obtain ⟨m, t, hm, ht, -, hidx, hs, -⟩ := exists_grown
  obtain ⟨hrange, hroom⟩ := rpcStack_bounds m hm
  refine ⟨m, t, hm, ht, by rw [isRpc, hs]; decide, hrange 1 t ht, (hroom _ _).2 ?_⟩
  intro u hu _
  obtain rfl : t = u := Option.some.inj (ht.symm.trans hu)
  rw [hidx]
  norm_num [Call.flags, entryPages]

def Machine.run (procs : Procs) (m : Machine) (events : List MachineEvent) : Option Machine :=
  events.foldlM (Machine.step procs) m

def threadIdx (m : Machine) (tid : ℤ) : Option ℤ := (m.threads tid).map (·.rpcIdx)

/-- With the stack size set to nothing, a call from the last but one page puts
`rpc_idx` and the entry of the callee's stack before the table. -/
theorem call_leaves_rpcStack :
    (loneMachine.run twoProcs [.setConf 0, .thread 1 (.fault (rpcStackBase + 4096)),
      .thread 1 (.ipc .req 2 0 0 0 0)]).bind (threadIdx · 1) = some (-1) := by
  decide +kernel

end Kmi.Rpc
