import Kmi.Rpc.Bounds

/-! Which pages of the RPC stack a callee can reach. -/

namespace Kmi.Rpc

variable {t t' u : Thread} {k : ℤ} {stack : List Activation} {procs : Procs} {m : Machine} {tid : ℤ}
  {tail : Bool}

def firstUserPage (t : Thread) : ℤ := pageOf t.rpcStack - 2

lemma firstUserPage_eq (h : t.rpcStack = top k) : firstUserPage t = k - 1 := by
  rw [firstUserPage, pageOf, h, top_div]
  omega

def OnlyAccessible (t : Thread) (p : ℤ) : Prop := ∀ i, t.user i = true ↔ i = p

def LoopReachesAll (t : Thread) (tail : Bool) : Prop :=
  if tail then OnlyAccessible t (firstUserPage t)
  else ∀ i, t.user i = true →
    i = t.rpcIdx - 2 ∨ (i ≤ t.rpcIdx ∧ ∀ j, i ≤ j → j ≤ t.rpcIdx → t.user j = true)

lemma push_onlyAccessible_iff {user : ℤ → Bool} {x : ℤ} (hl : Layout t k stack)
    (hc : clearDown 513 t.user t.rpcIdx = some (user, x)) :
    (∀ i, Function.update user (t.rpcIdx - 2) true i = true ↔ i = t.rpcIdx - 2) ↔
      ∀ i, t.user i = true →
        i = t.rpcIdx - 2 ∨ (i ≤ t.rpcIdx ∧ ∀ j, i ≤ j → j ≤ t.rpcIdx → t.user j = true) := by
  have hk := hl.frames.le
  have hik := hl.idx_le
  obtain ⟨hx, rfl, hlow, htop⟩ := clearDown_spec hc (by omega)
  constructor
  · intro h i hi
    by_cases he : i = t.rpcIdx - 2
    · exact .inl he
    · have hcleared : x + 1 ≤ i ∧ i < t.rpcIdx + 1 := by
        by_contra hout
        apply he
        apply (h i).1
        rw [Function.update_of_ne he, clearRange, if_neg hout]
        exact hi
      have hlt : t.rpcIdx < 511 := by
        by_contra hge
        have := htop hge
        omega
      refine .inr ⟨by omega, fun j hij hj => ?_⟩
      exact (hlow hlt).2.2 j (by omega) hj
  · intro h i
    constructor
    · intro hi
      by_contra he
      rw [Function.update_of_ne he, clearRange] at hi
      split_ifs at hi with hout
      obtain he' | ⟨hle, hall⟩ := h i hi
      · exact he he'
      · by_cases hlt : t.rpcIdx < 511
        · -- the page where the loop stopped would be accessible
          have := hall x (by omega) hx
          simp [(hlow hlt).2.1] at this
        · have hidx : t.rpcIdx = k := by omega
          have := hall k (by omega) (by omega)
          simp [hl.frames.user_eq] at this
    · rintro rfl
      simp

lemma replace_onlyAccessible_iff {user : ℤ → Bool} {x : ℤ} (hl : Layout t k stack)
    (hne : stack ≠ []) (hc : clearDown 513 t.user t.rpcIdx = some (user, x)) :
    (∀ i, Function.update user (x + 1) true i = true ↔ i = k - 1) ↔
      ∀ i, t.user i = true ↔ i = k - 1 := by
  obtain ⟨hpos, hlt, hu⟩ := hl.cursor_of_inRpc hne
  have hk := hl.frames.le
  obtain ⟨hx, rfl, hlow, -⟩ := clearDown_spec hc (by omega)
  obtain ⟨-, hxu, hbetween⟩ := hlow (by omega)
  have hxne : x ≠ t.rpcIdx := by
    rintro rfl
    simp [hu] at hxu
  constructor
  · intro h i
    have hxk : x + 1 = k - 1 := (h (x + 1)).1 (by simp)
    by_cases he : i = x + 1
    · have : i = t.rpcIdx := by omega
      simp [this, hu]
      omega
    · have hout : ¬ (x + 1 ≤ i ∧ i < t.rpcIdx + 1) := by omega
      have hi := h i
      rwa [Function.update_of_ne he, clearRange, if_neg hout] at hi
  · intro h i
    have hidx : t.rpcIdx = k - 1 := (h _).1 hu
    have hxk : x + 1 = k - 1 := by
      have := (h (x + 1)).1 (hbetween (x + 1) (by omega) (by omega))
      omega
    by_cases he : i = x + 1
    · simp [he, hxk]
    · have hout : ¬ (x + 1 ≤ i ∧ i < t.rpcIdx + 1) := by omega
      rw [Function.update_of_ne he, clearRange, if_neg hout]
      exact h i

structure SameStack (t u : Thread) : Prop where
  user : u.user = t.user
  rpcIdx : u.rpcIdx = t.rpcIdx
  rpcStack : u.rpcStack = t.rpcStack

def Isolated (t' : Thread) : Prop := 0 ≤ firstUserPage t' ∧ OnlyAccessible t' (firstUserPage t')

lemma isolated_page {page : ℤ → StackPage} : Isolated { t with page := page } ↔ Isolated t := Iff.rfl

lemma Layout.isolated_push_iff {r : Proc} {a : SysRet} {forward notify : Bool}
    (hl : Layout (quiet t) k stack) (hu : SameStack t u) :
    (∃ t', enterRpc u r a ⟨false, forward, notify⟩ = some t' ∧ Isolated t') ↔
      2 ≤ t.rpcIdx ∧ LoopReachesAll t false := by
  have hloop : LoopReachesAll t false ↔ ∀ i, t.user i = true →
      i = t.rpcIdx - 2 ∨ (i ≤ t.rpcIdx ∧ ∀ j, i ≤ j → j ≤ t.rpcIdx → t.user j = true) := by
    simp [LoopReachesAll]
  have hrun : ∀ {user x}, clearDown 513 t.user t.rpcIdx = some (user, x) →
      ∃ t', enterRpc u r a ⟨false, forward, notify⟩ = some t' ∧ firstUserPage t' = t.rpcIdx - 2 ∧
        t'.user = Function.update user (t.rpcIdx - 2) true := by
    intro user x hc
    have hc' : clearDown 513 u.user u.rpcIdx = some (user, x) := by rwa [hu.user, hu.rpcIdx]
    refine ⟨_, enterRpc_push r a forward notify hc', ?_, by simp [hu.rpcIdx]⟩
    rw [firstUserPage_eq rfl, hu.rpcIdx]
    omega
  constructor
  · rintro ⟨t', he, hpos, honly⟩
    obtain ⟨user, x, hc⟩ := clearDown_of_enterRpc he
    rw [hu.user, hu.rpcIdx] at hc
    obtain ⟨t₂, he₂, hfirst, huser⟩ := hrun hc
    obtain rfl : t₂ = t' := Option.some.inj (he₂.symm.trans he)
    rw [hfirst] at hpos honly
    refine ⟨by omega, hloop.2 ((push_onlyAccessible_iff hl hc).1 ?_)⟩
    rwa [OnlyAccessible, huser] at honly
  · rintro ⟨hroom, hreach⟩
    obtain ⟨user, x, hc⟩ := hl.clearDown_exists (show 0 < (quiet t).rpcIdx from by change 0 < t.rpcIdx; omega)
    obtain ⟨t', he, hfirst, huser⟩ := hrun hc
    refine ⟨t', he, by omega, ?_⟩
    rw [OnlyAccessible, hfirst, huser]
    exact (push_onlyAccessible_iff hl hc).2 (hloop.1 hreach)

lemma Layout.isolated_replace_iff {r : Proc} {a : SysRet} {forward : Bool}
    (hl : Layout (quiet t) k stack) (hne : stack ≠ []) :
    (∃ t', enterRpc t r a ⟨true, forward, false⟩ = some t' ∧ Isolated t') ↔
      1 ≤ t.rpcIdx ∧ LoopReachesAll t true := by
  have hk : t.rpcStack = top k := hl.rpcStack
  have hrpc : isRpc t = true := hl.isRpc_iff.2 hne
  have hloop : LoopReachesAll t true ↔ OnlyAccessible t (k - 1) := by
    rw [LoopReachesAll, if_pos rfl, firstUserPage_eq hk]
  have hrun : ∀ {user x}, clearDown 513 t.user t.rpcIdx = some (user, x) →
      ∃ t', enterRpc t r a ⟨true, forward, false⟩ = some t' ∧ firstUserPage t' = k - 1 ∧
        t'.user = Function.update user (x + 1) true := by
    intro user x hc
    exact ⟨_, enterRpc_replace r a forward hk hrpc hc, firstUserPage_eq hk, rfl⟩
  constructor
  · rintro ⟨t', he, -, honly⟩
    obtain ⟨user, x, hc⟩ := clearDown_of_enterRpc he
    obtain ⟨t₂, he₂, hfirst, huser⟩ := hrun hc
    obtain rfl : t₂ = t' := Option.some.inj (he₂.symm.trans he)
    refine ⟨?_, hloop.2 ((replace_onlyAccessible_iff hl hne hc).1 ?_)⟩
    · obtain ⟨-, hlt, hui⟩ : 0 ≤ t.rpcIdx ∧ t.rpcIdx < k ∧ t.user t.rpcIdx = true :=
        hl.cursor_of_inRpc hne
      have hle := hl.frames.le
      obtain ⟨hx, -, hlow, -⟩ := clearDown_spec hc (by omega)
      obtain ⟨hx₀, hxu, -⟩ := hlow (by omega)
      have : x ≠ t.rpcIdx := by
        rintro rfl
        simp [hui] at hxu
      omega
    · rwa [OnlyAccessible, hfirst, huser] at honly
  · rintro ⟨hroom, hreach⟩
    obtain ⟨user, x, hc⟩ := hl.clearDown_exists (show 0 < (quiet t).rpcIdx from hroom)
    obtain ⟨t', he, hfirst, huser⟩ := hrun hc
    have hlt : t.rpcIdx < k := (hl.cursor_of_inRpc hne).2.1
    refine ⟨t', he, by omega, ?_⟩
    rw [OnlyAccessible, hfirst, huser]
    exact (replace_onlyAccessible_iff hl hne hc).2 (hloop.1 hreach)

def EntersWith (procs : Procs) (m : Machine) (t : Thread) (tid : ℤ) (tail : Bool) : MachineEvent → Prop
  | .thread i (.ipc c pid _ _ _ _) =>
    i = tid ∧ entersFor m.rpcStackSize procs t c pid = true ∧ (c.flags t).tail = tail
  | .notify i handler critical _ => i = tid ∧ tail = false ∧ ∃ h r, m.threads handler = some h ∧
      procs handler = some r ∧ notifies m.rpcStackSize t h r critical = true
  | _ => False

/-- A call or a notification leaves the callee its first page only exactly when the
table has room for it and its loop gets to all pages that are accessible. -/
theorem entry_onlyAccessible_iff {e : MachineEvent} (h : m.Reachable) (ht : m.threads tid = some t)
    (he : EntersWith procs m t tid tail e) :
    (∃ m' t', m.step procs e = some m' ∧ m'.threads tid = some t' ∧ Isolated t') ↔
      entryPages tail ≤ t.rpcIdx ∧ LoopReachesAll t tail := by
  obtain ⟨⟨k, stack, hl⟩, -⟩ := h.sound.thread tid t ht
  cases e with
  | thread i e =>
    cases e with
    | ipc c pid d0 d1 d2 d3 =>
      obtain ⟨rfl, hin, rfl⟩ := he
      obtain ⟨r, a, hr⟩ := doIpcFor_enters hin d0 d1 d2 d3
      have hstep : (∃ m' t', m.step procs (.thread i (.ipc c pid d0 d1 d2 d3)) = some m' ∧
          m'.threads i = some t' ∧ Isolated t') ↔
          ∃ t', enterRpc t r a (c.flags t) = some t' ∧ Isolated t' := by
        rw [← hr]
        cases hd : doIpcFor m.rpcStackSize procs t pid d0 d1 d2 d3 (c.flags t) <;>
          simp [Machine.step, stepFor, ht, hd]
      rw [hstep]
      cases htail : (c.flags t).tail with
      | true =>
        have hf : c.flags t = ⟨true, (c.flags t).forward, false⟩ := by
          cases c <;> simp_all [Call.flags]
        rw [hf]
        exact hl.isolated_replace_iff (hl.isRpc_iff.1 (isRpc_of_tail htail))
      | false =>
        have hf : c.flags t = ⟨false, (c.flags t).forward, (c.flags t).notify⟩ := by rw [← htail]
        rw [hf]
        exact hl.isolated_push_iff ⟨rfl, rfl, rfl⟩
    | _ => exact he.elim
  | notify i handler critical flags =>
    obtain ⟨rfl, rfl, u, r, hh, hr, hn⟩ := he
    let a : SysRet := ⟨0, t.tid, SYS_USER_NOTIFY, flags, t.eid, 0⟩
    have hstep : (∃ m' t', m.step procs (.notify i handler critical flags) = some m' ∧
        m'.threads i = some t' ∧ Isolated t') ↔
        ∃ t', enterRpc { t with page := u.page } r a notifyFlags = some t' ∧ Isolated t' := by
      cases hd : enterRpc { t with page := u.page } r a notifyFlags <;>
        simp [Machine.step, runNotify, ht, hh, hr, hn, a, hd, isolated_page]
    rw [hstep]
    exact hl.isolated_push_iff ⟨rfl, rfl, rfl⟩
  | setConf val => exact he.elim

theorem entry_onlyAccessible_iff_grown : ∃ (m m' : Machine) (t t' : Thread), m.Reachable ∧
    m.threads 1 = some t ∧ (∀ i, t.user i = true ↔ 505 ≤ i ∧ i ≤ 509) ∧
    m.step twoProcs (.thread 1 (.ipc .req 2 1 2 3 4)) = some m' ∧ m'.threads 1 = some t' ∧
    Isolated t' := by
  obtain ⟨m, t, hm, ht, hsize, hidx, hs, hu⟩ := exists_grown
  have hreach : LoopReachesAll t false := by
    rw [LoopReachesAll, if_neg Bool.false_ne_true, hidx, hu]
    simp only [grownUser_iff]
    exact fun i hi => .inr ⟨hi.2, fun j hj hj' => ⟨hi.1.trans hj, hj'⟩⟩
  have henters : entersFor m.rpcStackSize twoProcs t .req 2 = true := by
    have hroom : enoughRpcStackFor rpcStackSize t = true := by
      rw [enoughRpcStackFor, rpcPosition, hidx]
      decide
    rw [hsize, entersFor, hroom, Bool.or_true, Bool.true_and]
    decide
  have hroom : entryPages false ≤ t.rpcIdx := by
    rw [hidx]
    decide
  have he : EntersWith twoProcs m t 1 false (.thread 1 (.ipc .req 2 1 2 3 4)) := ⟨rfl, henters, rfl⟩
  obtain ⟨m', t', hstep, ht', honly⟩ := (entry_onlyAccessible_iff hm ht he).2 ⟨hroom, hreach⟩
  exact ⟨m, m', t, t', hm, ht, by simpa [hu] using grownUser_iff, hstep, ht', honly⟩

theorem callee_reaches_caller_page : ∃ (m m' : Machine) (t t' : Thread), m.Reachable ∧
    m.threads 1 = some t ∧ EntersWith twoProcs m t 1 false (.thread 1 (.ipc .req 2 1 2 3 4)) ∧
    m.step twoProcs (.thread 1 (.ipc .req 2 1 2 3 4)) = some m' ∧ m'.threads 1 = some t' ∧
    ¬OnlyAccessible t' (firstUserPage t') := by
  let grow : MachineEvent := .thread 1 (.fault (rpcStackTop - 10000))
  have hrun : (loneMachine.runInStack twoProcs [grow]).isSome = true := rfl
  obtain ⟨m, hm⟩ := Option.isSome_iff_exists.1 hrun
  have hreach := loneMachine_boot.runInStack hm
  obtain rfl : _ = m := Option.some.inj hm
  refine ⟨_, _, _, _, hreach, rfl, ⟨rfl, by decide, rfl⟩, rfl, rfl, fun h => ?_⟩
  have := (h 510).1 rfl
  revert this
  decide

end Kmi.Rpc
