import Kmi.Rpc.Isolation

/-! Whether a new frame lies on stack pages that a suspended activation has grown into. -/

namespace Kmi.Rpc

variable {t t' : Thread} {k : ℤ} {stack : List Activation} {procs : Procs} {e : Event}

structure Extent where
  rpcStack : ℤ
  grown : Set ℤ

instance (procs : Procs) (t : Thread) (c : Call) (pid : ℤ) : Decidable (Enters procs t c pid) :=
  inferInstanceAs (Decidable (_ ∧ _))

def track (procs : Procs) (t t' : Thread) (e : Event) : List Extent → List Extent
  | [] => []
  | g :: gs =>
    match e with
    | .user .. => g :: gs
    | .fault _ => ⟨g.rpcStack, g.grown ∪ Set.Ico t'.rpcIdx t.rpcIdx⟩ :: gs
    | .ipc c pid _ _ _ _ =>
      if Enters procs t c pid then
        if (c.flags t).tail then ⟨g.rpcStack, ∅⟩ :: gs else ⟨t'.rpcStack, ∅⟩ :: g :: gs
      else g :: gs
    | .resp .. => (g :: gs).dropWhile fun g => g.rpcStack ≠ t'.rpcStack

def TakesFrame (procs : Procs) (t : Thread) : Event → Prop
  | .ipc c pid _ _ _ _ => Enters procs t c pid ∧ (c.flags t).tail = false
  | _ => False

/-- The states of a thread and what its activations have grown by, over the runs in
which `cond` holds whenever a call takes a new frame. -/
inductive RunsWith (cond : Thread → Prop) : Thread → List Extent → Prop
  | fresh {t : Thread} : Fresh t → RunsWith cond t [⟨t.rpcStack, ∅⟩]
  | step {t t' : Thread} {gs : List Extent} (procs : Procs) (e : Event) : RunsWith cond t gs →
      (TakesFrame procs t e → cond t) → step procs t e = some t' →
      RunsWith cond t' (track procs t t' e gs)

def NoOverlap (t : Thread) (gs : List Extent) : Prop :=
  ∀ g ∈ gs, ctxPage t.width t.rpcStack ∉ g.grown ∧ regsPage t ∉ g.grown ∧ t.rpcIdx ∉ g.grown

def NothingBelowCursor (t : Thread) : Prop := t.user (t.rpcIdx - 1) = false

def Between : ℤ → List Activation → List Extent → Prop
  | _, [], gs => gs = []
  | _, _ :: _, [] => False
  | k, a :: rest, g :: gs => g.rpcStack = a.rpcStack ∧ ∃ k', a.rpcStack = top k' ∧ k < k' ∧
      (∀ p ∈ g.grown, k < p ∧ p < k') ∧ Between k' rest gs

structure Extents (t : Thread) (k : ℤ) (g : Extent) (stack : List Activation)
    (gs : List Extent) : Prop where
  rpcStack : g.rpcStack = top k
  lt : ∀ p ∈ g.grown, p < k
  reach : ∀ p ∈ g.grown, p < t.rpcIdx → ∀ j, p ≤ j → j ≤ t.rpcIdx → t.user j = true
  between : Between k stack gs

lemma Between.lt {gs : List Extent} (h : Between k stack gs) : ∀ g ∈ gs, ∀ p ∈ g.grown, k < p := by
  induction stack generalizing k gs with
  | nil =>
    cases h
    simp
  | cons a rest ih =>
    cases gs with
    | nil => cases h
    | cons g gs =>
      obtain ⟨-, k', -, hlt, hg, hrest⟩ := h
      intro g' hg' p hp
      obtain rfl | hg' := List.mem_cons.1 hg'
      · exact (hg p hp).1
      · exact hlt.trans (ih hrest g' hg' p hp)

lemma Between.lt_of_suffix {gs : List Extent} {b : Activation} {rest : List Activation} {k' : ℤ}
    (h : Between k stack gs) (hs : b :: rest <:+ stack) (hb : b.rpcStack = top k') : k < k' := by
  induction stack generalizing k gs with
  | nil => simp at hs
  | cons a tail ih =>
    cases gs with
    | nil => cases h
    | cons g gs =>
      obtain ⟨-, j, hj, hlt, -, hrest⟩ := h
      obtain heq | hs := List.suffix_cons_iff.1 hs
      · obtain ⟨rfl, rfl⟩ := List.cons.inj heq
        have := top_inj (hj.symm.trans hb)
        omega
      · exact hlt.trans (ih hrest hs)

lemma Between.dropWhile {gs : List Extent} {b : Activation} {rest : List Activation} {k' : ℤ}
    (h : Between k stack gs) (hs : b :: rest <:+ stack) (hb : b.rpcStack = top k') :
    ∃ g gs', gs.dropWhile (fun g => g.rpcStack ≠ top k') = g :: gs' ∧ g.rpcStack = top k' ∧
      (∀ p ∈ g.grown, k < p ∧ p < k') ∧ Between k' rest gs' := by
  induction stack generalizing k gs with
  | nil => simp at hs
  | cons a tail ih =>
    cases gs with
    | nil => cases h
    | cons g gs =>
      obtain ⟨hg, j, hj, hlt, hgrown, hrest⟩ := h
      obtain heq | hs := List.suffix_cons_iff.1 hs
      · obtain ⟨rfl, rfl⟩ := List.cons.inj heq
        obtain rfl := top_inj (hj.symm.trans hb)
        refine ⟨g, gs, ?_, hg.trans hj, hgrown, hrest⟩
        simp [hg, hj]
      · have hne : g.rpcStack ≠ top k' := by
          rw [hg, hj]
          intro h
          have := top_inj h
          have := hrest.lt_of_suffix hs hb
          omega
        obtain ⟨g', gs', hdrop, hg', hgrown', hrest'⟩ := ih hrest hs
        refine ⟨g', gs', ?_, hg', fun p hp => ?_, hrest'⟩
        · simpa [List.dropWhile_cons, hne] using hdrop
        · have := hgrown' p hp
          omega

lemma Extents.congr {g : Extent} {gs : List Extent} (h : Extents t k g stack gs)
    (hi : t'.rpcIdx = t.rpcIdx) (hu : t'.user = t.user) : Extents t' k g stack gs := by
  refine ⟨h.rpcStack, h.lt, ?_, h.between⟩
  rw [hi, hu]
  exact h.reach

lemma Extents.grown_ge {g : Extent} {gs : List Extent} (h : Extents t k g stack gs)
    (hb : NothingBelowCursor t) : ∀ p ∈ g.grown, t.rpcIdx ≤ p := by
  intro p hp
  rw [NothingBelowCursor] at hb
  by_contra hlt
  have := h.reach p hp (by omega) (t.rpcIdx - 1) (by omega) (by omega)
  simp [hb] at this

lemma Extents.step {g : Extent} {gs : List Extent} (hl : Layout t k stack)
    (h : Extents t k g stack gs) (hcond : TakesFrame procs t e → NothingBelowCursor t)
    (hs : step procs t e = some t') :
    ∃ k' stack' g' gs', Layout t' k' stack' ∧ Extents t' k' g' stack' gs' ∧
      track procs t t' e (g :: gs) = g' :: gs' := by
  cases e with
  | user exec regs page =>
    obtain rfl := Option.some.inj hs
    exact ⟨k, stack, g, gs, hl.userRun exec regs page, h.congr rfl rfl, rfl⟩
  | fault addr =>
    obtain ⟨-, hp, hlt, ht⟩ | ⟨-, rfl⟩ := handlePagefault_some hs
    · refine ⟨k, stack, ⟨g.rpcStack, g.grown ∪ Set.Ico t'.rpcIdx t.rpcIdx⟩, gs,
        hl.grow hp hlt ht, ⟨h.rpcStack, ?_, ?_, h.between⟩, rfl⟩
      · rintro q (hq | hq)
        · exact h.lt q hq
        · have := hl.idx_le
          have := hq.2
          omega
      · subst ht
        rintro q (hq | hq) hqp j hj hj'
        · have := h.reach q hq (by simp only at hqp; omega) j hj (by simp only at hj'; omega)
          simp [setRange, this]
        · have := hq.1
          omega
    · refine ⟨k, stack, ⟨g.rpcStack, g.grown ∪ Set.Ico t'.rpcIdx t'.rpcIdx⟩, gs, hl,
        ⟨h.rpcStack, ?_, ?_, h.between⟩, rfl⟩
      · simpa using h.lt
      · simpa using h.reach
  | ipc c pid d0 d1 d2 d3 =>
    obtain ⟨hne, status, rfl⟩ | ⟨he, r, a, hr⟩ := sysIpc_cases hs
    · refine ⟨k, stack, g, gs, hl.setRegs _, h.congr rfl rfl, ?_⟩
      simp [track, hne]
    · cases htail : (c.flags t).tail with
      | true =>
        obtain ⟨-, -, -, -, hst, -⟩ := enterRpc_replace_some hl.rpcStack hr htail
        refine ⟨k, stack, ⟨g.rpcStack, ∅⟩, gs, hl.enter_replace hr htail,
          ⟨h.rpcStack, ?_, ?_, h.between⟩, by simp only [track, he, htail, if_true]⟩
        · simp
        · simp
      | false =>
        obtain ⟨-, -, -, -, hst, -⟩ := enterRpc_push_some hr htail
        have hge := h.grown_ge (hcond ⟨he, htail⟩)
        have hidx := hl.idx_le
        refine ⟨_, _, ⟨t'.rpcStack, ∅⟩, g :: gs, hl.enter_push hr htail (by simpa [htail] using he.1),
          ⟨hst, by simp, by simp, ?_⟩,
          by simp only [track, he, htail, if_true, Bool.false_eq_true, if_false]⟩
        refine ⟨h.rpcStack.trans hl.rpcStack.symm, k, hl.rpcStack, by omega, ?_, h.between⟩
        intro p hp
        have := hge p hp
        have := h.lt p hp
        omega
  | resp d0 d1 d2 d3 =>
    change (if isRpc t then _ else _) = _ at hs
    split_ifs at hs with hrpc
    · obtain ⟨b, rest, k', hstop, -, -, hst, hl', hi, hu⟩ := leaveRpc_some hl (hl.isRpc_iff.1 hrpc) hs
      have hb : b.rpcStack = top k' := hst.symm.trans hl'.rpcStack
      have hlt := h.between.lt_of_suffix hstop.suffix hb
      obtain ⟨g', gs', hdrop, hg', hgrown, hbetween⟩ := h.between.dropWhile hstop.suffix hb
      refine ⟨k', rest, g', gs', hl', ⟨hg', fun p hp => (hgrown p hp).2, ?_, hbetween⟩, ?_⟩
      · intro p hp _ j hj hj'
        have := hgrown p hp
        exact hu j (by omega) (by omega)
      · have hne : g.rpcStack ≠ top k' := by
          rw [h.rpcStack]
          intro heq
          have := top_inj heq
          omega
        simpa [track, List.dropWhile_cons, hl'.rpcStack, hne] using hdrop
    · obtain rfl := Option.some.inj hs
      refine ⟨k, stack, g, gs, hl.setRegs _, h.congr rfl rfl, ?_⟩
      have : g.rpcStack = t.rpcStack := h.rpcStack.trans hl.rpcStack.symm
      simp [track, setArgs1, setRetFast, setRegs, this]

lemma RunsWith.extents {gs : List Extent} (h : RunsWith NothingBelowCursor t gs) :
    ∃ k stack g gs', Layout t k stack ∧ Extents t k g stack gs' ∧ gs = g :: gs' := by
  induction h with
  | fresh hf =>
    refine ⟨511, [], ⟨_, ∅⟩, [], .root hf, ⟨?_, by simp, by simp, rfl⟩, rfl⟩
    exact (Layout.root hf).rpcStack
  | step procs e _ hcond hs ih =>
    obtain ⟨k, stack, g, gs', hl, hx, rfl⟩ := ih
    exact hx.step hl hcond hs

theorem new_frame_noOverlap {gs : List Extent} (h : RunsWith NothingBelowCursor t gs)
    (he : TakesFrame procs t e) (hb : NothingBelowCursor t) (hs : step procs t e = some t') :
    NoOverlap t' gs := by
  obtain ⟨k, stack, g, gs', hl, hx, rfl⟩ := h.extents
  cases e with
  | user exec regs page => cases he
  | fault addr => cases he
  | resp d0 d1 d2 d3 => cases he
  | ipc c pid d0 d1 d2 d3 =>
    obtain ⟨hne, -⟩ | ⟨-, r, a, hr⟩ := sysIpc_cases hs
    · exact absurd he.1 hne
    obtain ⟨-, -, -, -, hst, hregs, hidx, -⟩ := enterRpc_push_some hr he.2
    have hout : ∀ g' ∈ g :: gs', ∀ p ∈ g'.grown, t.rpcIdx ≤ p := by
      intro g' hg' p hp
      obtain rfl | hg' := List.mem_cons.1 hg'
      · exact hx.grown_ge hb p hp
      · have := hx.between.lt g' hg' p hp
        have := hl.idx_le
        omega
    intro g' hg'
    have hp := hout g' hg'
    rw [hst, ctxPage_top, regsPage, hregs, pageOf_top_sub, hidx]
    refine ⟨fun hin => ?_, fun hin => ?_, fun hin => ?_⟩
    · have := hp _ hin
      omega
    · have := hp _ hin
      omega
    · have := hp _ hin
      omega

def grownThread : Thread :=
  { initThread with rpcIdx := 509, user := setRange initThread.user 509 511 }

def grownExtents : List Extent := [⟨rpcStackTop, ∅ ∪ Set.Ico 509 511⟩]

lemma grownThread_runs (cond : Thread → Prop) : RunsWith cond grownThread grownExtents :=
  .step twoProcs (.fault (rpcStackTop - 10000)) (.fresh initThread_fresh) False.elim rfl

theorem new_frame_noOverlap_grown :
    ∃ t', NothingBelowCursor grownThread ∧ TakesFrame twoProcs grownThread (.ipc .req 2 1 2 3 4) ∧
      step twoProcs grownThread (.ipc .req 2 1 2 3 4) = some t' ∧ NoOverlap t' grownExtents := by
  have he : TakesFrame twoProcs grownThread (.ipc .req 2 1 2 3 4) :=
    ⟨⟨.inr (by decide), by decide⟩, rfl⟩
  exact ⟨_, rfl, he, rfl, new_frame_noOverlap (grownThread_runs _) he rfl rfl⟩

theorem second_call_overlaps :
    ∃ t gs t', RunsWith (fun _ => True) t gs ∧ TakesFrame twoProcs t (.ipc .req 2 1 2 3 4) ∧
      step twoProcs t (.ipc .req 2 1 2 3 4) = some t' ∧ ¬ NoOverlap t' gs := by
  have hcall := RunsWith.step twoProcs (.ipc .req 2 1 2 3 4) (grownThread_runs fun _ => True)
    (fun _ => trivial) rfl
  have hresp := RunsWith.step twoProcs (.resp 5 6 7 8) hcall False.elim rfl
  refine ⟨_, grownExtents, _, hresp, ⟨⟨.inr (by decide), by decide⟩, rfl⟩, rfl, ?_⟩
  intro h
  apply (h _ (List.mem_singleton_self _)).1
  right
  exact ⟨by decide, by decide⟩

end Kmi.Rpc
