import Kmi.Irq.Table

/-! The runs of requests, frees and interrupts, while the rest of the kernel starts and ends
threads. -/

namespace Kmi.Irq

open Kernel (Tcb isSet CAP_IRQ ERR_PERM ERR_EXT numTcbs)
open Rpc (OK ERR_NF ERR_INVAL IdWidth)

structure State where
  table : Table
  tcbs : ℤ → Option Tcb

def State.getTcb (m : State) (tid : ℤ) : Option Tcb :=
  if tid ≤ 0 then none
  else (m.tcbs (tid % numTcbs)).filter fun t => t.thread.tid = tid

inductive Event where
  | irqReq (tid : ℤ) (arg : BitVec 64)
  | freeIrq (tid : ℤ) (arg : BitVec 64)
  | irq
  | threads (tcbs : ℤ → Option Tcb)

def step (m : State) : Event → Option State
  | .irqReq tid arg =>
    match m.getTcb tid with
    | none => some m
    | some t => some { m with table := (sysIrqReq m.table t arg).2 }
  | .freeIrq tid arg =>
    match m.getTcb tid with
    | none => some m
    | some t => some { m with table := (sysFreeIrq m.table t arg).2 }
  | .irq => (handleIrq m.table m.getTcb Tcb.orphan).map fun r => { m with table := r.2 }
  | .threads tcbs => some { m with tcbs := tcbs }

def run (m : State) (es : List Event) : Option State := es.foldlM step m

structure Initial (m : State) : Prop where
  empty : ∀ id < m.table.maxIrq, m.table.word id = 0
  untouched : m.table.touched = []

def Grants (m : State) (id : ℕ) (tid : ℤ) (e : Event) : Prop :=
  ∃ arg, e = .irqReq tid arg ∧ m.table.irqId arg = id ∧ ∃ t, m.getTcb tid = some t ∧ (sysIrqReq m.table t arg).1 = OK

def Releases (m : State) (id : ℕ) (tid : ℤ) (e : Event) : Prop :=
  (∃ arg, e = .freeIrq tid arg ∧ m.table.irqId arg = id ∧ ∃ t, m.getTcb tid = some t ∧ isSet t.caps CAP_IRQ) ∨
  (e = .irq ∧ id = getIrq ∧ ∀ t, m.getTcb tid = some t → t.orphan)

inductive Registered (m : State) (id : ℕ) (tid : ℤ) : List Event → Prop
  | grant {es e m'} : run m es = some m' → Grants m' id tid e → Registered m id tid (es ++ [e])
  | keep {es e m'} : Registered m id tid es → run m es = some m' → ¬Releases m' id tid e →
      Registered m id tid (es ++ [e])

structure Safe (m : State) (es : List Event) : Prop where
  inTable : ∃ m', run m es = some m' ∧ ∀ i ∈ m'.table.touched, i < m.table.maxIrq
  recorded : ∀ m', run m es = some m' → ∀ id < m.table.maxIrq, ∀ tid,
    Registered m id tid es ↔ m'.table.word id = tid ∧ tid ≠ 0
  exclusive : ∀ id < m.table.maxIrq, ∀ a b, Registered m id a es → Registered m id b es → a = b
  handedOver : ∀ id < m.table.maxIrq, ∀ a b es₁ es₂, es = es₁ ++ es₂ →
    Registered m id a es₁ → Registered m id b es → a ≠ b →
    ∃ es₃ e es₄ m', es₂ = es₃ ++ e :: es₄ ∧ run m (es₁ ++ es₃) = some m' ∧ Releases m' id a e
  refused : ∀ es₁ es₂ m', es = es₁ ++ es₂ → run m es₁ = some m' → ∀ t arg,
    ((sysIrqReq m'.table t arg).1 ≠ OK → (sysIrqReq m'.table t arg).2.words = m'.table.words) ∧
    ((sysFreeIrq m'.table t arg).1 ≠ OK → (sysFreeIrq m'.table t arg).2.words = m'.table.words)

def FreesInTable (m : State) (es : List Event) : Prop :=
  ∀ es₁ es₂ tid arg m' t, es = es₁ ++ .freeIrq tid arg :: es₂ → run m es₁ = some m' →
    m'.getTcb tid = some t → isSet t.caps CAP_IRQ → m.table.irqId arg < m.table.maxIrq

section

variable {m m' : State} {p p' : Table} {es : List Event} {e : Event} {id i : ℕ} {tid : ℤ} {t : Tcb}
  {arg : BitVec 64}

structure Same (p p' : Table) : Prop where
  width : p'.width = p.width
  words : p'.words = p.words

lemma Same.word (h : Same p p') (id : ℕ) : p'.word id = p.word id := by
  rw [Table.word, Table.word, Table.offset, Table.offset, h.width, h.words]

structure Wrote (p : Table) (id : ℕ) (tid : ℤ) (p' : Table) : Prop where
  width : p'.width = p.width
  self : p'.word id = tid
  other : id < p.maxIrq → ∀ i < p.maxIrq, i ≠ id → p'.word i = p.word i

lemma offset_ne {j : ℕ} (hi : i < p.maxIrq) (hj : j < p.maxIrq) (h : i ≠ j) : p.offset i ≠ p.offset j := by
  intro heq
  apply h
  have heq := congrArg BitVec.toNat heq
  simp only [Table.offset, BitVec.toNat_ofNat, Table.maxIrq, maxIrq, sizeofId] at heq hi hj
  cases hw : p.width with
  | w32 =>
    simp only [hw, IdWidth.bits] at heq hi hj
    omega
  | w64 =>
    simp only [hw, IdWidth.bits] at heq hi hj
    omega

lemma setWord_wrote (id : ℕ) (tid : ℤ) (touched : List ℕ) :
    Wrote p id tid { p.setWord id tid with touched := touched } where
  width := rfl
  self := Function.update_self ..
  other := fun hid _ hi hne => Function.update_of_ne (offset_ne hi hid hne) ..

lemma getTcb_tid (h : m.getTcb tid = some t) : t.thread.tid = tid := by
  unfold State.getTcb at h
  split at h
  · cases h
  · simpa using (Option.filter_eq_some_iff.1 h).2

lemma getTcb_ne_zero (h : m.getTcb tid = some t) : tid ≠ 0 := by
  rintro rfl
  simp [State.getTcb] at h

lemma sysIrqReq_cases (p : Table) (t : Tcb) (arg : BitVec 64) :
    ((sysIrqReq p t arg).1 ≠ OK ∧ Same p (sysIrqReq p t arg).2) ∨
    ((sysIrqReq p t arg).1 = OK ∧ p.irqId arg < p.maxIrq ∧ p.word (p.irqId arg) = 0 ∧
      Wrote p (p.irqId arg) t.thread.tid (sysIrqReq p t arg).2) := by
  unfold sysIrqReq registerIrq
  split
  · exact .inl ⟨(by decide : ERR_PERM ≠ OK), rfl, rfl⟩
  split
  · exact .inl ⟨(by decide : ERR_NF ≠ OK), rfl, rfl⟩
  split
  · exact .inl ⟨(by decide : ERR_INVAL ≠ OK), rfl, rfl⟩
  rename_i hid
  split
  · exact .inl ⟨(by decide : ERR_EXT ≠ OK), rfl, rfl⟩
  · rename_i hword
    exact .inr ⟨rfl, not_le.1 hid, not_not.1 hword, setWord_wrote ..⟩

lemma sysFreeIrq_cases (p : Table) (t : Tcb) (arg : BitVec 64) :
    ((sysFreeIrq p t arg).1 ≠ OK ∧ Same p (sysFreeIrq p t arg).2 ∧
      (isSet t.caps CAP_IRQ → p.word (p.irqId arg) ≠ t.thread.tid)) ∨
    ((sysFreeIrq p t arg).1 = OK ∧ isSet t.caps CAP_IRQ ∧ p.word (p.irqId arg) = t.thread.tid ∧
      Wrote p (p.irqId arg) 0 (sysFreeIrq p t arg).2) := by
  unfold sysFreeIrq unregisterIrq
  split
  · rename_i hcap
    exact .inl ⟨(by decide : ERR_PERM ≠ OK), ⟨rfl, rfl⟩, fun h => by simp [h] at hcap⟩
  rename_i hcap
  split
  · rename_i hword
    exact .inl ⟨(by decide : ERR_PERM ≠ OK), ⟨rfl, rfl⟩, fun _ => hword⟩
  · rename_i hword
    exact .inr ⟨rfl, by simpa using hcap, not_not.1 hword, setWord_wrote ..⟩

lemma handleIrq_spec (m : State) : ∃ r, handleIrq m.table m.getTcb Tcb.orphan = some r ∧
    r.2.touched ⊆ getIrq :: m.table.touched ∧ m.table.touched ⊆ r.2.touched ∧
    ((Same m.table r.2 ∧ (m.table.word getIrq ≠ 0 →
        ∃ t, m.getTcb (m.table.word getIrq) = some t ∧ t.orphan = false)) ∨
      (Wrote m.table getIrq 0 r.2 ∧ ∀ t, m.getTcb (m.table.word getIrq) = some t → t.orphan)) := by
  obtain ⟨hz, heq⟩ | ⟨-, hdead, heq⟩ | ⟨t, -, ht, halive, heq⟩ := handleIrq_cases m.table m.getTcb Tcb.orphan
  · exact ⟨_, heq, by simp [Table.touch], by simp [Table.touch], .inl ⟨⟨rfl, rfl⟩, fun h => absurd hz h⟩⟩
  · exact ⟨_, heq, by simp [Table.touch, Table.setWord], by simp [Table.touch, Table.setWord],
      .inr ⟨setWord_wrote .., hdead⟩⟩
  · exact ⟨_, heq, by simp [Table.touch], by simp [Table.touch], .inl ⟨⟨rfl, rfl⟩, fun _ => ⟨t, ht, halive⟩⟩⟩

lemma sysIrqReq_width (p : Table) (t : Tcb) (arg : BitVec 64) : (sysIrqReq p t arg).2.width = p.width := by
  obtain ⟨-, h⟩ | ⟨-, -, -, h⟩ := sysIrqReq_cases p t arg
  · exact h.width
  · exact h.width

lemma sysFreeIrq_width (p : Table) (t : Tcb) (arg : BitVec 64) : (sysFreeIrq p t arg).2.width = p.width := by
  obtain ⟨-, h, -⟩ | ⟨-, -, -, h⟩ := sysFreeIrq_cases p t arg
  · exact h.width
  · exact h.width

lemma step_width (h : step m e = some m') : m'.table.width = m.table.width := by
  cases e with
  | irqReq c arg =>
    cases hc : m.getTcb c with
    | none =>
      simp only [step, hc, Option.some.injEq] at h
      rw [h]
    | some t =>
      simp only [step, hc, Option.some.injEq] at h
      exact h ▸ sysIrqReq_width m.table t arg
  | freeIrq c arg =>
    cases hc : m.getTcb c with
    | none =>
      simp only [step, hc, Option.some.injEq] at h
      rw [h]
    | some t =>
      simp only [step, hc, Option.some.injEq] at h
      exact h ▸ sysFreeIrq_width m.table t arg
  | irq =>
    obtain ⟨r, hrun, -, -, hmap⟩ := handleIrq_spec m
    simp only [step, hrun, Option.map_some, Option.some.injEq] at h
    subst h
    obtain ⟨hsame, -⟩ | ⟨hwrote, -⟩ := hmap
    · exact hsame.width
    · exact hwrote.width
  | threads tcbs =>
    simp only [step, Option.some.injEq] at h
    rw [← h]

def FreeInTable (m : State) (e : Event) : Prop :=
  ∀ tid arg t, e = .freeIrq tid arg → m.getTcb tid = some t → isSet t.caps CAP_IRQ →
    m.table.irqId arg < m.table.maxIrq

lemma irqReq_word {c : ℤ} (hc : m.getTcb c = some t) (hid : id < m.table.maxIrq) (htid : tid ≠ 0) :
    (sysIrqReq m.table t arg).2.word id = tid ↔ Grants m id tid (.irqReq c arg) ∨ m.table.word id = tid := by
  have hgrant : Grants m id tid (.irqReq c arg) ↔
      c = tid ∧ m.table.irqId arg = id ∧ (sysIrqReq m.table t arg).1 = OK := by
    constructor
    · rintro ⟨arg', he, harg, t', ht, hok⟩
      cases he
      rw [hc] at ht
      cases ht
      exact ⟨rfl, harg, hok⟩
    · rintro ⟨rfl, harg, hok⟩
      exact ⟨arg, rfl, harg, t, hc, hok⟩
  rw [hgrant]
  obtain ⟨hno, hsame⟩ | ⟨hok, hi, hzero, hwrote⟩ := sysIrqReq_cases m.table t arg
  · simp [hsame.word, hno]
  by_cases hii : id = m.table.irqId arg
  · subst hii
    rw [hwrote.self, hzero, getTcb_tid hc]
    simp [hok, htid.symm]
  · rw [hwrote.other hi id hid hii]
    simp [Ne.symm hii]

lemma freeIrq_word {c : ℤ} (hc : m.getTcb c = some t)
    (hi : isSet t.caps CAP_IRQ → m.table.irqId arg < m.table.maxIrq) (hid : id < m.table.maxIrq) (htid : tid ≠ 0) :
    (sysFreeIrq m.table t arg).2.word id = tid ↔ m.table.word id = tid ∧ ¬Releases m id tid (.freeIrq c arg) := by
  have hrel : Releases m id tid (.freeIrq c arg) ↔ c = tid ∧ m.table.irqId arg = id ∧ isSet t.caps CAP_IRQ := by
    constructor
    · rintro (⟨arg', he, harg, t', ht, hcap⟩ | ⟨he, -⟩)
      · cases he
        rw [hc] at ht
        cases ht
        exact ⟨rfl, harg, hcap⟩
      · cases he
    · rintro ⟨rfl, harg, hcap⟩
      exact .inl ⟨arg, rfl, harg, t, hc, hcap⟩
  rw [hrel]
  obtain ⟨-, hsame, hother⟩ | ⟨-, hcap, hword, hwrote⟩ := sysFreeIrq_cases m.table t arg
  · rw [hsame.word]
    refine ⟨fun hown => ⟨hown, ?_⟩, And.left⟩
    rintro ⟨rfl, rfl, hcap⟩
    exact hother hcap (hown.trans (getTcb_tid hc).symm)
  by_cases hii : id = m.table.irqId arg
  · subst hii
    rw [hwrote.self, hword, getTcb_tid hc]
    simp [hcap, htid.symm]
  · rw [hwrote.other (hi hcap) id hid hii]
    simp [Ne.symm hii]

lemma handleIrq_word {r : Served Tcb × Table} (h : handleIrq m.table m.getTcb Tcb.orphan = some r)
    (hid : id < m.table.maxIrq) (htid : tid ≠ 0) :
    r.2.word id = tid ↔ m.table.word id = tid ∧ ¬Releases m id tid .irq := by
  have hrel : Releases m id tid .irq ↔ id = getIrq ∧ ∀ t, m.getTcb tid = some t → t.orphan := by
    simp [Releases]
  rw [hrel]
  obtain ⟨r', hrun, -, -, hmap⟩ := handleIrq_spec m
  rw [h] at hrun
  cases hrun
  obtain ⟨hsame, halive⟩ | ⟨hwrote, hdead⟩ := hmap
  · rw [hsame.word]
    refine ⟨fun hown => ⟨hown, ?_⟩, And.left⟩
    rintro ⟨rfl, horphan⟩
    obtain ⟨t, ht, halive⟩ := halive (hown.trans_ne htid)
    rw [hown] at ht
    simp [horphan t ht] at halive
  by_cases hii : id = getIrq
  · subst hii
    rw [hwrote.self]
    simp only [htid.symm, true_and, false_iff, not_and, not_not]
    intro hown
    rwa [hown] at hdead
  · rw [hwrote.other (getIrq_lt _) id hid hii]
    simp [hii]

lemma step_isSome (m : State) (e : Event) : ∃ m', step m e = some m' := by
  cases e with
  | irqReq tid arg =>
    cases h : m.getTcb tid with
    | none => exact ⟨m, by simp [step, h]⟩
    | some t => exact ⟨{ m with table := (sysIrqReq m.table t arg).2 }, by simp only [step, h]⟩
  | freeIrq tid arg =>
    cases h : m.getTcb tid with
    | none => exact ⟨m, by simp [step, h]⟩
    | some t => exact ⟨{ m with table := (sysFreeIrq m.table t arg).2 }, by simp only [step, h]⟩
  | irq =>
    obtain ⟨r, h, -⟩ := handleIrq_spec m
    exact ⟨{ m with table := r.2 }, by simp only [step, h, Option.map_some]⟩
  | threads tcbs => exact ⟨_, rfl⟩

lemma step_word (hfree : FreeInTable m e) (h : step m e = some m') (hid : id < m.table.maxIrq)
    (htid : tid ≠ 0) :
    m'.table.word id = tid ↔ Grants m id tid e ∨ m.table.word id = tid ∧ ¬Releases m id tid e := by
  cases e with
  | irqReq c i =>
    have hrel : ¬Releases m id tid (.irqReq c i) := by simp [Releases]
    cases hc : m.getTcb c with
    | none =>
      have hgrant : ¬Grants m id tid (.irqReq c i) := by
        rintro ⟨arg, he, -, t, ht, -⟩
        cases he
        simp [hc] at ht
      simp only [step, hc, Option.some.injEq] at h
      subst h
      simp [hgrant, hrel]
    | some t =>
      simp only [step, hc, Option.some.injEq] at h
      subst h
      simpa [hrel] using irqReq_word hc hid htid
  | freeIrq c i =>
    have hgrant : ¬Grants m id tid (.freeIrq c i) := by simp [Grants]
    cases hc : m.getTcb c with
    | none =>
      have hrel : ¬Releases m id tid (.freeIrq c i) := by
        rintro (⟨arg, he, -, t, ht, -⟩ | ⟨he, -⟩)
        · cases he
          simp [hc] at ht
        · cases he
      simp only [step, hc, Option.some.injEq] at h
      subst h
      simp [hgrant, hrel]
    | some t =>
      simp only [step, hc, Option.some.injEq] at h
      subst h
      simpa [hgrant] using freeIrq_word hc (hfree c i t rfl hc) hid htid
  | irq =>
    have hgrant : ¬Grants m id tid .irq := by simp [Grants]
    obtain ⟨r, hrun, rfl⟩ := Option.map_eq_some_iff.1 h
    simpa [hgrant] using handleIrq_word hrun hid htid
  | threads tcbs =>
    simp only [step, Option.some.injEq] at h
    subst h
    simp [Grants, Releases]

lemma sysIrqReq_touched (p : Table) (t : Tcb) (arg : BitVec 64) :
    (∀ i ∈ (sysIrqReq p t arg).2.touched, i ∈ p.touched ∨ i < p.maxIrq) ∧
    p.touched ⊆ (sysIrqReq p t arg).2.touched := by
  unfold sysIrqReq registerIrq
  split
  · exact ⟨fun i hi => .inl hi, List.Subset.refl _⟩
  split
  · exact ⟨fun i hi => .inl hi, List.Subset.refl _⟩
  split
  · exact ⟨fun i hi => .inl hi, List.Subset.refl _⟩
  rename_i hid
  have hid := not_le.1 hid
  split <;> simp only [Table.touch, Table.setWord, List.mem_cons] <;> grind

lemma sysFreeIrq_touched (p : Table) (t : Tcb) (arg : BitVec 64) :
    (∀ i ∈ (sysFreeIrq p t arg).2.touched, i ∈ p.touched ∨ isSet t.caps CAP_IRQ ∧ i = p.irqId arg) ∧
    p.touched ⊆ (sysFreeIrq p t arg).2.touched ∧
    (isSet t.caps CAP_IRQ → p.irqId arg ∈ (sysFreeIrq p t arg).2.touched) := by
  unfold sysFreeIrq unregisterIrq
  by_cases hcap : isSet t.caps CAP_IRQ
  · simp only [hcap, Bool.not_true, Bool.false_eq_true, if_false]
    split <;> simp [Table.touch, Table.setWord] <;> grind
  · simp [hcap]

lemma step_touched (hfree : FreeInTable m e) (h : step m e = some m')
    (hm : ∀ i ∈ m.table.touched, i < m.table.maxIrq) : ∀ i ∈ m'.table.touched, i < m.table.maxIrq := by
  intro i hi
  cases e with
  | irqReq c arg =>
    cases hc : m.getTcb c with
    | none =>
      simp only [step, hc, Option.some.injEq] at h
      exact hm i (h ▸ hi)
    | some t =>
      simp only [step, hc, Option.some.injEq] at h
      subst h
      exact ((sysIrqReq_touched m.table t arg).1 i hi).elim (hm i) fun hi => hi
  | freeIrq c arg =>
    cases hc : m.getTcb c with
    | none =>
      simp only [step, hc, Option.some.injEq] at h
      exact hm i (h ▸ hi)
    | some t =>
      simp only [step, hc, Option.some.injEq] at h
      subst h
      obtain hi | ⟨hcap, rfl⟩ := (sysFreeIrq_touched m.table t arg).1 i hi
      · exact hm i hi
      · exact hfree c arg t rfl hc hcap
  | irq =>
    obtain ⟨r, hrun, htouched, -⟩ := handleIrq_spec m
    simp only [step, hrun, Option.map_some, Option.some.injEq] at h
    subst h
    obtain rfl | hi := List.mem_cons.1 (htouched hi)
    · exact getIrq_lt _
    · exact hm i hi
  | threads tcbs =>
    simp only [step, Option.some.injEq] at h
    subst h
    exact hm i hi

lemma run_snoc (m : State) (es : List Event) (e : Event) :
    run m (es ++ [e]) = (run m es).bind fun m' => step m' e := by
  simp [run, List.foldlM_append]

lemma run_isSome (m : State) (es : List Event) : ∃ m', run m es = some m' := by
  induction es using List.reverseRecOn with
  | nil => exact ⟨m, rfl⟩
  | append_singleton es e ih =>
    obtain ⟨m₁, h₁⟩ := ih
    obtain ⟨m', h⟩ := step_isSome m₁ e
    exact ⟨m', by rw [run_snoc, h₁]; exact h⟩

lemma run_step (h : run m (es ++ [e]) = some m') : ∃ m₁, run m es = some m₁ ∧ step m₁ e = some m' := by
  rw [run_snoc] at h
  exact Option.bind_eq_some_iff.1 h

lemma run_width (h : run m es = some m') : m'.table.width = m.table.width := by
  induction es using List.reverseRecOn generalizing m' with
  | nil =>
    cases h
    rfl
  | append_singleton es e ih =>
    obtain ⟨m₁, h₁, hstep⟩ := run_step h
    exact (step_width hstep).trans (ih h₁)

lemma maxIrq_of_run (h : run m es = some m') : m'.table.maxIrq = m.table.maxIrq := by
  rw [Table.maxIrq, Table.maxIrq, run_width h]

lemma FreesInTable.init {es' : List Event} (h : FreesInTable m (es ++ es')) : FreesInTable m es := by
  intro es₁ es₂ tid arg m' t hes
  exact h es₁ (es₂ ++ es') tid arg m' t (by simp [hes])

lemma FreesInTable.last (h : FreesInTable m (es ++ [e])) (hrun : run m es = some m') :
    FreeInTable m' e := by
  rintro tid arg t rfl ht hcap
  rw [maxIrq_of_run hrun, Table.irqId, run_width hrun]
  exact h es [] tid arg m' t rfl hrun ht hcap

lemma run_touched (hm : Initial m) (hfree : FreesInTable m es) (h : run m es = some m') :
    ∀ i ∈ m'.table.touched, i < m.table.maxIrq := by
  induction es using List.reverseRecOn generalizing m' with
  | nil =>
    cases h
    simp [hm.untouched]
  | append_singleton es e ih =>
    obtain ⟨m₁, h₁, hstep⟩ := run_step h
    have htouched := ih hfree.init h₁
    rw [← maxIrq_of_run h₁] at htouched ⊢
    exact step_touched (hfree.last h₁) hstep htouched

lemma registered_snoc (h : run m es = some m') :
    Registered m id tid (es ++ [e]) ↔
      Grants m' id tid e ∨ Registered m id tid es ∧ ¬Releases m' id tid e := by
  constructor
  · intro hreg
    generalize hes : es ++ [e] = es' at hreg
    cases hreg with
    | grant hrun hgrant =>
      obtain ⟨rfl, heq⟩ := List.append_inj' hes rfl
      cases heq
      rw [h] at hrun
      cases hrun
      exact .inl hgrant
    | keep hreg hrun hrel =>
      obtain ⟨rfl, heq⟩ := List.append_inj' hes rfl
      cases heq
      rw [h] at hrun
      cases hrun
      exact .inr ⟨hreg, hrel⟩
  · rintro (hgrant | ⟨hreg, hrel⟩)
    · exact .grant h hgrant
    · exact .keep hreg h hrel

lemma Registered.ne_zero (h : Registered m id tid es) : tid ≠ 0 := by
  induction h with
  | grant _ hgrant =>
    obtain ⟨-, -, -, t, ht, -⟩ := hgrant
    exact getTcb_ne_zero ht
  | keep _ _ _ ih => exact ih

lemma registered_iff (hm : Initial m) (hfree : FreesInTable m es) (h : run m es = some m')
    (hid : id < m.table.maxIrq) : Registered m id tid es ↔ m'.table.word id = tid ∧ tid ≠ 0 := by
  by_cases htid : tid = 0
  · exact ⟨fun hreg => absurd htid hreg.ne_zero, fun hword => absurd htid hword.2⟩
  simp only [htid, ne_eq, not_false_eq_true, and_true]
  induction es using List.reverseRecOn generalizing m' with
  | nil =>
    cases h
    rw [hm.empty id hid]
    refine ⟨fun hreg => ?_, fun h => absurd h.symm htid⟩
    generalize hes : ([] : List Event) = es at hreg
    cases hreg <;> simp at hes
  | append_singleton es e ih =>
    obtain ⟨m₁, h₁, hstep⟩ := run_step h
    have hid₁ := hid
    rw [← maxIrq_of_run h₁] at hid₁
    rw [registered_snoc h₁, step_word (hfree.last h₁) hstep hid₁ htid, ih hfree.init h₁]

lemma Registered.stays {es' : List Event} (h : Registered m id tid es)
    (hkept : ∀ es₃ e es₄ m', es' = es₃ ++ e :: es₄ → run m (es ++ es₃) = some m' →
      ¬Releases m' id tid e) : Registered m id tid (es ++ es') := by
  induction es' using List.reverseRecOn with
  | nil => simpa using h
  | append_singleton es' e ih =>
    obtain ⟨m', hrun⟩ := run_isSome m (es ++ es')
    rw [← List.append_assoc]
    refine .keep (ih ?_) hrun (hkept es' e [] m' rfl hrun)
    intro es₃ e' es₄ m' hes
    exact hkept es₃ e' (es₄ ++ [e]) m' (by simp [hes])

lemma safe_of_freesInTable (hm : Initial m) (hfree : FreesInTable m es) : Safe m es := by
  obtain ⟨m', hrun⟩ := run_isSome m es
  have hone : ∀ id < m.table.maxIrq, ∀ a b, Registered m id a es → Registered m id b es → a = b := by
    intro id hid a b ha hb
    rw [registered_iff hm hfree hrun hid] at ha hb
    exact ha.1.symm.trans hb.1
  refine ⟨⟨m', hrun, run_touched hm hfree hrun⟩, ?_, hone, ?_, ?_⟩
  · intro m₁ h₁ id hid tid
    exact registered_iff hm hfree h₁ hid
  · rintro id hid a b es₁ es₂ rfl ha hb hne
    by_contra hnone
    push Not at hnone
    apply hne
    apply hone id hid a b (ha.stays ?_) hb
    intro es₃ e es₄ m₁ hes hrun hrel
    exact hnone es₃ e es₄ m₁ hes hrun hrel
  · intro es₁ es₂ m₁ _ _ t arg
    constructor
    · intro hno
      obtain ⟨-, hsame⟩ | ⟨hok, -⟩ := sysIrqReq_cases m₁.table t arg
      · exact hsame.words
      · exact absurd hok hno
    · intro hno
      obtain ⟨-, hsame, -⟩ | ⟨hok, -⟩ := sysFreeIrq_cases m₁.table t arg
      · exact hsame.words
      · exact absurd hok hno

lemma step_grows (h : step m e = some m') : m.table.touched ⊆ m'.table.touched := by
  cases e with
  | irqReq c arg =>
    cases hc : m.getTcb c with
    | none =>
      simp only [step, hc, Option.some.injEq] at h
      simp [h]
    | some t =>
      simp only [step, hc, Option.some.injEq] at h
      exact h ▸ (sysIrqReq_touched m.table t arg).2
  | freeIrq c arg =>
    cases hc : m.getTcb c with
    | none =>
      simp only [step, hc, Option.some.injEq] at h
      simp [h]
    | some t =>
      simp only [step, hc, Option.some.injEq] at h
      exact h ▸ (sysFreeIrq_touched m.table t arg).2.1
  | irq =>
    obtain ⟨r, hrun, -, hgrows, -⟩ := handleIrq_spec m
    simp only [step, hrun, Option.map_some, Option.some.injEq] at h
    exact h ▸ hgrows
  | threads tcbs =>
    simp only [step, Option.some.injEq] at h
    subst h
    exact List.Subset.refl _

lemma run_grows {es' : List Event} {m₁ : State} (h₁ : run m es = some m₁)
    (h : run m (es ++ es') = some m') : m₁.table.touched ⊆ m'.table.touched := by
  induction es' using List.reverseRecOn generalizing m' with
  | nil =>
    rw [List.append_nil, h₁] at h
    cases h
    exact List.Subset.refl _
  | append_singleton es' e ih =>
    rw [← List.append_assoc] at h
    obtain ⟨m₂, h₂, hstep⟩ := run_step h
    exact List.Subset.trans (ih h₂) (step_grows hstep)

lemma freesInTable_of_safe (h : Safe m es) : FreesInTable m es := by
  rintro es₁ es₂ tid arg m₁ t rfl h₁ ht hcap
  obtain ⟨m', hrun, htouched⟩ := h.inTable
  have hmid : run m (es₁ ++ [.freeIrq tid arg]) = some { m₁ with table := (sysFreeIrq m₁.table t arg).2 } := by
    rw [run_snoc, h₁]
    simp only [Option.bind_some, step, ht]
  rw [List.append_cons] at hrun
  have hmem := run_grows hmid hrun ((sysFreeIrq_touched m₁.table t arg).2.2 hcap)
  rw [Table.irqId, run_width h₁] at hmem
  exact htouched _ hmem

end

theorem irq_safe_iff (m : State) (hm : Initial m) (es : List Event) :
    Safe m es ↔ FreesInTable m es :=
  ⟨freesInTable_of_safe, safe_of_freesInTable hm⟩

def twoThreads (w : IdWidth) : State where
  table := initIrq w
  tcbs := fun i => if i = 1 ∨ i = 2 then
    some { Kernel.zeroTcb w with
      caps := CAP_IRQ, callback := 1, notifyId := 1, thread := { (Kernel.zeroTcb w).thread with tid := i } }
    else none

lemma twoThreads_initial (w : IdWidth) : Initial (twoThreads w) := ⟨fun _ _ => rfl, rfl⟩

/-- A number passes from one thread to another by way of a free, and a free of one that is not
owned is refused; the last number is there with narrow ids only. -/
def sharedNumber : List Event :=
  [.irqReq 1 3, .irqReq 2 3, .freeIrq 2 3, .freeIrq 1 3, .irqReq 2 3, .irq, .freeIrq 2 1023]

theorem irq_safe_iff_shared : Safe (twoThreads .w32) sharedNumber := by
  apply (irq_safe_iff (twoThreads .w32) (twoThreads_initial .w32) sharedNumber).2
  intro es₁ es₂ tid arg m' t hes _ _ _
  have hmem : Event.freeIrq tid arg ∈ sharedNumber := by
    rw [hes]
    exact List.mem_append_right es₁ List.mem_cons_self
  have harg : arg = 3 ∨ arg = 1023 := by
    simp only [sharedNumber, List.mem_cons, reduceCtorEq, Event.freeIrq.injEq, List.not_mem_nil, false_or,
      or_false] at hmem
    obtain ⟨-, h⟩ | ⟨-, h⟩ | ⟨-, h⟩ := hmem
    · exact .inl h
    · exact .inl h
    · exact .inr h
  obtain rfl | rfl := harg
  · decide
  · decide

lemma free_touches {w : IdWidth} {arg : BitVec 64} {i : ℕ}
    (h : (run (twoThreads w) [.freeIrq 1 arg]).map (fun m => m.table.touched) = some [i]) (hi : maxIrq w ≤ i) :
    ¬Safe (twoThreads w) [.freeIrq 1 arg] := by
  intro hsafe
  obtain ⟨m', hrun, htouched⟩ := hsafe.inTable
  rw [hrun] at h
  simp only [Option.map_some, Option.some.injEq] at h
  have hlt : i < maxIrq w := htouched i (by simp [h])
  omega

theorem free_past_table : Initial (twoThreads .w64) ∧ ¬Safe (twoThreads .w64) [.freeIrq 1 512] ∧
    Initial (twoThreads .w32) ∧ ¬Safe (twoThreads .w32) [.freeIrq 1 1024] := by
  refine ⟨twoThreads_initial .w64, ?_, twoThreads_initial .w32, ?_⟩
  · exact free_touches (by decide : _ = some [512]) (by decide)
  · exact free_touches (by decide : _ = some [1024]) (by decide)

end Kmi.Irq
