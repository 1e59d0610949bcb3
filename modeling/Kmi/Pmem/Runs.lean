import Kmi.Pmem.Safety

/-! No page is allocated twice, as long as every free recognises the sets it
returns pages to; the test that misses the tail of a free list breaks this. -/

namespace Kmi.Pmem

open Kmi.Library.LinkedList Kmi.Mem

def topOrder (ramSize : ℕ) : ℕ :=
  if orderSize 2 ≤ ramSize then 2 else if orderSize 1 ≤ ramSize then 1 else 0

lemma exists_ram {ramSize : ℕ} (hpos : orderSize 0 ≤ ramSize) (hlt : ramSize < 2 ^ 64)
    (hdvd : orderSize (topOrder ramSize) ∣ ramSize) :
    ∃ g : Ram, g.top = topOrder ramSize ∧ g.bytes = ramSize := by
  obtain ⟨n, hn⟩ := hdvd
  have h₀ : orderSize 0 = 4096 := rfl
  have h₁ : orderSize 1 = 2097152 := rfl
  have h₂ : orderSize 2 = 1073741824 := rfl
  have htop : topOrder ramSize ≤ 2 := by
    unfold topOrder
    split_ifs <;> omega
  have hsize := orderSize_pos htop
  have hnpos : 0 < n := by
    rcases Nat.eq_zero_or_pos n with rfl | h
    · omega
    · exact h
  have hle : n ≤ ramSize := by
    rw [hn]
    exact Nat.le_mul_of_pos_left n hsize
  refine ⟨⟨topOrder ramSize, n, htop, hnpos, by omega, fun h => ?_⟩, rfl, ?_⟩
  · unfold topOrder at h hn
    split_ifs at h hn with h2 h1
    · omega
    · rw [h₁] at hn
      omega
    · rw [h₀] at hn
      omega
  · rw [Ram.bytes, mul_comm]
    exact hn.symm

def NoDoubleAlloc (cond : Pmap → ℕ → ℕ → Prop) (ramBase ramSize : ℕ) (marked : List ℕ)
    (m₀ : Pmap) : Prop :=
  ∀ m live, Run cond m₀ m live → ∀ order a m', allocPage m order = some (a, m') → a ≠ 0 →
    ramBase ≤ a ∧ a + orderSize order ≤ ramBase + ramSize ∧
      (∀ x ∈ live, Apart (order, a) x) ∧ ∀ x ∈ marked, Apart (order, a) (markedPage ramBase x)

lemma Held.inside {g : Ram} {m : Pmap} {o p : ℕ} (h : Held g m o p) (base : ℕ) :
    base + p * orderSize o + orderSize o ≤ base + g.bytes := by
  have hle : (p + 1) * orderSize o ≤ g.pagesAt o * orderSize o := Nat.mul_le_mul_right _ h.lt
  have hdiv := Nat.div_mul_le_self g.bytes (orderSize o)
  rw [Ram.bytes_div_of_le h.le] at hdiv
  have : (p + 1) * orderSize o = p * orderSize o + orderSize o := by ring
  omega

lemma markAll_owned {g : Ram} {ramBase : ℕ} (start : ℕ) {marked : List ℕ} (hne : marked ≠ [])
    (hin : ∀ x ∈ marked, ramBase ≤ x ∧ x < ramBase + g.bytes) :
    ∃ m₀, markAll (populatePmap ramBase g.bytes start) marked = some m₀ ∧ m₀.base = ramBase ∧
      Owned g m₀ [] marked := by
  obtain ⟨m₀, hm₀, hinv, hbase, -, hbits⟩ := markAll_spec (populatePmap_inv g ramBase start) hin
  have hbase' : m₀.base = ramBase := hbase
  have hheld : ∀ x ∈ marked, (x - ramBase) / orderSize 0 < g.pagesAt 0 :=
    fun x hx => basePage_lt (hin x hx).1 (hin x hx).2
  obtain ⟨x, hx⟩ := List.exists_mem_of_ne_nil marked hne
  refine ⟨m₀, hm₀, hbase', hinv.started (hheld x hx) (hbits x hx), by simp, List.nodup_nil,
    fun y hy => ⟨⟨Nat.zero_le _, ?_, ?_, by simp⟩, by simp⟩⟩
  · rw [hbase']
    exact hheld y hy
  · rw [hbase']
    exact hbits y hy

theorem noDoubleAlloc_of_freeFindsSets {ramBase ramSize start : ℕ} {marked : List ℕ}
    (hpos : orderSize 0 ≤ ramSize) (hlt : ramSize < 2 ^ 64)
    (hdvd : orderSize (topOrder ramSize) ∣ ramSize) (hne : marked ≠ [])
    (hin : ∀ x ∈ marked, ramBase ≤ x ∧ x < ramBase + ramSize) :
    ∃ m₀, markAll (populatePmap ramBase ramSize start) marked = some m₀ ∧
      NoDoubleAlloc FreeFindsSets ramBase ramSize marked m₀ ∧
      ∀ m live, Run FreeFindsSets m₀ m live →
        (∀ order, ∃ r, allocPage m order = some r) ∧
        ∀ x ∈ live, FreeFindsSets m x.1 x.2 → ∃ m', freePage m x.1 x.2 = some m' := by
  obtain ⟨g, -, rfl⟩ := exists_ram hpos hlt hdvd
  obtain ⟨m₀, hm₀, hbase, hown⟩ := markAll_owned start hne hin
  refine ⟨m₀, hm₀, fun m live hrun order a m' halloc ha => ?_, fun m live hrun => ?_⟩
  · obtain ⟨hb, ho⟩ := hrun.owned hown
    obtain ⟨a', m'', halloc', hb', ho'⟩ := ho.alloc order
    obtain ⟨rfl, rfl⟩ := Prod.mk.inj (Option.some.inj (halloc.symm.trans halloc'))
    rw [if_neg ha] at ho'
    have hbase' : m'.base = ramBase := hb'.trans (hb.trans hbase)
    obtain ⟨p, hp, hh⟩ := ho'.held (order, a) (by simp)
    rw [hbase'] at hp
    dsimp only at hp hh
    subst hp
    refine ⟨by omega, hh.inside ramBase, fun x hx => ?_, fun x hx => ?_⟩
    · obtain ⟨q, hq, hhq⟩ := ho'.held x (by simp [hx])
      have hne' : (order, ramBase + p * orderSize order) ≠ x := by
        rintro rfl
        exact (List.nodup_cons.mp ho'.nodup).1 hx
      have := hh.apart ramBase ho'.inv hhq fun he => hne' (by
        obtain ⟨h₁, h₂⟩ := Prod.mk.inj he
        exact Prod.ext h₁ (by rw [hq, hbase', h₁, h₂]))
      rwa [← hbase', ← hq, hbase'] at this
    · obtain ⟨hk, hnot⟩ := ho'.kept x hx
      rw [hbase'] at hk hnot
      refine hh.apart ramBase ho'.inv hk fun he => hnot ?_
      obtain ⟨rfl, rfl⟩ := Prod.mk.inj he
      simp [markedPage]
  · obtain ⟨-, ho⟩ := hrun.owned hown
    refine ⟨fun order => ?_, fun x hx hc => ?_⟩
    · obtain ⟨a, m', halloc, -⟩ := ho.alloc order
      exact ⟨_, halloc⟩
    · obtain ⟨m', hfree, -⟩ := ho.free hx hc
      exact ⟨m', hfree⟩

def replay (m : Pmap) (live : List (ℕ × ℕ)) : List (ℕ ⊕ ℕ × ℕ) → Option (Pmap × List (ℕ × ℕ))
  | [] => some (m, live)
  | .inl order :: calls => do
    let (a, m) ← allocPage m order
    replay m (if a = 0 then live else (order, a) :: live) calls
  | .inr (order, a) :: calls =>
    if (order, a) ∈ live then do
      let m ← freePage m order a
      replay m (live.erase (order, a)) calls
    else none

lemma replay_run {m₀ m m' : Pmap} {live live' : List (ℕ × ℕ)} {calls : List (ℕ ⊕ ℕ × ℕ)}
    (h : Run (fun _ _ _ => True) m₀ m live) (hr : replay m live calls = some (m', live')) :
    Run (fun _ _ _ => True) m₀ m' live' := by
  induction calls generalizing m live with
  | nil =>
    obtain ⟨rfl, rfl⟩ := Prod.mk.inj (Option.some.inj hr)
    exact h
  | cons call calls ih =>
    rcases call with order | ⟨order, a⟩
    · simp only [replay, Option.bind_eq_bind, Option.bind_eq_some_iff] at hr
      obtain ⟨⟨a, m₁⟩, ha, hr⟩ := hr
      exact ih (h.alloc ha) hr
    · simp only [replay, Option.bind_eq_bind] at hr
      split_ifs at hr with hl
      obtain ⟨m₁, hf, hr⟩ := Option.bind_eq_some_iff.mp hr
      exact ih (h.free hl trivial hf) hr

theorem noDoubleAlloc_of_freeFindsSets_four_mib :
    ∃ m₀, markAll (populatePmap (2 ^ 31) (2 ^ 22) (2 ^ 31)) [2 ^ 31] = some m₀ ∧
      NoDoubleAlloc FreeFindsSets (2 ^ 31) (2 ^ 22) [2 ^ 31] m₀ := by
  obtain ⟨m₀, hm₀, hn, -⟩ := @noDoubleAlloc_of_freeFindsSets (2 ^ 31) (2 ^ 22) (2 ^ 31)
    [2 ^ 31] (by decide) (by decide) (by decide) (by simp) (by simp)
  exact ⟨m₀, hm₀, hn⟩

section TailAttachedTwice

def smallBase : ℕ := 0x80000000

def smallSize : ℕ := 0x400000

def pageOf (i : ℕ) : ℕ := smallBase + i * 4096

def firstUsed (pageSize sets size k : ℕ) : Bucket :=
  { bits := 512
    pageSize := pageSize
    head := some 0
    links := ⟨fun _ => none, fun _ => none⟩
    size := fun s => if s < sets then size else 0
    used := fun s => if s = 0 then k else 0
    map := fun s i => decide (s = 0 ∧ i < k) }

def firstMarked (k : ℕ) : Pmap :=
  { base := smallBase
    buckets := fun order =>
      if order = 0 then some (firstUsed 4096 2 512 k)
      else if order = 1 then some (firstUsed 0x200000 1 2 1)
      else none
    used := k * 4096 }

lemma markAll_append (m : Pmap) (xs : List ℕ) (x : ℕ) :
    markAll m (xs ++ [x]) = (markAll m xs).bind fun m => markUsed m 0 x := by
  simp [markAll]

lemma fill_firstUsed {pageSize sets size k : ℕ} (hs : 0 < sets) (hlt : k + 1 ≠ size) :
    fill (firstUsed pageSize sets size k) 0 k = firstUsed pageSize sets size (k + 1) := by
  have hused : Function.update (firstUsed pageSize sets size k).used 0 (k + 1) =
      (firstUsed pageSize sets size (k + 1)).used := by
    funext s
    by_cases hs : s = 0 <;> simp [firstUsed, hs]
  have hmap : Function.update (firstUsed pageSize sets size k).map 0
      (Function.update ((firstUsed pageSize sets size k).map 0) k true) =
      (firstUsed pageSize sets size (k + 1)).map := by
    funext s i
    by_cases hs : s = 0
    · subst hs
      by_cases hi : i = k
      · simp [firstUsed, hi]
      · have : (i < k) = (i < k + 1) := by
          simp only [eq_iff_iff]
          omega
        simp [firstUsed, hi, this]
    · simp [firstUsed, hs]
  have huk : (firstUsed pageSize sets size k).used 0 = k := rfl
  simp only [fill, Bucket.setUsed, Bucket.setBit, huk, hused, hmap]
  rw [if_neg]
  · rfl
  · simpa [firstUsed, hs] using hlt

lemma markUsed_next {k : ℕ} (hk : 0 < k) (hlt : k < 511) :
    markUsed (firstMarked k) 0 (pageOf k) = some (firstMarked (k + 1)) := by
  have hm : (firstMarked k).buckets 0 = some (firstUsed 4096 2 512 k) := rfl
  have hpage : (pageOf k - smallBase) / 4096 = k := by
    rw [pageOf, Nat.add_sub_cancel_left, Nat.mul_div_cancel _ (by omega)]
  have hg : getBit (firstMarked k).base (firstUsed 4096 2 512 k) (pageOf k) = (0, k) := by
    change ((pageOf k - smallBase) / 4096 / 512, (pageOf k - smallBase) / 4096 % 512) = _
    rw [hpage, Nat.div_eq_of_lt (by omega), Nat.mod_eq_of_lt (by omega)]
  have hmark : markAt depth (firstMarked k) 0 (pageOf k) =
      some (true, (firstMarked k).setBucket 0 (fill (firstUsed 4096 2 512 k) 0 k)) := by
    have hused :
        (firstUsed 4096 2 512 k).used (getBit (firstMarked k).base (firstUsed 4096 2 512 k) (pageOf k)).1 ≠ 0 := by
      rw [hg]
      exact hk.ne'
    rw [depth, markAt_used _ hm hused, hg]
    simp [firstUsed]
  rw [markUsed, hmark, fill_firstUsed (by omega) (by omega)]
  refine congrArg some ?_
  have hbuckets : Function.update (firstMarked k).buckets 0 (some (firstUsed 4096 2 512 (k + 1))) =
      (firstMarked (k + 1)).buckets := by
    funext o
    by_cases ho : o = 0
    · subst ho
      rfl
    · simp [firstMarked, ho]
  have hused : (firstMarked k).used + orderSize 0 = (firstMarked (k + 1)).used := by
    change k * 4096 + 4096 = (k + 1) * 4096
    ring
  simp only [Pmap.setBucket, if_true, hbuckets, hused]
  rfl

lemma places_small : (maybePopulatePmap smallSize smallBase).1 =
    [⟨1, smallBase + 88, 512, [⟨smallBase + 112, 2⟩]⟩,
      ⟨0, smallBase + 208, 512, [⟨smallBase + 232, 512⟩, ⟨smallBase + 328, 512⟩]⟩] := rfl

lemma push_none : (⟨fun _ => none, fun _ => none⟩ : Chain ℕ).push none 0 =
    ⟨fun _ => none, fun _ => none⟩ := by
  simp only [Chain.push, Chain.setNext, Chain.setPrev, Chain.mk.injEq, and_true]
  exact Function.update_eq_self (f := fun _ : ℕ => (none : Option ℕ)) 0

lemma populate_small (o : ℕ) : (populatePmap smallBase smallSize smallBase).buckets o =
    if o = 0 then some { firstUsed 4096 2 512 0 with head := none }
    else if o = 1 then some (firstUsed 0x200000 1 2 0) else none := by
  have hsize₀ : (fun s => ((([⟨smallBase + 232, 512⟩, ⟨smallBase + 328, 512⟩] :
      List SetPlace)[s]?).map SetPlace.size).getD 0) = (firstUsed 4096 2 512 0).size := by
    funext s
    match s with
    | 0 => rfl
    | 1 => rfl
    | s + 2 => simp [firstUsed]
  have hsize₁ : (fun s => ((([⟨smallBase + 112, 2⟩] : List SetPlace)[s]?).map
      SetPlace.size).getD 0) = (firstUsed 0x200000 1 2 0).size := by
    funext s
    match s with
    | 0 => rfl
    | s + 1 => simp [firstUsed]
  have hpage₁ : orderSize 1 = 0x200000 := rfl
  have hpage₀ : orderSize 0 = 4096 := rfl
  simp only [populatePmap, places_small]
  by_cases h₀ : o = 0
  · subst h₀
    simp [BucketPlace.bucket, hsize₀, hpage₀, firstUsed]
  · by_cases h₁ : o = 1
    · subst h₁
      simp [BucketPlace.bucket, hsize₁, hpage₁, attachSet, push_none, firstUsed]
    · simp [h₀, h₁, Ne.symm h₀, Ne.symm h₁]

lemma firstUsed_clearAll (pageSize sets size : ℕ) (head : Option ℕ) :
    ({ firstUsed pageSize sets size 0 with head := head }).clearAll 0 =
      { firstUsed pageSize sets size 0 with head := head } := by
  refine clearAll_eq ?_
  simp [popcount, firstUsed]

lemma markUsed_first :
    markUsed (populatePmap smallBase smallSize smallBase) 0 (pageOf 0) = some (firstMarked 1) := by
  have hg : ∀ b : Bucket, getBit (populatePmap smallBase smallSize smallBase).base b (pageOf 0) =
      (0, 0) := by
    intro b
    have : pageOf 0 - (populatePmap smallBase smallSize smallBase).base = 0 := rfl
    simp [getBit, this]
  have hattach : attachSet { firstUsed 4096 2 512 0 with head := none } 0 = firstUsed 4096 2 512 0 := by
    simp [attachSet, firstUsed, push_none]
  have hm₀ := populate_small 0
  simp only [if_true] at hm₀
  have hmark₀ := @markAt_fresh _ _ _ 3 (pageOf 0) hm₀ (by rw [hg]; rfl)
  simp only [hg, firstUsed_clearAll, hattach] at hmark₀
  let m₁ := (populatePmap smallBase smallSize smallBase).setBucket 0 (firstUsed 4096 2 512 0)
  have hm₁ : m₁.buckets 1 = some (firstUsed 0x200000 1 2 0) := by
    simp [m₁, populate_small]
  have hg₁ : ∀ b : Bucket, getBit m₁.base b (pageOf 0) = (0, 0) := hg
  have hmark₁ := @markAt_fresh _ _ _ 2 (pageOf 0) hm₁ (by rw [hg₁]; rfl)
  have hclear : (firstUsed 0x200000 1 2 0).clearAll 0 = firstUsed 0x200000 1 2 0 :=
    firstUsed_clearAll 0x200000 1 2 (some 0)
  have hattach₁ : attachSet (firstUsed 0x200000 1 2 0) 0 = firstUsed 0x200000 1 2 0 := by
    simp [attachSet, firstUsed]
  have htop : ∀ b, markAt 2 (m₁.setBucket 1 b) (1 + 1) (pageOf 0) =
      some (false, m₁.setBucket 1 b) := by
    intro b
    have : (m₁.setBucket 1 b).buckets (1 + 1) = none := by simp [m₁, populate_small]
    rw [markAt, this]
  have hunset : ∀ pageSize sets size, (firstUsed pageSize sets size 0).map 0 0 = false := by
    intro pageSize sets size
    simp [firstUsed]
  simp only [hg₁, hclear, hattach₁, htop, Option.bind_some, hunset, Bool.false_eq_true, if_false,
    fill_firstUsed Nat.one_pos (show 0 + 1 ≠ 2 by omega)] at hmark₁
  have hmark₁' : markAt 3 m₁ (0 + 1) (pageOf 0) = _ := hmark₁
  rw [hmark₁', Option.bind_some] at hmark₀
  simp only [hunset, Bool.false_eq_true, if_false,
    fill_firstUsed Nat.two_pos (show 0 + 1 ≠ 512 by omega)] at hmark₀
  rw [markUsed, show depth = 3 + 1 from rfl, hmark₀]
  refine congrArg some ?_
  simp only [Pmap.setBucket, if_true, firstMarked, Pmap.mk.injEq]
  refine ⟨rfl, ?_, rfl⟩
  funext o
  by_cases h₀ : o = 0
  · simp [h₀]
  · by_cases h₁ : o = 1
    · simp [h₁]
    · simp [h₀, h₁, m₁, populate_small]

lemma markAll_first (k : ℕ) (hk : k < 511) :
    markAll (populatePmap smallBase smallSize smallBase) ((List.range (k + 1)).map pageOf) =
      some (firstMarked (k + 1)) := by
  induction k with
  | zero =>
    have : markAll (populatePmap smallBase smallSize smallBase) [pageOf 0] =
        (markUsed (populatePmap smallBase smallSize smallBase) 0 (pageOf 0)).bind some := rfl
    rw [markUsed_first] at this
    exact this
  | succ k ih =>
    rw [List.range_succ, List.map_append, List.map_singleton, markAll_append, ih (by omega),
      Option.bind_some]
    exact markUsed_next (by omega) hk

end TailAttachedTwice

theorem page_allocated_twice :
    ¬ ∀ m₀, markAll (populatePmap smallBase smallSize smallBase) ((List.range 511).map pageOf) =
        some m₀ →
      NoDoubleAlloc (fun _ _ _ => True) smallBase smallSize ((List.range 511).map pageOf) m₀ := by
  intro h
  have hn := h _ (markAll_first 510 (by omega))
  have hcalls : (replay (firstMarked 511) [] [.inl 0, .inl 0, .inl 0, .inr (0, pageOf 511),
      .inr (0, pageOf 513), .inr (0, pageOf 512), .inl 0, .inl 0]).bind (fun r =>
        (allocPage r.1 0).map fun q => (r.2, q.1)) =
      some ([(0, pageOf 513), (0, pageOf 511)], pageOf 513) := by
    decide +kernel
  obtain ⟨⟨m, live⟩, hr, hq⟩ := Option.bind_eq_some_iff.mp hcalls
  obtain ⟨⟨a, m'⟩, ha, he⟩ := Option.map_eq_some_iff.mp hq
  obtain ⟨rfl, rfl⟩ := Prod.mk.inj he
  have hpage := hn m _ (replay_run .start hr) 0 (pageOf 513) m' ha (by decide)
  have hsize : 0 < orderSize 0 := orderSize_pos (by omega)
  rcases hpage.2.2.1 (0, pageOf 513) (by simp) with h | h <;> simp only at h <;> omega

end Kmi.Pmem
