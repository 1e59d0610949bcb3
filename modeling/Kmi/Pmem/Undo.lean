import Kmi.Pmem.Runs

/-! A free of the page just allocated puts every set back where it was: a set
filled up returns to the head of its list, a carved one leaves the list again. -/

namespace Kmi.Pmem

open Kmi.Library.LinkedList Kmi.Mem

section Bucket

variable {b : Bucket} {xs : List ℕ} {s i : ℕ}

lemma bucket_eq {b' : Bucket} (hbits : b'.bits = b.bits) (hps : b'.pageSize = b.pageSize)
    (hhead : b'.head = b.head) (hlinks : b'.links = b.links) (hsize : b'.size = b.size)
    (hused : b'.used = b.used) (hmap : b'.map = b.map) : b' = b := by
  cases b
  cases b'
  simp_all

lemma release_fill_used (hlt : b.used s + 1 < 2 ^ 64) :
    (release (fill b s i) s i).used = b.used := by
  have hdec := decr_eq (Nat.succ_pos (b.used s)) hlt
  rw [release_used, fill_used, Function.update_self, Function.update_idem, hdec]
  exact Function.update_eq_self _ _

lemma release_fill_map (hb : b.map s i = false) : (release (fill b s i) s i).map = b.map := by
  rw [release_map, fill_map, Function.update_self, Function.update_idem, Function.update_idem, ← hb,
    Function.update_eq_self, Function.update_eq_self]

lemma release_fill_eq (hlt : b.used s + 1 < 2 ^ 64) (hb : b.map s i = false)
    (hhead : (release (fill b s i) s i).head = b.head)
    (hlinks : (release (fill b s i) s i).links = b.links) : release (fill b s i) s i = b :=
  bucket_eq (by simp) (by simp) hhead hlinks (by simp) (release_fill_used hlt) (release_fill_map hb)

lemma attachSet_new (hnext : b.links.next s = none) (hhead : b.head ≠ some s) :
    attachSet b s = { b with head := some s, links := b.links.push b.head s } := by
  simp [attachSet, hnext, hhead]

lemma attachSet_head (hhead : b.head = some s) : attachSet b s = b := by
  simp [attachSet, hhead]

lemma release_of_busy (h : decr (b.used s) ≠ 0) :
    release b s i = attachSet ((b.setUsed s (decr (b.used s))).setBit s i false) s := by
  simp [release, h]

lemma release_of_last (h : decr (b.used s) = 0) (hhead : b.head = some s) :
    release b s i = detachSet ((b.setUsed s 0).setBit s i false) s := by
  have hatt : attachSet ((b.setUsed s 0).setBit s i false) s = (b.setUsed s 0).setBit s i false :=
    attachSet_head hhead
  simp [release, h, hatt]

lemma release_fill (hl : FreeList b xs) (hhead : b.head = some s) (hb : b.map s i = false)
    (hpos : 0 < b.used s) (hlt : b.used s + 1 < 2 ^ 64) : release (fill b s i) s i = b := by
  have hdec := decr_eq (Nat.succ_pos (b.used s)) hlt
  have hbusy : decr ((fill b s i).used s) ≠ 0 := by
    rw [fill_used, Function.update_self, hdec]
    omega
  have hlist : IsList b.links (some s) xs := hhead ▸ hl.1
  have hrel := release_of_busy (i := i) hbusy
  by_cases hfull : b.used s + 1 = b.size s
  · have hfill : fill b s i = detachSet ((b.setUsed s (b.used s + 1)).setBit s i true) s := by
      simp [fill, hfull]
    have hh : (fill b s i).head = b.links.next s := by
      simp [hfill, detachSet, hhead]
    have hk : (fill b s i).links = b.links.unlink s := by
      simp [hfill, detachSet]
    rw [attachSet_new (by simp [hk, (unlink_self b.links s).1])
      (by simpa [hh] using hlist.next_first_ne)] at hrel
    apply release_fill_eq hlt hb
    · rw [hrel, hhead]
    · rw [hrel]
      simpa [hh, hk] using hlist.push_unlink
  · have hfill : fill b s i = (b.setUsed s (b.used s + 1)).setBit s i true := by
      simp [fill, hfull]
    have hh : (fill b s i).head = some s := by simp [hfill, hhead]
    rw [attachSet_head (by simpa using hh)] at hrel
    apply release_fill_eq hlt hb
    · rw [hrel, setBit_head, setUsed_head, hh, hhead]
    · rw [hrel, setBit_links, setUsed_links, hfill, setBit_links, setUsed_links]

lemma release_fill_carved (hhead : b.head = none) (hnext : b.links.next s = none)
    (hprev : b.links.prev s = none) (hb : b.map s i = false) (hz : b.used s = 0)
    (hsize : b.size s ≠ 1) : release (fill (attachSet b s) s i) s i = b := by
  have hatt := attachSet_new hnext (by simp [hhead] : b.head ≠ some s)
  have hfill : fill (attachSet b s) s i =
      ((attachSet b s).setUsed s (b.used s + 1)).setBit s i true := by
    simp [fill, hz, Ne.symm hsize]
  have hh : (fill (attachSet b s) s i).head = some s := by rw [hfill, setBit_head, setUsed_head, hatt]
  have hzero : decr ((fill (attachSet b s) s i).used s) = 0 := by
    rw [fill_used, Function.update_self, attachSet_used, hz]
    decide
  have hrel := release_of_last (i := i) hzero hh
  have hused : (release (fill (attachSet b s) s i) s i).used = b.used := by
    rw [release_fill_used (by rw [attachSet_used, hz]; norm_num), attachSet_used]
  have hmap : (release (fill (attachSet b s) s i) s i).map = b.map := by
    rw [release_fill_map (by rw [attachSet_map, hb]), attachSet_map]
  have hlinks : (fill (attachSet b s) s i).links = b.links.push none s := by
    rw [hfill, setBit_links, setUsed_links, hatt, hhead]
  refine bucket_eq (by simp) (by simp) ?_ ?_ (by simp) hused hmap
  · rw [hrel]
    simp [detachSet, hh, hlinks, hhead, Chain.push]
  · rw [hrel]
    simpa [detachSet, hlinks] using unlink_push hnext hprev

end Bucket

variable {g : Ram} {m m' : Pmap} {o p s i : ℕ} {b b' : Bucket}

lemma setBucket_back (hm : m.buckets o = some b) (b' : Bucket) (u : ℕ) :
    ({ m.setBucket o b' with used := u } : Pmap).setBucket o b = { m with used := u } := by
  have : Function.update m.buckets o (some b) = m.buckets := by rw [← hm, Function.update_eq_self]
  simp [Pmap.setBucket, this]

def Undoes (g : Ram) (m m' : Pmap) (o p : ℕ) : Prop :=
  ∀ addr fuel u, (addr - m.base) / orderSize o = p → g.top + 1 ≤ fuel + o →
    freeAt fuel { m' with used := u } o addr = some (true, { m with used := u })

structure Undoable (g : Ram) (m m' : Pmap) (o a : ℕ) : Prop where
  used : m'.used = m.used
  failed : a = 0 → 0 < m.base → m' = m
  undo : a ≠ 0 → Undoes g m m' o ((a - m.base) / orderSize o)

lemma pageAddr_div {fresh : Prop} (hbk : OrderOk g o fresh b) (ho : o ≤ g.top) (base s i : ℕ) :
    (pageAddr base b s i - base) / orderSize o = s * g.bitsAt o + i := by
  have htop := g.top_le
  rw [hbk.pageAddr_eq, Nat.add_sub_cancel_left, Nat.mul_div_cancel _ (orderSize_pos (by omega))]

lemma take_undoable (hm : m.buckets o = some b) (hbk : OrderOk g o (False ∧ o = g.top) b)
    (ho : o ≤ g.top) (hhead : b.head = some s) :
    Undoable g m (m.setBucket o (takePage b s).2) o (pageAddr m.base b s (takePage b s).1) := by
  obtain ⟨xs, hl, hmem⟩ := hbk.ok.listed
  obtain ⟨-, last, hseg⟩ := hl.1
  rw [hhead] at hseg
  obtain ⟨hs, hlt, hpos⟩ := (hmem s).mp (mem_of_first hseg)
  have hsize := hbk.ok.size_eq s hs
  have hmax := Ram.sizeAt_lt (g := g) (o := o)
  have hpos' : 0 < b.used s := by simpa using hpos
  have hcount := hbk.ok.used_eq s hs
  obtain ⟨hi, hunset⟩ := @findFirstUnset_spec (b.map s) (g.sizeAt o) (by omega)
  rw [takePage_eq, hsize]
  generalize findFirstUnset (b.map s) (g.sizeAt o) = i at hi hunset
  obtain ⟨hp, hdiv, hmod⟩ := Ram.page_lt ho hs hi
  refine ⟨rfl, fun ha hbase => ?_, fun _ addr fuel u haddr hfuel => ?_⟩
  · rw [hbk.pageAddr_eq] at ha
    omega
  · obtain ⟨fuel, rfl⟩ := Nat.exists_eq_succ_of_ne_zero (by omega : fuel ≠ 0)
    rw [pageAddr_div hbk ho] at haddr
    have hgb : getBit m.base (fill b s i) addr = (s, i) := by
      rw [getBit, fill_bits, fill_pageSize, hbk.bits, hbk.pageSize, haddr, hdiv, hmod]
    have hrel := release_fill hl hhead hunset hpos' (by omega)
    have hbucket : (m.setBucket o (fill b s i)).buckets o = some (fill b s i) := by simp
    have hfree := @freeAt_eq { m.setBucket o (fill b s i) with used := u } o (fill b s i) fuel addr
      s i hbucket hgb (by simp)
    rw [hrel, if_neg (by omega), setBucket_back hm] at hfree
    exact hfree

lemma carve_undoable {m₁ : Pmap} {q : ℕ} (h : Inv g False m o) (ht : o < g.top)
    (hm : m.buckets o = some b) (hbk : OrderOk g o (False ∧ o = g.top) b) (hhead : b.head = none)
    (hq : q < g.setsAt o) (hunset : m.bit (o + 1) q = false) (hbase : m₁.base = m.base)
    (hm₁ : m₁.buckets o = some b) (hused : m₁.used = m.used) (hundo : Undoes g m m₁ (o + 1) q) :
    Undoable g m ((m₁.setBucket o (carve b q)).setBucket o (takePage (carve b q) q).2) o
      (pageAddr m₁.base (carve b q) q (takePage (carve b q) q).1) := by
  have hok : BucketOk (g.setsAt o) (g.sizeAt o) (fun _ => False) b := by simpa using hbk.ok
  have hz : b.used q = 0 := h.used_zero ht hm hq hunset
  obtain ⟨hnext, hprev⟩ := hok.unlinked hz
  have hsize : b.size q = 512 := by rw [hok.size_eq q hq, Ram.sizeAt, if_pos ht]
  have hcount := hok.used_eq q hq
  rw [hok.carve_eq hq hz, takePage_eq, attachSet_map, attachSet_size, hsize]
  rw [Ram.sizeAt, if_pos ht, hz] at hcount
  obtain ⟨hi, hfree⟩ := @findFirstUnset_spec (b.map q) 512 (by omega)
  generalize findFirstUnset (b.map q) 512 = i at hi hfree
  obtain ⟨hp, hdiv, hmod⟩ := @Ram.page_lt g o q i ht.le hq (by rwa [Ram.sizeAt, if_pos ht])
  have haddr : pageAddr m₁.base (attachSet b q) q i = pageAddr m.base b q i := by
    rw [hbase, pageAddr, pageAddr, attachSet_bits, attachSet_pageSize]
  rw [haddr]
  refine ⟨hused, fun ha hbase => ?_, fun _ addr fuel u haddr hfuel => ?_⟩
  · rw [hbk.pageAddr_eq] at ha
    omega
  · obtain ⟨fuel, rfl⟩ := Nat.exists_eq_succ_of_ne_zero (by omega : fuel ≠ 0)
    rw [pageAddr_div hbk ht.le] at haddr
    let c := fill (attachSet b q) q i
    let m₂ : Pmap := { (m₁.setBucket o (attachSet b q)).setBucket o c with used := u }
    have hbucket : m₂.buckets o = some c := by simp [m₂]
    have hgb : getBit m₂.base c addr = (q, i) := by
      have : m₂.base = m.base := hbase
      simp only [c]
      rw [this, getBit, fill_bits, fill_pageSize, attachSet_bits, attachSet_pageSize, hbk.bits,
        hbk.pageSize, haddr, hdiv, hmod]
    have hrel := release_fill_carved hhead hnext hprev hfree hz (by omega)
    have hback : m₂.setBucket o b = { m₁ with used := u } := by
      rw [← setBucket_back hm₁ c]
      simp [m₂, Pmap.setBucket]
    have hstep := @freeAt_eq m₂ o c fuel addr q i hbucket hgb (by simp [c])
    have hwidth : c.size q = orderWidth (o + 1) := by
      have htop := g.top_le
      rw [fill_size, attachSet_size, hsize, orderWidth, if_pos (by simp only [maxOrder]; omega)]
    rw [hrel, if_pos hz, if_pos hwidth, hback] at hstep
    have hup : (pageAddr m₂.base c q i - m.base) / orderSize (o + 1) = q := by
      have htop := g.top_le
      have hsame : pageAddr m₂.base c q i = pageAddr m.base b q i := by
        simp [pageAddr, m₂, c, hbase]
      rw [hsame, hbk.pageAddr_eq, Nat.add_sub_cancel_left, orderSize_succ (by omega),
        ← Ram.bitsAt_of_lt ht, mul_comm (orderSize o), Nat.mul_div_mul_right _ _ (orderSize_pos (by omega)), hdiv]
    rw [hundo _ fuel u hup (by omega)] at hstep
    exact hstep

lemma allocAt_undoable (fuel : ℕ) {a : ℕ} (h : Inv g False m o) (hfuel : g.top + 2 ≤ fuel + o)
    (halloc : allocAt fuel m o = some (a, m')) : Undoable g m m' o a := by
  induction fuel generalizing m o a m' with
  | zero => simp [allocAt] at halloc
  | succ fuel ih =>
    by_cases hot : o ≤ g.top
    · obtain ⟨b, hm, hbk⟩ := h.ok o le_rfl hot
      cases hhead : b.head with
      | some s =>
        rw [allocAt_head fuel hm hhead] at halloc
        obtain ⟨rfl, rfl⟩ := Prod.mk.inj (Option.some.inj halloc)
        exact take_undoable hm (by simpa using hbk) hot hhead
      | none =>
        obtain ⟨a₁, m₁, halloc₁, hinv₁, hg₁, hpage⟩ :=
          allocAt_spec fuel h.succ (by omega) (by omega)
        have hundo := ih h.succ (by omega) halloc₁
        by_cases ha : a₁ = 0
        · subst ha
          rw [allocAt_failed hm hhead halloc₁] at halloc
          obtain ⟨rfl, rfl⟩ := Prod.mk.inj (Option.some.inj halloc)
          exact ⟨hundo.used, hundo.failed, fun hc => (hc rfl).elim⟩
        · obtain ⟨ht, q, hq, rfl, hunset, hset⟩ := hpage ha
          have ht' : o < g.top := by omega
          have hqs : q < g.setsAt o := by rwa [Ram.setsAt, if_pos ht']
          have hdiv : (m.base + q * orderSize (o + 1) - m.base) / orderSize (o + 1) = q := by
            have htop := g.top_le
            rw [Nat.add_sub_cancel_left, Nat.mul_div_cancel _ (orderSize_pos (by omega))]
          have hback := hundo.undo ha
          rw [hdiv] at hback
          rw [← hg₁.base] at ha halloc₁
          obtain ⟨fuel, rfl⟩ := Nat.exists_eq_succ_of_ne_zero (by omega : fuel ≠ 0)
          rw [allocAt_carve ht' hm hbk hhead hqs ha halloc₁,
            allocAt_head (b := carve b q) fuel (by simp) carve_head] at halloc
          obtain ⟨rfl, rfl⟩ := Prod.mk.inj (Option.some.inj halloc)
          exact carve_undoable h ht' hm (by simpa using hbk) hhead hqs hunset hg₁.base
            ((hg₁.below o (by omega)).trans hm) hundo.used hback
    · have hb := h.above o (by omega)
      simp only [allocAt, hb, Option.some.injEq, Prod.mk.injEq] at halloc
      obtain ⟨rfl, rfl⟩ := halloc
      exact ⟨rfl, fun _ _ => rfl, fun hc => (hc rfl).elim⟩

structure Lists (sets size : ℕ) (carved : ℕ → Prop) (b : Bucket) : Prop where
  size_eq : ∀ s < sets, b.size s = size
  used_eq : ∀ s < sets, b.used s = popcount (b.map s) size
  listed : ∃ xs, FreeList b xs ∧
    ∀ s, s ∈ xs ↔ s < sets ∧ carved s ∧ ∃ i < size, b.map s i = false
  clean : ∀ s < sets, ¬ carved s → ∀ i < size, b.map s i = false
  busy : ∀ s < sets, carved s → 0 < b.used s

structure Carved (g : Ram) (carved : ℕ → ℕ → Prop) (m : Pmap) : Prop where
  order : ∀ o ≤ g.top, ∃ b, m.buckets o = some b ∧ b.bits = g.bitsAt o ∧
    b.pageSize = orderSize o ∧ Lists (g.setsAt o) (g.sizeAt o) (carved o) b
  above : ∀ o, g.top < o → m.buckets o = none
  top : carved g.top 0
  page : ∀ o < g.top, ∀ s < g.setsAt o, carved o s → m.bit (o + 1) s = true

lemma popcount_lt_iff {map : ℕ → Bool} {n : ℕ} : popcount map n < n ↔ ∃ i < n, map i = false := by
  constructor
  · intro h
    exact ⟨_, findFirstUnset_spec h⟩
  · rintro ⟨i, hi, hf⟩
    have hle := popcount_le (Function.update map i true) n
    rw [popcount_set hi hf] at hle
    exact hle

lemma popcount_eq_zero {map : ℕ → Bool} {n : ℕ} (h : ∀ i < n, map i = false) :
    popcount map n = 0 := by
  rw [popcount, Finset.card_eq_zero, Finset.filter_eq_empty_iff]
  intro i hi
  simp [h i (Finset.mem_range.mp hi)]

section Lists

variable {sets size : ℕ} {carved : ℕ → Prop}

lemma Lists.carved_iff (h : Lists sets size carved b) (hs : s < sets) :
    carved s ↔ 0 < b.used s := by
  constructor
  · exact h.busy s hs
  · intro hu
    by_contra hc
    rw [h.used_eq s hs, popcount_eq_zero (h.clean s hs hc)] at hu
    exact absurd hu (lt_irrefl 0)

lemma Lists.ok (h : Lists sets size carved b) : BucketOk sets size (fun _ => False) b := by
  refine ⟨h.size_eq, h.used_eq, ?_⟩
  obtain ⟨xs, hl, hmem⟩ := h.listed
  refine ⟨xs, hl, fun s => ?_⟩
  rw [hmem, or_false]
  refine and_congr_right fun hs => ?_
  rw [h.carved_iff hs, h.used_eq s hs, popcount_lt_iff, and_comm]

end Lists

lemma Carved.inv {carved : ℕ → ℕ → Prop} (h : Carved g carved m) : Inv g False m 0 := by
  refine ⟨fun o _ ho => ?_, fun o _ ho s hs hu => ?_, h.above⟩
  · obtain ⟨b, hm, hbits, hps, hl⟩ := h.order o ho
    exact ⟨b, hm, hbits, hps, by simpa using hl.ok⟩
  · obtain ⟨b, hm, -, -, hl⟩ := h.order o ho.le
    rw [usedAt_eq hm] at hu
    exact h.page o ho s hs ((hl.carved_iff hs).2 hu)

lemma Inv.carved (h : Inv g False m 0) (htop : 0 < m.usedAt g.top 0) :
    Carved g (fun o s => 0 < m.usedAt o s) m := by
  refine ⟨fun o ho => ?_, h.above, htop, fun o ho s hs hu => h.closed o (by omega) ho s hs hu⟩
  obtain ⟨b, hm, hbk⟩ := h.ok o (by omega) ho
  have hok : BucketOk (g.setsAt o) (g.sizeAt o) (fun _ => False) b := by simpa using hbk.ok
  refine ⟨b, hm, hbk.bits, hbk.pageSize, hok.size_eq, hok.used_eq, ?_, fun s hs hu i hi => ?_,
    fun s hs hu => by rwa [usedAt_eq hm] at hu⟩
  · obtain ⟨xs, hl, hmem⟩ := hok.listed
    refine ⟨xs, hl, fun s => ?_⟩
    rw [hmem, or_false, usedAt_eq hm]
    refine and_congr_right fun hs => ?_
    rw [← popcount_lt_iff, ← hok.used_eq s hs, and_comm]
  · rw [usedAt_eq hm, hok.used_eq s hs] at hu
    by_contra hc
    exact hu (popcount_pos hi (by simpa using hc))

/-- The RAM is mapped in the upper half of the address space, so that no page of it has
the address that stands for a failure. -/
theorem freePage_allocPage {carved : ℕ → ℕ → Prop} (h : Carved g carved m) (hbase : 0 < m.base)
    (order : ℕ) : ∃ a m', allocPage m order = some (a, m') ∧ (a = 0 → m' = m) ∧
      (a ≠ 0 → freePage m' order a = some m) := by
  have hinv := h.inv
  by_cases ho : order ≤ g.top
  · have hall : Inv g False m order :=
      ⟨fun o' _ => hinv.ok o' (by omega), fun o' _ => hinv.closed o' (by omega), hinv.above⟩
    have hdepth : g.top + 2 ≤ depth + order := by
      have := g.top_le
      simp only [depth, maxOrder]
      omega
    obtain ⟨a, m', halloc, -⟩ := allocAt_spec depth hall (by omega) hdepth
    have hundo := allocAt_undoable depth hall hdepth halloc
    refine ⟨a, _, by rw [allocPage, halloc]; rfl, fun ha => ?_, fun ha => ?_⟩
    · rw [if_neg (not_not.2 ha)]
      exact hundo.failed ha hbase
    · rw [if_pos ha, hundo.used]
      have hfree := hundo.undo ha a depth (m.used + orderSize order) rfl (by omega)
      simp only [freePage, hfree, Option.bind_eq_bind, Option.bind_some, if_true,
        Nat.add_sub_cancel]
  · have hb := h.above order (by omega)
    exact ⟨0, m, by simp [allocPage, allocAt, depth, hb], fun _ => rfl, fun hc => (hc rfl).elim⟩

lemma allocPage_second : (allocPage (firstMarked 1) 0).map Prod.fst = some (pageOf 1) := by
  decide +kernel

theorem freePage_allocPage_second_page :
    ∃ m', allocPage (firstMarked 1) 0 = some (pageOf 1, m') ∧
      freePage m' 0 (pageOf 1) = some (firstMarked 1) := by
  let small : Ram := ⟨1, 2, by norm_num, by norm_num, by norm_num, by norm_num⟩
  have hbytes : small.bytes = smallSize := by
    simp [small, Ram.bytes, smallSize, orderSize, maxOrder, orderShift]
  have hone : [pageOf 0] = (List.range (0 + 1)).map pageOf := rfl
  obtain ⟨m₀, hm₀, -, hown⟩ := @markAll_owned small smallBase smallBase [pageOf 0] (by simp)
    (by simp [pageOf, hbytes, smallSize])
  rw [hbytes, hone, markAll_first 0 (by omega)] at hm₀
  have hfirst : firstMarked 1 = m₀ := Option.some.inj hm₀
  subst hfirst
  obtain ⟨a, m', halloc, -, hfree⟩ := freePage_allocPage (hown.inv.carved Nat.one_pos)
    (by norm_num [firstMarked, smallBase]) 0
  have ha := allocPage_second
  rw [halloc, Option.map_some] at ha
  obtain rfl := Option.some.inj ha
  exact ⟨m', halloc, hfree (by norm_num [pageOf, smallBase])⟩

end Kmi.Pmem
