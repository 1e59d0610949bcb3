import Kmi.Pmem.Model

/-! Where `populate_pmap` puts the sets, and for which RAM sizes their bitmaps fit. -/

namespace Kmi.Pmem

open Kmi.Mem

def SetPlace.bitByte (s : SetPlace) (k : ℕ) : ℕ := s.addr + sizeofBmap + k / 8

def BucketPlace.top (p : BucketPlace) : ℕ :=
  p.addr + sizeofBucket + p.sets.length * getSetSize p.bits

lemma placeSets_eq (bits setSize sets n cont : ℕ) :
    placeSets bits setSize sets n cont =
      ((List.range sets).map fun i => ⟨cont + i * setSize, bits⟩, n - sets * bits,
        cont + sets * setSize) := by
  induction sets generalizing n cont with
  | zero => simp [placeSets]
  | succ sets ih =>
    simp only [placeSets, ih, List.range_succ_eq_map, List.map_cons, List.map_map, Prod.mk.injEq,
      List.cons.injEq, SetPlace.mk.injEq]
    refine ⟨⟨by simp, ?_⟩, ?_, ?_⟩
    · refine List.map_congr_left fun i _ => ?_
      simp only [Function.comp_apply, SetPlace.mk.injEq, and_true]
      rw [Nat.succ_mul]
      omega
    · rw [Nat.succ_mul]
      omega
    · rw [Nat.succ_mul]
      omega

structure Placed (p : BucketPlace) : Prop where
  addr : ∀ i s, p.sets[i]? = some s → s.addr = p.addr + sizeofBucket + i * getSetSize p.bits
  size : ∀ s ∈ p.sets, s.size ≤ p.bits

lemma maybePopulateBucket_placed (n cont order : ℕ) (hn : n ≠ 0) :
    Placed (maybePopulateBucket n cont order).1 ∧
      (maybePopulateBucket n cont order).2 = (maybePopulateBucket n cont order).1.top ∧
      (maybePopulateBucket n cont order).1.addr = cont ∧
      (maybePopulateBucket n cont order).1.order = order ∧
      (maybePopulateBucket n cont order).1.bits =
        if orderWidth (order + 1) = 0 then n else orderWidth (order + 1) := by
  have hb : (if orderWidth (order + 1) = 0 then n else orderWidth (order + 1)) ≠ 0 := by
    split_ifs with h <;> assumption
  generalize hbits : (if orderWidth (order + 1) = 0 then n else orderWidth (order + 1)) = bits at hb
  have hmod : n - n / bits * bits = n % bits := by
    have := Nat.div_add_mod n bits
    rw [mul_comm] at this
    omega
  have hlt : n % bits < bits := Nat.mod_lt _ (by omega)
  simp only [maybePopulateBucket, hbits, placeSets_eq, hmod]
  split_ifs with hz
  · refine ⟨⟨fun i s hs => ?_, fun s hs => ?_⟩, ?_, rfl, rfl, rfl⟩
    · simp only [List.getElem?_map, Option.map_eq_some_iff] at hs
      obtain ⟨j, hj, rfl⟩ := hs
      obtain ⟨-, rfl⟩ := List.getElem?_eq_some_iff.mp hj
      simp
    · obtain ⟨i, -, rfl⟩ := List.mem_map.mp hs
      exact le_rfl
    · simp [BucketPlace.top]
  · refine ⟨⟨fun i s hs => ?_, fun s hs => ?_⟩, ?_, rfl, rfl, rfl⟩
    · rw [List.getElem?_append] at hs
      simp only [List.length_map, List.length_range] at hs
      split_ifs at hs with hi
      · simp only [List.getElem?_map, Option.map_eq_some_iff] at hs
        obtain ⟨j, hj, rfl⟩ := hs
        obtain ⟨-, rfl⟩ := List.getElem?_eq_some_iff.mp hj
        simp
      · obtain ⟨hi', rfl⟩ := List.getElem?_eq_some_iff.mp hs
        simp only [List.length_singleton] at hi'
        obtain rfl : i = n / bits := by omega
        simp
    · rw [List.mem_append, List.mem_singleton] at hs
      rcases hs with hs | rfl
      · obtain ⟨i, -, rfl⟩ := List.mem_map.mp hs
        exact le_rfl
      · exact hlt.le
    · simp only [BucketPlace.top, List.length_append, List.length_map, List.length_range,
        List.length_singleton]
      ring

structure Row (ramSize : ℕ) (bs : List BucketPlace) (start stop : ℕ) : Prop where
  le : start ≤ stop
  placed : ∀ p ∈ bs, Placed p ∧ start ≤ p.addr ∧ p.top ≤ stop
  bits : ∀ p ∈ bs, p.bits = if orderWidth (p.order + 1) = 0 then ramSize / orderSize p.order
    else orderWidth (p.order + 1)
  apart : bs.Pairwise fun p q => p.top ≤ q.addr

lemma maybePopulateOrders_row (ramSize iter cont : ℕ) :
    Row ramSize (maybePopulateOrders ramSize iter cont).1 cont
      (maybePopulateOrders ramSize iter cont).2 := by
  induction iter generalizing cont with
  | zero => exact ⟨le_rfl, by simp [maybePopulateOrders], by simp [maybePopulateOrders], .nil⟩
  | succ iter ih =>
    by_cases hz : ramSize / orderSize iter = 0
    · simpa [maybePopulateOrders, hz] using ih cont
    · obtain ⟨hp, htop, haddr, horder, hbits⟩ := maybePopulateBucket_placed _ cont iter hz
      obtain ⟨hle, hplaced, hbits', hapart⟩ := ih (maybePopulateBucket _ cont iter).2
      have hcont : cont ≤ (maybePopulateBucket (ramSize / orderSize iter) cont iter).2 := by
        rw [htop, BucketPlace.top, haddr]
        omega
      simp only [maybePopulateOrders, hz, if_false]
      refine ⟨hcont.trans hle, ?_, ?_, List.pairwise_cons.mpr ⟨?_, hapart⟩⟩
      · intro p hp'
        rcases List.mem_cons.mp hp' with rfl | hp'
        · exact ⟨hp, haddr.ge, htop ▸ hle⟩
        · obtain ⟨h₁, h₂, h₃⟩ := hplaced p hp'
          exact ⟨h₁, hcont.trans h₂, h₃⟩
      · intro p hp'
        rcases List.mem_cons.mp hp' with rfl | hp'
        · rw [hbits, horder]
        · exact hbits' p hp'
      · intro q hq
        rw [← htop]
        exact (hplaced q hq).2.1

lemma getSetSize_eq {bits : ℕ} (h : bits < 2 ^ 63) :
    getSetSize bits = 8 * ((39 + (bits + 1) / 8) / 8) := by
  rw [getSetSize, alignUp_eq (by omega) (by simp only [sizeofBmap]; omega)]
  congr 2
  simp only [sizeofBmap]
  omega

def topPages (ramSize : ℕ) : ℕ := ramSize / orderSize maxOrder

def BitmapFits (ramSize : ℕ) : Prop :=
  topPages ramSize = 0 ∨ topPages ramSize % 64 = 0 ∨ 7 ≤ topPages ramSize % 64

lemma fits_of_bits {bits k : ℕ} (h : bits < 2 ^ 63) (hb : bits % 64 = 0 ∨ 7 ≤ bits % 64)
    (hk : k < bits) : sizeofBmap + k / 8 < getSetSize bits := by
  rw [getSetSize_eq h]
  simp only [sizeofBmap]
  omega

/-- Every bit of a bitmap stays inside its set, away from the headers of the
other sets and of the buckets, and inside the bytes that were probed for. -/
def MetadataDisjoint (ramSize start : ℕ) : Prop :=
  ∀ p ∈ (maybePopulatePmap ramSize start).1, ∀ s ∈ p.sets, ∀ k < s.size,
    s.bitByte k < s.addr + getSetSize p.bits ∧
    (∀ q ∈ (maybePopulatePmap ramSize start).1,
      (s.bitByte k < q.addr ∨ q.addr + sizeofBucket ≤ s.bitByte k) ∧
      ∀ t ∈ q.sets, s.bitByte k < t.addr ∨ t.addr + sizeofBmap ≤ s.bitByte k) ∧
    start ≤ s.bitByte k ∧ s.bitByte k < start + probePmap ramSize start

lemma Placed.slot {p : BucketPlace} (hp : Placed p) {s : SetPlace} (hs : s ∈ p.sets) :
    ∃ i < p.sets.length, s.addr = p.addr + sizeofBucket + i * getSetSize p.bits := by
  obtain ⟨i, hi, rfl⟩ := List.mem_iff_getElem.mp hs
  exact ⟨i, hi, hp.addr i _ (List.getElem?_eq_getElem hi)⟩

lemma slot_le {i n c : ℕ} (h : i < n) : i * c + c ≤ n * c := by
  calc i * c + c = (i + 1) * c := by ring
    _ ≤ n * c := Nat.mul_le_mul_right c h

lemma Placed.within {p : BucketPlace} (hp : Placed p) {s : SetPlace} (hs : s ∈ p.sets) :
    p.addr + sizeofBucket ≤ s.addr ∧ s.addr + getSetSize p.bits ≤ p.top := by
  obtain ⟨i, hi, he⟩ := hp.slot hs
  have := slot_le (c := getSetSize p.bits) hi
  simp only [BucketPlace.top]
  omega

lemma Placed.apart {p : BucketPlace} (hp : Placed p) {s t : SetPlace} (hs : s ∈ p.sets)
    (ht : t ∈ p.sets) : s.addr = t.addr ∨ s.addr + getSetSize p.bits ≤ t.addr ∨
      t.addr + getSetSize p.bits ≤ s.addr := by
  obtain ⟨i, -, hi⟩ := hp.slot hs
  obtain ⟨j, -, hj⟩ := hp.slot ht
  rcases lt_trichotomy i j with h | rfl | h
  · have := slot_le (c := getSetSize p.bits) h
    omega
  · omega
  · have := slot_le (c := getSetSize p.bits) h
    omega

lemma Row.eq_or_apart {ramSize start stop : ℕ} {bs : List BucketPlace}
    (h : Row ramSize bs start stop) {p q : BucketPlace} (hp : p ∈ bs) (hq : q ∈ bs) :
    p = q ∨ p.top ≤ q.addr ∨ q.top ≤ p.addr := by
  have hpair := List.pairwise_iff_getElem.mp h.apart
  obtain ⟨i, hi, rfl⟩ := List.mem_iff_getElem.mp hp
  obtain ⟨j, hj, rfl⟩ := List.mem_iff_getElem.mp hq
  rcases lt_trichotomy i j with hij | rfl | hij
  · exact Or.inr (Or.inl (hpair i j hi hj hij))
  · exact Or.inl rfl
  · exact Or.inr (Or.inr (hpair j i hj hi hij))

lemma maybePopulatePmap_row (ramSize start : ℕ) :
    Row ramSize (maybePopulatePmap ramSize start).1 (start + sizeofPmap)
      (start + probePmap ramSize start) := by
  have h := maybePopulateOrders_row ramSize (maxOrder + 1) (start + sizeofPmap)
  have he : start + probePmap ramSize start =
      (maybePopulateOrders ramSize (maxOrder + 1) (start + sizeofPmap)).2 := by
    have := h.le
    simp only [probePmap, maybePopulatePmap]
    omega
  rw [he]
  exact h

lemma Row.bits_cases {ramSize start stop : ℕ} {bs : List BucketPlace}
    (h : Row ramSize bs start stop) {p : BucketPlace} (hp : p ∈ bs) :
    p.bits = 0 ∨ p.bits = 512 ∨ p.bits = topPages ramSize := by
  rw [h.bits p hp]
  by_cases ho : p.order + 1 ≤ 2
  · simp [orderWidth, maxOrder, ho]
  · by_cases he : p.order = 2
    · simp [orderWidth, maxOrder, he, topPages]
    · have : ¬ p.order ≤ 2 := by omega
      simp [orderWidth, maxOrder, ho, orderSize, this]

lemma topPages_lt {ramSize : ℕ} (hr : ramSize < 2 ^ 64) : topPages ramSize < 2 ^ 63 := by
  have : orderSize maxOrder = 2 ^ 30 := rfl
  rw [topPages, this]
  omega

lemma metadataDisjoint_of_fits {ramSize start : ℕ} (hr : ramSize < 2 ^ 64)
    (h : BitmapFits ramSize) : MetadataDisjoint ramSize start := by
  have hrow := maybePopulatePmap_row ramSize start
  have hlt := topPages_lt hr
  have hbits : ∀ p ∈ (maybePopulatePmap ramSize start).1, sizeofBmap ≤ getSetSize p.bits := by
    intro p hp
    have := hrow.bits_cases hp
    rw [getSetSize_eq (by omega)]
    simp only [sizeofBmap]
    omega
  intro p hp s hs k hk
  obtain ⟨hplaced, hstart, hstop⟩ := hrow.placed p hp
  have hfit : s.bitByte k < s.addr + getSetSize p.bits := by
    have hk' : k < p.bits := hk.trans_le (hplaced.size s hs)
    have hb := hrow.bits_cases hp
    have := @fits_of_bits p.bits k (by omega) (by rcases h with h | h | h <;> omega) hk'
    simp only [SetPlace.bitByte]
    omega
  obtain ⟨hlow, hhigh⟩ := hplaced.within hs
  have hin : s.addr + sizeofBmap ≤ s.bitByte k := by
    simp only [SetPlace.bitByte]
    omega
  refine ⟨hfit, fun q hq => ⟨?_, fun t ht => ?_⟩, by omega, by omega⟩
  · have : q.addr + sizeofBucket ≤ q.top := by simp [BucketPlace.top]
    rcases hrow.eq_or_apart hp hq with rfl | h | h <;> omega
  · have := hbits q hq
    have hq' := (hrow.placed q hq).1.within ht
    rcases hrow.eq_or_apart hp hq with rfl | h | h
    · rcases hplaced.apart hs ht with h | h | h <;> omega
    · omega
    · omega

lemma exists_top_set {ramSize : ℕ} (start : ℕ) (h : topPages ramSize ≠ 0) :
    ∃ p ∈ (maybePopulatePmap ramSize start).1, ∃ s ∈ p.sets,
      p.bits = topPages ramSize ∧ s.size = topPages ramSize := by
  refine ⟨(maybePopulateBucket (topPages ramSize) (start + sizeofPmap) maxOrder).1, ?_, ?_⟩
  · have hz : ¬ ramSize / orderSize maxOrder = 0 := h
    simp [maybePopulatePmap, maybePopulateOrders, hz, topPages]
  · refine ⟨⟨start + sizeofPmap + sizeofBucket, topPages ramSize⟩, ?_, ?_, rfl⟩
    · simp [maybePopulateBucket, orderWidth, maxOrder, Nat.div_self (Nat.pos_of_ne_zero h),
        placeSets]
    · simp [maybePopulateBucket, orderWidth, maxOrder, Nat.div_self (Nat.pos_of_ne_zero h),
        placeSets]

lemma not_metadataDisjoint {ramSize start : ℕ} (hr : ramSize < 2 ^ 64)
    (h : ¬ BitmapFits ramSize) : ¬ MetadataDisjoint ramSize start := by
  intro hd
  simp only [BitmapFits, not_or] at h
  obtain ⟨p, hp, s, hs, hb, hsize⟩ := exists_top_set start h.1
  have hlt := topPages_lt hr
  have := (hd p hp s hs (topPages ramSize - 1) (by omega)).1
  rw [hb, getSetSize_eq hlt, SetPlace.bitByte] at this
  simp only [sizeofBmap] at this
  omega

theorem metadataDisjoint_iff {ramSize : ℕ} (start : ℕ) (hr : ramSize < 2 ^ 64) :
    MetadataDisjoint ramSize start ↔ BitmapFits ramSize := by
  constructor
  · intro h
    by_contra hn
    exact not_metadataDisjoint hr hn h
  · exact metadataDisjoint_of_fits hr

theorem metadataDisjoint_iff_seven :
    MetadataDisjoint (7 * 2 ^ 30) 4096 ∧ ¬ MetadataDisjoint (6 * 2 ^ 30) 4096 := by
  constructor
  · rw [metadataDisjoint_iff 4096 (by norm_num)]
    exact Or.inr (Or.inr (by decide))
  · rw [metadataDisjoint_iff 4096 (by norm_num)]
    simp only [BitmapFits]
    decide

theorem metadata_overlap_one_gib : ¬ MetadataDisjoint (2 ^ 30) 4096 := by
  refine not_metadataDisjoint (by norm_num) ?_
  simp only [BitmapFits]
  decide

end Kmi.Pmem
