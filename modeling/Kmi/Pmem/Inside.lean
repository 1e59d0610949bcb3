import Kmi.Pmem.Safety

/-! Where `mark_used` looks while it climbs the orders. Each order rounds the RAM size
down for itself, and the climb does not ask whether the next order has the page. -/

namespace Kmi.Pmem

open Kmi.Library.LinkedList Kmi.Mem

structure Visit where
  order : ℕ
  set : ℕ
  bit : ℕ

def markVisits : ℕ → Pmap → ℕ → ℕ → List Visit
  | 0, _, _, _ => []
  | fuel + 1, m, order, addr =>
    match m.buckets order with
    | none => []
    | some b =>
      let set := (getBit m.base b addr).1
      ⟨order, set, (getBit m.base b addr).2⟩ ::
        if b.used set = 0 then
          markVisits fuel (m.setBucket order (attachSet (b.clearAll set) set)) (order + 1) addr
        else []

def Visit.Inside (places : List BucketPlace) (x : Visit) : Prop :=
  ∃ p, places.find? (fun p => p.order = x.order) = some p ∧
    ∃ h : x.set < p.sets.length, x.bit < p.sets[x.set].size

def MarkStaysInside (ramSize start : ℕ) (m : Pmap) (addr : ℕ) : Prop :=
  ∀ x ∈ markVisits depth m 0 addr, x.Inside (maybePopulatePmap ramSize start).1

def Covered (ramBase ramSize addr : ℕ) : Prop :=
  ∀ o ≤ maxOrder, orderSize o ≤ ramSize → addr < ramBase + alignDown ramSize (orderSize o)

structure ChangedAt (visits : List Visit) (o : ℕ) (b b' : Bucket) : Prop where
  bits : b'.bits = b.bits
  pageSize : b'.pageSize = b.pageSize
  others : ∀ s, (∀ x ∈ visits, x.order = o → x.set ≠ s) →
    b'.used s = b.used s ∧ b'.map s = b.map s

structure MapChangedAt (visits : List Visit) (m m' : Pmap) : Prop where
  base : m'.base = m.base
  absent : ∀ o, m.buckets o = none → m'.buckets o = none
  present : ∀ o b, m.buckets o = some b → ∃ b', m'.buckets o = some b' ∧ ChangedAt visits o b b'

variable {m m' m₂ : Pmap} {ramBase ramSize start addr o fuel s i : ℕ} {b b' b₂ : Bucket} {x : Visit}
  {visits visits' : List Visit} {addrs : List ℕ}

lemma ChangedAt.refl (visits : List Visit) (o : ℕ) (b : Bucket) : ChangedAt visits o b b :=
  ⟨rfl, rfl, fun _ _ => ⟨rfl, rfl⟩⟩

lemma ChangedAt.trans (h : ChangedAt visits o b b') (h' : ChangedAt visits o b' b₂) :
    ChangedAt visits o b b₂ := by
  refine ⟨h'.bits.trans h.bits, h'.pageSize.trans h.pageSize, fun s hs => ?_⟩
  obtain ⟨hu, hm⟩ := h.others s hs
  obtain ⟨hu', hm'⟩ := h'.others s hs
  exact ⟨hu'.trans hu, hm'.trans hm⟩

lemma ChangedAt.mono (h : ChangedAt visits o b b') (hsub : visits ⊆ visits') :
    ChangedAt visits' o b b' :=
  ⟨h.bits, h.pageSize, fun s hs => h.others s fun x hx => hs x (hsub hx)⟩

lemma MapChangedAt.refl (visits : List Visit) (m : Pmap) : MapChangedAt visits m m :=
  ⟨rfl, fun _ h => h, fun o b h => ⟨b, h, .refl visits o b⟩⟩

lemma MapChangedAt.trans (h : MapChangedAt visits m m') (h' : MapChangedAt visits m' m₂) :
    MapChangedAt visits m m₂ := by
  refine ⟨h'.base.trans h.base, fun o hn => h'.absent o (h.absent o hn), fun o b hb => ?_⟩
  obtain ⟨b', hb', hc⟩ := h.present o b hb
  obtain ⟨b₂, hb₂, hc'⟩ := h'.present o b' hb'
  exact ⟨b₂, hb₂, hc.trans hc'⟩

lemma MapChangedAt.mono (h : MapChangedAt visits m m') (hsub : visits ⊆ visits') :
    MapChangedAt visits' m m' := by
  refine ⟨h.base, h.absent, fun o b hb => ?_⟩
  obtain ⟨b', hb', hc⟩ := h.present o b hb
  exact ⟨b', hb', hc.mono hsub⟩

lemma MapChangedAt.setBucket (h : MapChangedAt visits m m') (hb : m.buckets o = some b)
    (hc : ChangedAt visits o b b₂) : MapChangedAt visits m (m'.setBucket o b₂) := by
  refine ⟨h.base, fun o' hn => ?_, fun o' b₁ hb₁ => ?_⟩
  · rw [setBucket_buckets, if_neg]
    · exact h.absent o' hn
    · rintro rfl
      rw [hb] at hn
      cases hn
  · rw [setBucket_buckets]
    split_ifs with ho
    · subst ho
      rw [hb] at hb₁
      cases hb₁
      exact ⟨b₂, rfl, hc⟩
    · exact h.present o' b₁ hb₁

lemma changedAt_fill (h : ⟨o, s, i⟩ ∈ visits) : ChangedAt visits o b (fill b s i) := by
  refine ⟨fill_bits, fill_pageSize, fun s' hs => ?_⟩
  have hne : s' ≠ s := (hs _ h rfl).symm
  rw [fill_used, fill_map, Function.update_of_ne hne, Function.update_of_ne hne]
  exact ⟨rfl, rfl⟩

lemma changedAt_attach (h : ⟨o, s, i⟩ ∈ visits) :
    ChangedAt visits o b (attachSet (b.clearAll s) s) := by
  refine ⟨attachSet_bits _ _, attachSet_pageSize _ _, fun s' hs => ?_⟩
  have hne : s' ≠ s := (hs _ h rfl).symm
  rw [attachSet_used, attachSet_map]
  exact ⟨rfl, Function.update_of_ne hne _ _⟩

lemma markAt_changes {c : Bool} (h : markAt fuel m o addr = some (c, m')) :
    MapChangedAt (markVisits fuel m o addr) m m' := by
  induction fuel generalizing m o c m' with
  | zero => cases h
  | succ fuel ih =>
    cases hb : m.buckets o with
    | none =>
      rw [markAt, hb] at h
      cases h
      exact .refl _ _
    | some b =>
      rw [markVisits, hb]
      dsimp only
      by_cases hz : b.used (getBit m.base b addr).1 = 0
      · rw [markAt_fresh fuel hb hz] at h
        dsimp only at h
        rw [if_pos hz]
        generalize (getBit m.base b addr).1 = s at *
        generalize (getBit m.base b addr).2 = i at *
        obtain ⟨r, hr, h⟩ := Option.bind_eq_some_iff.mp h
        have hattach := @changedAt_attach o s i b (⟨o, s, i⟩ :: markVisits fuel
          (m.setBucket o (attachSet (b.clearAll s) s)) (o + 1) addr) List.mem_cons_self
        have hall := (MapChangedAt.refl _ _ |>.setBucket hb hattach).trans
          ((ih hr).mono (List.subset_cons_self _ _))
        split_ifs at h
        · cases h
          exact hall
        · cases h
          exact hall.setBucket hb (hattach.trans (changedAt_fill List.mem_cons_self))
      · rw [markAt_used fuel hb hz] at h
        dsimp only at h
        split_ifs at h
        · cases h
          exact .refl _ _
        · cases h
          apply (MapChangedAt.refl _ _).setBucket hb
          apply changedAt_fill
          exact List.mem_cons_self

lemma markVisits_getBit (h : x ∈ markVisits fuel m o addr) :
    ∃ b, m.buckets x.order = some b ∧ (x.set, x.bit) = getBit m.base b addr := by
  induction fuel generalizing m o with
  | zero => cases h
  | succ fuel ih =>
    rw [markVisits] at h
    cases hb : m.buckets o with
    | none =>
      rw [hb] at h
      cases h
    | some b =>
      rw [hb] at h
      dsimp only at h
      split_ifs at h with hz
      · rw [List.mem_cons] at h
        obtain rfl | h := h
        · exact ⟨b, hb, rfl⟩
        · obtain ⟨b₁, hb₁, hx⟩ := ih h
          rw [setBucket_buckets] at hb₁
          split_ifs at hb₁ with ho
          · cases hb₁
            refine ⟨b, by rw [ho]; exact hb, hx.trans ?_⟩
            simp only [getBit, attachSet_bits, attachSet_pageSize]
            rfl
          · exact ⟨b₁, hb₁, hx⟩
      · rw [List.mem_singleton] at h
        rw [h]
        exact ⟨b, hb, rfl⟩

lemma markVisits_climbs {k : ℕ} (hfuel : k < fuel)
    (h : ∀ j ≤ k, ∃ b, m.buckets (o + j) = some b ∧ ∀ s, b.used s = 0) :
    ∃ x ∈ markVisits fuel m o addr, x.order = o + k := by
  induction k generalizing m o fuel with
  | zero =>
    obtain ⟨b, hb, -⟩ := h 0 le_rfl
    cases fuel with
    | zero => omega
    | succ fuel =>
      rw [markVisits, show m.buckets o = some b from hb]
      exact ⟨_, List.mem_cons_self, rfl⟩
  | succ k ih =>
    obtain ⟨b, hb, hz⟩ := h 0 (by omega)
    cases fuel with
    | zero => omega
    | succ fuel =>
      rw [markVisits, show m.buckets o = some b from hb]
      dsimp only
      rw [if_pos (hz _)]
      obtain ⟨x, hx, hxo⟩ := @ih (m.setBucket o (attachSet (b.clearAll (getBit m.base b addr).1)
        (getBit m.base b addr).1)) (o + 1) fuel (by omega) (by
          intro j hj
          rw [setBucket_buckets, if_neg (by omega), show o + 1 + j = o + (j + 1) by omega]
          exact h (j + 1) (by omega))
      exact ⟨x, List.mem_cons_of_mem _ hx, by omega⟩

lemma maybePopulateBucket_sizes {n cont bits : ℕ}
    (hbits : (maybePopulateBucket n cont o).1.bits = bits) (_ : 0 < bits) :
    (maybePopulateBucket n cont o).1.sets.map SetPlace.size =
      List.replicate (n / bits) bits ++ if n % bits = 0 then [] else [n % bits] := by
  have hb : (if orderWidth (o + 1) = 0 then n else orderWidth (o + 1)) = bits := by
    rw [← hbits, maybePopulateBucket]
    dsimp only
    split_ifs <;> rfl
  have hmod : n - n / bits * bits = n % bits := by
    have := Nat.div_add_mod' n bits
    omega
  rw [maybePopulateBucket]
  simp only [hb, placeSets_eq, hmod]
  split_ifs <;> simp [Function.comp_def]

lemma mem_bucket_iff {n cont bits q : ℕ} (hbits : (maybePopulateBucket n cont o).1.bits = bits)
    (hpos : 0 < bits) :
    (∃ h : q / bits < (maybePopulateBucket n cont o).1.sets.length,
      q % bits < (maybePopulateBucket n cont o).1.sets[q / bits].size) ↔ q < n := by
  have hsizes := maybePopulateBucket_sizes hbits hpos
  generalize (maybePopulateBucket n cont o).1.sets = sets at hsizes
  have hget : (∃ h : q / bits < sets.length, q % bits < sets[q / bits].size) ↔
      ∃ z, (sets.map SetPlace.size)[q / bits]? = some z ∧ q % bits < z := by
    constructor
    · rintro ⟨h, hlt⟩
      refine ⟨_, ?_, hlt⟩
      rw [List.getElem?_map, List.getElem?_eq_getElem h]
      rfl
    · rintro ⟨z, hz, hlt⟩
      rw [List.getElem?_map, Option.map_eq_some_iff] at hz
      obtain ⟨t, ht, rfl⟩ := hz
      obtain ⟨h, rfl⟩ := List.getElem?_eq_some_iff.mp ht
      exact ⟨h, hlt⟩
  have hq := Nat.div_add_mod q bits
  have hn := Nat.div_add_mod n bits
  have hqlt := Nat.mod_lt q hpos
  have hnlt := Nat.mod_lt n hpos
  rw [hget, hsizes]
  obtain hlt | heq | hgt := lt_trichotomy (q / bits) (n / bits)
  · rw [List.getElem?_append_left (by rwa [List.length_replicate]), List.getElem?_replicate, if_pos hlt]
    have hmul : bits * (q / bits + 1) ≤ bits * (n / bits) := Nat.mul_le_mul_left _ hlt
    rw [mul_add, mul_one] at hmul
    exact iff_of_true ⟨bits, rfl, hqlt⟩ (by omega)
  · rw [List.getElem?_append_right (by rw [List.length_replicate, heq]), List.length_replicate, heq,
      Nat.sub_self]
    rw [heq] at hq
    split_ifs with hz
    · exact iff_of_false (fun ⟨z, hz', _⟩ => by cases hz') (by omega)
    · rw [show [n % bits][0]? = some (n % bits) from rfl]
      constructor
      · rintro ⟨z, hz', hlt⟩
        cases hz'
        omega
      · exact fun h => ⟨_, rfl, by omega⟩
  · have hmul : bits * (n / bits + 1) ≤ bits * (q / bits) := Nat.mul_le_mul_left _ hgt
    rw [mul_add, mul_one] at hmul
    refine iff_of_false ?_ (by omega)
    rintro ⟨z, hz, -⟩
    have hlen := (List.getElem?_eq_some_iff.mp hz).1
    rw [List.length_append, List.length_replicate] at hlen
    split_ifs at hlen
    · change q / bits < n / bits + 0 at hlen
      omega
    · change q / bits < n / bits + 1 at hlen
      omega

lemma bucket_geometry (p : BucketPlace) (first : Bool) :
    (p.bucket first).bits = p.bits ∧ (p.bucket first).pageSize = orderSize p.order := by
  have hfold : ∀ (xs : List ℕ) (b : Bucket),
      (xs.foldl attachSet b).bits = b.bits ∧ (xs.foldl attachSet b).pageSize = b.pageSize := by
    intro xs
    induction xs with
    | nil => exact fun _ => ⟨rfl, rfl⟩
    | cons x xs ih =>
      intro b
      obtain ⟨hb, hp⟩ := ih (attachSet b x)
      exact ⟨hb.trans (attachSet_bits b x), hp.trans (attachSet_pageSize b x)⟩
  simp only [BucketPlace.bucket]
  split
  · exact ⟨(hfold _ _).1, (hfold _ _).2⟩
  · exact ⟨rfl, rfl⟩

structure Populated (ramSize o : ℕ) (p : BucketPlace) (b : Bucket) : Prop where
  place : ∃ cont, p = (maybePopulateBucket (ramSize / orderSize o) cont o).1
  bits : b.bits = p.bits
  pos : 0 < b.bits
  pageSize : b.pageSize = orderSize o

lemma populatePmap_bucket (ramBase start : ℕ) (ho : o ≤ maxOrder) (hn : ramSize / orderSize o ≠ 0) :
    ∃ p b, (maybePopulatePmap ramSize start).1.find? (fun p => p.order = o) = some p ∧
      (populatePmap ramBase ramSize start).buckets o = some b ∧ Populated ramSize o p b ∧
      ∀ s, b.used s = 0 := by
  obtain ⟨cont, hfind⟩ := find_order ramSize (maxOrder + 1) (start + sizeofPmap) o (by omega) hn
  replace hfind : (maybePopulatePmap ramSize start).1.find? (fun p => p.order = o) = _ := hfind
  obtain ⟨-, -, -, horder, hbits⟩ := maybePopulateBucket_placed (ramSize / orderSize o) cont o hn
  refine ⟨_, _, hfind, by simp only [populatePmap, hfind]; rfl, ⟨⟨cont, rfl⟩, ?_, ?_, ?_⟩,
    bucket_used _ _⟩
  · exact (bucket_geometry _ _).1
  · rw [(bucket_geometry _ _).1, hbits]
    split_ifs with h
    · exact Nat.pos_of_ne_zero hn
    · exact Nat.pos_of_ne_zero h
  · rw [(bucket_geometry _ _).2, horder]

lemma populatePmap_none (ramBase start : ℕ) (h : maxOrder < o ∨ ramSize / orderSize o = 0) :
    (populatePmap ramBase ramSize start).buckets o = none := by
  have hnone := find_order_none ramSize (maxOrder + 1) (start + sizeofPmap) o (by omega)
  replace hnone : (maybePopulatePmap ramSize start).1.find? (fun p => p.order = o) = none := hnone
  simp only [populatePmap, hnone]
  rfl

lemma inside_iff (hlo : m.base ≤ addr) {p : BucketPlace} (ho : x.order ≤ maxOrder)
    (hp : (maybePopulatePmap ramSize start).1.find? (fun p => p.order = x.order) = some p)
    (hb : Populated ramSize x.order p b) (hx : (x.set, x.bit) = getBit m.base b addr) :
    x.Inside (maybePopulatePmap ramSize start).1 ↔
      addr < m.base + alignDown ramSize (orderSize x.order) := by
  obtain ⟨order, set, bit⟩ := x
  dsimp only at *
  have hpos := orderSize_pos ho
  obtain ⟨⟨cont, rfl⟩, hbits, hbpos, hsize⟩ := hb
  rw [getBit, hsize, Prod.mk.injEq] at hx
  obtain ⟨rfl, rfl⟩ := hx
  have hmem := mem_bucket_iff (q := (addr - m.base) / orderSize order) hbits.symm hbpos
  rw [Nat.div_lt_iff_lt_mul hpos] at hmem
  rw [alignDown_eq hpos]
  constructor
  · rintro ⟨p', hp', h⟩
    rw [hp] at hp'
    cases hp'
    have := hmem.mp h
    rw [mul_comm] at this
    omega
  · intro h
    refine ⟨_, hp, hmem.mpr ?_⟩
    rw [mul_comm]
    omega

structure LaidOut (ramBase ramSize start : ℕ) (m : Pmap) : Prop where
  base : m.base = ramBase
  bucket : ∀ o b, m.buckets o = some b → o ≤ maxOrder ∧ orderSize o ≤ ramSize ∧
    ∃ p, (maybePopulatePmap ramSize start).1.find? (fun p => p.order = o) = some p ∧
      Populated ramSize o p b

lemma populatePmap_laidOut (ramBase ramSize start : ℕ) :
    LaidOut ramBase ramSize start (populatePmap ramBase ramSize start) := by
  refine ⟨rfl, fun o b hb => ?_⟩
  by_cases h : maxOrder < o ∨ ramSize / orderSize o = 0
  · rw [populatePmap_none ramBase start h] at hb
    cases hb
  · rw [not_or, not_lt] at h
    obtain ⟨p, b', hp, hb', hpop, -⟩ := populatePmap_bucket ramBase start h.1 h.2
    rw [hb] at hb'
    cases hb'
    exact ⟨h.1, (Nat.div_ne_zero_iff.mp h.2).2, p, hp, hpop⟩

lemma LaidOut.changed (h : LaidOut ramBase ramSize start m) (hc : MapChangedAt visits m m') :
    LaidOut ramBase ramSize start m' := by
  refine ⟨hc.base.trans h.base, fun o b' hb' => ?_⟩
  cases hb : m.buckets o with
  | none =>
    rw [hc.absent o hb] at hb'
    cases hb'
  | some b =>
    obtain ⟨b₂, hb₂, hkept⟩ := hc.present o b hb
    rw [hb'] at hb₂
    cases hb₂
    obtain ⟨ho, hsize, p, hp, hplace, hbits, hpos, hpage⟩ := h.bucket o b hb
    refine ⟨ho, hsize, p, hp, hplace, hkept.bits.trans hbits, ?_, hkept.pageSize.trans hpage⟩
    rw [hkept.bits]
    exact hpos

lemma LaidOut.markUsed (h : LaidOut ramBase ramSize start m) (hm : markUsed m o addr = some m') :
    LaidOut ramBase ramSize start m' := by
  rw [Pmem.markUsed] at hm
  obtain ⟨⟨c, m₂⟩, hmark, hm⟩ := Option.bind_eq_some_iff.mp hm
  have h₂ := h.changed (markAt_changes hmark)
  cases hm
  cases c with
  | true => exact ⟨h₂.base, h₂.bucket⟩
  | false => exact h₂

lemma LaidOut.markAll (h : LaidOut ramBase ramSize start m) (hm : markAll m addrs = some m') :
    LaidOut ramBase ramSize start m' := by
  induction addrs generalizing m with
  | nil =>
    cases hm
    exact h
  | cons a addrs ih =>
    rw [Pmem.markAll, List.foldlM_cons] at hm
    obtain ⟨m₁, hm₁, hm⟩ := Option.bind_eq_some_iff.mp hm
    exact ih (h.markUsed hm₁) hm

lemma LaidOut.staysInside (h : LaidOut ramBase ramSize start m) (hlo : ramBase ≤ addr)
    (hc : Covered ramBase ramSize addr) : MarkStaysInside ramSize start m addr := by
  intro x hx
  obtain ⟨b, hb, hset⟩ := markVisits_getBit hx
  obtain ⟨ho, hsize, p, hp, hpop⟩ := h.bucket x.order b hb
  apply (inside_iff (by rwa [h.base]) ho hp hpop hset).mpr
  rw [h.base]
  exact hc x.order ho hsize

lemma orderSize_mono {o' : ℕ} (h : o ≤ o') (ho : o' ≤ maxOrder) : orderSize o ≤ orderSize o' := by
  rw [orderSize_eq ho, orderSize_eq (h.trans ho)]
  exact Nat.mul_le_mul_left _ (Nat.pow_le_pow_right (by omega) h)

lemma covered_of_staysInside (hlo : ramBase ≤ addr)
    (h : MarkStaysInside ramSize start (populatePmap ramBase ramSize start) addr) :
    Covered ramBase ramSize addr := by
  intro o ho hsize
  have hn : ∀ j ≤ o, ramSize / orderSize j ≠ 0 := fun j hj => Nat.div_ne_zero_iff.mpr
    ⟨(orderSize_pos (hj.trans ho)).ne', (orderSize_mono hj ho).trans hsize⟩
  obtain ⟨x, hx, hxo⟩ := @markVisits_climbs (populatePmap ramBase ramSize start) addr 0 depth o
    (by rw [depth]; omega) (by
      intro j hj
      rw [zero_add]
      obtain ⟨p, b, -, hb, -, hz⟩ := populatePmap_bucket ramBase start (hj.trans ho) (hn j hj)
      exact ⟨b, hb, hz⟩)
  rw [zero_add] at hxo
  obtain ⟨b, hb, hset⟩ := markVisits_getBit hx
  obtain ⟨ho', -, p, hp, hpop⟩ := (populatePmap_laidOut ramBase ramSize start).bucket x.order b hb
  have := (inside_iff hlo ho' hp hpop hset).mp (h x hx)
  rwa [hxo] at this

theorem marking_stays_inside_iff (ramSize start : ℕ) (hlo : ramBase ≤ addr) :
    (MarkStaysInside ramSize start (populatePmap ramBase ramSize start) addr ↔
      Covered ramBase ramSize addr) ∧
      ∀ addrs m, (∀ a ∈ addrs, ramBase ≤ a ∧ Covered ramBase ramSize a) →
        markAll (populatePmap ramBase ramSize start) addrs = some m →
        Covered ramBase ramSize addr → MarkStaysInside ramSize start m addr := by
  refine ⟨⟨covered_of_staysInside hlo, (populatePmap_laidOut _ _ _).staysInside hlo⟩, ?_⟩
  intro addrs m _ hm
  exact ((populatePmap_laidOut _ _ _).markAll hm).staysInside hlo

theorem marking_stays_inside_iff_first :
    (MarkStaysInside (2 ^ 21) 0x80001000 (populatePmap 0x80000000 (2 ^ 21) 0x80001000) 0x80000000 ↔
      Covered 0x80000000 (2 ^ 21) 0x80000000) ∧
      ∀ addrs m, (∀ a ∈ addrs, 0x80000000 ≤ a ∧ Covered 0x80000000 (2 ^ 21) a) →
        markAll (populatePmap 0x80000000 (2 ^ 21) 0x80001000) addrs = some m →
        Covered 0x80000000 (2 ^ 21) 0x80000000 →
        MarkStaysInside (2 ^ 21) 0x80001000 m 0x80000000 :=
  marking_stays_inside_iff (2 ^ 21) 0x80001000 le_rfl

theorem marking_leaves_map :
    0x880ff000 % basePageSize = 0 ∧ 0x80000000 ≤ 0x880ff000 ∧ 0x880ff000 < 0x80000000 + 129 * 2 ^ 20 ∧
      ¬ MarkStaysInside (129 * 2 ^ 20) 0x80001000
        (populatePmap 0x80000000 (129 * 2 ^ 20) 0x80001000) 0x880ff000 := by
  refine ⟨by decide, by decide, by decide, fun h => ?_⟩
  have := covered_of_staysInside (by decide) h 1 (by decide) (by decide)
  revert this
  decide

end Kmi.Pmem
