import Kmi.Regions.Nodes
import Kmi.Shared.Release

/-! The end of a process that nothing needs: its references are given back, which may be the
end of others. Each reference is given back once, so this comes to an end. -/

namespace Kmi.Shared

open Kmi.Library.Degree Kmi.Library.LinkedList Kmi.Mem Kmi.Vmem Kmi.Regions Kmi.Uvmem

variable {s s' : System} {links links' : Finset Link} {gone : ℕ → ℕ → Prop} {debt : ℕ → ℕ}
  {p q x : ℕ} {l : Link} {pages : List (ℕ × ℕ)} {xs ys zs : List ℕ} {v v' : View} {m : Space}

structure Purging (s : System) (q : ℕ) (links : Finset Link) (zs : List ℕ) : Prop where
  unknown : ¬ s.known q
  tables : WellFormed (s.vmem q)
  bounds : ∀ x ∈ zs, ((s.regions q).region x).start ≤ ((s.regions q).region x).stop ∧
    ((s.regions q).region x).stop ≤ page UVMEM_END
  backed : ∀ x ∈ zs, ((s.regions q).region x).used = true → ((s.regions q).region x).pid = 0 →
    ((s.regions q).region x).flags &&& MR_NONBACKED = 0 ∧
      Tiled (s.vmem q) (((s.regions q).region x).start * basePageSize)
        (((s.regions q).region x).stop * basePageSize)
  foreign : ∀ x ∈ zs, ((s.regions q).region x).used = true → ((s.regions q).region x).pid ≠ 0 →
    ((s.regions q).region x).flags &&& MR_NONBACKED ≠ 0 ∧
      ∃ l ∈ links, l.user = q ∧ l.page = ((s.regions q).region x).start
  alone : ∀ y b, s.view.Own q y b → ∀ p y', s.known p → ¬ s.view.Own p y' b

lemma Purging.tail (h : Purging s q links (x :: zs)) : Purging s q links zs where
  unknown := h.unknown
  tables := h.tables
  bounds y hy := h.bounds y (List.mem_cons_of_mem x hy)
  backed y hy := h.backed y (List.mem_cons_of_mem x hy)
  foreign y hy := h.foreign y (List.mem_cons_of_mem x hy)
  alone := h.alone

lemma Counted.setByte (h : Counted v links debt gone) (q : ℕ) (b : ℕ → Option ℕ) :
    Counted (v.setByte q b) links debt gone :=
  h.recount rfl rfl (fun _ _ => .inl rfl) h.threads h.needed h.live

lemma own_congr {y b : ℕ} (hu : v'.used p = v.used p) (hb : v'.byte p = v.byte p) :
    v'.Own p y b ↔ v.Own p y b := by
  rw [View.Own, View.Own, hu, hb]

lemma used_of_mem (hp : Partition (s.regions q) xs) (hx : x ∈ xs) (hu : ((s.regions q).region x).used = true) :
    s.view.used q ((s.regions q).region x).start = some ((s.regions q).region x) :=
  (usedAt_eq_some hp).2 ⟨x, hx, rfl, hu, rfl⟩

lemma Purging.own (h : Purging s q links (x :: zs)) (hp : Partition (s.regions q) (ys ++ x :: zs))
    (hg : Good s links (fun _ => 0) gone) (hm : Mapped s.view links)
    (hu : ((s.regions q).region x).used = true) (hpid : ((s.regions q).region x).pid = 0) :
    ∃ s' pages, (∀ fuel, freeMapping (fuel + 1) s q x = some s') ∧ Good s' links (fun _ => 0) gone ∧
      Mapped s'.view links ∧ Released (· = q) s s' links links pages ∧ s'.view.Free pages ∧
      s'.regions q = s.regions q ∧ Purging s' q links zs := by
  obtain ⟨hback, ht⟩ := h.backed x (List.mem_cons_self ..) hu hpid
  obtain ⟨hlt, hstop⟩ := h.bounds x (List.mem_cons_self ..)
  obtain ⟨m', ps, heq, htiles, hum⟩ := freeMapping_own hpid hback h.tables hlt hstop ht
  have hused := used_of_mem hp (by simp) hu
  have hend := page_uvmemEnd
  have hb := basePageSize_eq
  have hview : ((s.setVmem q m').freePages ps).view = s.view.setByte q (byteAt m') := view_setVmem s q m'
  have hother : ∀ p, p ≠ q → ((s.setVmem q m').freePages ps).tcb p = s.tcb p :=
    fun p hp => (setTcb_tcb s q _ p).trans (if_neg hp)
  have hknown : ∀ p, s.known p → p ≠ q := by
    rintro p hk rfl
    exact h.unknown hk
  have hshrinks : ∀ y b, ((s.setVmem q m').freePages ps).view.Own q y b → s.view.Own q y b := by
    rintro y b ⟨page, g, hg, hgp, hy, hbyte⟩
    refine ⟨page, g, ?_, hgp, hy, ?_⟩
    · rw [hview] at hg
      exact hg
    · rw [hview, setByte_self, byteAt_unmaps hum] at hbyte
      split_ifs at hbyte
      exact hbyte
  have hsame : ∀ p, p ≠ q → ∀ y b, ((s.setVmem q m').freePages ps).view.Own p y b ↔ s.view.Own p y b := by
    intro p hp y b
    rw [hview]
    exact own_congr rfl (setByte_of_ne hp)
  have hcovers : ∀ f ∈ ps, ∀ b, f.2 ≤ b → b < f.2 + orderSize f.1 → ∃ y, s.view.Own q y b := by
    intro f hf b hlo hhi
    obtain ⟨y, hy, hy', hbyte⟩ := tiles_byte htiles (by rw [hb]; omega) hf hlo hhi
    exact ⟨y, _, _, hused, hpid, ⟨hy, hy'⟩, hbyte⟩
  refine ⟨_, ps, heq, ⟨fun p hp => ?_, ?_⟩, ?_, ?_, ?_, setVmem_regions .., ?_⟩
  · rw [hother p (hknown p hp)]
    exact hg.healthy p hp
  · rw [hview]
    exact hg.counted.setByte q _
  · have hfewer : Fewer s.view ((s.setVmem q m').freePages ps).view := by
      rw [hview]
      exact ⟨fun p hp => hp, fun p page g _ hg => ⟨g, hg, .refl g⟩, fun p hp => setByte_of_ne (hknown p hp)⟩
    exact hm.fewer hfewer (Finset.Subset.refl links) hg.counted.owners
  · exact {
      known := fun p hp => hp
      others := fun p _ hne => hother p hne
      regions := fun p _ => by
        rw [show ((s.setVmem q m').freePages ps).regions p = s.regions p from setVmem_regions ..]
        exact .refl
      vmem := fun p hp => by
        rw [System.vmem, hother p (hknown p hp)]
        rfl
      rid := fun p hp => by
        rw [hother p (hknown p hp)]
        exact ⟨rfl, rfl⟩
      holds := rfl
      supported := fun P hP => hP.known
      subset := Finset.Subset.refl links
      keeps := fun l hl _ _ => hl
      users := fun l _ => em _
      freed := rfl
      still := fun p _ => (setVmem_rid s q m' p).2.1
      shrinks := by
        rintro p rfl y b ho
        exact hshrinks y b ho
      covers := fun f hf b hlo hhi => by
        obtain ⟨y, ho⟩ := hcovers f hf b hlo hhi
        exact ⟨q, y, .inr rfl, ho⟩ }
  · intro f hf p y b hp ho
    by_contra hin
    obtain ⟨y', ho'⟩ := hcovers f hf b (by omega) (by omega)
    exact h.alone y' b ho' p y hp ((hsame p (hknown p hp) y b).1 ho)
  · obtain ⟨i, -, -, -, hafter⟩ := covers_append.1 hp.covers
    have hregions : ((s.setVmem q m').freePages ps).regions q = s.regions q := setVmem_regions ..
    have hvmem : ((s.setVmem q m').freePages ps).vmem q = m' := (setVmem_vmem s q m' q).trans (if_pos rfl)
    have htail := h.tail
    refine ⟨h.unknown, ?_, ?_, ?_, ?_, ?_⟩
    · rw [hvmem]
      exact hum.wf
    · rw [hregions]
      exact htail.bounds
    · rw [hregions, hvmem]
      intro y hy hyu hyp
      obtain ⟨hback', ht'⟩ := htail.backed y hy hyu hyp
      have hys := (hafter.mem hy).1
      have hye := (htail.bounds y hy).2
      refine ⟨hback', ht'.congr fun z hz hz' => ?_⟩
      rw [hb] at hz hz'
      rw [hum.stat z (by omega), if_neg (by rw [hb]; omega)]
    · rw [hregions]
      exact htail.foreign
    · intro y b ho p y' hp ho'
      exact h.alone y b (hshrinks y b ho) p y' hp ((hsame p (hknown p hp) y' b).1 ho')

lemma Purging.reference (h : Purging s q links (x :: zs)) (hp : Partition (s.regions q) (ys ++ x :: zs))
    (hg : Good s links (fun _ => 0) gone) (hm : Mapped s.view links)
    (hrel : ∀ k < links.card, Releases k)
    (hu : ((s.regions q).region x).used = true) (hpid : ((s.regions q).region x).pid ≠ 0) :
    ∃ s' links' pages, Returns (fun fuel => freeMapping fuel s q x) s' ∧ Good s' links' (fun _ => 0) gone ∧
      Mapped s'.view links' ∧ Released (· = q) s s' links links' pages ∧ s'.view.Free pages ∧
      s'.regions q = s.regions q ∧ Purging s' q links' zs ∧
      (∀ l ∈ links', ¬ (l.user = q ∧ l.page = ((s.regions q).region x).start)) ∧
      links'.card ≤ links.card := by
  obtain ⟨hback, l, hl, rfl, hpage⟩ := h.foreign x (List.mem_cons_self ..) hu hpid
  have hused := used_of_mem hp (by simp) hu
  have hcard := Finset.card_erase_lt_of_mem hl
  obtain ⟨s', links', pages, hret, hgood, hreleased, hfree⟩ := freeMapping_reference hg hm hl
    (fun _ _ h => h) (fun hk => absurd hk h.unknown) hg.counted.live (hrel _ hcard) (hpage ▸ hused) hback
  have htcb : s'.tcb l.user = s.tcb l.user := hreleased.others _ h.unknown id
  have hregions : s'.regions l.user = s.regions l.user := by rw [System.regions, htcb]; rfl
  have hvmem : s'.vmem l.user = s.vmem l.user := by rw [System.vmem, htcb]; rfl
  have hfewer := hreleased.fewer hg.healthy
  have hbusy : ∀ p, p = l.user → ¬ s.known p := by
    rintro p rfl
    exact h.unknown
  refine ⟨s', links', pages, hret, hgood, ?_, hreleased.weaken rfl hbusy, hfree, hregions, ?_, ?_, ?_⟩
  · exact hm.fewer hfewer (hreleased.subset.trans (Finset.erase_subset l links)) hgood.counted.owners
  · have htail := h.tail
    refine ⟨fun hk => h.unknown (hreleased.known _ hk), ?_, ?_, ?_, ?_, ?_⟩
    · rw [hvmem]
      exact htail.tables
    · rw [hregions]
      exact htail.bounds
    · rw [hregions, hvmem]
      exact htail.backed
    · rw [hregions]
      intro y hy hyu hyp
      obtain ⟨hback', k, hk, hku, hkp⟩ := htail.foreign y hy hyu hyp
      refine ⟨hback', k, ?_, hku, hkp⟩
      apply hreleased.keeps k (Finset.mem_erase.2 ⟨?_, hk⟩) id (.inr fun hkn => h.unknown (hku ▸ hkn))
      rintro rfl
      obtain ⟨i, -, -, -, hafter⟩ := covers_append.1 hp.covers
      have hys := (hafter.mem hy).1
      have hlt := (hp.covers.mem (x := x) (by simp)).2.1
      omega
    · intro y b ho p y' hpk ho'
      apply h.alone y b _ p y' (hreleased.known p hpk) (hfewer.own hpk ho')
      apply (own_congr _ _).1 ho
      · change usedAt (s'.regions l.user) = usedAt (s.regions l.user)
        rw [hregions]
      · change byteAt (s'.vmem l.user) = byteAt (s.vmem l.user)
        rw [hvmem]
  · rintro k hk ⟨hku, hkp⟩
    obtain ⟨hne, hk⟩ := Finset.mem_erase.1 (hreleased.subset hk)
    obtain ⟨_, _, hlk⟩ := hg.counted.linked k hk
    obtain ⟨_, _, hll⟩ := hg.counted.linked l hl
    exact hne (hlk.unique hll hku (hkp.trans hpage.symm))
  · exact (Finset.card_le_card hreleased.subset).trans hcard.le

lemma Released.refl (busy : ℕ → Prop) (s : System) (links : Finset Link) : Released busy s s links links [] where
  known _ hp := hp
  others _ _ _ := rfl
  regions _ _ := .refl
  vmem _ _ := rfl
  rid _ _ := ⟨rfl, rfl⟩
  holds := rfl
  supported _ hP := hP.known
  subset := Finset.Subset.refl links
  keeps _ hl _ _ := hl
  users _ _ := em _
  freed := (List.append_nil _).symm
  still _ _ := rfl
  shrinks _ _ _ _ ho := ho
  covers _ hf := absurd hf List.not_mem_nil

lemma purgeUvmem_released (h : Purging s q links zs) (hp : Partition (s.regions q) (ys ++ zs))
    (hg : Good s links (fun _ => 0) gone) (hm : Mapped s.view links) (hrel : ∀ k < links.card, Releases k) :
    ∃ s' links' pages, Returns (fun fuel => purgeUvmem fuel s q zs.head?) s' ∧
      Good s' links' (fun _ => 0) gone ∧ Released (· = q) s s' links links' pages ∧ s'.view.Free pages ∧
      s'.regions q = s.regions q ∧
      ∀ x ∈ zs, ((s.regions q).region x).used = true →
        ∀ l ∈ links', ¬ (l.user = q ∧ l.page = ((s.regions q).region x).start) := by
  induction zs generalizing ys s links with
  | nil =>
    refine ⟨s, links, [], ⟨1, fun fuel hle => ?_⟩, hg, .refl _ s links, fun f hf => absurd hf List.not_mem_nil, rfl,
      fun x hx => absurd hx List.not_mem_nil⟩
    obtain ⟨k, rfl⟩ : ∃ k, fuel = k + 1 := ⟨fuel - 1, by omega⟩
    rfl
  | cons x zs ih =>
    obtain ⟨-, -, -, hnext, -⟩ := isList_append_cons_iff.1 hp.linked
    have hnext : (s.regions q).list.next x = zs.head? := by simpa using hnext
    have hrest : Partition (s.regions q) (ys ++ [x] ++ zs) := by simpa using hp
    have hbusy : ∀ p, p = q → ¬ s.known p := by
      rintro p rfl
      exact h.unknown
    -- what is left to do once the first region has been dealt with
    have hgo : ∀ s₁ links₁ pages₁, Good s₁ links₁ (fun _ => 0) gone → Mapped s₁.view links₁ →
        Released (· = q) s s₁ links links₁ pages₁ → s₁.view.Free pages₁ → s₁.regions q = s.regions q →
        Purging s₁ q links₁ zs → links₁.card ≤ links.card →
        (((s.regions q).region x).used = true →
          ∀ l ∈ links₁, ¬ (l.user = q ∧ l.page = ((s.regions q).region x).start)) →
        (∀ s', Returns (fun fuel => purgeUvmem fuel s₁ q zs.head?) s' →
          Returns (fun fuel => purgeUvmem fuel s q (some x)) s') →
        ∃ s' links' pages, Returns (fun fuel => purgeUvmem fuel s q (some x)) s' ∧
          Good s' links' (fun _ => 0) gone ∧ Released (· = q) s s' links links' pages ∧
          s'.view.Free pages ∧ s'.regions q = s.regions q ∧
          ∀ y ∈ x :: zs, ((s.regions q).region y).used = true →
            ∀ l ∈ links', ¬ (l.user = q ∧ l.page = ((s.regions q).region y).start) := by
      intro s₁ links₁ pages₁ hg₁ hm₁ hr₁ hf₁ hreg₁ hp₁ hcard hnone hfuel
      obtain ⟨s', links', pages, hret, hg', hr', hf', hreg', hnone'⟩ := ih hp₁ (hreg₁ ▸ hrest) hg₁ hm₁
        fun k hk => hrel k (hk.trans_le hcard)
      refine ⟨s', links', pages₁ ++ pages, hfuel s' hret, hg', ?_, ?_, hreg'.trans hreg₁, ?_⟩
      · exact hr₁.trans hr' hg.healthy (fun _ hp => hp) hbusy
      · exact (hf₁.fewer (hr'.fewer hg₁.healthy)).append hf'
      · intro y hy hyu l hl
        obtain rfl | hy := List.mem_cons.1 hy
        · exact hnone hyu l (hr'.subset hl)
        · rw [hreg₁] at hnone'
          exact hnone' y hy hyu l hl
    rw [List.head?_cons]
    cases hu : ((s.regions q).region x).used with
    | false =>
      apply hgo s links [] hg hm (.refl _ s links) (fun f hf => absurd hf List.not_mem_nil) rfl h.tail le_rfl
        (fun hu' => by rw [hu] at hu'; cases hu')
      intro s' hret
      apply hret.intro
      intro fuel hfuel
      simp only [purgeUvmem, hu, Bool.false_eq_true, if_false, Option.bind_eq_bind, Option.bind_some, hnext, hfuel]
    | true =>
      by_cases hpid : ((s.regions q).region x).pid = 0
      · obtain ⟨s₁, pages₁, heq, hg₁, hm₁, hr₁, hf₁, hreg₁, hp₁⟩ := h.own hp hg hm hu hpid
        apply hgo s₁ links pages₁ hg₁ hm₁ hr₁ hf₁ hreg₁ hp₁ le_rfl
        · rintro - l hl ⟨rfl, hpage⟩
          obtain ⟨_, _, hlink⟩ := hg.counted.linked l hl
          have hused := used_of_mem hp (by simp) hu
          obtain rfl := Option.some.inj (hlink.reference.symm.trans (hpage ▸ hused))
          exact hg.counted.pos _ (hg.counted.owners l hl) (hlink.pid.symm.trans hpid)
        · rintro s' ⟨n, hn⟩
          refine ⟨n + 2, fun fuel hle => ?_⟩
          obtain ⟨k, rfl⟩ : ∃ k, fuel = k + 1 + 1 := ⟨fuel - 2, by omega⟩
          have hrun : purgeUvmem (k + 1) s₁ q zs.head? = some s' := hn (k + 1) (by omega)
          simp only [purgeUvmem, hu, if_true, heq, Option.bind_eq_bind, Option.bind_some, hreg₁, hnext, hrun]
      · obtain ⟨s₁, links₁, pages₁, ⟨n₁, heq⟩, hg₁, hm₁, hr₁, hf₁, hreg₁, hp₁, hnone, hcard⟩ :=
          h.reference hp hg hm hrel hu hpid
        apply hgo s₁ links₁ pages₁ hg₁ hm₁ hr₁ hf₁ hreg₁ hp₁ hcard (fun _ => hnone)
        rintro s' ⟨n, hn⟩
        refine ⟨n + n₁ + 1, fun fuel hle => ?_⟩
        obtain ⟨k, rfl⟩ : ∃ k, fuel = k + 1 := ⟨fuel - 1, by omega⟩
        have hrun : purgeUvmem k s₁ q zs.head? = some s' := hn k (by omega)
        have hfree : freeMapping k s q x = some s₁ := heq k (by omega)
        simp only [purgeUvmem, hu, if_true, hfree, Option.bind_eq_bind, Option.bind_some, hreg₁, hnext, hrun]

lemma Counted.forgetUsed (h : Counted v links debt gone) (hq : ¬ v.known q) (hno : ∀ l ∈ links, l.user ≠ q)
    (hk : v'.known = v.known) (hr : v'.rid = v.rid) (hc : v'.refcount = v.refcount) (hh : v'.holds = v.holds)
    (hu : ∀ p, p ≠ q → v'.used p = v.used p) : Counted v' links debt gone where
  pos := hk ▸ h.pos
  rids := by
    rw [hk, hr]
    exact h.rids
  owners := hk ▸ h.owners
  linked l hl := by
    obtain ⟨g, g', hlink⟩ := h.linked l hl
    have ho : l.owner ≠ q := fun ho => hq (ho ▸ h.owners l hl)
    refine ⟨g, g', ?_, ?_, hlink.pid, hlink.address, hlink.own, hlink.size⟩
    · rw [hu _ (hno l hl), hlink.reference]
    · rw [hu _ ho, hlink.region]
  complete p page g hp hg := by
    rw [hk] at hp
    rw [hu p fun hpq => hq (hpq ▸ hp)] at hg
    exact h.complete p page g hp hg
  counts p page g hp hg := by
    rw [hk] at hp
    rw [hu p fun hpq => hq (hpq ▸ hp)] at hg
    exact h.counts p page g hp hg
  threads p hp := by
    rw [hk] at hp
    rw [hc, hh, View.alive, hr]
    exact h.threads p hp
  needed := by
    rw [hk, hc]
    exact h.needed
  live := by
    rw [hk, hr, hh]
    exact h.live

def unlisted (s : System) (q : ℕ) : System :=
  { s.setRefcount q 0 with tcbs := Function.update s.tcbs q false }

lemma unlisted_known (s : System) (q p : ℕ) : (unlisted s q).known p ↔ p ≠ q ∧ s.known p := by
  change p ≠ 0 ∧ Function.update s.tcbs q false p = true ↔ _
  rw [Function.update_apply, System.known]
  split_ifs with hp
  · simp [hp]
  · simp [hp]

lemma unlisted_tcb (s : System) (q p : ℕ) :
    (unlisted s q).tcb p = if p = q then { s.tcb q with refcount := 0 } else s.tcb p :=
  setTcb_tcb s q _ p

lemma unlisted_memory (s : System) (q p : ℕ) : ((unlisted s q).tcb p).memory = (s.tcb p).memory := by
  rw [unlisted_tcb]
  split_ifs with hp
  · rw [hp]
  · rfl

lemma view_unlisted (s : System) (q : ℕ) : (unlisted s q).view = (s.view.setRefcount q 0).forget q := by
  have hview := view_setRefcount s q 0
  have hknown : (unlisted s q).known = fun p => p ≠ q ∧ s.known p := by
    funext p
    rw [unlisted_known]
  rw [View.forget, ← hview, System.view, hknown]
  rfl

lemma unlisted_own (s : System) (q p y b : ℕ) : (unlisted s q).view.Own p y b ↔ s.view.Own p y b := by
  apply own_congr
  · change usedAt ((unlisted s q).tcb p).memory.region = usedAt (s.tcb p).memory.region
    rw [unlisted_memory]
  · change byteAt ((unlisted s q).tcb p).memory.vmem = byteAt (s.tcb p).memory.vmem
    rw [unlisted_memory]

section Destroy

variable (h : Good s links (owed q) gone) (hq : s.known q) (hone : (s.tcb q).refcount = 1)

include h hq hone

lemma unlisted_good : Good (unlisted s q) links (fun _ => 0) gone := by
  refine ⟨fun p hp => ?_, ?_⟩
  · rw [unlisted_memory]
    exact h.healthy p ((unlisted_known s q p).1 hp).2
  · rw [view_unlisted]
    exact h.counted.destroy hq hone

lemma unlisted_purging (hm : Mapped s.view links) {xs : List ℕ} (hp : Partition (s.regions q) xs) :
    Purging (unlisted s q) q links xs := by
  have hh := h.healthy q hq
  have hregions : (unlisted s q).regions q = s.regions q := by
    rw [System.regions, unlisted_memory]
    rfl
  have hvmem : (unlisted s q).vmem q = s.vmem q := by
    rw [System.vmem, unlisted_memory]
    rfl
  refine ⟨fun hk => ((unlisted_known s q q).1 hk).1 rfl, ?_, ?_, ?_, ?_, ?_⟩
  · rw [hvmem]
    exact hh.valid.tables
  · rw [hregions]
    intro x hx
    obtain ⟨-, hlt, hle⟩ := hp.covers.mem hx
    exact ⟨hlt.le, hle.trans hh.valid.stop.le⟩
  · rw [hregions, hvmem]
    intro x hx hu hpid
    exact hh.backed _ _ (used_of_mem hp hx hu) hpid
  · rw [hregions]
    intro x hx hu hpid
    have hused := used_of_mem hp hx hu
    refine ⟨hh.foreign _ _ hused hpid, h.counted.complete q _ _ hq hused hpid fun hgone => ?_⟩
    obtain ⟨hrid, hholds, -⟩ := h.counted.last hq hone
    obtain hself | hheld := h.counted.live q _ hq hgone
    · exact h.counted.pos q hq (hself.symm.trans hrid)
    · omega
  · intro y b ho p y' hk ho'
    obtain ⟨hne, hk⟩ := (unlisted_known s q p).1 hk
    rw [unlisted_own] at ho ho'
    exact hne (hm.distinct q p y y' b hq hk ho ho').1.symm

lemma destroyThreadData_released (hm : Mapped s.view links) (hrel : ∀ k < links.card, Releases k) :
    ∃ s' links' pages, Returns (fun fuel => destroyThreadData fuel (s.setRefcount q 0) q) s' ∧
      Good s' links' (fun _ => 0) gone ∧ Released (fun _ => False) s s' links links' pages ∧
      s'.view.Free pages ∧ (s'.tcb q).refcount = 0 := by
  have hh := h.healthy q hq
  obtain ⟨hrid, hholds, howner⟩ := h.counted.last hq hone
  obtain ⟨xs, hp⟩ : ∃ xs, Partition (s.regions q) xs := hh.valid.region
  have hend := page_uvmemEnd
  have hstop := hh.valid.stop
  have hstart := hh.valid.start
  have hne : xs ≠ [] := by
    rintro rfl
    have : (s.regions q).start = (s.regions q).stop := hp.covers
    change (s.regions q).start = 0 at hstart
    change (s.regions q).stop = _ at hstop
    omega
  have hfirst : findFirstRegion (s.regions q) = some xs.head? := findFirstRegion_spec hp hne (by
    change (s.regions q).stop = _ at hstop
    omega)
  have hregions : (unlisted s q).regions q = s.regions q := by
    rw [System.regions, unlisted_memory]
    rfl
  have hgood := unlisted_good h hq hone
  have hfewer : Fewer s.view (unlisted s q).view := by
    rw [view_unlisted]
    exact ⟨fun p hp => hp.2, fun p page g _ hg => ⟨g, hg, .refl g⟩, fun _ _ => rfl⟩
  have hmap := hm.fewer hfewer (Finset.Subset.refl links) hgood.counted.owners
  obtain ⟨s', links', pages, ⟨n, hn⟩, hgood', hr, hfree, hreg, hnone⟩ := @purgeUvmem_released (unlisted s q)
    links gone q [] xs (unlisted_purging h hq hone hm hp) (hregions ▸ hp) hgood hmap hrel
  have hunknown : ¬ s'.known q := fun hk => ((unlisted_known s q q).1 (hr.known q hk)).1 rfl
  -- its own links are gone by now
  have hno : ∀ l ∈ links', l.user ≠ q := by
    rintro l hl rfl
    obtain ⟨g, g', hlink⟩ := hgood.counted.linked l (hr.subset hl)
    have hused := hlink.reference
    change usedAt ((unlisted s l.user).regions l.user) l.page = some g at hused
    rw [hregions] at hused
    obtain ⟨x, hx, rfl, hu, hs⟩ := (usedAt_eq_some hp).1 hused
    rw [hregions] at hnone
    exact hnone x hx hu l hl ⟨rfl, hs.symm⟩
  obtain ⟨ys, hdestroy, -⟩ := destroyRegion_spec hp
  have hother : ∀ p, p ≠ q → (s'.setRegions q (freeNodes (s.regions q) ys)).tcb p = s'.tcb p :=
    fun p hp => setRegions_tcb_of_ne hp
  have hknown : ∀ p, s'.known p → p ≠ q ∧ s.known p := fun p hp => (unlisted_known s q p).1 (hr.known p hp)
  have htcb : ∀ p, p ≠ q → (unlisted s q).tcb p = s.tcb p := fun p hp => by rw [unlisted_tcb, if_neg hp]
  have hfewer' : Fewer s'.view (s'.setRegions q (freeNodes (s.regions q) ys)).view := by
    refine ⟨fun p hp => hp, fun p page g hp hg => ⟨g, ?_, .refl g⟩, fun p hp => ?_⟩
    · change usedAt ((s'.setRegions q (freeNodes (s.regions q) ys)).tcb p).memory.region page = some g at hg
      rw [hother p (hknown p hp).1] at hg
      exact hg
    · exact congrArg byteAt (setRegions_vmem ..)
  refine ⟨s'.setRegions q (freeNodes (s.regions q) ys), links', pages, ⟨n + 1, fun fuel hle => ?_⟩,
    ⟨fun p hp => ?_, ?_⟩, ?_, hfree.fewer hfewer', ?_⟩
  · obtain ⟨k, rfl⟩ : ∃ k, fuel = k + 1 := ⟨fuel - 1, by omega⟩
    have hzero : ((s.setRefcount q 0).tcb q).refcount = 0 := by
      rw [System.setRefcount, setTcb_tcb, if_pos rfl]
    have hzombie : (s.setRefcount q 0).zombie q = true := by
      rw [System.zombie, System.setRefcount, setTcb_tcb, if_pos rfl, decide_eq_true_eq]
      exact hrid
    have hrun : purgeUvmem k (unlisted s q) q xs.head? = some s' := hn k (by omega)
    have hfirst' : findFirstRegion ((unlisted s q).regions q) = some xs.head? := by rw [hregions, hfirst]
    dsimp only
    rw [destroyThreadData, if_neg (by rw [hzero, hzombie]; simp)]
    change (findFirstRegion ((unlisted s q).regions q)).bind (fun first =>
      (purgeUvmem k (unlisted s q) q first).bind fun s => (destroyRegion (s.regions q)).bind fun r =>
        some (s.setRegions q r)) = _
    rw [hfirst', Option.bind_some, hrun, Option.bind_some, hreg, hregions, hdestroy, Option.bind_some]
  · rw [hother p (hknown p hp).1]
    exact hgood'.healthy p hp
  · apply hgood'.counted.forgetUsed hunknown hno
    · rfl
    · funext p
      exact (setRegions_rid ..).1
    · funext p
      exact (setRegions_rid ..).2.1
    · rfl
    · intro p hp
      change usedAt ((s'.setRegions q (freeNodes (s.regions q) ys)).tcb p).memory.region = _
      rw [hother p hp]
      rfl
  · exact {
      known := fun p hp => (hknown p hp).2
      others := fun p hnot _ => by
        have hpq : p ≠ q := by
          rintro rfl
          exact hnot hq
        rw [hother p hpq, hr.others p (fun hk => hnot ((unlisted_known s q p).1 hk).2) hpq, htcb p hpq]
      regions := fun p hp => by
        have hpq := (hknown p hp).1
        have hr' := hr.regions p hp
        rw [System.regions, htcb p hpq] at hr'
        rw [System.regions, System.regions, hother p hpq]
        exact hr'
      vmem := fun p hp => by
        have hv := hr.vmem p hp
        rw [setRegions_vmem, hv, System.vmem, htcb p (hknown p hp).1]
        rfl
      rid := fun p hp => by
        have hrid' := hr.rid p hp
        rw [htcb p (hknown p hp).1] at hrid'
        rw [hother p (hknown p hp).1]
        exact hrid'
      holds := hr.holds
      supported := fun P hP => by
        have hnot : ¬ P q := by
          intro hPq
          obtain hr' | hh' | ⟨l, hl, ho, -⟩ := hP.needed q hPq
          · exact hr' hrid
          · change s.holds q = 0 at hholds
            omega
          · exact howner l hl ho
        have hne : ∀ p, P p → p ≠ q := by
          rintro p hPp rfl
          exact hnot hPp
        refine hr.supported P ⟨fun p hp => (unlisted_known s q p).2 ⟨hne p hp, hP.known p hp⟩, fun p hp => ?_⟩
        rw [htcb p (hne p hp)]
        exact hP.needed p hp
      subset := hr.subset
      keeps := fun l hl _ hk => by
        have hne : l.user ≠ q := by
          obtain hk | hk := hk
          · exact (hknown _ hk).1
          · exact fun he => hk (he ▸ hq)
        exact hr.keeps l hl hne (hk.imp_right fun hk hku => hk ((unlisted_known s q _).1 hku).2)
      users := fun l hl => by
        have hne := hno l hl
        exact (hr.users l hl).imp_right fun hk hku => hk ((unlisted_known s q _).2 ⟨hne, hku⟩)
      freed := hr.freed
      still := fun _ hp => hp.elim
      shrinks := fun _ hp => hp.elim
      covers := fun f hf b hlo hhi => by
        obtain ⟨p, y, hp, ho⟩ := hr.covers f hf b hlo hhi
        refine ⟨p, y, .inl ?_, (unlisted_own s q p y b).1 ho⟩
        obtain hp | rfl := hp
        · exact ((unlisted_known s q p).1 hp).2
        · exact hq }
  · rw [(setRegions_rid ..).2.1, hr.still q rfl, unlisted_tcb, if_pos rfl]

end Destroy

theorem releases (n : ℕ) : Releases n := by
  induction n using Nat.strong_induction_on with
  | _ n ih =>
    rintro s links q gone rfl h hm hq
    have htcb : ((s.setRefcount q ((s.tcb q).refcount - 1)).tcb q).refcount = (s.tcb q).refcount - 1 := by
      rw [setRefcount_tcb, if_pos rfl]
    by_cases hone : (s.tcb q).refcount = 1
    · obtain ⟨s', links', pages, hret, hgood, hr, hfree, hzero⟩ := destroyThreadData_released h hq hone hm ih
      refine ⟨s', links', pages, hret.intro fun fuel hfuel => ?_, hgood, hr, hfree⟩
      rw [hone] at htcb
      simp only [unreferenceThread, hone, sub_self, setRefcount_tcb, if_true, hfuel, Option.bind_eq_bind,
        Option.bind_some, hzero, lt_irrefl, if_false]
    · have hpos : 0 < (s.tcb q).refcount := h.counted.needed q hq
      have hcounted := h.counted.settle hone
      have hr : Released (fun _ => False) s (s.setRefcount q ((s.tcb q).refcount - 1)) links links [] := by
        apply released_count
        · rfl
        · intro p _
          rw [setRefcount_regions]
          exact .refl
        · intro p hp
          rw [setRefcount_tcb, if_neg]
          rintro rfl
          exact hp hq
        · funext p
          rw [System.vmem, setRefcount_memory]
          rfl
        · intro p
          rw [setRefcount_tcb]
          split_ifs with hpq
          · rw [hpq]
            exact ⟨rfl, rfl⟩
          · exact ⟨rfl, rfl⟩
        · rfl
        · rfl
      refine ⟨_, links, [], ⟨1, fun fuel hle => ?_⟩, ⟨hr.healthy h.healthy, ?_⟩, hr,
        fun f hf => absurd hf List.not_mem_nil⟩
      · obtain ⟨k, rfl⟩ : ∃ k, fuel = k + 1 := ⟨fuel - 1, by omega⟩
        have hne : (s.tcb q).refcount - 1 ≠ 0 := by omega
        have hge : ¬ (s.tcb q).refcount - 1 < 0 := by omega
        simp only [unreferenceThread, htcb, if_neg hne, Option.bind_eq_bind, Option.bind_some, if_neg hge]
      · rw [view_setRefcount]
        exact hcounted

end Kmi.Shared
