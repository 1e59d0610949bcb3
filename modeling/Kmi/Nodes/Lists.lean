import Kmi.Nodes.Model

/-! The list of all regions and the list of those with room, under the helpers of
`src/nodes.c` that relink them. -/

namespace Kmi.Nodes

open Library.LinkedList

def straight (m : Chain ℕ) : Chain ℕ where
  next x := if m.next x = some x then none else m.next x
  prev x := if m.prev x = some x then none else m.prev x

structure Lists (r : NodeRoot) (pages avail : List ℕ) : Prop where
  regions : IsList r.regions.flip r.head pages
  available : IsList (straight r.av) r.avHead avail
  subset : ∀ x ∈ avail, x ∈ pages
  rest : ∀ x ∈ pages, x ∉ avail → r.av.next x = none ∧ r.av.prev x = none

def InOrder (r : NodeRoot) (h : ℕ) : Prop := r.regions.next h = (straight r.av).next h

variable {r : NodeRoot} {pages avail : List ℕ} {nr : ℕ}

lemma isList_pop {av : Chain ℕ} (hl : IsList (straight r.av) (some nr) avail) (ho : InOrder r nr)
    (hn : ∀ x, x ≠ nr → av.next x = r.av.next x)
    (hp : ∀ x, x ≠ nr → av.prev x = if r.regions.next nr = some x then none else r.av.prev x) :
    IsList (straight av) (r.regions.next nr) (avail.erase nr) := by
  have hprev := hl.prev_head
  have h := hl.unlink hl.head_mem
  rw [if_pos rfl, ← ho] at h
  apply h.congr
  intro x hx
  have hne : x ≠ nr := by
    rintro rfl
    exact hl.1.not_mem_erase hx
  rw [InOrder] at ho
  constructor
  · simp only [Chain.unlink, Chain.skip, setPrev_next, setNext_next, Option.some.injEq, hne.symm,
      if_false, hprev, reduceCtorEq]
    simp only [straight, hn x hne]
  · simp only [Chain.unlink, Chain.skip, setPrev_prev, setNext_prev, Option.some.injEq, hne.symm,
      if_false, ← ho, hprev]
    simp only [straight, hp x hne]
    split_ifs <;> simp_all

lemma popAvHead_eq (hh : r.avHead = some nr) :
    popAvHead r = { r with
      avHead := r.regions.next nr
      av := ((r.av.setPrev (r.regions.next nr) none).setNext (some nr) none).setPrev (some nr) none } := by
  simp only [popAvHead, hh]

lemma Lists.pop (hl : Lists r pages avail) (hh : r.avHead = some nr) (ho : InOrder r nr) :
    Lists (popAvHead r) pages (avail.erase nr) := by
  have hav := hh ▸ hl.available
  rw [popAvHead_eq hh]
  refine ⟨hl.regions, ?_, fun x hx => hl.subset x (List.mem_of_mem_erase hx), fun x hx hx' => ?_⟩
  · apply isList_pop hav ho
    · intro x hx
      simp [hx.symm]
    · intro x hx
      simp [hx.symm]
  · by_cases he : x = nr
    · simp [he]
    · have := hl.rest x hx fun h => hx' ((List.mem_erase_of_ne he).2 h)
      simp [Ne.symm he, this]

lemma IsList.alone {m : Chain ℕ} {head : Option ℕ} (h : IsList m head avail) (hx : nr ∈ avail)
    (hn : m.next nr = none) (hp : m.prev nr = none) : avail = [nr] := by
  obtain ⟨rfl, h⟩ := isList_iff.mp h
  obtain ⟨ys, zs, rfl⟩ := List.append_of_mem hx
  obtain ⟨-, -, hp', hn', -⟩ := isList_append_cons_iff.mp h
  rw [hp, eq_comm, List.getLast?_eq_none_iff] at hp'
  rw [hn, eq_comm, List.head?_eq_none_iff] at hn'
  rw [hp', hn']
  rfl

lemma Lists.push (hl : Lists r pages avail) (hnr : nr ∈ pages) (hn : r.av.next nr = none)
    (hp : r.av.prev nr = none) :
    Lists (pushAvHead r nr) pages (if nr ∈ avail then avail else nr :: avail) := by
  have hnext : (straight r.av).next nr = none := by simp [straight, hn]
  have hprev : (straight r.av).prev nr = none := by simp [straight, hp]
  split_ifs with hmem
  · obtain rfl := IsList.alone hl.available hmem hnext hprev
    have hh : r.avHead = some nr := (isList_iff.1 hl.available).1
    refine ⟨hl.regions, ?_, hl.subset, fun x hx hx' => ?_⟩
    · simp only [pushAvHead, hh]
      refine ⟨by simp, some nr, rfl, by simp [straight], rfl, by simp [straight]⟩
    · have hne : x ≠ nr := by simpa using hx'
      simpa [pushAvHead, hh, hne.symm] using hl.rest x hx hx'
  · have hhead : r.avHead ≠ some nr := fun h => hmem (h ▸ hl.available).head_mem
    refine ⟨hl.regions, ?_, ?_, fun x hx hx' => ?_⟩
    · apply (hl.available.push hmem hprev).congr
      intro x hx
      simp only [pushAvHead, Chain.push, setPrev_prev, setPrev_next, setNext_next, setNext_prev,
        Option.some.injEq]
      by_cases he : x = nr
      · subst he
        simp [straight, hhead, hp]
      · have := Ne.symm he
        constructor
        · simp [straight, this]
        · by_cases hx' : r.avHead = some x <;> simp [straight, this, hx']
    · exact List.forall_mem_cons.2 ⟨hnr, hl.subset⟩
    · obtain ⟨he, hx'⟩ := not_or.1 (mt List.mem_cons.2 hx')
      have hh : r.avHead ≠ some x := fun h => hx' (h ▸ hl.available).head_mem
      simpa [pushAvHead, Ne.symm he, hh] using hl.rest x hx hx'

lemma Lists.create (hl : Lists r pages []) (hnr : nr ∉ pages) :
    Lists (ensureAvHead r nr) (nr :: pages) [nr] := by
  have hh : r.avHead = none := (isList_iff.1 hl.available).1
  have hhead : r.head ≠ some nr := fun h => hnr (h ▸ hl.regions).head_mem
  simp only [ensureAvHead, hh, createRegion]
  refine ⟨?_, ⟨by simp, some nr, rfl, by simp [straight], rfl, by simp [straight]⟩, by simp, ?_⟩
  · have hc : IsList (r.regions.flip.setPrev (some nr) none) r.head pages := by
      apply hl.regions.congr
      intro x hx
      have : nr ≠ x := fun e => hnr (e ▸ hx)
      simp [this]
    apply (hc.push hnr (by simp)).congr
    intro x _
    simp only [Chain.push, flip_setNext, flip_setPrev, setNext_next, setNext_prev, setPrev_next, setPrev_prev]
    refine ⟨?_, trivial⟩
    split_ifs <;> rfl
  · intro x hx hx'
    have hne : nr ≠ x := fun e => hx' (by simp [e])
    simpa [hne] using hl.rest x ((List.mem_cons.1 hx).resolve_left hne.symm) (by simp)

def leaveAv (r : NodeRoot) (nr : ℕ) : NodeRoot :=
  let r := { r with av := (r.av.setPrev (r.av.next nr) (r.av.prev nr)).setNext (r.av.prev nr) (r.av.next nr) }
  if r.avHead = some nr then popAvHead r else r

def leaveRegions (r : NodeRoot) (nr : ℕ) : NodeRoot :=
  let r := { r with regions := r.regions.skip nr }
  if r.head = some nr ∧ r.regions.prev nr ≠ none then
    { r with
      regions := r.regions.setNext (some nr) none
      head := r.regions.prev nr }
  else r

lemma freeRegion_eq (r : NodeRoot) (nr : ℕ) : freeRegion r nr = leaveRegions (leaveAv r nr) nr := rfl

lemma Lists.leaveAv_head (hl : Lists r pages avail) (hh : r.avHead = some nr) (ho : InOrder r nr) :
    Lists (leaveAv r nr) pages (avail.erase nr) := by
  have hav := hh ▸ hl.available
  have hprev : r.av.prev nr = none ∨ r.av.prev nr = some nr := by
    have := hav.prev_head
    simp only [straight] at this
    split_ifs at this with he
    · exact .inr he
    · exact .inl this
  have hnext : ∀ x, x ≠ nr → r.av.next nr = some x → r.regions.next nr = some x := by
    intro x hx hn
    rw [ho]
    simp [straight, hn, hx]
  simp only [leaveAv, hh, if_true]
  rw [popAvHead_eq rfl]
  refine ⟨hl.regions, ?_, fun x hx => hl.subset x (List.mem_of_mem_erase hx), fun x hx hx' => ?_⟩
  · apply isList_pop hav ho
    · intro x hx
      have : r.av.prev nr ≠ some x := by
        rcases hprev with h | h <;> simp [h, hx.symm]
      simp [hx.symm, this]
    · intro x hx
      have := hnext x hx
      simp only [setPrev_prev, setNext_prev, Option.some.injEq, hx.symm, if_false]
      split_ifs with h₁ h₂
      · rfl
      · exact absurd (this h₂) h₁
      · rfl
  · by_cases he : x = nr
    · simp [he]
    · have hx'' : x ∉ avail := fun h => hx' ((List.mem_erase_of_ne he).2 h)
      have hp : r.av.prev nr ≠ some x := by
        rcases hprev with h | h <;> simp [h, Ne.symm he]
      have := hl.rest x hx hx''
      have hn : r.av.next nr ≠ some x := fun h =>
        hx'' (hav.neighbours_mem hav.head_mem (.inl (by simp [straight, h, he])))
      simp [Ne.symm he, this, hp, hn]

lemma Lists.leaveAv_other (hl : Lists r pages avail) (hh : r.avHead ≠ some nr) (hmem : nr ∈ avail)
    (hself : r.av.next nr ≠ some nr) :
    IsList (straight (leaveAv r nr).av) (leaveAv r nr).avHead (avail.erase nr) ∧
      ∀ x ∈ pages, x ∉ avail → (leaveAv r nr).av.next x = none ∧ (leaveAv r nr).av.prev x = none := by
  have hav := hl.available
  have hheadp : (straight r.av).prev nr ≠ none := by
    intro hp
    obtain ⟨hhd, h⟩ := isList_iff.1 hav
    obtain ⟨ys, zs, rfl⟩ := List.append_of_mem hmem
    obtain ⟨-, -, hp', -⟩ := isList_append_cons_iff.mp h
    rw [hp, eq_comm, List.getLast?_eq_none_iff] at hp'
    rw [hp'] at hhd
    exact hh hhd
  have hselfp : r.av.prev nr ≠ some nr := fun h => hheadp (by simp [straight, h])
  have hn : (straight r.av).next nr = r.av.next nr := if_neg hself
  have hp : (straight r.av).prev nr = r.av.prev nr := if_neg hselfp
  simp only [leaveAv, hh, if_false]
  refine ⟨?_, fun x hx hx' => ?_⟩
  · have h := hav.unlink hmem
    rw [if_neg hh] at h
    apply h.congr
    intro x hx
    have hne : nr ≠ x := by
      rintro rfl
      exact hav.1.not_mem_erase hx
    have hboth : r.av.next nr = some x → r.av.prev nr ≠ some x := fun h₁ h₂ =>
      hav.neighbours_ne hmem (hn.trans h₁) (hp.trans h₂) rfl
    simp only [Chain.unlink, Chain.skip, setPrev_prev, setPrev_next, setNext_next, setNext_prev,
      Option.some.injEq, hne, if_false, hn, hp]
    simp only [straight, setPrev_prev, setPrev_next, setNext_next, setNext_prev]
    constructor
    · by_cases h₂ : r.av.prev nr = some x
      · have h₁ : r.av.next nr ≠ some x := fun h => hboth h h₂
        simp [h₁, h₂]
      · simp [h₂]
    · by_cases h₁ : r.av.next nr = some x
      · simp [h₁, hboth h₁]
      · simp [h₁]
  · have h₁ : r.av.next nr ≠ some x := fun h => hx' (hav.neighbours_mem hmem (.inl (hn.trans h)))
    have h₂ : r.av.prev nr ≠ some x := fun h => hx' (hav.neighbours_mem hmem (.inr (hp.trans h)))
    simpa [h₁, h₂] using hl.rest x hx hx'

lemma leaveAv_of_not_mem (hl : Lists r pages avail) (hnr : nr ∈ pages) (hmem : nr ∉ avail) :
    leaveAv r nr = r := by
  obtain ⟨hn, hp⟩ := hl.rest nr hnr hmem
  have hh : r.avHead ≠ some nr := fun h => hmem (h ▸ hl.available).head_mem
  simp only [leaveAv, hn, hp, hh, if_false]
  rfl

lemma leaveAv_regions (r : NodeRoot) (nr : ℕ) :
    (leaveAv r nr).regions = r.regions ∧ (leaveAv r nr).head = r.head := by
  simp only [leaveAv, popAvHead]
  split_ifs with h
  · simp only [h, and_self]
  · exact ⟨rfl, rfl⟩

lemma leaveRegions_alone (h : IsList r.regions.flip r.head [nr]) : leaveRegions r nr = r := by
  obtain ⟨-, last, hh, hp, hs⟩ := h
  have hnext : r.regions.next nr = none := hp
  have hprev : r.regions.prev nr = none := hs.2
  have hskip : r.regions.skip nr = r.regions := by
    rw [Chain.skip, hnext, hprev]
    rfl
  simp only [leaveRegions, hskip, hprev, ne_eq, not_true_eq_false, and_false, if_false]

lemma isList_leaveRegions (h : IsList r.regions.flip r.head pages) (hnr : nr ∈ pages)
    (hne : pages ≠ [nr]) :
    IsList (leaveRegions r nr).regions.flip (leaveRegions r nr).head (pages.erase nr) := by
  obtain ⟨hhead, h⟩ := isList_iff.mp h
  obtain ⟨ys, zs, rfl⟩ := List.append_of_mem hnr
  obtain ⟨hd, -, hp, hn, -⟩ := isList_append_cons_iff.mp h
  obtain ⟨-, hys, hzs, -⟩ := nodup_append_cons hd
  have hskip := h.skip
  rw [← flip_skip] at hskip
  rw [List.erase_append_right _ hys, List.erase_cons_head]
  have hprev : (r.regions.skip nr).prev nr = zs.head? := by
    have : r.regions.next nr ≠ some nr := by
      intro he
      have hlast : ys.getLast? = some nr := hp.symm.trans he
      exact hys (List.mem_of_getLast? hlast)
    simp only [Chain.skip, setNext_prev, setPrev_prev, this, if_false]
    exact hn
  have hother : ∀ x ∈ ys ++ zs, nr ≠ x := by
    rintro x hx rfl
    exact (List.mem_append.1 hx).elim hys hzs
  simp only [leaveRegions, hprev]
  split_ifs with hcase
  · have hnil : ys = [] := by
      cases ys with
      | nil => rfl
      | cons y ys =>
        rw [hhead] at hcase
        exact absurd (Option.some.inj hcase.1) (Ne.symm (hother y (by simp)))
    subst hnil
    apply hskip.congr
    intro x hx
    simp [Chain.flip, hother x hx]
  · have : r.head = (ys ++ zs).head? := by
      rw [hhead]
      cases ys with
      | nil =>
        cases zs with
        | nil => exact absurd rfl hne
        | cons z zs => simp [hhead] at hcase
      | cons y ys => rfl
    rw [this]
    exact hskip

@[simp]
lemma leaveRegions_av (r : NodeRoot) (nr : ℕ) :
    (leaveRegions r nr).av = r.av ∧ (leaveRegions r nr).avHead = r.avHead := by
  simp only [leaveRegions]
  split_ifs <;> exact ⟨rfl, rfl⟩

/-- The region can be taken out of the list of those with room: as the head it is
followed by the right one, and elsewhere it does not lead back to itself. -/
def Removable (r : NodeRoot) (nr : ℕ) : Prop :=
  if r.avHead = some nr then InOrder r nr else r.av.next nr ≠ some nr

lemma Lists.leaveAv (hl : Lists r pages avail) (hnr : nr ∈ pages) (hr : Removable r nr) :
    IsList (straight (leaveAv r nr).av) (leaveAv r nr).avHead (avail.erase nr) ∧
      (∀ x ∈ pages, x ≠ nr → x ∉ avail →
        (leaveAv r nr).av.next x = none ∧ (leaveAv r nr).av.prev x = none) ∧
      (pages = [nr] → (leaveAv r nr).av.next nr = none ∧ (leaveAv r nr).av.prev nr = none) := by
  unfold Removable at hr
  split_ifs at hr with hh
  · have h := hl.leaveAv_head hh hr
    refine ⟨h.available, fun x hx hne hx' => ?_, fun _ => ?_⟩
    · exact h.rest x hx fun hm => hx' (List.mem_of_mem_erase hm)
    · exact h.rest nr hnr hl.available.1.not_mem_erase
  · by_cases hmem : nr ∈ avail
    · obtain ⟨h₁, h₂⟩ := hl.leaveAv_other hh hmem hr
      refine ⟨h₁, fun x hx _ => h₂ x hx, fun hp => ?_⟩
      -- another region is the head, so this one is not alone
      exfalso
      cases hav : r.avHead with
      | none =>
        have := hl.available
        rw [hav] at this
        obtain ⟨-, last, hs⟩ := this
        cases avail with
        | nil => simp at hmem
        | cons y ys => cases hs.1
      | some y =>
        have hy := hl.subset y (hav ▸ hl.available).head_mem
        rw [hp, List.mem_singleton] at hy
        exact hh (hy ▸ hav)
    · rw [leaveAv_of_not_mem hl hnr hmem, List.erase_of_not_mem hmem]
      exact ⟨hl.available, fun x hx _ hx' => hl.rest x hx hx', fun _ => hl.rest nr hnr hmem⟩

lemma Lists.free (hl : Lists r pages avail) (hnr : nr ∈ pages) (hr : Removable r nr) :
    Lists (freeRegion r nr) (if pages = [nr] then pages else pages.erase nr) (avail.erase nr) := by
  obtain ⟨hreg, hhead⟩ := leaveAv_regions r nr
  have hlist : IsList (Nodes.leaveAv r nr).regions.flip (Nodes.leaveAv r nr).head pages := by
    rw [hreg, hhead]
    exact hl.regions
  obtain ⟨hav, hrest, halone⟩ := hl.leaveAv hnr hr
  rw [freeRegion_eq]
  split_ifs with hp
  · rw [leaveRegions_alone (hp ▸ hlist)]
    refine ⟨hlist, hav, fun x hx => hl.subset x (List.mem_of_mem_erase hx), fun x hx _ => ?_⟩
    rw [hp, List.mem_singleton] at hx
    exact hx ▸ halone hp
  · have hregions := isList_leaveRegions hlist hnr hp
    refine ⟨hregions, ?_, fun x hx => ?_, fun x hx hx' => ?_⟩
    · simpa using hav
    · rw [hl.available.1.mem_erase_iff] at hx
      rw [hl.regions.1.mem_erase_iff]
      exact ⟨hx.1, hl.subset x hx.2⟩
    · rw [hl.regions.1.mem_erase_iff] at hx
      have hx' : x ∉ avail := fun h => hx' (hl.available.1.mem_erase_iff.2 ⟨hx.1, h⟩)
      simpa using hrest x hx.2 hx.1 hx'

end Kmi.Nodes
