import Kmi.Timer.Model
import Kmi.Regions.Trees
import Kmi.SpTree.Fuel

/-! Insertion into the timer tree, from a slot that may hold the links of a timer that
was removed. -/

namespace Kmi.Timer

open BinaryTree Kmi.Library.PointerTree Kmi.SpTree Kmi.Mem Kmi.Regions

def Crowded (cids : ℕ → ℤ) (xs : List ℕ) (lo hi : ℤ) : Prop :=
  ∀ x, lo ≤ x → x ≤ hi → ∃ n ∈ xs, cids n = x

def Sorted (cids : ℕ → ℤ) (xs : List ℕ) : Prop := xs.Pairwise fun a b => cids a < cids b

/-- Where the ids from the new one on are taken without a gap, each timer among them
that has a successor there must have a right child. -/
structure Spaced (w : ℕ) (cids : ℕ → ℤ) (m : Links ℕ) (xs : List ℕ) (cid : ℤ) : Prop where
  right : ∀ n ∈ xs, cid ≤ cids n → Crowded cids xs cid (cids n + 1) → m.right n ≠ none
  bounded : ∀ n ∈ xs, cid ≤ cids n → Crowded cids xs cid (cids n) → cids n + 1 < 2 ^ (w - 1)

variable {w : ℕ} {cids : ℕ → ℤ} {root : Option ℕ} {m : Links ℕ} {ti : ℕ}

lemma Crowded.perm {xs ys : List ℕ} {lo hi : ℤ} (h : Crowded cids xs lo hi) (hp : xs.Perm ys) :
    Crowded cids ys lo hi := by
  intro x hlo hhi
  obtain ⟨n, hn, he⟩ := h x hlo hhi
  exact ⟨n, hp.mem_iff.mp hn, he⟩

lemma Spaced.perm {xs ys : List ℕ} {cid : ℤ} (h : Spaced w cids m xs cid) (hp : xs.Perm ys) :
    Spaced w cids m ys cid := by
  refine ⟨?_, ?_⟩
  · intro n hn hlo hc
    exact h.right n (hp.mem_iff.mpr hn) hlo (hc.perm hp.symm)
  · intro n hn hlo hc
    exact h.bounded n (hp.mem_iff.mpr hn) hlo (hc.perm hp.symm)

lemma Spaced.congr {cids' : ℕ → ℤ} {m' : Links ℕ} {xs : List ℕ} {cid : ℤ}
    (h : Spaced w cids m xs cid) (hc : ∀ x ∈ xs, cids' x = cids x)
    (hm : ∀ x ∈ xs, m'.right x = m.right x) : Spaced w cids' m' xs cid := by
  have hcrowd : ∀ hi, Crowded cids' xs cid hi → Crowded cids xs cid hi := by
    intro hi hc' x hlo hhi
    obtain ⟨n, hn, he⟩ := hc' x hlo hhi
    exact ⟨n, hn, by rw [← hc n hn, he]⟩
  refine ⟨?_, ?_⟩
  · intro n hn hlo hcr
    rw [hc n hn] at hlo hcr
    rw [hm n hn]
    exact h.right n hn hlo (hcrowd _ hcr)
  · intro n hn hlo hcr
    rw [hc n hn] at hlo hcr ⊢
    exact h.bounded n hn hlo (hcrowd _ hcr)

lemma Sorted.around {c : List (Frame ℕ)} {a : ℕ} {l r : BinaryTree ℕ}
    (h : Sorted cids (inorder (plug c (node a l r)))) :
    (∀ y ∈ inorder l, cids y < cids a) ∧ (∀ y ∈ inorder r, cids a < cids y) ∧
      ∀ y ∈ inorder r, ∀ z ∈ after c, cids y < cids z := by
  simp only [Sorted, inorder_plug, inorder_node, List.pairwise_append, List.pairwise_cons,
    List.mem_append, List.mem_cons] at h
  obtain ⟨⟨-, ⟨-, ⟨har, -⟩, hla⟩, -⟩, -, hafter⟩ := h
  exact ⟨fun y hy => hla y hy a (Or.inl rfl), har,
    fun y hy => hafter y (Or.inr (Or.inr (Or.inr hy)))⟩

lemma Sorted.insert {cids' : ℕ → ℤ} {ys zs : List ℕ} (h : Sorted cids (ys ++ zs))
    (hsame : ∀ x ∈ ys ++ zs, cids' x = cids x) (hy : ∀ y ∈ ys, cids y < cids' ti)
    (hz : ∀ z ∈ zs, cids' ti < cids z) : Sorted cids' (ys ++ ti :: zs) := by
  have h' : Sorted cids' (ys ++ zs) := by
    refine List.Pairwise.imp_of_mem ?_ h
    intro a b ha hb hab
    rwa [hsame a ha, hsame b hb]
  obtain ⟨hys, hzs, hyz⟩ := List.pairwise_append.mp h'
  refine List.pairwise_append.mpr ⟨hys, List.pairwise_cons.mpr ⟨?_, hzs⟩, ?_⟩
  · intro z hzm
    rw [hsame z (List.mem_append_right _ hzm)]
    exact hz z hzm
  · intro y hym z hzm
    obtain rfl | hzm := List.mem_cons.mp hzm
    · rw [hsame y (List.mem_append_left _ hym)]
      exact hy y hym
    · exact hyz y hym z hzm

lemma place_spec {fuel : ℕ} {lo cid : ℤ} {c : List (Frame ℕ)} {t : BinaryTree ℕ}
    {up n p : Option ℕ} {d : SpDir} (hc : Hole m none root c up n) (ht : Rep m up n t)
    (hp : At c p d) (hfuel : (inorder t).length ≤ fuel) (hti : ti ∉ inorder (plug c t))
    (hsort : Sorted cids (inorder (plug c t))) (hs : Spaced w cids m (inorder (plug c t)) lo)
    (hlo : lo ≤ cid) (hcrowd : Crowded cids (inorder (plug c t)) lo (cid - 1))
    (hb : ∀ b ∈ before c, cids b < cid) (ha : ∀ a ∈ after c, cid < cids a) :
    ∃ p' d' cid' c', place w cids m ti fuel n cid p d = some (p', d', cid') ∧
      plug c' nil = plug c t ∧ Hole m none root c' p' none ∧ At c' p' d' ∧
      (∀ b ∈ before c', cids b < cid') ∧ ∀ a ∈ after c', cid' < cids a := by
  induction t generalizing fuel cid c up n p d with
  | nil =>
    obtain rfl : n = none := ht
    refine ⟨p, d, cid, c, by rw [place], rfl, ?_, hp, hb, ha⟩
    cases c with
    | nil =>
      obtain rfl : p = none := hp
      exact ⟨rfl, hc.2⟩
    | cons f c =>
      cases f with
      | left a r =>
        obtain ⟨rfl, -⟩ := hp
        exact ⟨rfl, hc.2⟩
      | right a l =>
        obtain ⟨rfl, -⟩ := hp
        exact ⟨rfl, hc.2⟩
  | node a l r ihl ihr =>
    obtain ⟨rfl, rfl, hl, hr⟩ := ht
    have hmem : a ∈ inorder (plug c (node a l r)) := by simp [inorder_plug]
    have hat : a ≠ ti := fun h => hti (h ▸ hmem)
    obtain ⟨hleft, hright, hafter⟩ := hsort.around
    simp only [inorder_node, List.length_append, List.length_cons] at hfuel
    cases fuel with
    | zero => omega
    | succ fuel =>
      rw [place, if_neg hat]
      have hgoRight : ∀ cid', cids a < cid' → lo ≤ cid' →
          Crowded cids (inorder (plug c (node a l r))) lo (cid' - 1) →
          (∀ b ∈ before c, cids b < cid') → (∀ b ∈ after c, cid' < cids b) →
          ∃ p' d' cid'' c', place w cids m ti fuel (m.right a) cid' (some a) .right =
              some (p', d', cid'') ∧ plug c' nil = plug c (node a l r) ∧
            Hole m none root c' p' none ∧ At c' p' d' ∧ (∀ b ∈ before c', cids b < cid'') ∧
            ∀ b ∈ after c', cid'' < cids b := by
        intro cid' hgt hlo' hcrowd' hb' ha'
        refine @ihr fuel cid' (.right a l :: c) (some a) (m.right a) (some a) .right
          ⟨rfl, rfl, hl, hc⟩ hr ⟨rfl, rfl⟩ (by omega) hti hsort hs hlo' hcrowd' ?_ ha'
        intro b hbm
        simp only [before, List.mem_append, List.mem_singleton] at hbm
        obtain hbm | hbm | rfl := hbm
        · exact hb' b hbm
        · exact (hleft b hbm).trans hgt
        · exact hgt
      by_cases heq : cid = cids a
      · -- the id is taken: the next one is not above the node, where the walk would miss it
        have hfull : Crowded cids (inorder (plug c (node a l r))) lo cid := by
          intro x hx hx'
          by_cases he : x = cid
          · exact ⟨a, hmem, by rw [he, heq]⟩
          · exact hcrowd x hx (by omega)
        have hnext : next w cid = some (cid + 1) := by
          have := hs.bounded a hmem (heq ▸ hlo) (heq ▸ hfull)
          rw [next, if_pos (by omega)]
        obtain ⟨p', d', cid', c', hd, hrest⟩ := hgoRight (cid + 1) (by omega) (by omega)
          (by simpa using hfull) (by
            intro b hbm
            have := hb b hbm
            omega) (by
            intro b hbm
            have hgt := ha b hbm
            by_contra hle
            have hcr : Crowded cids (inorder (plug c (node a l r))) lo (cids a + 1) := by
              intro x hx hx'
              by_cases he : x = cid + 1
              · exact ⟨b, by simp [inorder_plug, hbm], by omega⟩
              · exact hfull x hx (by omega)
            have hchild := hs.right a hmem (heq ▸ hlo) hcr
            cases r with
            | nil => exact hchild hr
            | node e rl rr =>
              have h₁ := hright e (by simp)
              have h₂ := hafter e (by simp) b hbm
              omega)
        refine ⟨p', d', cid', c', ?_, hrest⟩
        rw [if_pos heq, hnext]
        simp only [Option.bind_eq_bind, Option.bind_some, if_neg hat]
        rw [if_neg (by omega), hd]
      · rw [if_neg heq]
        simp only [Option.bind_eq_bind, Option.bind_some, if_neg hat]
        split_ifs with hlt
        · refine @ihl fuel cid (.left a r :: c) (some a) (m.left a) (some a) .left
            ⟨rfl, rfl, hr, hc⟩ hl ⟨rfl, rfl⟩ (by omega) hti hsort hs hlo hcrowd hb ?_
          intro y hy
          simp only [after, List.cons_append, List.mem_cons, List.mem_append] at hy
          obtain rfl | hy | hy := hy
          · exact hlt
          · exact hlt.trans (hright y hy)
          · exact ha y hy
        · exact hgoRight cid (by omega) hlo hcrowd hb ha

lemma spInsert_slot {h : SpHeap} {fuel : ℕ} {c : List (Frame ℕ)} {p : Option ℕ} {d : SpDir}
    (hw : WellFormed root h (plug c nil)) (hc : Hole h.links none root c p none) (hat : At c p d)
    (hn : ti ∉ inorder (plug c nil)) (hl : h.links.left ti = none) (hr : h.links.right ti = none)
    (hp : root = none → h.links.parent ti = none) (hh : 0 ≤ h.hint ti)
    (hf : (inorder (plug c nil)).length < fuel) :
    ∃ root' h' t, spInsert fuel root h p ti d = some (root', h') ∧ WellFormed root' h' t ∧
      inorder t = before c ++ ti :: after c := by
  cases c with
  | nil =>
    obtain rfl : root = none := hc.2
    refine ⟨some ti, h, node ti nil nil, rfl, ⟨⟨rfl, hp rfl, hl, hr⟩, by simp, ?_⟩, rfl⟩
    intro x hx
    obtain rfl : x = ti := by simpa using hx
    exact hh
  | cons f c =>
    obtain ⟨h₀, hh₀⟩ : ∃ h₀ : SpHeap,
        h₀ = ⟨h.links.setParent ti none, Function.update h.hint ti 0⟩ := ⟨_, rfl⟩
    have hsame : ∀ x, x ≠ ti → SameAt h.links h₀.links x ∧ h₀.hint x = h.hint x := by
      intro x hx
      simp [hh₀, SameAt, hx]
    have hne : ∀ x ∈ inorder (plug (f :: c) nil), x ≠ ti := fun x hx he => hn (he ▸ hx)
    have hz : Zeroed h₀ ti := by constructor <;> simp [hh₀, hl, hr]
    have hw₀ : WellFormed root h₀ (plug (f :: c) nil) := by
      refine ⟨hw.rep.congr fun x hx => (hsame x (hne x hx)).1, hw.nodup, fun x hx => ?_⟩
      rw [(hsame x (hne x hx)).2]
      exact hw.hints x hx
    have hc₀ : Hole h₀.links none root (f :: c) p none := by
      refine hc.congr fun x hx => (hsame x (hne x ?_)).1
      simpa [inorder_plug] using hx
    obtain ⟨a, ha, rfl⟩ := hc.root_mem (by simp)
    cases f with
    | left b s =>
      obtain ⟨rfl, rfl⟩ := hat
      have hb : ti ≠ b := (hne b (by simp [inorder_plug, after])).symm
      obtain ⟨root', h', t, hi, hw', hin, -⟩ := spInsert_hole (d := .left) hw₀ hc₀ hn hz rfl hf
      rw [hh₀, spInsert_stale _ _ _ hb hl hr] at hi
      exact ⟨root', h', t, hi, hw', hin⟩
    | right b s =>
      obtain ⟨rfl, rfl⟩ := hat
      have hb : ti ≠ b := (hne b (by simp [inorder_plug, before])).symm
      obtain ⟨root', h', t, hi, hw', hin, -⟩ := spInsert_hole (d := .right) hw₀ hc₀ hn hz rfl hf
      rw [hh₀, spInsert_stale _ _ _ hb hl hr] at hi
      exact ⟨root', h', t, hi, hw', hin⟩

def Exact (s : Timers) : Prop :=
  ∃ t, WellFormed s.root s.heap t ∧ (inorder t).Perm s.pending ∧ Sorted s.cids (inorder t)

structure Fit (w : ℕ) (s : Timers) (ti : ℕ) (fresh : Bool) (cid : ℤ) : Prop where
  vacant : fresh = false → s.heap.links.left ti = none ∧ s.heap.links.right ti = none ∧
    (s.root = none → s.heap.links.parent ti = none)
  spaced : Spaced w s.cids s.heap.links s.pending cid

lemma insertTimer_spec {s : Timers} {fuel : ℕ} {t : BinaryTree ℕ} {rest : List ℕ}
    (hw : WellFormed s.root s.heap t) (hperm : (inorder t).Perm rest)
    (hsort : Sorted s.cids (inorder t)) (hpend : s.pending = ti :: rest) (hn : ti ∉ rest)
    (hl : s.heap.links.left ti = none) (hr : s.heap.links.right ti = none)
    (hp : s.root = none → s.heap.links.parent ti = none) (hh : 0 ≤ s.heap.hint ti)
    (hs : Spaced w s.cids s.heap.links rest (s.cids ti)) (hf : rest.length < fuel) :
    ∃ r, insertTimer w fuel s ti = some r ∧ Exact r.1 := by
  have hnt : ti ∉ inorder t := fun h => hn (hperm.mem_iff.mp h)
  have hlen := hperm.length_eq
  obtain ⟨p, d, cid, c, hplace, hplug, hc, hat, hb, ha⟩ := @place_spec w s.cids s.root s.heap.links
    ti fuel (s.cids ti) (s.cids ti) [] t none s.root none .left ⟨rfl, rfl⟩ hw.rep rfl
    (by omega) hnt hsort (hs.perm hperm.symm) le_rfl (by intro x h₁ h₂; omega)
    (by simp [before]) (by simp [after])
  obtain rfl : plug c nil = t := hplug
  have hin₀ : inorder (plug c nil) = before c ++ after c := by simp [inorder_plug]
  obtain ⟨root', h', t', hi, hw', hin⟩ :=
    @spInsert_slot s.root ti s.heap fuel c p d hw hc hat hnt hl hr hp hh (by omega)
  rw [hin₀] at hperm hsort hnt
  obtain ⟨s', hs'⟩ : ∃ s' : Timers, s' = { s with
    root := root'
    heap := h'
    timer := Function.update s.timer ti { s.timer ti with cid := cid } } := ⟨_, rfl⟩
  have hnew : s'.cids ti = cid := by simp [hs', Timers.cids]
  have hold : ∀ x ∈ before c ++ after c, s'.cids x = s.cids x := by
    intro x hx
    have hne : x ≠ ti := fun he => hnt (he ▸ hx)
    simp [hs', Timers.cids, hne]
  refine ⟨(s', cid), ?_, t', by rw [hs']; exact hw', ?_, ?_⟩
  · simp only [insertTimer, hplace, Option.bind_eq_bind, Option.bind_some]
    rw [hi, hs']
    rfl
  · rw [hin, hs', hpend]
    exact List.perm_middle.trans (hperm.cons ti)
  · rw [hin]
    exact hsort.insert hold (by rwa [hnew]) (by rwa [hnew])

end Kmi.Timer
