import Kmi.Regions.Model
import Kmi.SpTree.Remove

/-! The two trees of a region map, each read as the list of its regions in order. -/

namespace Kmi.Regions

open BinaryTree Kmi.Library.PointerTree Kmi.SpTree

def Holds (root : Option ℕ) (h : SpHeap) (xs : List ℕ) : Prop :=
  ∃ t, WellFormed root h t ∧ inorder t = xs

variable {root : Option ℕ} {h h' : SpHeap} {xs : List ℕ} {x : ℕ}

lemma Holds.nodup (hx : Holds root h xs) : xs.Nodup := by
  obtain ⟨t, hw, rfl⟩ := hx
  exact hw.nodup

lemma holds_nil_iff : Holds none h xs ↔ xs = [] := by
  constructor
  · rintro ⟨t, hw, rfl⟩
    rw [hw.rep.ptr_eq_none.1 rfl, inorder_nil]
  · rintro rfl
    exact ⟨nil, ⟨rfl, by simp, by simp⟩, rfl⟩

lemma Holds.root_mem {a : ℕ} (hx : Holds (some a) h xs) : a ∈ xs := by
  obtain ⟨t, hw, rfl⟩ := hx
  exact hw.rep.mem_of_ptr

lemma Holds.congr {s : List ℕ} (hx : Holds root h xs) (hs : SameOutside s h h')
    (hd : ∀ x ∈ xs, x ∉ s) : Holds root h' xs := by
  obtain ⟨t, hw, rfl⟩ := hx
  refine ⟨t, ⟨hw.rep.congr fun x hx => (hs x (hd x hx)).1, hw.nodup, fun x hx => ?_⟩, rfl⟩
  rw [(hs x (hd x hx)).2]
  exact hw.hints x hx

lemma clearNode_sameOutside (h : SpHeap) (x : ℕ) : SameOutside [x] h (clearNode h x) := by
  intro y hy
  have hne : y ≠ x := by simpa using hy
  simp [clearNode, SameAt, hne]

lemma clearNode_zeroed (h : SpHeap) (x : ℕ) : Zeroed (clearNode h x) x := by
  constructor <;> simp [clearNode]

def At : List (Frame ℕ) → Option ℕ → SpDir → Prop
  | [], p, _ => p = none
  | .left a _ :: _, p, d => p = some a ∧ d = .left
  | .right a _ :: _, p, d => p = some a ∧ d = .right

lemma descend_spec {fuel : ℕ} {m : Links ℕ} {goLeft : ℕ → Bool} {c : List (Frame ℕ)}
    {t : BinaryTree ℕ} {up n p : Option ℕ} {d : SpDir} (hc : Hole m none root c up n)
    (ht : Rep m up n t) (hp : At c p d) (hfuel : (inorder t).length ≤ fuel)
    (hmono : (inorder t).Pairwise fun a b => goLeft a = true → goLeft b = true)
    (hb : ∀ b ∈ before c, goLeft b = false) (ha : ∀ a ∈ after c, goLeft a = true) :
    ∃ p' d' c', descend fuel m goLeft n p d = some (p', d') ∧ plug c' nil = plug c t ∧
      Hole m none root c' p' none ∧ At c' p' d' ∧ (∀ b ∈ before c', goLeft b = false) ∧
      ∀ a ∈ after c', goLeft a = true := by
  induction t generalizing fuel c up n p d with
  | nil =>
    obtain rfl : n = none := ht
    refine ⟨p, d, c, by rw [descend], rfl, ?_, hp, hb, ha⟩
    cases c with
    | nil =>
      obtain rfl : p = none := hp
      exact ⟨rfl, hc.2⟩
    | cons f c =>
      cases f with
      | left a r =>
        obtain ⟨rfl, -⟩ := hp
        obtain ⟨rfl, hrest⟩ := hc
        exact ⟨rfl, hrest⟩
      | right a l =>
        obtain ⟨rfl, -⟩ := hp
        obtain ⟨rfl, hrest⟩ := hc
        exact ⟨rfl, hrest⟩
  | node a l r ihl ihr =>
    obtain ⟨rfl, rfl, hl, hr⟩ := ht
    simp only [inorder_node, List.pairwise_append, List.pairwise_cons, List.mem_cons] at hmono
    obtain ⟨hml, ⟨hmar, hmr⟩, hmlr⟩ := hmono
    simp only [inorder_node, List.length_append, List.length_cons] at hfuel
    cases fuel with
    | zero => omega
    | succ fuel =>
      rw [descend]
      split_ifs with hgo
      · -- the node and everything right of it stay after the hole
        obtain ⟨p', d', c', hd, hplug, hrest⟩ := @ihl fuel (.left a r :: c) (some a) (m.left a)
          (some a) .left ⟨rfl, rfl, hr, hc⟩ hl ⟨rfl, rfl⟩ (by omega) hml hb (by
            intro y hy
            simp only [after, List.cons_append, List.mem_cons, List.mem_append] at hy
            obtain rfl | hy | hy := hy
            · exact hgo
            · exact hmar y hy hgo
            · exact ha y hy)
        exact ⟨p', d', c', hd, hplug, hrest⟩
      · obtain ⟨p', d', c', hd, hplug, hrest⟩ := @ihr fuel (.right a l :: c) (some a) (m.right a)
          (some a) .right ⟨rfl, rfl, hl, hc⟩ hr ⟨rfl, rfl⟩ (by omega) hmr (by
            intro y hy
            simp only [before, List.mem_append, List.mem_singleton] at hy
            obtain hy | hy | rfl := hy
            · exact hb y hy
            · by_contra hne
              exact hgo (hmlr y hy a (Or.inl rfl) (by simpa using hne))
            · simpa using hgo) ha
        exact ⟨p', d', c', hd, hplug, hrest⟩

lemma insertRegion_spec {m : RegionMap} {goLeft : ℕ → Bool} (hx : Holds root m.heap xs)
    (hn : x ∉ xs) (hlen : xs.length < m.fuel)
    (hmono : xs.Pairwise fun a b => goLeft a = true → goLeft b = true) :
    ∃ root' h' ys zs, insertRegion m goLeft root x = some (root', h') ∧ xs = ys ++ zs ∧
      Holds root' h' (ys ++ x :: zs) ∧ (∀ y ∈ ys, goLeft y = false) ∧
      (∀ z ∈ zs, goLeft z = true) ∧ SameOutside (x :: xs) m.heap h' := by
  have hsame := clearNode_sameOutside m.heap x
  obtain ⟨t, hw, rfl⟩ := hx.congr hsame (by simp; rintro y hy rfl; exact hn hy)
  obtain ⟨p, d, c, hd, hplug, hc, hat, hb, ha⟩ := @descend_spec root m.fuel
    (clearNode m.heap x).links goLeft [] t none root none .left ⟨rfl, rfl⟩ hw.rep rfl hlen.le hmono
    (by simp [before]) (by simp [after])
  obtain rfl : plug c nil = t := hplug
  have hin : inorder (plug c nil) = before c ++ after c := by simp [inorder_plug]
  have hcleared : SameOutside (x :: inorder (plug c nil)) m.heap (clearNode m.heap x) :=
    fun y hy => hsame y (by simp at hy ⊢; exact hy.1)
  have hz := clearNode_zeroed m.heap x
  simp only [insertRegion, hd, Option.bind_eq_bind, Option.bind_some]
  cases c with
  | nil =>
    obtain rfl : root = none := hc.2
    obtain ⟨hi, hw'⟩ := @spInsert_empty (clearNode m.heap x) x d m.fuel p hz
    exact ⟨_, _, [], [], hi, rfl, ⟨_, hw', rfl⟩, by simp, by simp, hcleared⟩
  | cons f c =>
    cases f with
    | left a r =>
      obtain ⟨rfl, rfl⟩ := hat
      obtain ⟨root', h', t', hi, hw', hin', hs⟩ := spInsert_hole (d := .left) hw hc hn hz rfl hlen
      exact ⟨root', h', _, _, hi, hin, ⟨t', hw', hin'⟩, hb, ha, hcleared.trans hs⟩
    | right a l =>
      obtain ⟨rfl, rfl⟩ := hat
      obtain ⟨root', h', t', hi, hw', hin', hs⟩ := spInsert_hole (d := .right) hw hc hn hz rfl hlen
      exact ⟨root', h', _, _, hi, hin, ⟨t', hw', hin'⟩, hb, ha, hcleared.trans hs⟩

lemma spRemove_holds {fuel : ℕ} (hx : Holds root h xs) (hn : x ∈ xs) (hlen : xs.length < fuel) :
    ∃ root' h' ys zs, spRemove fuel root h x = some (root', h') ∧ xs = ys ++ x :: zs ∧
      Holds root' h' (ys ++ zs) ∧ SameOutside xs h h' := by
  obtain ⟨t, hw, rfl⟩ := hx
  obtain ⟨root', h', t', hr, hw', ⟨ys, zs, h₁, h₂⟩, hs⟩ := spRemove_spec hw hn hlen
  exact ⟨root', h', ys, zs, hr, h₁, ⟨t', hw', h₂⟩, hs⟩

lemma findUsed_rep {m : RegionMap} {ref fuel : ℕ} {t : BinaryTree ℕ} {up n : Option ℕ}
    (ht : Rep m.heap.links up n t) (hfuel : (inorder t).length ≤ fuel)
    (hsort : (inorder t).Pairwise fun a b => (m.region a).start < (m.region b).start) :
    ∃ r, findUsed m ref fuel n = some r ∧
      ∀ y, r = some y ↔ y ∈ inorder t ∧ (m.region y).start = ref := by
  induction t generalizing fuel up n with
  | nil =>
    obtain rfl : n = none := ht
    exact ⟨none, by rw [findUsed], by simp⟩
  | node a l r ihl ihr =>
    obtain ⟨rfl, rfl, hl, hr⟩ := ht
    simp only [inorder_node, List.pairwise_append, List.pairwise_cons, List.mem_cons] at hsort
    obtain ⟨hsl, ⟨hsar, hsr⟩, hslr⟩ := hsort
    simp only [inorder_node, List.length_append, List.length_cons] at hfuel
    cases fuel with
    | zero => omega
    | succ fuel =>
      rw [findUsed]
      split_ifs with heq hlt
      · refine ⟨_, rfl, fun y => ?_⟩
        simp only [inorder_node, List.mem_append, List.mem_cons, Option.some.injEq]
        constructor
        · rintro rfl
          exact ⟨Or.inr (Or.inl rfl), heq.symm⟩
        · rintro ⟨hy | rfl | hy, hs⟩
          · have := hslr y hy a (Or.inl rfl)
            omega
          · rfl
          · have := hsar y hy
            omega
      · obtain ⟨res, hf, hres⟩ := ihl hl (by omega : (inorder l).length ≤ fuel) hsl
        refine ⟨res, hf, fun y => (hres y).trans ?_⟩
        simp only [inorder_node, List.mem_append, List.mem_cons]
        constructor
        · exact fun h => ⟨Or.inl h.1, h.2⟩
        · rintro ⟨hy | rfl | hy, hs⟩
          · exact ⟨hy, hs⟩
          · exact absurd hs.symm heq
          · have := hsar y hy
            omega
      · obtain ⟨res, hf, hres⟩ := ihr hr (by omega : (inorder r).length ≤ fuel) hsr
        refine ⟨res, hf, fun y => (hres y).trans ?_⟩
        simp only [inorder_node, List.mem_append, List.mem_cons]
        constructor
        · exact fun h => ⟨Or.inr (Or.inr h.1), h.2⟩
        · rintro ⟨hy | rfl | hy, hs⟩
          · have := hslr y hy a (Or.inl rfl)
            omega
          · exact absurd hs.symm heq
          · exact ⟨hy, hs⟩

lemma findFree_rep {m : RegionMap} {s : List ℕ} {size offset fuel : ℕ} {t : BinaryTree ℕ}
    {up n best : Option ℕ} (ht : Rep m.heap.links up n t) (hfuel : (inorder t).length ≤ fuel)
    (hs : ∀ y ∈ inorder t, y ∈ s) (hbest : ∀ y, best = some y → y ∈ s) :
    ∃ r, findFree m size offset fuel n best = some r ∧ ∀ y, r.1 = some y → y ∈ s := by
  induction t generalizing fuel up n best with
  | nil =>
    obtain rfl : n = none := ht
    exact ⟨(best, 0), by rw [findFree], hbest⟩
  | node a l r _ ihr =>
    obtain ⟨rfl, -, -, hr⟩ := ht
    simp only [inorder_node, List.length_append, List.length_cons] at hfuel
    have ha : a ∈ s := hs a (by simp)
    have hright : ∀ y ∈ inorder r, y ∈ s := fun y hy => hs y (by simp [hy])
    cases fuel with
    | zero => omega
    | succ fuel =>
      have hgo : ∀ best : Option ℕ, (∀ y, best = some y → y ∈ s) →
          ∃ r, findFree m size offset fuel (m.heap.links.right a) best = some r ∧
            ∀ y, r.1 = some y → y ∈ s := fun _ => ihr hr (by omega) hright
      rw [findFree]
      dsimp only
      by_cases hreserved : Mem.alignUp (m.region a).start offset < m.start + m.reserved
      · rw [if_pos hreserved]
        cases hn : m.heap.links.right a with
        | none =>
          dsimp only
          split_ifs
          · exact ⟨_, rfl, hbest⟩
          · exact ⟨_, rfl, by rintro y ⟨rfl⟩; exact ha⟩
          · exact ⟨_, rfl, by rintro y ⟨rfl⟩; exact ha⟩
        | some b =>
          have := hgo best hbest
          rwa [hn] at this
      · rw [if_neg hreserved]
        by_cases hfit : size ≤ (m.region a).stop - Mem.alignUp (m.region a).start offset
        · rw [if_pos hfit]
          exact ⟨_, rfl, by rintro y ⟨rfl⟩; exact ha⟩
        · rw [if_neg hfit]
          apply hgo
          intro y hy
          split_ifs at hy
          · exact Option.some.inj hy ▸ ha
          · exact hbest y hy

lemma findClosest_rep {m : RegionMap} {ref fuel md : ℕ} {t : BinaryTree ℕ} {up n best : Option ℕ}
    (ht : Rep m.heap.links up n t) (hfuel : (inorder t).length ≤ fuel)
    (hbest : best = none → t ≠ nil ∧
      ∀ y ∈ inorder t, ((ref : ℤ) - (m.region y).start).natAbs < md) :
    ∃ y, findClosest m ref fuel n best md = some (some y) ∧ (y ∈ inorder t ∨ best = some y) := by
  induction t generalizing fuel up n best md with
  | nil =>
    obtain rfl : n = none := ht
    cases best with
    | none => exact absurd rfl (hbest rfl).1
    | some b => exact ⟨b, by rw [findClosest], Or.inr rfl⟩
  | node a l r ihl ihr =>
    obtain ⟨rfl, rfl, hl, hr⟩ := ht
    simp only [inorder_node, List.length_append, List.length_cons] at hfuel
    cases fuel with
    | zero => omega
    | succ fuel =>
      rw [findClosest]
      by_cases hz : ((ref : ℤ) - (m.region a).start).natAbs = 0
      · simp only [hz, if_true]
        exact ⟨a, rfl, by simp⟩
      simp only [hz, if_false]
      have hsome : ∀ b d, (if ((ref : ℤ) - (m.region a).start).natAbs < md then
          (some a, ((ref : ℤ) - (m.region a).start).natAbs) else (best, md)) = (b, d) →
          b = some a ∨ (b ≠ none ∧ b = best) := by
        intro b d hbd
        split_ifs at hbd with hlt
        · obtain ⟨rfl, rfl⟩ := Prod.mk.inj hbd
          exact Or.inl rfl
        · obtain ⟨rfl, rfl⟩ := Prod.mk.inj hbd
          refine Or.inr ⟨fun hnone => hlt ?_, rfl⟩
          exact (hbest hnone).2 a (by simp)
      rcases hbd : (if ((ref : ℤ) - (m.region a).start).natAbs < md then
          (some a, ((ref : ℤ) - (m.region a).start).natAbs) else (best, md)) with ⟨b, d⟩
      have hb := hsome b d hbd
      have hne : b ≠ none := by
        obtain rfl | hb := hb
        · simp
        · exact hb.1
      have hin : ∀ y, b = some y → y ∈ inorder (node a l r) ∨ best = some y := by
        intro y hy
        obtain rfl | hb := hb
        · obtain rfl := Option.some.inj hy
          exact Or.inl (by simp)
        · exact Or.inr (hb.2 ▸ hy)
      simp only
      split_ifs
      · obtain ⟨y, hf, hy⟩ := @ihl fuel d (some a) _ b hl (by omega) (fun h => absurd h hne)
        refine ⟨y, hf, hy.elim (fun hy => Or.inl ?_) (hin y)⟩
        simp [hy]
      · obtain ⟨y, hf, hy⟩ := @ihr fuel d (some a) _ b hr (by omega) (fun h => absurd h hne)
        refine ⟨y, hf, hy.elim (fun hy => Or.inl ?_) (hin y)⟩
        simp [hy]

end Kmi.Regions
