import Kmi.Shared.State

/-! `clone_region` of `src/regions.c`: the pages of a region are mapped a second time, in another
space or elsewhere in the same one. -/

namespace Kmi.Shared

open Kmi.Mem Kmi.Vmem Kmi.Regions Kmi.Uvmem

variable {spaces : ℕ → Space} {b g flags src dst bytes fuel y c : ℕ} {answers : List Pages} {m m' : Space}
  {x : Stat}

lemma pteAddr_page (pte : ℕ) : pteAddr pte < 2 ^ 64 ∧ pteAddr pte % 4096 = 0 := by
  rw [pteAddr, va, ptePaddr, Nat.shiftLeft_eq, VM_DMAP]
  omega

lemma statVpage_page_addr (h : statVpage m y = some x) : x.addr < 2 ^ 64 ∧ x.addr % 4096 = 0 := by
  obtain ⟨t, -, -, he⟩ := statVpage_eq_some.1 h
  rw [entryStat] at he
  split_ifs at he
  rw [← Option.some.inj he]
  exact pteAddr_page _

structure Clones (flags : ℕ) (g b m' : Space) (src dst c : ℕ) : Prop where
  wf : WellFormed m'
  stat : ∀ y < 2 ^ 39, statVpage m' y = if dst ≤ y ∧ y < c
    then (statVpage g (src + (y - dst))).map fun x => ⟨x.addr, 0, flags ||| (VM_A ||| VM_D)⟩
    else statVpage b y

def BaseMapped (m : Space) (s e : ℕ) : Prop := ∀ y, s ≤ y → y < e → ∃ x, statVpage m y = some x ∧ x.order = 0

lemma walkPage_range {y v : ℕ} (hv : v % 4096 = 0) (hv' : v < 2 ^ 39) (hy : y < 2 ^ 39) :
    walkPage y = walkPage v ↔ v ≤ y ∧ y < v + 4096 := by
  rw [walkPage, walkPage]
  omega

lemma mapVpage_errCode {m : Space} {start v order : ℕ} {pages : Pages}
    (h : (mapVpage m start v flags order pages).2 ≠ OK) :
    errCode (statusVm (mapVpage m start v flags order pages).2) = true := by
  rw [mapVpage] at h ⊢
  generalize mapWalk v (maxOrder - order) maxOrder none pages m = r at h ⊢
  obtain ⟨m₁, branch⟩ := r
  cases branch with
  | none => exact (by decide : errCode (statusVm ERR_OOMEM) = true)
  | some branch =>
    dsimp only at h ⊢
    split_ifs at h ⊢
    · exact absurd rfl h
    · exact (by decide : errCode (statusVm ERR_INVAL) = true)

lemma Clones.cons {m₁ : Space} (hpage : x.order = 0) (hx : statVpage (spaces g) src = some x)
    (hs : src % 4096 = 0) (hd : dst % 4096 = 0) (hle : dst + 4096 ≤ c)
    (hstat : ∀ y < 2 ^ 39, statVpage m₁ y = if dst ≤ y ∧ y < dst + 4096
      then some ⟨x.addr, 0, flags ||| (VM_A ||| VM_D)⟩ else statVpage (spaces b) y)
    (hsrc : ∀ y, src ≤ y → y < src + (c - dst) →
      statVpage (Function.update spaces b m₁ g) y = statVpage (spaces g) y)
    (h : Clones flags (Function.update spaces b m₁ g) m₁ m' (src + 4096) (dst + 4096) c) :
    Clones flags (spaces g) (spaces b) m' src dst c := by
  refine ⟨h.wf, fun y hy => ?_⟩
  rw [h.stat y hy]
  obtain hlt | hge := lt_or_ge y (dst + 4096)
  · rw [if_neg (by omega), hstat y hy]
    by_cases hin : dst ≤ y
    · rw [if_pos ⟨hin, hlt⟩, if_pos ⟨hin, by omega⟩]
      have hsame : statVpage (spaces g) (src + (y - dst)) = some x := by
        apply statVpage_page hx
        have hsize : orderSize 0 = 4096 := rfl
        rw [hpage, pageOf_eq_iff_mem (Nat.zero_le _) (by rw [hsize]; exact hs), hsize]
        omega
      rw [hsame]
      rfl
    · rw [if_neg (by omega), if_neg (by omega)]
  · by_cases hin : y < c
    · have hsame : src + 4096 + (y - (dst + 4096)) = src + (y - dst) := by omega
      rw [if_pos ⟨hge, hin⟩, if_pos ⟨by omega, hin⟩, hsame, hsrc (src + (y - dst)) (by omega) (by omega)]
    · rw [if_neg (by omega), if_neg (by omega), hstat y hy, if_neg (by omega)]

lemma clonePages_spec (hf : PageFlags flags) (hw : WellFormed (spaces b)) (hs : src % 4096 = 0)
    (hd : dst % 4096 = 0) (hb : bytes % 4096 = 0) (hse : src + bytes ≤ 2 ^ 39) (hde : dst + bytes ≤ 2 ^ 39)
    (hsrc : BaseMapped (spaces g) src (src + bytes))
    (hdst : ∀ y, dst ≤ y → y < dst + bytes → statVpage (spaces b) y = none)
    (hp : FreshPages (spaces b) answers.flatten) (hfuel : bytes / 4096 < fuel) :
    ∃ m' ret c, clonePages b g flags fuel src dst bytes answers spaces = some (Function.update spaces b m', ret) ∧
      Clones flags (spaces g) (spaces b) m' src dst c ∧ dst ≤ c ∧ c ≤ dst + bytes ∧ c % 4096 = 0 ∧
      (ret = OK ∧ c = dst + bytes ∨ ret ≠ OK ∧ errCode (statusVm ret) = true) := by
  induction fuel generalizing spaces src dst bytes answers with
  | zero => omega
  | succ fuel ih =>
    have hnil : ∀ m₁, WellFormed m₁ → (∀ y, statVpage m₁ y = statVpage (spaces b) y) →
        Clones flags (spaces g) (spaces b) m₁ src dst dst := by
      intro m₁ hw₁ hy
      refine ⟨hw₁, fun y _ => ?_⟩
      rw [if_neg (by omega), hy]
    rw [clonePages]
    by_cases hz : bytes = 0
    · refine ⟨spaces b, OK, dst, ?_, hnil _ hw fun _ => rfl, le_rfl, by omega, hd, .inl ⟨rfl, by omega⟩⟩
      rw [if_pos hz, Function.update_eq_self]
    obtain ⟨x, hx, ho⟩ := hsrc src le_rfl (by omega)
    obtain ⟨hlt, hal⟩ := statVpage_page_addr hx
    have hnone := hdst dst le_rfl (by omega)
    obtain ⟨hw₁, ht, hcase⟩ := mapBasePage_spec hf hw hlt hal
      (fun z hz => by rw [hnone] at hz; cases hz) (freshPages_first hp)
    have hrest := freshPages_rest hp ht
    have hcode := @mapVpage_errCode flags (spaces b) x.addr dst 0 (answers.headD [])
    rw [if_neg hz, hx]
    simp only [ho]
    generalize mapVpage (spaces b) x.addr dst flags 0 (answers.headD []) = r at hw₁ hcase hrest hcode ⊢
    obtain ⟨m₁, ret₁⟩ := r
    dsimp only at hw₁ hcase hrest hcode ⊢
    obtain ⟨rfl, -, hstat⟩ | ⟨herr, hstat⟩ := hcase
    · have hstat' : ∀ y < 2 ^ 39, statVpage m₁ y = if dst ≤ y ∧ y < dst + 4096
          then some ⟨x.addr, 0, flags ||| (VM_A ||| VM_D)⟩ else statVpage (spaces b) y := by
        intro y hy
        rw [hstat]
        simp only [walkPage_range hd (by omega) hy]
      -- the source stays, also where it is in the same space
      have hkeep : ∀ y, src ≤ y → y < src + bytes →
          statVpage (Function.update spaces b m₁ g) y = statVpage (spaces g) y := by
        intro y hy hy'
        rw [Function.update_apply]
        split_ifs with hgb
        · subst hgb
          obtain ⟨z, hz, -⟩ := hsrc y hy hy'
          rw [hstat' y (by omega), if_neg]
          intro hin
          rw [hdst y hin.1 (by omega)] at hz
          cases hz
        · rfl
      have hsize : orderSize 0 = 4096 := rfl
      have hsub : sub64 bytes 4096 = bytes - 4096 := by
        rw [sub64]
        omega
      have hmod : (src + 4096) % 2 ^ 64 = src + 4096 := Nat.mod_eq_of_lt (by omega)
      have hmod' : (dst + 4096) % 2 ^ 64 = dst + 4096 := Nat.mod_eq_of_lt (by omega)
      rw [if_neg (by decide), hsize, hsub, hmod, hmod']
      obtain ⟨m', ret, c, heq, hc, hle, hce, hcal, hret⟩ := @ih (Function.update spaces b m₁) (src + 4096)
        (dst + 4096) (bytes - 4096) answers.tail (by rwa [Function.update_self]) (by omega) (by omega) (by omega)
        (by omega) (by omega) (fun y hy hy' => by
          rw [hkeep y (by omega) (by omega)]
          exact hsrc y (by omega) (by omega)) (fun y hy hy' => by
          rw [Function.update_self, hstat' y (by omega), if_neg (by omega)]
          exact hdst y (by omega) (by omega)) (by rwa [Function.update_self]) (by omega)
      rw [Function.update_self] at hc
      refine ⟨m', ret, c, ?_, ?_, by omega, by omega, hcal, ?_⟩
      · rw [heq, Function.update_idem]
      · apply Clones.cons ho hx hs hd hle hstat' _ hc
        intro y hy hy'
        exact hkeep y hy (by omega)
      · exact hret.imp (fun h => ⟨h.1, by omega⟩) id
    · rw [if_pos herr]
      exact ⟨m₁, ret₁, dst, rfl, hnil m₁ hw₁ hstat, le_rfl, by omega, hd, .inr ⟨herr, hcode herr⟩⟩

lemma cloneRegion_spec (hf : PageFlags flags) (hw : WellFormed (spaces b)) (hs : src % 4096 = 0)
    (hd : dst % 4096 = 0) (hb : bytes % 4096 = 0) (hse : src + bytes ≤ 2 ^ 39) (hde : dst + bytes ≤ 2 ^ 39)
    (hsrc : BaseMapped (spaces g) src (src + bytes))
    (hdst : ∀ y, dst ≤ y → y < dst + bytes → statVpage (spaces b) y = none)
    (hp : FreshPages (spaces b) answers.flatten) :
    ∃ m' ret c, cloneRegion b g src dst bytes flags answers spaces = some (Function.update spaces b m', ret) ∧
      Clones flags (spaces g) (spaces b) m' src dst c ∧ dst ≤ c ∧ c ≤ dst + bytes ∧ c % 4096 = 0 ∧
      (ret = OK ∧ c = dst + bytes ∨ ret ≠ OK ∧ errCode (statusVm ret) = true) := by
  rw [cloneRegion, alignRegion_aligned hs hb (by omega), alignRegion_aligned hd hb (by omega)]
  dsimp only
  rw [if_neg (by simp), basePageSize_eq]
  exact clonePages_spec hf hw hs hd hb hse hde hsrc hdst hp (by omega)

lemma Clones.byte {space : Space} (h : Clones flags space m m' src dst c) (hs : src % 4096 = 0) (hd : dst % 4096 = 0)
    (hsrc : BaseMapped space src (src + (c - dst))) (hse : src + (c - dst) ≤ 2 ^ 39) (hc : c ≤ 2 ^ 39)
    (hy : dst ≤ y) (hyc : y < c) : byteAt m' y = byteAt space (src + (y - dst)) := by
  obtain ⟨x, hx, ho⟩ := hsrc (src + (y - dst)) (by omega) (by omega)
  rw [byteAt, byteAt, if_pos (by omega), if_pos (by omega), physical, physical, h.stat y (by omega),
    if_pos ⟨hy, hyc⟩, hx]
  simp only [Option.map_some, ho]
  have hsize : orderSize 0 = 4096 := rfl
  rw [hsize]
  congr 2
  omega

lemma Clones.rest {space : Space} (h : Clones flags space m m' src dst c) (hy : ¬ (dst ≤ y ∧ y < c)) :
    byteAt m' y = byteAt m y := by
  rw [byteAt, byteAt]
  by_cases hlt : y < 2 ^ 39
  · rw [if_pos hlt, if_pos hlt, physical, physical, h.stat y hlt, if_neg hy]
  · rw [if_neg hlt, if_neg hlt]

lemma tiled_of_base {e : ℕ} (h : BaseMapped m c e) (hc : c % 4096 = 0) (he : e % 4096 = 0) (hle : c ≤ e) :
    Tiled m c e := by
  obtain ⟨n, rfl⟩ : ∃ n, e = c + n * 4096 := ⟨(e - c) / 4096, by omega⟩
  clear he hle
  induction n generalizing c with
  | zero =>
    rw [Nat.zero_mul, Nat.add_zero]
    exact .nil c
  | succ n ih =>
    obtain ⟨x, hx, ho⟩ := h c le_rfl (by omega)
    have hsize : orderSize x.order = 4096 := by rw [ho]; rfl
    have hnext : Tiled m (c + 4096) (c + 4096 + n * 4096) := ih (by omega) fun y hy hy' => h y (by omega) (by omega)
    apply Tiled.cons hx (by rw [hsize]; exact hc)
    rw [hsize, show c + (n + 1) * 4096 = c + 4096 + n * 4096 by ring]
    exact hnext

end Kmi.Shared
