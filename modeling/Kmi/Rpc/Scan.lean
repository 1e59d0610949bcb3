import Kmi.Rpc.Model

/-! What the two scanning loops of the RPC stack clear and where they stop. -/

namespace Kmi.Rpc

def clearRange (user : ℤ → Bool) (first stop : ℤ) : ℤ → Bool :=
  fun i => if first ≤ i ∧ i < stop then false else user i

variable {user user' : ℤ → Bool} {idx x : ℤ}

lemma clearRange_self (first : ℤ) : clearRange user first first = user := by
  funext i
  have : ¬ (first ≤ i ∧ i < first) := by omega
  simp only [clearRange, this, if_false]

lemma clearRange_update_last {first : ℤ} (h : first ≤ idx) :
    clearRange (Function.update user idx false) first idx = clearRange user first (idx + 1) := by
  funext i
  by_cases he : i = idx
  · simp [clearRange, he, h]
  · have : i < idx ↔ i < idx + 1 := by omega
    simp [clearRange, he, this]

lemma clearRange_update_first {stop : ℤ} (h : idx < stop) :
    clearRange (Function.update user idx false) (idx + 1) stop = clearRange user idx stop := by
  funext i
  by_cases he : i = idx
  · simp [clearRange, he, h]
  · have : idx + 1 ≤ i ↔ idx ≤ i := by omega
    simp [clearRange, he, this]

lemma clearDown_some {fuel : ℕ} (h : clearDown fuel user idx = some (user', x)) (hidx : idx < 511) :
    0 ≤ x ∧ x ≤ idx ∧ user x = false ∧ (∀ j, x < j → j ≤ idx → user j = true) ∧
      user' = clearRange user (x + 1) (idx + 1) := by
  induction fuel generalizing user idx with
  | zero => cases h
  | succ fuel ih =>
    have hlt : idx < rpcPages - 1 := by
      simp only [rpcPages]
      omega
    rw [clearDown, if_pos hlt] at h
    split_ifs at h with hneg hu
    · obtain ⟨h₀, h₁, h₂, h₃, h₄⟩ := ih h (by omega)
      have hx : user x = false := by
        have : x ≠ idx := by omega
        simpa [this] using h₂
      refine ⟨h₀, by omega, hx, fun j hj hj' => ?_, ?_⟩
      · by_cases he : j = idx
        · exact he ▸ hu
        · simpa [he] using h₃ j hj (by omega)
      · rw [h₄, sub_add_cancel]
        exact clearRange_update_last (by omega)
    · obtain ⟨rfl, rfl⟩ := Prod.mk.inj (Option.some.inj h)
      refine ⟨by omega, le_rfl, by simpa using hu, fun j hj hj' => by omega, ?_⟩
      exact (clearRange_self _).symm

lemma clearDown_exists {fuel : ℕ} (h₀ : user 0 = false) (hidx : 0 ≤ idx) (hf : idx < fuel) :
    ∃ r, clearDown fuel user idx = some r := by
  induction fuel generalizing user idx with
  | zero => omega
  | succ fuel ih =>
    rw [clearDown]
    split_ifs with hlt hneg hu
    · omega
    · have hne : idx ≠ 0 := by
        rintro rfl
        simp [h₀] at hu
      apply ih
      · simpa [hne.symm] using h₀
      · omega
      · omega
    · exact ⟨_, rfl⟩
    · exact ⟨_, rfl⟩

lemma clearUp_some {fuel : ℕ} (h : clearUp fuel user idx = some (user', x)) (hidx : idx ≤ 511) :
    idx ≤ x ∧ x ≤ 511 ∧ (x < 511 → user x = false) ∧ (∀ j, idx ≤ j → j < x → user j = true) ∧
      user' = clearRange user idx x := by
  induction fuel generalizing user idx with
  | zero => cases h
  | succ fuel ih =>
    rw [clearUp] at h
    split_ifs at h with hlt hneg hu
    · simp only [rpcPages] at hlt
      obtain ⟨h₁, h₂, h₃, h₄, h₅⟩ := ih h (by omega)
      refine ⟨by omega, h₂, fun hx => ?_, fun j hj hj' => ?_, ?_⟩
      · have : x ≠ idx := by omega
        simpa [this] using h₃ hx
      · by_cases he : j = idx
        · exact he ▸ hu
        · simpa [he] using h₄ j (by omega) hj'
      · rw [h₅]
        exact clearRange_update_first (by omega)
    · obtain ⟨rfl, rfl⟩ := Prod.mk.inj (Option.some.inj h)
      exact ⟨le_rfl, by omega, fun _ => by simpa using hu, fun j hj hj' => by omega, (clearRange_self _).symm⟩
    · obtain ⟨rfl, rfl⟩ := Prod.mk.inj (Option.some.inj h)
      simp only [rpcPages] at hlt
      exact ⟨le_rfl, by omega, fun _ => by omega, fun j hj hj' => by omega, (clearRange_self _).symm⟩

lemma clearUp_exists {fuel : ℕ} (hidx : 0 ≤ idx) (hle : idx ≤ 511) (hf : 511 < fuel + idx) :
    ∃ r, clearUp fuel user idx = some r := by
  induction fuel generalizing user idx with
  | zero => omega
  | succ fuel ih =>
    rw [clearUp]
    split_ifs with hlt hneg hu
    · omega
    · simp only [rpcPages] at hlt
      apply ih
      · omega
      · omega
      · push_cast at hf
        omega
    · exact ⟨_, rfl⟩
    · exact ⟨_, rfl⟩

end Kmi.Rpc
