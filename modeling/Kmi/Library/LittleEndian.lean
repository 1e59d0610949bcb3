import Mathlib.Tactic

/-! Words in a memory of bytes, lowest byte first. -/

namespace Kmi.Library.LittleEndian

def loadBits (w : ℕ) (m : ℕ → UInt8) (a : ℕ) : BitVec w :=
  (BitVec.iunfoldr (fun i s => (s, (m (a + i / 8)).toBitVec.getLsbD (i % 8))) ()).2

def byteOf {w : ℕ} (x : BitVec w) (k : ℕ) : UInt8 := ⟨x.extractLsb' (8 * k) 8⟩

def storeBits {w : ℕ} (m : ℕ → UInt8) (a : ℕ) (x : BitVec w) : ℕ → UInt8 := fun y =>
  if a ≤ y ∧ y < a + w / 8 then byteOf x (y - a) else m y

variable {w i k a y : ℕ} {m : ℕ → UInt8} {x : BitVec w} {c : UInt8}

lemma getLsbD_loadBits (hi : i < w) :
    (loadBits w m a).getLsbD i = (m (a + i / 8)).toBitVec.getLsbD (i % 8) :=
  BitVec.iunfoldr_getLsbD (fun _ => ()) ⟨i, hi⟩ fun _ => rfl

lemma getLsbD_byteOf (hi : i < 8) : (byteOf x k).toBitVec.getLsbD i = x.getLsbD (8 * k + i) := by
  rw [byteOf, BitVec.getLsbD_extractLsb', decide_eq_true hi, Bool.true_and]

lemma byte_ext (h : ∀ i < 8, (byteOf x k).toBitVec.getLsbD i = c.toBitVec.getLsbD i) : byteOf x k = c := by
  apply UInt8.toBitVec_inj.1
  apply BitVec.eq_of_getLsbD_eq
  exact h

lemma byteOf_loadBits (hk : 8 * k + 8 ≤ w) : byteOf (loadBits w m a) k = m (a + k) := by
  apply byte_ext
  intro i hi
  rw [getLsbD_byteOf hi, getLsbD_loadBits (by omega)]
  congr 3 <;> omega

lemma storeBits_inside (hlo : a ≤ y) (hhi : y < a + w / 8) : storeBits m a x y = byteOf x (y - a) :=
  if_pos ⟨hlo, hhi⟩

lemma storeBits_outside (h : y < a ∨ a + w / 8 ≤ y) : storeBits m a x y = m y :=
  if_neg (by omega)

end Kmi.Library.LittleEndian
