import Mathlib.Tactic.SplitIfs

/-!
# Fields of a word

A 32-bit word of four fields, one a byte, of which the low five bits count.
Ors of shifted values are read back field by field.
-/

namespace NupaNet.Foundation

def byteField (word : BitVec 32) (k : Nat) : BitVec 32 := (word >>> (8 * k)) &&& 0x1f#32

private theorem getLsbD_low5 (b : Nat) : (0x1f#32).getLsbD b = decide (b < 5) := by
  rcases Nat.lt_or_ge b 32 with hb | hb
  · revert b
    decide
  · rw [BitVec.getLsbD_of_ge _ _ hb]
    exact (decide_eq_false (by omega)).symm

theorem byteField_zero (k : Nat) : byteField 0#32 k = 0#32 := by
  simp [byteField]

theorem byteField_or (x y : BitVec 32) (k : Nat) :
    byteField (x ||| y) k = byteField x k ||| byteField y k := by
  rw [byteField, BitVec.ushiftRight_or_distrib, BitVec.and_or_distrib_right]
  rfl

/-- A value in field `m` is all of that field and nothing of the others. -/
theorem byteField_shiftLeft (value : BitVec 32) {k m : Nat} (hk : k < 4) :
    byteField ((value &&& 0x1f#32) <<< (8 * m)) k =
      if k = m then value &&& 0x1f#32 else 0#32 := by
  apply BitVec.eq_of_getLsbD_eq
  intro b hb
  simp only [byteField, BitVec.getLsbD_and, BitVec.getLsbD_ushiftRight, BitVec.getLsbD_shiftLeft,
    getLsbD_low5]
  split_ifs with hkm
  · subst hkm
    rw [BitVec.getLsbD_and, getLsbD_low5]
    by_cases hlow : b < 5
    · have hin : 8 * k + b < 32 := by omega
      have hge : ¬ 8 * k + b < 8 * k := by omega
      simp [hlow, hin, hge]
    · simp [hlow]
  · by_cases hlow : b < 5
    · have hout : 8 * k + b < 8 * m ∨ 5 ≤ 8 * k + b - 8 * m := by omega
      rcases hout with hout | hout
      · simp [hout]
      · have hnot : ¬ 8 * k + b - 8 * m < 5 := by omega
        simp [hnot]
    · simp [hlow]

theorem ofNat_and_low5 {n : Nat} (h : n < 32) :
    BitVec.ofNat 32 n &&& 0x1f#32 = BitVec.ofNat 32 n := by
  apply BitVec.eq_of_toNat_eq
  rw [BitVec.toNat_and, BitVec.toNat_ofNat, BitVec.toNat_ofNat]
  have hmod : n % 2 ^ 32 = n := Nat.mod_eq_of_lt (by omega)
  rw [hmod]
  exact (Nat.and_two_pow_sub_one_eq_mod n 5).trans (Nat.mod_eq_of_lt h)

end NupaNet.Foundation
