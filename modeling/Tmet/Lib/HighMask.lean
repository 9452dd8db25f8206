import Mathlib

/-!
# `Tmet.Lib.HighMask`: masks of the high bits

`highMask w k` is the word of `w` bits with the `k` low bits cleared and all others
set. A word cut down to the mask is its quotient by `2 ^ k`, shifted back
(`toNat_and_highMask`); cut down to the complement of the mask it is the remainder
(`toNat_and_not_highMask`). `toNat_join` is the number of a word that takes its high
bits from one word and its low bits from another.
-/

set_option autoImplicit false

namespace Tmet.Lib

/-- All bits from `k` on. -/
def highMask (w k : ℕ) : BitVec w := BitVec.allOnes w <<< k

theorem getLsbD_highMask (w k i : ℕ) :
    (highMask w k).getLsbD i = (decide (k ≤ i) && decide (i < w)) := by
  unfold highMask
  rw [BitVec.getLsbD_shiftLeft, BitVec.getLsbD_allOnes, Bool.eq_iff_iff]
  simp
  omega

variable {w : ℕ}

/-- The bits under the mask, with zeros below. -/
theorem toNat_and_highMask (x : BitVec w) (k : ℕ) :
    (x &&& highMask w k).toNat = x.toNat / 2 ^ k * 2 ^ k := by
  apply Nat.eq_of_testBit_eq
  intro i
  rw [BitVec.testBit_toNat, BitVec.getLsbD_and, getLsbD_highMask, Nat.testBit_mul_two_pow,
    Nat.testBit_div_two_pow, BitVec.testBit_toNat]
  by_cases hk : k ≤ i
  · rw [Nat.sub_add_cancel hk]
    by_cases hi : i < w
    · simp [hk, hi]
    · simp [hi, BitVec.getLsbD_of_ge x i (by omega)]
  · simp [hk]

/-- The bits below the mask. -/
theorem toNat_and_not_highMask (x : BitVec w) (k : ℕ) :
    (x &&& ~~~highMask w k).toNat = x.toNat % 2 ^ k := by
  apply Nat.eq_of_testBit_eq
  intro i
  rw [BitVec.testBit_toNat, BitVec.getLsbD_and, BitVec.getLsbD_not, getLsbD_highMask,
    Nat.testBit_mod_two_pow, BitVec.testBit_toNat]
  by_cases hi : i < w
  · by_cases hk : i < k
    · simp [hi, hk]
    · simp [hi, hk, Nat.not_lt.mp hk]
  · simp [BitVec.getLsbD_of_ge x i (by omega)]

/-- High bits of one word and low bits of another. -/
theorem toNat_join (x y : BitVec w) (k : ℕ) :
    ((x &&& highMask w k) ||| (y &&& ~~~highMask w k)).toNat
      = x.toNat / 2 ^ k * 2 ^ k + y.toNat % 2 ^ k := by
  have hlow : y.toNat % 2 ^ k < 2 ^ k := Nat.mod_lt _ (Nat.two_pow_pos k)
  rw [BitVec.toNat_or, toNat_and_highMask, toNat_and_not_highMask, ← Nat.shiftLeft_eq,
    Nat.shiftLeft_add_eq_or_of_lt hlow]

end Tmet.Lib
