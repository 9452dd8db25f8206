import Mathlib

/-!
# `Tmet.Lib.Bytes`: numbers in network byte order

`bigEndian k n` are the `k` low-order bytes of `n`, most significant first, and
`ofBigEndian` reads a byte string back. `ofBigEndian_bigEndian` is the round trip modulo
`256 ^ k`. `bigEndian_ofBigEndian` is the one on the other side, exact.
-/

set_option autoImplicit false

namespace Tmet.Lib

/-- A byte string. -/
abbrev Bytes := List UInt8

/-- The `k` low-order bytes of `n`, most significant first. -/
def bigEndian : ℕ → ℕ → Bytes
  | 0, _ => []
  | k + 1, n => UInt8.ofNat (n / 256 ^ k) :: bigEndian k n

/-- The number that a byte string spells, most significant byte first. -/
def ofBigEndian : Bytes → ℕ
  | [] => 0
  | b :: bs => b.toNat * 256 ^ bs.length + ofBigEndian bs

@[simp] theorem length_bigEndian (k n : ℕ) : (bigEndian k n).length = k := by
  induction k with
  | zero => rfl
  | succ k ih => simp [bigEndian, ih]

theorem ofBigEndian_lt (bs : Bytes) : ofBigEndian bs < 256 ^ bs.length := by
  induction bs with
  | nil => simp [ofBigEndian]
  | cons b bs ih =>
      have hb : b.toNat + 1 ≤ 256 := b.toNat_lt
      calc ofBigEndian (b :: bs) < b.toNat * 256 ^ bs.length + 256 ^ bs.length :=
            Nat.add_lt_add_left ih _
        _ = (b.toNat + 1) * 256 ^ bs.length := by ring
        _ ≤ 256 * 256 ^ bs.length := Nat.mul_le_mul_right _ hb
        _ = 256 ^ (b :: bs).length := by rw [List.length_cons, pow_succ, Nat.mul_comm]

/-- Writing and reading back keeps the number modulo the room there is. -/
theorem ofBigEndian_bigEndian (k n : ℕ) : ofBigEndian (bigEndian k n) = n % 256 ^ k := by
  induction k with
  | zero => simp [bigEndian, ofBigEndian, Nat.mod_one]
  | succ k ih =>
      have hdigit : (UInt8.ofNat (n / 256 ^ k)).toNat = n / 256 ^ k % 256 := by
        simp
      rw [bigEndian, ofBigEndian, length_bigEndian, hdigit, ih, pow_succ, Nat.mod_mul, Nat.mul_comm,
        Nat.add_comm]

/-- Reading and writing back is the identity. -/
theorem bigEndian_ofBigEndian (bs : Bytes) : bigEndian bs.length (ofBigEndian bs) = bs := by
  -- with a carry `c` in front of the bytes, for the induction
  suffices h : ∀ (bs : Bytes) (c : ℕ),
      bigEndian bs.length (c * 256 ^ bs.length + ofBigEndian bs) = bs by
    simpa using h bs 0
  intro bs
  induction bs with
  | nil => intro c; rfl
  | cons b bs ih =>
      intro c
      have hpos : 0 < 256 ^ bs.length := Nat.pow_pos (by decide)
      have hsum : c * 256 ^ (b :: bs).length + ofBigEndian (b :: bs)
          = (c * 256 + b.toNat) * 256 ^ bs.length + ofBigEndian bs := by
        rw [ofBigEndian, List.length_cons, pow_succ]
        ring
      have hhead : (c * 256 + b.toNat) * 256 ^ bs.length + ofBigEndian bs
          = ofBigEndian bs + 256 ^ bs.length * (c * 256 + b.toNat) := by ring
      rw [hsum, List.length_cons, bigEndian, ih, hhead, Nat.add_mul_div_left _ _ hpos,
        Nat.div_eq_of_lt (ofBigEndian_lt bs), Nat.zero_add]
      congr 1
      apply UInt8.toNat_inj.mp
      have hb : b.toNat < 256 := b.toNat_lt
      simp

end Tmet.Lib
