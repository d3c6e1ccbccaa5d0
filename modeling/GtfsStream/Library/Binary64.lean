import Mathlib.Data.Nat.Size
import Mathlib.Algebra.Order.Ring.Int

/-!
# Integers as binary64 numbers

The binary64 number nearest to an integer keeps 53 binary digits, and a tie goes to the even
significand. Up to `2 ^ 53` nothing is lost, and from there on no number is rounded below it.
-/

namespace GtfsStream.Binary64

/-- The number of binary digits of a significand. -/
def precision : ℕ := 53

/-- All numbers are less than two to this power. -/
def maxExponent : ℕ := 1024

/-- The nearest number with 53 binary digits and zeros after them. -/
def roundNat (n : ℕ) : ℕ :=
  let unit := 2 ^ (n.size - precision)
  let q := n / unit
  if 2 * (n % unit) < unit ∨ 2 * (n % unit) = unit ∧ q % 2 = 0 then q * unit else (q + 1) * unit

/-- Rounding is symmetric. -/
def round (n : ℤ) : ℤ := n.sign * roundNat n.natAbs

theorem roundNat_of_lt {n : ℕ} (h : n < 2 ^ precision) : roundNat n = n := by
  have hunit : n.size - precision = 0 := Nat.sub_eq_zero_of_le (Nat.size_le.mpr h)
  rw [roundNat, hunit, pow_zero, Nat.mod_one, Nat.div_one, if_pos (Or.inl (by decide)), mul_one]

/-- What has more digits stays above those that have not. -/
theorem le_roundNat {n : ℕ} (h : 2 ^ precision ≤ n) : 2 ^ precision ≤ roundNat n := by
  obtain ⟨k, hk⟩ : ∃ k, n.size = precision + k + 1 :=
    ⟨n.size - precision - 1, by have := Nat.lt_size.mpr h; omega⟩
  have hunit : n.size - precision = k + 1 := by omega
  have hq : 2 ^ (precision - 1) ≤ n / 2 ^ (k + 1) := by
    rw [Nat.le_div_iff_mul_le (Nat.pow_pos (by decide)), ← pow_add]
    exact Nat.lt_size.mp (by rw [hk, precision]; omega)
  have htwo : 2 ≤ 2 ^ (k + 1) := by
    rw [pow_succ]
    exact Nat.le_mul_of_pos_left 2 (Nat.pow_pos (by decide))
  have hlow : 2 ^ precision ≤ n / 2 ^ (k + 1) * 2 ^ (k + 1) := Nat.mul_le_mul hq htwo
  rw [roundNat, hunit]
  split_ifs
  · exact hlow
  · exact hlow.trans (Nat.mul_le_mul_right _ (Nat.le_succ _))

theorem round_of_lt {n : ℤ} (h : n.natAbs < 2 ^ precision) : round n = n := by
  rw [round, roundNat_of_lt h, Int.sign_mul_natAbs]

theorem le_natAbs_round {n : ℤ} (h : 2 ^ precision ≤ n.natAbs) :
    2 ^ precision ≤ (round n).natAbs := by
  have hsign : n.sign.natAbs = 1 := by
    refine Int.natAbs_sign_of_ne_zero ?_
    rintro rfl
    exact absurd h (by decide)
  rw [round, Int.natAbs_mul, hsign, one_mul, Int.natAbs_natCast]
  exact le_roundNat h

end GtfsStream.Binary64
