import Mathlib.Data.Int.Log
import Mathlib.Algebra.Order.Round
import Mathlib.Data.Rat.Floor
import Mathlib.Tactic.Linarith
import Mathlib.Tactic.FieldSimp
import Mathlib.Tactic.Ring

/-!
# Double precision

A rational number is rounded to the nearest one with 53 binary digits, halves to the even one. The
limits of the exponent are left out.
-/
namespace Inet.Lib.Double

def nearestEven (x : ℚ) : ℤ :=
  if x - ⌊x⌋ < 1 / 2 then ⌊x⌋
  else if 1 / 2 < x - ⌊x⌋ then ⌊x⌋ + 1
  else ⌊x⌋ + ⌊x⌋ % 2

/-- The distance of the doubles around a positive number. -/
def spacing (x : ℚ) : ℚ := (2 : ℚ) ^ (Int.log 2 x - 52)

/-- What an operation returns whose exact result is a number from zero on. -/
def toDouble (x : ℚ) : ℚ := if x = 0 then 0 else nearestEven (x / spacing x) * spacing x

variable {x : ℚ}

theorem nearestEven_error (x : ℚ) : |(nearestEven x : ℚ) - x| ≤ 1 / 2 := by
  have low := Int.floor_le x
  have high := Int.lt_floor_add_one x
  have even : (0 : ℚ) ≤ (⌊x⌋ % 2 : ℤ) ∧ ((⌊x⌋ % 2 : ℤ) : ℚ) ≤ 1 := by
    constructor
    · exact_mod_cast Int.emod_nonneg ⌊x⌋ (by decide)
    · exact_mod_cast (show ⌊x⌋ % 2 ≤ 1 by omega)
  rw [nearestEven, abs_le]
  split
  · constructor <;> linarith
  split
  · push_cast
    constructor <;> linarith
  · push_cast at even ⊢
    constructor <;> linarith

theorem spacing_pos (x : ℚ) : 0 < spacing x := zpow_pos (by norm_num) _

theorem spacing_le (positive : 0 < x) : spacing x ≤ x / 2 ^ 52 := by
  have power := Int.zpow_log_le_self (R := ℚ) (b := 2) (by decide) positive
  rw [spacing, zpow_sub₀ (by norm_num), le_div_iff₀ (by positivity)]
  have cancel : (2 : ℚ) ^ Int.log 2 x / 2 ^ (52 : ℤ) * 2 ^ 52 = 2 ^ Int.log 2 x := by
    rw [show (2 : ℚ) ^ (52 : ℤ) = 2 ^ 52 by norm_cast]
    field_simp
  rw [cancel]
  exact_mod_cast power

/-- The rounding error is at most half of the distance of the doubles. -/
theorem toDouble_error (nonneg : 0 ≤ x) : |toDouble x - x| ≤ x / 2 ^ 53 := by
  rcases nonneg.eq_or_lt with rfl | positive
  · simp [toDouble]
  have step := spacing_pos x
  have small := spacing_le positive
  have nearest := nearestEven_error (x / spacing x)
  have scaled : toDouble x - x = (nearestEven (x / spacing x) - x / spacing x) * spacing x := by
    rw [toDouble, if_neg positive.ne']
    field_simp
  calc |toDouble x - x| = |(nearestEven (x / spacing x) : ℚ) - x / spacing x| * spacing x := by
        rw [scaled, abs_mul, abs_of_pos step]
    _ ≤ 1 / 2 * spacing x := mul_le_mul_of_nonneg_right nearest step.le
    _ ≤ x / 2 ^ 53 := by
        have half : x / 2 ^ 53 = x / 2 ^ 52 / 2 := by ring
        rw [half]
        linarith

end Inet.Lib.Double
