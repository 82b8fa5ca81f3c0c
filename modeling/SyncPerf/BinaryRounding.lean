import Mathlib.Data.Int.Log
import Mathlib.Data.Rat.Floor
import Mathlib.Tactic.Linarith

namespace BinaryRounding

/-!
# Rounding to binary floating-point numbers

Rounding of rationals to a number of significant bits, to the nearest and to even.  The exponent is
not bounded, so that the result is the one of a format with that precision wherever it neither
overflows nor becomes subnormal.

* `roundEven` — the nearest integer;
* `ulp`, `roundBits` — the unit in the last place, and the rounding;
* `roundBits_error` — the relative error of one rounding.
-/

/-- The nearest integer, and of two the even one. -/
def roundEven (q : ℚ) : ℤ :=
  if q - ⌊q⌋ < 1 / 2 ∨ q - ⌊q⌋ = 1 / 2 ∧ ⌊q⌋ % 2 = 0 then ⌊q⌋ else ⌊q⌋ + 1

/-- The unit in the last of `p` significant bits. -/
def ulp (p : ℕ) (q : ℚ) : ℚ := 2 ^ (Int.log 2 |q| - (p - 1))

/-- The nearest number with `p` significant bits. -/
def roundBits (p : ℕ) (q : ℚ) : ℚ := roundEven (q / ulp p q) * ulp p q

/-- The nearest integer is at most a half away. -/
theorem roundEven_error (q : ℚ) : |(roundEven q : ℚ) - q| ≤ 1 / 2 := by
  have hlow := Int.floor_le q
  have hhigh := Int.lt_floor_add_one q
  unfold roundEven
  split
  · rename_i hdown
    have hhalf : q - ⌊q⌋ ≤ 1 / 2 := by
      rcases hdown with hlt | ⟨heq, -⟩
      · exact hlt.le
      · exact heq.le
    rw [abs_le]
    constructor <;> linarith
  · rename_i hup
    have hhalf : 1 / 2 ≤ q - ⌊q⌋ := not_lt.mp fun hlt => hup (.inl hlt)
    push_cast
    rw [abs_le]
    constructor <;> linarith

theorem ulp_pos (p : ℕ) (q : ℚ) : 0 < ulp p q := zpow_pos two_pos _

/-- Half a unit in the last place is small beside the number. -/
theorem ulp_le (p : ℕ) {q : ℚ} (hq : q ≠ 0) : ulp p q / 2 ≤ 2 ^ (-(p : ℤ)) * |q| := by
  have hlog : (2 : ℚ) ^ Int.log 2 |q| ≤ |q| := Int.zpow_log_le_self (by decide) (abs_pos.mpr hq)
  have hulp : ulp p q / 2 = 2 ^ (-(p : ℤ)) * 2 ^ Int.log 2 |q| := by
    have hexp : Int.log 2 |q| - ((p : ℤ) - 1) = -p + Int.log 2 |q| + 1 := by omega
    rw [ulp, hexp, zpow_add_one₀ two_ne_zero, zpow_add₀ two_ne_zero,
      mul_div_cancel_right₀ _ two_ne_zero]
  rw [hulp]
  exact mul_le_mul_of_nonneg_left hlog (zpow_pos two_pos _).le

/-- **One rounding** changes a number by at most half a unit in the last place. -/
theorem roundBits_error (p : ℕ) (q : ℚ) : |roundBits p q - q| ≤ 2 ^ (-(p : ℤ)) * |q| := by
  by_cases hq : q = 0
  · subst hq
    simp [roundBits, roundEven]
  · have hpos := ulp_pos p q
    have hscale : q = q / ulp p q * ulp p q := (div_mul_cancel₀ q hpos.ne').symm
    calc |roundBits p q - q|
        = |(roundEven (q / ulp p q) : ℚ) - q / ulp p q| * ulp p q := by
          rw [← abs_of_pos hpos, ← abs_mul, abs_of_pos hpos, sub_mul, ← hscale]
          rfl
      _ ≤ 1 / 2 * ulp p q := mul_le_mul_of_nonneg_right (roundEven_error _) hpos.le
      _ = ulp p q / 2 := by ring
      _ ≤ 2 ^ (-(p : ℤ)) * |q| := ulp_le p hq

end BinaryRounding
