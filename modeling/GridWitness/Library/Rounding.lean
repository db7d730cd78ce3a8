import Mathlib.Data.Rat.Floor
import Mathlib.Tactic.Linarith

namespace GridWitness.Library.Rounding

/-- The nearest whole number, and of two as near the even one. -/
def halfEven (q : ℚ) : Int :=
  if Int.fract q < 1 / 2 then ⌊q⌋
  else if 1 / 2 < Int.fract q then ⌊q⌋ + 1
  else if ⌊q⌋ % 2 = 0 then ⌊q⌋ else ⌊q⌋ + 1

/-- The nearest number of some decimal places. -/
def decimals (places : Nat) (q : ℚ) : ℚ := halfEven (q * 10 ^ places) / 10 ^ places

variable {q : ℚ}

theorem abs_halfEven_sub (q : ℚ) : |(halfEven q : ℚ) - q| ≤ 1 / 2 := by
  have hfloor := Int.floor_add_fract q
  have hnonneg := Int.fract_nonneg q
  have hlt := Int.fract_lt_one q
  rw [abs_le, halfEven]
  split
  · constructor <;> linarith
  · split
    · push_cast
      constructor <;> linarith
    · split
      · constructor <;> linarith
      · push_cast
        constructor <;> linarith

theorem abs_decimals_sub (places : Nat) (q : ℚ) : |decimals places q - q| ≤ 1 / 2 / 10 ^ places := by
  have hpos : (0 : ℚ) < 10 ^ places := by positivity
  have hscaled : decimals places q - q = (halfEven (q * 10 ^ places) - q * 10 ^ places) / 10 ^ places := by
    rw [decimals, sub_div, mul_div_cancel_right₀ q hpos.ne']
  rw [hscaled, abs_div, abs_of_pos hpos]
  exact div_le_div_of_nonneg_right (abs_halfEven_sub _) hpos.le

/-- Rounding does not leave the bounds that are whole numbers themselves. -/
theorem abs_halfEven_le {n : Int} (h : |q| ≤ n) : |halfEven q| ≤ n := by
  have hnear := abs_halfEven_sub q
  rw [abs_le] at h hnear
  have hlow : ((-n - 1 : Int) : ℚ) < halfEven q := by
    push_cast
    linarith
  have hhigh : (halfEven q : ℚ) < ((n + 1 : Int) : ℚ) := by
    push_cast
    linarith
  rw [Int.cast_lt] at hlow hhigh
  rw [abs_le]
  omega

end GridWitness.Library.Rounding
