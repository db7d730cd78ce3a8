import Mathlib.Algebra.Order.Floor.Semiring
import Mathlib.Data.Rat.Floor

namespace GridWitness.Library.FixedPoint

section Bytes

/-- The bytes of a number in a fixed width, the most significant first. -/
def bytes : Nat → Nat → List UInt8
  | 0, _ => []
  | w + 1, n => bytes w (n / 256) ++ [UInt8.ofNat n]

def value (bs : List UInt8) : Nat := bs.foldl (fun n b => 256 * n + b.toNat) 0

@[simp] theorem length_bytes (w n : Nat) : (bytes w n).length = w := by
  induction w generalizing n with
  | zero => rfl
  | succ w ih => rw [bytes, List.length_append, ih, List.length_singleton]

theorem value_bytes {w n : Nat} (h : n < 256 ^ w) : value (bytes w n) = n := by
  induction w generalizing n with
  | zero =>
    rw [Nat.pow_zero] at h
    simp only [value, bytes, List.foldl_nil]
    omega
  | succ w ih =>
    have hrest : n / 256 < 256 ^ w := Nat.div_lt_of_lt_mul (by rwa [Nat.pow_succ, Nat.mul_comm] at h)
    have hvalue := ih hrest
    rw [value] at hvalue
    rw [value, bytes, List.foldl_append, hvalue, List.foldl_cons, List.foldl_nil, UInt8.toNat_ofNat']
    omega

end Bytes

section Truncation

/-- The part of a number before the point. -/
def whole (x : ℚ) : Nat := ⌊x⌋₊

/-- The bits of a number after the point, cut off after some of them. -/
def fraction (bits : Nat) (x : ℚ) : Nat := ⌊Int.fract x * 2 ^ bits⌋₊

def truncated (bits : Nat) (x : ℚ) : ℚ := whole x + fraction bits x / 2 ^ bits

variable {bits : Nat} {x : ℚ}

theorem fraction_lt (bits : Nat) (x : ℚ) : fraction bits x < 2 ^ bits := by
  rw [fraction, Nat.floor_lt (by positivity)]
  push_cast
  exact mul_lt_of_lt_one_left (by positivity) (Int.fract_lt_one x)

theorem whole_add_fract (hx : 0 ≤ x) : (whole x : ℚ) + Int.fract x = x := by
  rw [whole, natCast_floor_eq_intCast_floor hx, Int.floor_add_fract]

theorem truncated_le (bits : Nat) (hx : 0 ≤ x) : truncated bits x ≤ x := by
  have hfloor : (fraction bits x : ℚ) ≤ Int.fract x * 2 ^ bits := Nat.floor_le (by positivity)
  have hfraction : (fraction bits x : ℚ) / 2 ^ bits ≤ Int.fract x :=
    (div_le_iff₀ (by positivity)).mpr hfloor
  calc truncated bits x ≤ whole x + Int.fract x := by rw [truncated]; gcongr
    _ = x := whole_add_fract hx

/-- Less than one unit of the last bit is cut off. -/
theorem lt_truncated (bits : Nat) (hx : 0 ≤ x) : x < truncated bits x + 1 / 2 ^ bits := by
  have hfloor : Int.fract x * 2 ^ bits < fraction bits x + 1 := Nat.lt_floor_add_one _
  have hfraction : Int.fract x < (fraction bits x + 1) / 2 ^ bits :=
    (lt_div_iff₀ (by positivity)).mpr hfloor
  calc x = whole x + Int.fract x := (whole_add_fract hx).symm
    _ < whole x + (fraction bits x + 1) / 2 ^ bits := by gcongr
    _ = truncated bits x + 1 / 2 ^ bits := by rw [truncated, add_div, add_assoc]

end Truncation

end GridWitness.Library.FixedPoint
