import Mathlib.Data.List.Forall2
import Mathlib.Tactic.IntervalCases
import Mathlib.Tactic.Tauto

universe u

namespace GridWitness.Library.Padded

/-- The decimal numeral of a number in a fixed width, with leading zeros. -/
def numeral : Nat → Nat → List Char
  | 0, _ => []
  | w + 1, n => numeral w (n / 10) ++ [Nat.digitChar (n % 10)]

/-- The number of a numeral. -/
def value (cs : List Char) : Nat := Nat.ofDigitChars 10 cs 0

@[simp] theorem length_numeral (w n : Nat) : (numeral w n).length = w := by
  induction w generalizing n with
  | zero => rfl
  | succ w ih => rw [numeral, List.length_append, ih, List.length_singleton]

/-- Lists of one length are compared before what follows them. -/
theorem append_lt_append_iff {α : Type u} [LT α] {a b : List α} (x y : List α)
    (h : a.length = b.length) : a ++ x < b ++ y ↔ a < b ∨ a = b ∧ x < y := by
  induction a generalizing b with
  | nil =>
    obtain rfl : b = [] := List.length_eq_zero_iff.mp h.symm
    simp
  | cons c a ih =>
    cases b with
    | nil => cases h
    | cons d b =>
      rw [List.cons_append, List.cons_append, List.cons_lt_cons_iff, List.cons_lt_cons_iff,
        ih (Nat.succ.inj h), List.cons.injEq]
      tauto

section Numeral

variable {w n m : Nat}

theorem div_lt (h : n < 10 ^ (w + 1)) : n / 10 < 10 ^ w :=
  Nat.div_lt_of_lt_mul (by rwa [Nat.pow_succ, Nat.mul_comm] at h)

theorem value_numeral (h : n < 10 ^ w) : value (numeral w n) = n := by
  induction w generalizing n with
  | zero =>
    rw [Nat.pow_zero] at h
    simp only [value, numeral, Nat.ofDigitChars_nil]
    omega
  | succ w ih =>
    have hn := ih (div_lt h)
    rw [value] at hn
    rw [value, numeral, Nat.ofDigitChars_append, hn,
      Nat.ofDigitChars_cons_digitChar_of_lt_ten (Nat.mod_lt n (by decide)), Nat.ofDigitChars_nil,
      Nat.div_add_mod]

theorem numeral_inj (hn : n < 10 ^ w) (hm : m < 10 ^ w) : numeral w n = numeral w m ↔ n = m :=
  ⟨fun h => by rw [← value_numeral hn, h, value_numeral hm], congrArg _⟩

theorem digitChar_lt_iff {d e : Nat} (hd : d < 10) (he : e < 10) :
    Nat.digitChar d < Nat.digitChar e ↔ d < e := by
  interval_cases d <;> interval_cases e <;> decide

theorem isDigit_digitChar {d : Nat} (hd : d < 10) : (Nat.digitChar d).isDigit = true := by
  interval_cases d <;> decide

theorem isDigit_numeral (w n : Nat) : (numeral w n).all Char.isDigit = true := by
  induction w generalizing n with
  | zero => rfl
  | succ w ih =>
    rw [numeral, List.all_append, ih, List.all_cons, isDigit_digitChar (Nat.mod_lt n (by decide))]
    rfl

/-- Numerals of one width are in the order of their numbers. -/
theorem numeral_lt_iff (hn : n < 10 ^ w) (hm : m < 10 ^ w) : numeral w n < numeral w m ↔ n < m := by
  induction w generalizing n m with
  | zero =>
    rw [Nat.pow_zero] at hn hm
    simp only [numeral, List.not_lt_nil, false_iff]
    omega
  | succ w ih =>
    have hdigit := digitChar_lt_iff (Nat.mod_lt n (show 0 < 10 by decide)) (Nat.mod_lt m (by decide))
    rw [numeral, numeral, append_lt_append_iff _ _ (by simp), ih (div_lt hn) (div_lt hm),
      numeral_inj (div_lt hn) (div_lt hm), List.cons_lt_cons_iff, hdigit]
    simp only [List.not_lt_nil, and_false, or_false]
    omega

/-- A numeral is the usual one after its leading zeros. -/
theorem numeral_eq (hw : 0 < w) (h : n < 10 ^ w) :
    numeral w n = List.replicate (w - (Nat.toDigits 10 n).length) '0' ++ Nat.toDigits 10 n := by
  induction w generalizing n with
  | zero => cases hw
  | succ w ih =>
    rw [numeral, Nat.toDigits_eq_if (by decide)]
    rcases Nat.eq_zero_or_pos w with rfl | hpos
    · have hlt : n < 10 := by simpa using h
      simp [numeral, hlt, Nat.mod_eq_of_lt hlt]
    · rw [ih hpos (div_lt h)]
      split
      · next hlt =>
        rw [Nat.div_eq_of_lt hlt, Nat.mod_eq_of_lt hlt, Nat.toDigits_zero]
        obtain ⟨v, rfl⟩ : ∃ v, w = v + 1 := ⟨w - 1, by omega⟩
        simp [List.replicate_succ']
      · rw [List.length_append, List.length_singleton, Nat.add_sub_add_right, List.append_assoc]

end Numeral

section Render

/-- The numbers of a layout of widths and separators. -/
def render : List (Nat × Char) → List Nat → List Char
  | (w, sep) :: layout, n :: ns => numeral w n ++ sep :: render layout ns
  | _, _ => []

/-- One number to each field of a layout, which has room for it. -/
abbrev Fits (layout : List (Nat × Char)) (ns : List Nat) : Prop :=
  List.Forall₂ (fun field n => n < 10 ^ field.1) layout ns

/-- Texts of one layout are in the order of their numbers. -/
theorem render_lt_iff {layout : List (Nat × Char)} {ns ms : List Nat} (hn : Fits layout ns)
    (hm : Fits layout ms) : render layout ns < render layout ms ↔ ns < ms := by
  induction hn generalizing ms with
  | nil =>
    cases hm
    simp [render]
  | cons hlt _ ih =>
    cases hm with
    | cons hlt' hm =>
      rw [render, render, append_lt_append_iff _ _ (by simp), numeral_lt_iff hlt hlt',
        numeral_inj hlt hlt', List.cons_lt_cons_iff, ih hm, List.cons_lt_cons_iff]
      simp

/-- Read the numbers of a layout off the start of a text. -/
def read : List (Nat × Char) → List Char → Option (List Nat × List Char)
  | [], cs => some ([], cs)
  | (w, sep) :: layout, cs =>
    match cs.drop w with
    | [] => none
    | c :: rest =>
      if c = sep ∧ (cs.take w).all Char.isDigit then
        (read layout rest).map fun out => (value (cs.take w) :: out.1, out.2)
      else none

theorem read_render {layout : List (Nat × Char)} {ns : List Nat} (h : Fits layout ns) (tail : List Char) :
    read layout (render layout ns ++ tail) = some (ns, tail) := by
  induction h with
  | nil => rfl
  | @cons field n layout ns hlt _ ih =>
    have htake : (numeral field.1 n ++ field.2 :: (render layout ns ++ tail)).take field.1 = numeral field.1 n :=
      List.take_left' (length_numeral _ _)
    have hdrop : (numeral field.1 n ++ field.2 :: (render layout ns ++ tail)).drop field.1 =
        field.2 :: (render layout ns ++ tail) := List.drop_left' (length_numeral _ _)
    rw [render, List.append_assoc, List.cons_append, read, htake, hdrop]
    simp only [and_self, if_true, isDigit_numeral, ih, value_numeral hlt, Option.map_some]

end Render

end GridWitness.Library.Padded
