import Mathlib.Algebra.Order.Field.Basic
import Mathlib.Data.Finset.Max
import Mathlib.Data.List.Sort
import Mathlib.Tactic.Linarith

universe u

namespace GridWitness.Library

namespace Median

section Rank

variable {K : Type u} [LinearOrder K] {s : List K} {lo hi : K}

/-- In a sorted list what stands behind all the values below a bound is not below it. -/
theorem le_of_countP (hs : s.Pairwise (· ≤ ·)) {k : Nat} {x : K} (hx : s[k]? = some x)
    (hk : s.countP (· < lo) ≤ k) : lo ≤ x := by
  by_contra hlow
  have hlow : x < lo := not_le.mp hlow
  obtain ⟨hlt, hget⟩ := List.getElem?_eq_some_iff.mp hx
  have hfirst : ∀ y ∈ s.take (k + 1), y < lo := by
    intro y hy
    obtain ⟨i, hi, rfl⟩ := List.mem_iff_getElem.mp hy
    rw [List.length_take] at hi
    rw [List.getElem_take]
    rcases Nat.lt_or_ge i k with hik | hik
    · exact (hget ▸ List.pairwise_iff_getElem.mp hs i k (by omega) hlt hik).trans_lt hlow
    · obtain rfl : i = k := by omega
      exact hget ▸ hlow
  have hcount : (s.take (k + 1)).countP (· < lo) = k + 1 := by
    rw [List.countP_eq_length.mpr (by simpa using hfirst), List.length_take]
    omega
  have hall : (s.take (k + 1)).countP (· < lo) ≤ s.countP (· < lo) :=
    (List.take_sublist _ _).countP_le
  omega

/-- The same from the other end. -/
theorem ge_of_countP (hs : s.Pairwise (· ≤ ·)) {k : Nat} {x : K} (hx : s[k]? = some x)
    (hk : s.countP (hi < ·) + k < s.length) : x ≤ hi := by
  by_contra hhigh
  have hhigh : hi < x := not_le.mp hhigh
  obtain ⟨hlt, hget⟩ := List.getElem?_eq_some_iff.mp hx
  have hlast : ∀ y ∈ s.drop k, hi < y := by
    intro y hy
    obtain ⟨i, hi', rfl⟩ := List.mem_iff_getElem.mp hy
    rw [List.length_drop] at hi'
    rw [List.getElem_drop]
    rcases Nat.eq_zero_or_pos i with rfl | hpos
    · simpa [hget] using hhigh
    · exact hhigh.trans_le (hget ▸ List.pairwise_iff_getElem.mp hs k (k + i) hlt (by omega) (by omega))
  have hcount : (s.drop k).countP (hi < ·) = s.length - k := by
    rw [List.countP_eq_length.mpr (by simpa using hlast), List.length_drop]
  have hall : (s.drop k).countP (hi < ·) ≤ s.countP (hi < ·) :=
    (List.drop_sublist _ _).countP_le
  omega

end Rank

section Middle

variable {K : Type u} [Field K] {s l : List K} {lo hi m : K}

/-- The middle of a sorted list, which is the mean of the two middle values of a list of even length. -/
def middle (s : List K) : Option K :=
  if s.length % 2 = 1 then s[s.length / 2]?
  else
    match s[s.length / 2 - 1]?, s[s.length / 2]? with
    | some a, some b => some ((a + b) / 2)
    | _, _ => none

theorem middle_isSome (h : s ≠ []) : (middle s).isSome := by
  have hlen : 0 < s.length := List.length_pos_iff.mpr h
  have hb : s.length / 2 < s.length := by omega
  have ha : s.length / 2 - 1 < s.length := by omega
  simp only [middle, List.getElem?_eq_getElem hb, List.getElem?_eq_getElem ha]
  split <;> rfl

variable [LinearOrder K]

/-- The median of a list, none of an empty one. -/
def median (l : List K) : Option K := middle (l.insertionSort (· ≤ ·))

theorem median_isSome (h : l ≠ []) : (median l).isSome :=
  middle_isSome fun hnil => h (by simpa [hnil] using (List.perm_insertionSort (· ≤ ·) l).symm.length_eq)

theorem median_perm {l' : List K} (h : l.Perm l') : median l = median l' := by
  have hsame : l.insertionSort (· ≤ ·) = l'.insertionSort (· ≤ ·) :=
    (((List.perm_insertionSort _ l).trans h).trans (List.perm_insertionSort _ l').symm).eq_of_pairwise'
      (List.pairwise_insertionSort _ l) (List.pairwise_insertionSort _ l')
  rw [median, median, hsame]

theorem median_pair (a b : K) : median [a, b] = some ((a + b) / 2) := by
  have hsort : [a, b].insertionSort (· ≤ ·) = if a ≤ b then [a, b] else [b, a] := rfl
  rw [median, hsort]
  split
  · simp [middle]
  · simp [middle, add_comm]

variable [IsStrictOrderedRing K]

theorem le_middle (hs : s.Pairwise (· ≤ ·)) (h : 2 * s.countP (· < lo) < s.length)
    (hm : middle s = some m) : lo ≤ m := by
  rw [middle] at hm
  split at hm
  · exact le_of_countP hs hm (by omega)
  · split at hm
    · next a b ha hb =>
      obtain rfl := Option.some.inj hm
      have hla : lo ≤ a := le_of_countP hs ha (by omega)
      have hlb : lo ≤ b := le_of_countP hs hb (by omega)
      linarith
    · cases hm

theorem middle_le (hs : s.Pairwise (· ≤ ·)) (h : 2 * s.countP (hi < ·) < s.length)
    (hm : middle s = some m) : m ≤ hi := by
  rw [middle] at hm
  split at hm
  · exact ge_of_countP hs hm (by omega)
  · split at hm
    · next a b ha hb =>
      obtain rfl := Option.some.inj hm
      have hha : a ≤ hi := ge_of_countP hs ha (by omega)
      have hhb : b ≤ hi := ge_of_countP hs hb (by omega)
      linarith
    · cases hm

/-- The median is at least what less than half of the values are below. -/
theorem le_median (h : 2 * l.countP (· < lo) < l.length) (hm : median l = some m) : lo ≤ m := by
  refine le_middle (List.pairwise_insertionSort (· ≤ ·) l) ?_ hm
  rwa [(List.perm_insertionSort (· ≤ ·) l).countP_eq, List.length_insertionSort]

/-- The median is at most what less than half of the values are above. -/
theorem median_le (h : 2 * l.countP (hi < ·) < l.length) (hm : median l = some m) : m ≤ hi := by
  refine middle_le (List.pairwise_insertionSort (· ≤ ·) l) ?_ hm
  rwa [(List.perm_insertionSort (· ≤ ·) l).countP_eq, List.length_insertionSort]

/-- The median of two lists stays within the bounds of the longer one. -/
theorem median_between {minority majority : List K} (h : minority.length < majority.length)
    (hm : median (minority ++ majority) = some m) :
    (∃ lo ∈ majority, lo ≤ m) ∧ ∃ hi ∈ majority, m ≤ hi := by
  have hne : majority.toFinset.Nonempty := by
    rw [List.toFinset_nonempty_iff]
    rintro rfl
    exact Nat.not_lt_zero _ h
  obtain ⟨lo, hlo, hmin⟩ := majority.toFinset.exists_min_image id hne
  obtain ⟨hi, hhi, hmax⟩ := majority.toFinset.exists_max_image id hne
  have hbelow : majority.countP (· < lo) = 0 :=
    List.countP_eq_zero.mpr fun x hx => by simpa using hmin x (List.mem_toFinset.mpr hx)
  have habove : majority.countP (hi < ·) = 0 :=
    List.countP_eq_zero.mpr fun x hx => by simpa using hmax x (List.mem_toFinset.mpr hx)
  have hfew : ∀ p : K → Bool, minority.countP p ≤ minority.length := fun p => List.countP_le_length
  refine ⟨⟨lo, List.mem_toFinset.mp hlo, le_median ?_ hm⟩, hi, List.mem_toFinset.mp hhi, median_le ?_ hm⟩
  · rw [List.countP_append, hbelow, List.length_append]
    have := hfew (· < lo)
    omega
  · rw [List.countP_append, habove, List.length_append]
    have := hfew (hi < ·)
    omega

end Middle

end Median

end GridWitness.Library
