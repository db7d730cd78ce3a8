import Mathlib.Tactic.IntervalCases

namespace GridWitness.Library

/-- A date of the civil calendar. -/
structure Date where
  year : Nat
  month : Nat
  day : Nat
  deriving DecidableEq

namespace Date

def isLeap (year : Nat) : Prop := year % 4 = 0 ∧ (year % 100 ≠ 0 ∨ year % 400 = 0)

instance (year : Nat) : Decidable (isLeap year) := inferInstanceAs (Decidable (_ ∧ _))

def monthLength (year month : Nat) : Nat :=
  match month with
  | 2 => if isLeap year then 29 else 28
  | 4 | 6 | 9 | 11 => 30
  | _ => 31

structure Valid (d : Date) : Prop where
  month_pos : 1 ≤ d.month
  month_le : d.month ≤ 12
  day_pos : 1 ≤ d.day
  day_le : d.day ≤ monthLength d.year d.month

instance (d : Date) : Decidable d.Valid :=
  decidable_of_iff (1 ≤ d.month ∧ d.month ≤ 12 ∧ 1 ≤ d.day ∧ d.day ≤ monthLength d.year d.month)
    ⟨fun ⟨h₁, h₂, h₃, h₄⟩ => ⟨h₁, h₂, h₃, h₄⟩, fun h => ⟨h.month_pos, h.month_le, h.day_pos, h.day_le⟩⟩

/-- The day after. -/
def next (d : Date) : Date :=
  if d.day < monthLength d.year d.month then { d with day := d.day + 1 }
  else if d.month < 12 then ⟨d.year, d.month + 1, 1⟩
  else ⟨d.year + 1, 1, 1⟩

/-- The day before. -/
def prev (d : Date) : Date :=
  if 1 < d.day then { d with day := d.day - 1 }
  else if 1 < d.month then ⟨d.year, d.month - 1, monthLength d.year (d.month - 1)⟩
  else ⟨d.year - 1, 12, 31⟩

/-- The number of days since 1 January 1970. -/
def number (d : Date) : Int :=
  let y : Int := if d.month ≤ 2 then d.year - 1 else d.year
  let m : Int := (d.month + 9) % 12
  365 * y + y / 4 - y / 100 + y / 400 + (153 * m + 2) / 5 + (d.day - 1) - 719468

theorem monthLength_pos (year month : Nat) : 28 ≤ monthLength year month ∧ monthLength year month ≤ 31 := by
  unfold monthLength
  split
  · split <;> omega
  all_goals omega

theorem prev_valid {d : Date} (h : d.Valid) : d.prev.Valid := by
  obtain ⟨hm, hm', hd, hd'⟩ := h
  unfold prev
  split
  · exact ⟨hm, hm', by simp only; omega, by simp only; omega⟩
  · split
    · refine ⟨by simp only; omega, by simp only; omega, ?_, le_refl _⟩
      have := (monthLength_pos d.year (d.month - 1)).1
      simp only
      omega
    · exact ⟨by simp, by simp, by simp, by simp [monthLength]⟩

/-- The day after has the next number: the months of a year from March on are counted in one go. -/
theorem number_next {d : Date} (h : d.Valid) : d.next.number = d.number + 1 := by
  obtain ⟨year, month, day⟩ := d
  obtain ⟨hm, hm', hd, hd'⟩ := h
  simp only at hm hm' hd hd'
  simp only [next]
  split
  · simp only [number]
    push_cast
    split <;> omega
  · next hlast =>
    have hlast : day = monthLength year month := by omega
    subst hlast
    by_cases hfeb : month = 2
    · subst hfeb
      simp only [number]
      by_cases hleap : isLeap year
      · have hlen : monthLength year 2 = 29 := if_pos hleap
        rw [isLeap] at hleap
        simp [hlen]
        omega
      · have hlen : monthLength year 2 = 28 := if_neg hleap
        rw [isLeap] at hleap
        simp [hlen]
        omega
    · interval_cases month <;> simp [number, monthLength] at hfeb ⊢ <;> omega

/-- The day before is the one whose day after it is. -/
theorem next_prev {d : Date} (h : d.Valid) (hyear : 1 ≤ d.year) : d.prev.next = d := by
  obtain ⟨year, month, day⟩ := d
  obtain ⟨hm, hm', hd, hd'⟩ := h
  simp only at hm hm' hd hd' hyear
  simp only [prev]
  split
  · have hlt : day - 1 < monthLength year month := by omega
    simp only [next, if_pos hlt, Date.mk.injEq, true_and]
    omega
  · split
    · have hlt : month - 1 < 12 := by omega
      simp only [next, lt_irrefl, if_false, if_pos hlt, Date.mk.injEq, true_and]
      omega
    · simp only [next, monthLength, lt_irrefl, if_false, Date.mk.injEq]
      omega

theorem number_prev {d : Date} (h : d.Valid) (hyear : 1 ≤ d.year) : d.prev.number = d.number - 1 := by
  have hnext := number_next (prev_valid h)
  rw [next_prev h hyear] at hnext
  omega

end Date

end GridWitness.Library
