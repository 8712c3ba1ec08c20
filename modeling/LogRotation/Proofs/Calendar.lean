/-
  The ranges of the calendar's numbers: a day lies within its year, so its month is one of twelve,
  and its weekday one of seven.

  A year is as long as its months together (`yearStart_succ`, `sum_monthLengths`), and a day of the
  year passes over fewer months than there are as long as it lies below their sum
  (`passMonths_fst_lt`).
-/
import LogRotation.Calendar
import Mathlib.Algebra.Ring.Nat

namespace LogRotation.Calendar

/-- A year has 365 days, and a leap year one more. -/
theorem yearStart_succ (year : Int) :
    yearStart (year + 1) = yearStart year + if isLeap year then 366 else 365 := by
  unfold yearStart
  -- the divisors of the count of leap days are those that say what a leap year is
  by_cases h : isLeap year = true
  · rw [if_pos h]
    simp [isLeap] at h
    omega
  · rw [if_neg h]
    simp [isLeap] at h
    omega

theorem sum_monthLengths (leap : Bool) : (monthLengths leap).sum = if leap then 366 else 365 := by
  cases leap <;> rfl

theorem dayOfYear_lt_sum (day : Int) :
    dayOfYear day < (monthLengths (isLeap (yearOf day))).sum := by
  have hlow := yearStart_yearOf_le day
  have hhigh := lt_yearStart_yearOf_succ day
  rw [yearStart_succ] at hhigh
  rw [sum_monthLengths, dayOfYear]
  split at hhigh <;> simp_all <;> omega

/-- A day below the sum of the months lies in one of them. -/
theorem passMonths_fst_lt {months : List Nat} :
    ∀ {d : Nat}, d < months.sum → (passMonths months d).1 < months.length := by
  induction months with
  | nil => intro d h; exact absurd h (Nat.not_lt_zero d)
  | cons m months ih =>
    intro d h
    rw [List.sum_cons] at h
    rw [passMonths]
    split
    · exact Nat.zero_lt_succ _
    · have hrest := ih (show d - m < months.sum by omega)
      rw [List.length_cons]
      omega

/-- Months count from 1 to 12. -/
theorem month_range (day : Int) : 1 ≤ (Date.ofDay day).month ∧ (Date.ofDay day).month ≤ 12 := by
  have h := passMonths_fst_lt (dayOfYear_lt_sum day)
  have hlength : (monthLengths (isLeap (yearOf day))).length = 12 := rfl
  rw [hlength] at h
  have hmonth : (Date.ofDay day).month =
      (passMonths (monthLengths (isLeap (yearOf day))) (dayOfYear day)).1 + 1 := rfl
  omega

/-- Days of the week count from 1 to 7. -/
theorem weekday_range (day : Int) : 1 ≤ weekday day ∧ weekday day ≤ 7 := by
  unfold weekday
  omega

end LogRotation.Calendar
