/-
  The proleptic Gregorian calendar, counted in days from 1 January 1970.

  A day is a whole number, negative before 1970.  The year of a day is found by an estimate from the
  mean length of a year, which misses by at most one, and a correction; month and day come from the
  lengths of the months.  Weeks follow ISO 8601: they begin on Monday, and a week belongs to the year
  that holds its Thursday, so the last days of December may belong to week 1 of the year to come and
  the first days of January to week 52 or 53 of the year before.
-/

namespace LogRotation.Calendar

/-! ## Years -/

/-- Counts the days from 1 January 1970 to 1 January of a year. -/
def yearStart (year : Int) : Int :=
  365 * (year - 1970) + (year - 1) / 4 - (year - 1) / 100 + (year - 1) / 400 - 477

/-- Every fourth year is a leap year, save the centuries that 400 does not divide. -/
def isLeap (year : Int) : Bool := year % 4 == 0 && (year % 100 != 0 || year % 400 == 0)

/-- Estimates the year of a day from the mean length of a year. -/
def yearEstimate (day : Int) : Int := 400 * day / 146097 + 1970

/-- The year that holds a day. -/
def yearOf (day : Int) : Int :=
  let year := yearEstimate day
  if day < yearStart year then year - 1
  else if yearStart (year + 1) ≤ day then year + 1
  else year

theorem yearStart_yearOf_le (day : Int) : yearStart (yearOf day) ≤ day := by
  unfold yearOf yearEstimate yearStart
  grind

theorem lt_yearStart_yearOf_succ (day : Int) : day < yearStart (yearOf day + 1) := by
  unfold yearOf yearEstimate yearStart
  grind

/-- Numbers the days of a year from 0. -/
def dayOfYear (day : Int) : Nat := (day - yearStart (yearOf day)).toNat

/-! ## Months -/

/-- The lengths of the twelve months. -/
def monthLengths (leap : Bool) : List Nat :=
  [31, if leap then 29 else 28, 31, 30, 31, 30, 31, 31, 30, 31, 30, 31]

/-- Passes over whole months: how many fit before a day, and the days left over. -/
def passMonths : List Nat → Nat → Nat × Nat
  | [], d => (0, d)
  | length :: rest, d =>
    if d < length then (0, d)
    else ((passMonths rest (d - length)).1 + 1, (passMonths rest (d - length)).2)

/-- A date of the calendar: months and days count from 1. -/
structure Date where
  year : Int
  month : Nat
  day : Nat
  deriving DecidableEq, Repr

/-- The date of a day. -/
def Date.ofDay (day : Int) : Date :=
  let year := yearOf day
  let (months, rest) := passMonths (monthLengths (isLeap year)) (dayOfYear day)
  ⟨year, months + 1, rest + 1⟩

/-- Holds of a date that the calendar has. -/
def Date.isValid (d : Date) : Bool :=
  1 ≤ d.month && d.month ≤ 12 && 1 ≤ d.day &&
    d.day ≤ (monthLengths (isLeap d.year)).getD (d.month - 1) 0

/-- The day of a date. -/
def Date.toDay (d : Date) : Int :=
  let months := (monthLengths (isLeap d.year)).take (d.month - 1)
  yearStart d.year + (months.foldl (· + ·) 0 : Nat) + (d.day - 1 : Nat)

/-! ## Weeks -/

/-- Numbers the days of the week from Monday, which is 1. -/
def weekday (day : Int) : Nat := ((day + 3) % 7).toNat + 1

/-- The Thursday of the week that holds a day. -/
def thursdayOf (day : Int) : Int := (day + 3) / 7 * 7

/-- A week of the ISO calendar, with the year that it belongs to. -/
structure Week where
  year : Int
  number : Nat
  deriving DecidableEq, Repr

/-- The week of a day. -/
def Week.ofDay (day : Int) : Week :=
  ⟨yearOf (thursdayOf day), dayOfYear (thursdayOf day) / 7 + 1⟩

/-! ## Names -/

/-- The English names of the months. -/
def monthNames : List String :=
  ["January", "February", "March", "April", "May", "June", "July", "August", "September", "October",
    "November", "December"]

/-- The English names of the days of the week, from Monday. -/
def weekdayNames : List String :=
  ["Monday", "Tuesday", "Wednesday", "Thursday", "Friday", "Saturday", "Sunday"]

example : Date.ofDay 0 = ⟨1970, 1, 1⟩ := by decide
example : Date.ofDay 11016 = ⟨2000, 2, 29⟩ := by decide
example : Date.ofDay (-719528) = ⟨0, 1, 1⟩ := by decide
example : Week.ofDay 12784 = ⟨2004, 53⟩ := by decide
example : Date.toDay ⟨2004, 11, 23⟩ = 12745 := by decide

end LogRotation.Calendar
