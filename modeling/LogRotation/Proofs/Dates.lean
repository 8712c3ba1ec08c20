/-
  The dates of the days, told by going on from one day to the next.

  1. **The calendar** - `DateOn` starts with 1 January 1970 and goes on day by day, in both
     directions: after a day of a month comes the next one, after the last day of a month the first of
     the next month, after the last day of a year the first of the next year.

  2. **The crux** - `ofDay_succ`: the arithmetic of `Date.ofDay` goes on in the same way.  Within a year
     this is a matter of passing over months (`passMonths_succ`), and from year to year one of where a
     year starts (`yearOf_eq`).

  3. **The consequence** - `dateOn_iff`: a day has one date, and it is the one that is computed.  The
     days of a year are counted from its first one (`dateOn_first_iff`).
-/
import LogRotation.Proofs.Calendar
import Mathlib.Data.Int.Init

namespace LogRotation.Calendar

/-! ## Day after day -/

/-- The length of a month. -/
def monthLength (year : Int) (month : Nat) : Nat := (monthLengths (isLeap year)).getD (month - 1) 0

/-- The date after a date. -/
def Date.next (d : Date) : Date :=
  if d.day < monthLength d.year d.month then ⟨d.year, d.month, d.day + 1⟩
  else if d.month < 12 then ⟨d.year, d.month + 1, 1⟩
  else ⟨d.year + 1, 1, 1⟩

/-- `DateOn day date` - the date of a day, where day 0 is 1 January 1970. -/
inductive DateOn : Int → Date → Prop
  | start : DateOn 0 ⟨1970, 1, 1⟩
  | next {day : Int} {date : Date} : DateOn day date → DateOn (day + 1) date.next
  | before {day : Int} {date : Date} : date.isValid = true → DateOn (day + 1) date.next →
      DateOn day date

/-! ## Passing over months -/

/-- What is left of a day after whole months lies within the next one. -/
theorem passMonths_snd_lt {months : List Nat} : ∀ {d : Nat}, d < months.sum →
    (passMonths months d).2 < months.getD (passMonths months d).1 0 := by
  induction months with
  | nil => intro d h; exact absurd h (Nat.not_lt_zero d)
  | cons m months ih =>
    intro d h
    rw [List.sum_cons] at h
    rw [passMonths]
    split
    · rename_i hd
      exact hd
    · exact ih (show d - m < months.sum by omega)

/-- Passing over months to the day after a day: to the next day of the month, or on to the next
month. -/
theorem passMonths_succ {months : List Nat} (hpos : ∀ m ∈ months, 0 < m) :
    ∀ {d : Nat}, d + 1 < months.sum → passMonths months (d + 1) =
      if (passMonths months d).2 + 1 < months.getD (passMonths months d).1 0
      then ((passMonths months d).1, (passMonths months d).2 + 1)
      else ((passMonths months d).1 + 1, 0) := by
  induction months with
  | nil => intro d h; exact absurd h (Nat.not_lt_zero _)
  | cons m months ih =>
    intro d h
    rw [List.sum_cons] at h
    by_cases hd : d < m
    · have hhere : passMonths (m :: months) d = (0, d) := by rw [passMonths, if_pos hd]
      rw [hhere]
      by_cases hd' : d + 1 < m
      · have hnext : passMonths (m :: months) (d + 1) = (0, d + 1) := by rw [passMonths, if_pos hd']
        rw [hnext]
        exact (if_pos hd').symm
      · -- the last day of the month: the next month is not empty
        have hzero : d + 1 - m = 0 := by omega
        have hfirst : passMonths months 0 = (0, 0) := by
          cases months with
          | nil => rfl
          | cons m' months =>
            have hm' : 0 < m' := hpos m' (List.mem_cons_of_mem _ List.mem_cons_self)
            rw [passMonths, if_pos hm']
        rw [passMonths, if_neg hd', hzero, hfirst]
        exact (if_neg hd').symm
    · have hsub : d + 1 - m = (d - m) + 1 := by omega
      have hd' : ¬ d + 1 < m := by omega
      have hrest := ih (fun m' hm' => hpos m' (List.mem_cons_of_mem _ hm'))
        (show d - m + 1 < months.sum by omega)
      have hhere : passMonths (m :: months) d =
          ((passMonths months (d - m)).1 + 1, (passMonths months (d - m)).2) := by
        rw [passMonths, if_neg hd]
      rw [hhere, passMonths, if_neg hd', hsub, hrest]
      dsimp only
      rw [List.getD_cons_succ]
      by_cases hlast : (passMonths months (d - m)).2 + 1 <
          months.getD (passMonths months (d - m)).1 0
      · rw [if_pos hlast, if_pos hlast]
      · rw [if_neg hlast, if_neg hlast]

/-- Only the first day of a year is the first day of its first month. -/
theorem eq_zero_of_passMonths (leap : Bool) {d : Nat} (hfst : (passMonths (monthLengths leap) d).1 = 0)
    (hsnd : (passMonths (monthLengths leap) d).2 = 0) : d = 0 := by
  rw [monthLengths, passMonths] at hfst hsnd
  split at hfst
  · rename_i hd
    rw [if_pos hd] at hsnd
    exact hsnd
  · cases hfst

theorem monthLengths_pos (leap : Bool) : ∀ m ∈ monthLengths leap, 0 < m := by
  cases leap <;> decide

/-! ## From year to year -/

theorem yearStart_lt_succ (year : Int) : yearStart year < yearStart (year + 1) := by
  rw [yearStart_succ]
  split <;> omega

/-- Later years start later. -/
theorem yearStart_lt {y z : Int} (h : y < z) : yearStart y < yearStart z := by
  obtain ⟨n, rfl⟩ : ∃ n : Nat, z = y + 1 + n := ⟨(z - y - 1).toNat, by omega⟩
  clear h
  induction n with
  | zero => simpa using yearStart_lt_succ y
  | succ n ih =>
    have hstep := yearStart_lt_succ (y + 1 + n)
    have he : y + 1 + ((n + 1 : Nat) : Int) = y + 1 + n + 1 := by omega
    rw [he]
    omega

/-- The year of a day is the one that has begun and is not over. -/
theorem yearOf_eq {day year : Int} (hlow : yearStart year ≤ day) (hhigh : day < yearStart (year + 1)) :
    yearOf day = year := by
  have hlow' := yearStart_yearOf_le day
  have hhigh' := lt_yearStart_yearOf_succ day
  rcases Int.lt_trichotomy (yearOf day) year with h | h | h
  · rcases Int.lt_or_eq_of_le (show yearOf day + 1 ≤ year from h) with h | h
    · have := yearStart_lt h
      omega
    · rw [h] at hhigh'
      omega
  · exact h
  · rcases Int.lt_or_eq_of_le (show year + 1 ≤ yearOf day from h) with h | h
    · have := yearStart_lt h
      omega
    · rw [← h] at hlow'
      omega

/-- A date is made of the year, and of the months passed over in it. -/
theorem Date.ofDay_eq (day : Int) :
    Date.ofDay day = ⟨yearOf day,
      (passMonths (monthLengths (isLeap (yearOf day))) (dayOfYear day)).1 + 1,
      (passMonths (monthLengths (isLeap (yearOf day))) (dayOfYear day)).2 + 1⟩ := rfl

/-- The date after a date, where months and days are counted from 0. -/
theorem Date.next_mk (year : Int) (m d : Nat) : Date.next ⟨year, m + 1, d + 1⟩ =
    if d + 1 < (monthLengths (isLeap year)).getD m 0 then ⟨year, m + 1, d + 1 + 1⟩
    else if m + 1 < 12 then ⟨year, m + 1 + 1, 1⟩
    else ⟨year + 1, 1, 1⟩ := rfl

/-- A year starts on its first of January. -/
theorem ofDay_yearStart (year : Int) : Date.ofDay (yearStart year) = ⟨year, 1, 1⟩ := by
  have hyear : yearOf (yearStart year) = year :=
    yearOf_eq (Int.le_refl _) (yearStart_lt_succ year)
  have hday : dayOfYear (yearStart year) = 0 := by
    rw [dayOfYear, hyear]
    omega
  rw [Date.ofDay_eq, hyear, hday]
  cases isLeap year <;> rfl

/-- **The crux.**  The day after a day has the date after its date. -/
theorem ofDay_succ (day : Int) : Date.ofDay (day + 1) = (Date.ofDay day).next := by
  have hlow := yearStart_yearOf_le day
  have hhigh := lt_yearStart_yearOf_succ day
  by_cases hlast : day + 1 < yearStart (yearOf day + 1)
  · -- the same year goes on
    have hyear : yearOf (day + 1) = yearOf day := yearOf_eq (by omega) hlast
    have hday : dayOfYear (day + 1) = dayOfYear day + 1 := by
      rw [dayOfYear, dayOfYear, hyear]
      omega
    have hbelow : dayOfYear day + 1 < (monthLengths (isLeap (yearOf day))).sum := by
      have := dayOfYear_lt_sum (day + 1)
      rwa [hyear, hday] at this
    have hmonths := passMonths_succ (monthLengths_pos (isLeap (yearOf day))) hbelow
    have hmonth : (passMonths (monthLengths (isLeap (yearOf day))) (dayOfYear day + 1)).1 < 12 :=
      passMonths_fst_lt hbelow
    rw [Date.ofDay_eq (day + 1), hyear, hday, hmonths, Date.ofDay_eq day, Date.next_mk]
    rw [hmonths] at hmonth
    split
    · rfl
    · rename_i hover
      rw [if_neg hover] at hmonth
      rw [if_pos hmonth]
  · -- the last day of the year is the last day of its last month
    have hnext : day + 1 = yearStart (yearOf day + 1) := by omega
    have hsum := sum_monthLengths (isLeap (yearOf day))
    have hlength := yearStart_succ (yearOf day)
    have hday : dayOfYear day = (monthLengths (isLeap (yearOf day))).sum - 1 := by
      rw [dayOfYear, hsum]
      split <;> simp_all <;> omega
    rw [hnext, ofDay_yearStart, Date.ofDay_eq, Date.next_mk, hday]
    cases isLeap (yearOf day) <;> rfl

/-! ## Valid dates -/

/-- Every day has a date that the calendar has. -/
theorem isValid_ofDay (day : Int) : (Date.ofDay day).isValid = true := by
  have hmonth := passMonths_fst_lt (dayOfYear_lt_sum day)
  have hday := passMonths_snd_lt (dayOfYear_lt_sum day)
  have hlength : (monthLengths (isLeap (yearOf day))).length = 12 := rfl
  rw [hlength] at hmonth
  rw [Date.ofDay_eq, Date.isValid]
  simp only [Bool.and_eq_true, decide_eq_true_eq, Nat.add_sub_cancel]
  omega

/-- A valid date has a month of the year and a day of that month. -/
theorem Date.isValid_iff {d : Date} : d.isValid = true ↔
    1 ≤ d.month ∧ d.month ≤ 12 ∧ 1 ≤ d.day ∧ d.day ≤ monthLength d.year d.month := by
  simp only [Date.isValid, Bool.and_eq_true, decide_eq_true_eq, monthLength, and_assoc]

/-- No two valid dates have the same date after them. -/
theorem Date.next_inj {d e : Date} (hd : d.isValid = true) (he : e.isValid = true)
    (h : d.next = e.next) : d = e := by
  rw [Date.isValid_iff] at hd he
  obtain ⟨y, m, k⟩ := d
  obtain ⟨y', m', k'⟩ := e
  dsimp only at hd he
  unfold Date.next at h
  dsimp only at h
  by_cases hk : k < monthLength y m <;> by_cases hk' : k' < monthLength y' m'
  · -- both are in the middle of a month
    rw [if_pos hk, if_pos hk', Date.mk.injEq] at h
    rw [Date.mk.injEq]
    omega
  · -- the first day of a month follows no other day of it
    rw [if_pos hk, if_neg hk'] at h
    split at h <;> rw [Date.mk.injEq] at h <;> omega
  · rw [if_neg hk, if_pos hk'] at h
    split at h <;> rw [Date.mk.injEq] at h <;> omega
  · rw [if_neg hk, if_neg hk'] at h
    have hsame : y = y' ∧ m = m' := by
      split at h <;> split at h <;> rw [Date.mk.injEq] at h <;> omega
    obtain ⟨rfl, rfl⟩ := hsame
    -- both are the last day of the same month
    rw [Date.mk.injEq]
    omega

/-! ## The calendar -/

/-- **A day has one date.**  It is the one that is computed. -/
theorem dateOn_iff {day : Int} {date : Date} : DateOn day date ↔ date = Date.ofDay day := by
  constructor
  · intro h
    induction h with
    | start => decide
    | next _ ih => rw [ofDay_succ, ih]
    | before hvalid _ ih =>
      rw [ofDay_succ] at ih
      exact Date.next_inj hvalid (isValid_ofDay _) ih
  · rintro rfl
    induction day using Int.induction_on with
    | zero => exact .start
    | succ n ih =>
      rw [ofDay_succ]
      exact .next ih
    | pred n ih =>
      refine .before (isValid_ofDay _) ?_
      rw [← ofDay_succ]
      rwa [Int.sub_add_cancel]

/-- The first day of a year is the one that the year starts with. -/
theorem dateOn_first_iff {day year : Int} : DateOn day ⟨year, 1, 1⟩ ↔ day = yearStart year := by
  rw [dateOn_iff]
  constructor
  · intro h
    rw [Date.ofDay_eq, Date.mk.injEq] at h
    obtain ⟨rfl, hmonth, hday⟩ := h
    have hlow := yearStart_yearOf_le day
    have hzero : dayOfYear day = 0 := by
      refine eq_zero_of_passMonths (isLeap (yearOf day)) ?_ ?_
      · omega
      · omega
    rw [dayOfYear] at hzero
    omega
  · rintro rfl
    exact (ofDay_yearStart year).symm

end LogRotation.Calendar
