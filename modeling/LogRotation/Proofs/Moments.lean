/-
  What a calendar and a clock show at one moment of local time, and how it is written.

  1. **Moments** - `Moment.Shown millis m` says what stands on the calendar and on the clock so many
     milliseconds after 1970 began: a date that the calendar reaches day by day, the count of its day
     within the year, a day of the week, the week that its Thursday lies in, and a time of the day.

  2. **Letters** - `Moment.letters` is the table of what a run of one letter stands for: which number
     or name of the moment, and with how many digits, which sign or which form of a name.

  3. **The crux** - `shown_ofClock`: a wall clock shows the moment that it should, and there is no
     other (`Shown.unique`).  So each field writes what its letters stand for (`letters_eq_write`).
-/
import LogRotation.DateFormat
import LogRotation.Proofs.Dates
import Mathlib.Algebra.Ring.Nat

namespace LogRotation

open Calendar (Date Week DateOn)

/-! ## Moments -/

/-- What a calendar and a clock show. -/
structure Moment where
  date : Date
  dayOfYear : Nat
  /-- Counts from Monday, which is 1. -/
  weekday : Nat
  week : Week
  hour : Nat
  minute : Nat
  second : Nat
  millisecond : Nat
  deriving DecidableEq, Repr

/-- `CountedIn year day n` - a day of a year, which is the `n`-th of that year. -/
structure Calendar.CountedIn (year day : Int) (n : Nat) : Prop where
  inYear : ∃ month d, DateOn day ⟨year, month, d⟩
  pos : 1 ≤ n
  first : DateOn (day + 1 - n) ⟨year, 1, 1⟩

namespace Moment

/-- The day of a local time. -/
def dayOf (millis : Int) : Int := millis / 86400000

/-- `Shown millis m` - the moment of a local time, in milliseconds since 1970 began. -/
structure Shown (millis : Int) (m : Moment) : Prop where
  date : DateOn (dayOf millis) m.date
  dayOfYear : Calendar.CountedIn m.date.year (dayOf millis) m.dayOfYear
  /-- 1 January 1970 was a Thursday. -/
  weekday : 1 ≤ m.weekday ∧ m.weekday ≤ 7 ∧ (7 : Int) ∣ dayOf millis + 4 - m.weekday
  /-- A week belongs to the year of its Thursday, and is counted by the Thursdays of that year. -/
  week : ∃ n, Calendar.CountedIn m.week.year (dayOf millis + 4 - m.weekday) n ∧
    7 * m.week.number < n + 7 ∧ n ≤ 7 * m.week.number
  time : millis % 86400000 =
    (((m.hour * 60 + m.minute) * 60 + m.second) * 1000 + m.millisecond : Nat)
  minute : m.minute < 60
  second : m.second < 60
  millisecond : m.millisecond < 1000

/-! ## Letters -/

/-- A number in decimal digits, with zeros before it up to a width. -/
def padded (width n : Nat) : List Char := (Nat.toDigits 10 n).leftpad width '0'

/-- A number as a run of one letter writes it: a single letter asks for no more digits than it
needs. -/
def numeral (length width n : Nat) : List Char :=
  if length = 1 then Nat.toDigits 10 n else padded width n

/-- A year: two letters ask for its last two digits, and a year that is not from 0 to 9999 has a
sign. -/
def yearNumeral (length : Nat) (year : Int) : List Char :=
  if length = 2 then padded 2 (year % 100).toNat
  else if 0 ≤ year ∧ year ≤ 9999 then padded 4 year.toNat
  else (if year < 0 then '-' else '+') :: padded 4 year.natAbs

/-- The `n`-th of some names: up to three letters ask for its first three letters. -/
def named (length : Nat) (names : List String) (n : Nat) : List Char :=
  if length ≤ 3 then (names.getD (n - 1) "").toList.take 3 else (names.getD (n - 1) "").toList

/-- What a run of one letter stands for, where the clock is `offset` seconds ahead of universal time.
Other letters stand for nothing. -/
def letters (m : Moment) (zone : Zone) (offset : Int) (letter : Char) (length : Nat) :
    Option (List Char) :=
  match letter with
  | 'G' => some "AD".toList
  | 'y' => some (yearNumeral length m.date.year)
  | 'Y' => some (yearNumeral length m.week.year)
  | 'M' =>
    some (if length ≤ 2 then numeral length 2 m.date.month
      else named length Calendar.monthNames m.date.month)
  | 'd' => some (numeral length 2 m.date.day)
  | 'D' => some (numeral length 3 m.dayOfYear)
  | 'H' => some (numeral length 2 m.hour)
  | 'h' => some (numeral length 2 (if m.hour % 12 = 0 then 12 else m.hour % 12))
  | 'm' => some (numeral length 2 m.minute)
  | 's' => some (numeral length 2 m.second)
  | 'S' => some (padded 3 m.millisecond)
  | 'E' => some (named length Calendar.weekdayNames m.weekday)
  | 'a' => some (if m.hour < 12 then "AM".toList else "PM".toList)
  | 'w' => some (numeral length 2 m.week.number)
  | 'u' => some (Nat.toDigits 10 m.weekday)
  | 'Z' => some (Text.offset offset)
  | 'z' =>
    match zone with
    | .utc => some "UTC".toList
    | .localTime => some (Text.offsetInFull offset)
  | _ => none

/-! ## The moment of a wall clock -/

theorem ofInstant_eq (zone : Zone) (localTime : LocalTime) (instant : Instant) :
    WallClock.ofInstant zone localTime instant =
      ⟨(instant.seconds + zone.ahead localTime instant.seconds) / 86400,
        ((instant.seconds + zone.ahead localTime instant.seconds) % 86400).toNat, instant.nanos, zone,
        zone.ahead localTime instant.seconds⟩ := rfl

/-- What a wall clock shows. -/
def ofClock (w : WallClock) : Moment :=
  ⟨Date.ofDay w.day, Calendar.dayOfYear w.day + 1, Calendar.weekday w.day, Week.ofDay w.day,
    w.hour, w.minute, w.secondOfMinute, w.millisecond⟩

/-- The day of a year is counted from the first one. -/
theorem countedIn_iff {year day : Int} {n : Nat} : Calendar.CountedIn year day n ↔
    year = Calendar.yearOf day ∧ n = Calendar.dayOfYear day + 1 := by
  have hlow := Calendar.yearStart_yearOf_le day
  have hyear : (Date.ofDay day).year = Calendar.yearOf day := rfl
  constructor
  · rintro ⟨⟨month, d, hdate⟩, hpos, hfirst⟩
    rw [Calendar.dateOn_iff] at hdate
    rw [Calendar.dateOn_first_iff] at hfirst
    rw [← hdate] at hyear
    obtain rfl : year = Calendar.yearOf day := hyear
    rw [Calendar.dayOfYear]
    omega
  · rintro ⟨rfl, rfl⟩
    refine ⟨⟨_, _, Calendar.dateOn_iff.mpr rfl⟩, Nat.le_add_left 1 _, ?_⟩
    rw [Calendar.dateOn_first_iff, Calendar.dayOfYear]
    omega

theorem thursdayOf_eq (day : Int) :
    Calendar.thursdayOf day = day + 4 - (Calendar.weekday day : Nat) := by
  unfold Calendar.thursdayOf Calendar.weekday
  omega

/-- **There is one moment at a time.** -/
theorem Shown.unique {millis : Int} {m m' : Moment} (h : Shown millis m) (h' : Shown millis m') :
    m = m' := by
  have hdate : m.date = m'.date :=
    (Calendar.dateOn_iff.mp h.date).trans (Calendar.dateOn_iff.mp h'.date).symm
  have hcount : m.dayOfYear = m'.dayOfYear :=
    (countedIn_iff.mp h.dayOfYear).2.trans (countedIn_iff.mp h'.dayOfYear).2.symm
  have hweekday : m.weekday = m'.weekday := by
    have := h.weekday
    have := h'.weekday
    omega
  have hweek : m.week = m'.week := by
    obtain ⟨n, hn, hn₁, hn₂⟩ := h.week
    obtain ⟨n', hn', hn₁', hn₂'⟩ := h'.week
    rw [hweekday] at hn
    obtain ⟨hyear, hcount⟩ := countedIn_iff.mp hn
    obtain ⟨hyear', hcount'⟩ := countedIn_iff.mp hn'
    have hnumber : m.week.number = m'.week.number := by omega
    calc m.week = ⟨m.week.year, m.week.number⟩ := rfl
      _ = ⟨m'.week.year, m'.week.number⟩ := by rw [hyear, ← hyear', hnumber]
  have htime := h.time.symm.trans h'.time
  have := h.minute
  have := h.second
  have := h.millisecond
  have := h'.minute
  have := h'.second
  have := h'.millisecond
  have hhour : m.hour = m'.hour := by omega
  have hminute : m.minute = m'.minute := by omega
  have hsecond : m.second = m'.second := by omega
  have hmillisecond : m.millisecond = m'.millisecond := by omega
  cases m
  cases m'
  simp_all

/-- **A wall clock shows the moment of its local time.** -/
theorem shown_ofClock (zone : Zone) (localTime : LocalTime) {instant : Instant}
    (h : instant.nanos < 1000000000) :
    Shown (instant.millis + 1000 * zone.ahead localTime instant.seconds)
      (ofClock (.ofInstant zone localTime instant)) := by
  -- whole milliseconds are left out of the count of seconds
  have hmillis : instant.millis + 1000 * zone.ahead localTime instant.seconds =
      1000 * (instant.seconds + zone.ahead localTime instant.seconds) + instant.nanos / 1000000 := by
    unfold Instant.millis
    omega
  rw [hmillis, ofInstant_eq]
  generalize instant.seconds + zone.ahead localTime instant.seconds = seconds
  generalize instant.nanos = nanos at h
  have hday : dayOf (1000 * seconds + nanos / 1000000) = seconds / 86400 := by
    unfold dayOf
    omega
  have hweekday := Calendar.weekday_range (seconds / 86400)
  refine ⟨?_, ?_, ⟨hweekday.1, hweekday.2, ?_⟩, ?_, ?_, ?_, ?_, ?_⟩
  · rw [hday]
    exact Calendar.dateOn_iff.mpr rfl
  · rw [hday]
    exact countedIn_iff.mpr ⟨rfl, rfl⟩
  · rw [hday]
    show (7 : Int) ∣ seconds / 86400 + 4 - (Calendar.weekday (seconds / 86400) : Nat)
    rw [← thursdayOf_eq, Calendar.thursdayOf]
    exact Int.dvd_mul_left _ _
  · rw [hday]
    refine ⟨Calendar.dayOfYear (Calendar.thursdayOf (seconds / 86400)) + 1, ?_, ?_⟩
    · rw [thursdayOf_eq]
      exact countedIn_iff.mpr ⟨congrArg Calendar.yearOf (thursdayOf_eq _), rfl⟩
    · simp only [ofClock, Week.ofDay]
      omega
  · simp only [ofClock, WallClock.hour, WallClock.minute, WallClock.secondOfMinute,
      WallClock.millisecond]
    omega
  · simp only [ofClock, WallClock.minute]
    omega
  · simp only [ofClock, WallClock.secondOfMinute]
    omega
  · simp only [ofClock, WallClock.millisecond]
    omega

/-! ## What fields write -/

theorem digitChar_eq_digit {n : Nat} (h : n < 10) : n.digitChar = Text.digit n := by
  revert n
  decide

/-- A number that fits into a width is written in as many digits. -/
theorem fixed_eq_padded {width n : Nat} (h : n < 10 ^ (width + 1)) :
    Text.fixed (width + 1) n = padded (width + 1) n := by
  induction width generalizing n with
  | zero =>
    have hdigit : n < 10 := h
    rw [padded, Nat.toDigits_of_lt_base hdigit, digitChar_eq_digit h]
    rfl
  | succ width ih =>
    have hrest : n / 10 < 10 ^ (width + 1) := by
      rw [Nat.pow_succ] at h
      exact Nat.div_lt_of_lt_mul (by omega)
    have hlast : Text.digit n = (n % 10).digitChar := by
      rw [digitChar_eq_digit (Nat.mod_lt n (by decide)), Text.digit, Text.digit, Nat.mod_mod]
    rw [Text.fixed_succ, ih hrest, hlast]
    unfold padded List.leftpad
    by_cases hn : 10 ≤ n
    · rw [Nat.toDigits_of_base_le (by decide) hn, List.length_append, ← List.append_assoc]
      congr 3
      simp
    · -- one digit, and zeros before it
      have hzero : n / 10 = 0 := by omega
      have hmod : n % 10 = n := Nat.mod_eq_of_lt (by omega)
      rw [hzero, hmod, Nat.toDigits_of_lt_base (show n < 10 by omega)]
      simp [List.replicate_succ']

theorem atLeast_eq_padded {width n : Nat} :
    Text.atLeast (width + 1) n = padded (width + 1) n := by
  unfold Text.atLeast
  split
  · rename_i h
    exact fixed_eq_padded h
  · rename_i h
    -- more digits than the width, and no zeros before them
    have hlength : ¬ (Nat.toDigits 10 n).length ≤ width + 1 := by
      rw [Nat.length_toDigits_le_iff (by decide) (Nat.succ_pos width)]
      exact h
    have hzero : width + 1 - (Nat.toDigits 10 n).length = 0 := by omega
    rw [padded, List.leftpad, hzero]
    rfl

theorem number_eq_numeral {length width n : Nat} (h : n < 10 ^ (width + 1)) :
    Field.number (if length = 1 then .bare else .padded) (width + 1) n =
      numeral length (width + 1) n := by
  unfold numeral
  split
  · rfl
  · exact fixed_eq_padded h

theorem yearText_eq_yearNumeral (length : Nat) (year : Int) :
    Field.yearText (if length = 2 then .lastTwo else .full) year = yearNumeral length year := by
  unfold yearNumeral
  split
  · refine fixed_eq_padded ?_
    show (year % 100).toNat < 100
    omega
  · show Text.year year = _
    unfold Text.year
    split
    · refine fixed_eq_padded ?_
      show year.toNat < 10000
      omega
    · rw [atLeast_eq_padded]

/-- The numbers of a moment are no longer than their widths. -/
theorem day_lt (day : Int) : (Date.ofDay day).day < 100 := by
  have hvalid := Date.isValid_iff.mp (Calendar.isValid_ofDay day)
  have hlength : ∀ leap, ∀ i < 12, (Calendar.monthLengths leap).getD i 0 ≤ 31 := by decide
  have := hlength (Calendar.isLeap (Date.ofDay day).year) ((Date.ofDay day).month - 1) (by omega)
  rw [Calendar.monthLength] at hvalid
  omega

theorem dayOfYear_lt (day : Int) : Calendar.dayOfYear day < 366 := by
  have h := Calendar.dayOfYear_lt_sum day
  rw [Calendar.sum_monthLengths] at h
  split at h <;> omega

/-- **A field writes what its letters stand for.** -/
theorem letters_eq_write {letter : Char} {length : Nat} {f : Field} (w : WallClock)
    (h : Field.ofRun? letter length = some f) (hsecond : w.second < 86400)
    (hnanos : w.nanos < 1000000000) :
    (ofClock w).letters w.zone w.offset letter length = some (f.write w) := by
  have hmonth := Calendar.month_range w.day
  have hday := day_lt w.day
  have hdayOfYear := dayOfYear_lt w.day
  have hweek := dayOfYear_lt (Calendar.thursdayOf w.day)
  have hhour : w.hour < 24 := by
    unfold WallClock.hour
    omega
  have htwo : ∀ {n : Nat}, n < 100 →
      some (numeral length 2 n) =
        some (Field.number (if length = 1 then .bare else .padded) 2 n) := by
    intro n hn
    rw [number_eq_numeral (show n < 10 ^ (1 + 1) from hn)]
  unfold Field.ofRun? at h
  dsimp only at h
  split at h <;> cases h
  · -- the era
    rfl
  · -- years
    exact congrArg some (yearText_eq_yearNumeral _ _).symm
  · exact congrArg some (yearText_eq_yearNumeral _ _).symm
  · -- months, as numbers or by name
    show some (if length ≤ 2 then numeral length 2 (Date.ofDay w.day).month
      else named length Calendar.monthNames (Date.ofDay w.day).month) = _
    by_cases hlength : length ≤ 2
    · rw [if_pos hlength, if_pos hlength]
      exact htwo (by omega)
    · rw [if_neg hlength, if_neg hlength, named]
      by_cases hshort : length ≤ 3
      · rw [if_pos hshort, if_pos (show length = 3 by omega)]
        rfl
      · rw [if_neg hshort, if_neg (show ¬ length = 3 by omega)]
        rfl
  · -- days
    exact htwo hday
  · exact congrArg some (number_eq_numeral (show Calendar.dayOfYear w.day + 1 < 1000 by omega)).symm
  · -- the time
    exact htwo (show w.hour < 100 by omega)
  · refine htwo ?_
    show w.hourOfHalf < 100
    unfold WallClock.hourOfHalf
    split <;> omega
  · refine htwo ?_
    show w.second / 60 % 60 < 100
    omega
  · refine htwo ?_
    show w.second % 60 + w.nanos / 1000000000 < 100
    omega
  · refine congrArg some (fixed_eq_padded ?_).symm
    show w.nanos % 1000000000 / 1000000 < 1000
    omega
  · -- days of the week
    show some (named length Calendar.weekdayNames (Calendar.weekday w.day)) = _
    rw [named]
    by_cases hshort : length ≤ 3
    · rw [if_pos hshort, if_pos hshort]
      rfl
    · rw [if_neg hshort, if_neg hshort]
      rfl
  · -- the half of the day
    rfl
  · -- weeks
    refine htwo ?_
    show Calendar.dayOfYear (Calendar.thursdayOf w.day) / 7 + 1 < 100
    omega
  · rfl
  · -- the zone
    rfl
  · cases w with
    | mk day second nanos zone offset => cases zone <;> rfl

end Moment

end LogRotation
