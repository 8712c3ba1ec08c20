/-
  Local time as the environment sets it.

    setting  =  name offset [ name [ offset ] "," moment "," moment ]
    name     =  3 letters or more   |   "<" characters ">"
    offset   =  [ sign ] time
    moment   =  day [ "/" time ]
    day      =  "M" month "." week "." weekday   |   "J" number   |   number
    time     =  digits [ ":" digits [ ":" digits ] ]

  An offset counts to the west, so its sign is turned.  A second name is that of summer time, which begins
  at the first of two moments of each year and ends at the second one, both by the clock on the wall.
  Without an offset of its own it is an hour ahead of the other one, and a moment without a time is at two
  o'clock.
-/
import LogRotation.Instant

namespace LogRotation.LocalTime

/-! ## Moments of a year -/

/-- A day that comes once in each year. -/
inductive YearDay
  /-- A day of a week of a month: weeks count from 1, of which the fifth is the last, and days from
  Sunday, which is 0. -/
  | ofWeek (month week day : Nat)
  /-- Days count from 1, and 29 February is passed over. -/
  | regular (n : Nat)
  /-- Days count from 0, with 29 February. -/
  | counted (n : Nat)
  deriving DecidableEq, Repr

/-- The day in a year, counted from 1 January 1970. -/
def YearDay.inYear (year : Int) : YearDay → Int
  | ofWeek month week day =>
    let first := Calendar.Date.toDay ⟨year, month, 1⟩
    let n := (7 + day - Calendar.weekday first % 7) % 7 + 7 * (week - 1)
    let length := (Calendar.monthLengths (Calendar.isLeap year)).getD (month - 1) 0
    first + (if n < length then n else n - 7 : Nat)
  | regular n =>
    Calendar.yearStart year + (n - 1 : Nat) + (if Calendar.isLeap year ∧ 60 ≤ n then 1 else 0)
  | counted n => Calendar.yearStart year + n

/-- A moment that comes once in each year, by a clock on the wall. -/
structure YearMoment where
  day : YearDay
  second : Nat
  deriving DecidableEq, Repr

/-- The second of universal time in a year, where the clock is some seconds ahead of that. -/
def YearMoment.inYear (m : YearMoment) (ahead year : Int) : Int :=
  86400 * m.day.inYear year + m.second - ahead

/-- The later of two changes, the first of which may be missing. -/
def later (c : Option (Int × Int)) (d : Int × Int) : Option (Int × Int) :=
  match c with
  | none => some d
  | some c => if c.1 ≤ d.1 then some d else some c

/-- Local time that goes on to summer time and back each year: the last change counts. -/
def withSummer (standard summer : Int) (starts ends : YearMoment) : LocalTime where
  ahead seconds :=
    let year := Calendar.yearOf (seconds / 86400)
    let changes := [year - 1, year, year + 1].flatMap fun y =>
      [(starts.inYear standard y, summer), (ends.inYear summer y, standard)]
    let last := (changes.filter fun c => c.1 ≤ seconds).foldl later none
    (last.map Prod.snd).getD standard

theorem mem_of_foldl_later {c : Int × Int} {changes : List (Int × Int)} :
    ∀ {first : Option (Int × Int)}, changes.foldl later first = some c → first = some c ∨ c ∈ changes := by
  induction changes with
  | nil => exact fun h => .inl h
  | cons d rest ih =>
    intro first h
    rcases ih h with hfirst | hmem
    · -- the later of the first two is one of them
      cases first with
      | none =>
        cases hfirst
        exact .inr List.mem_cons_self
      | some e =>
        unfold later at hfirst
        dsimp only at hfirst
        split at hfirst
        · cases hfirst
          exact .inr List.mem_cons_self
        · exact .inl hfirst
    · exact .inr (List.mem_cons_of_mem d hmem)

/-- With a summer time, local time is ahead by one of two offsets. -/
theorem ahead_withSummer (standard summer : Int) (starts ends : YearMoment) (seconds : Int) :
    (withSummer standard summer starts ends).ahead seconds = standard ∨
      (withSummer standard summer starts ends).ahead seconds = summer := by
  unfold withSummer
  dsimp only
  generalize hlast : List.foldl later none _ = last
  cases last with
  | none => exact .inl rfl
  | some c =>
    obtain hnone | hmem := mem_of_foldl_later hlast
    · cases hnone
    · obtain ⟨y, -, hc⟩ := List.mem_flatMap.mp (List.mem_filter.mp hmem).1
      rcases List.mem_cons.mp hc with rfl | hc
      · exact .inr rfl
      · rw [List.mem_singleton.mp hc]
        exact .inl rfl

/-! ## Reading -/

/-- Passes over the name of a zone. -/
def skipName? (cs : List Char) : Option (List Char) :=
  match cs with
  | '<' :: rest =>
    match rest.dropWhile (· != '>') with
    | _ :: rest => some rest
    | [] => none
  | cs => if 3 ≤ (cs.takeWhile Text.isLetter).length then some (cs.dropWhile Text.isLetter) else none

/-- Reads a number. -/
def number? (cs : List Char) : Option (Nat × List Char) :=
  if (cs.takeWhile Text.isDigit).isEmpty then none
  else some (Text.numberOf (cs.takeWhile Text.isDigit), cs.dropWhile Text.isDigit)

/-- Reads a number behind a mark, or takes another one where the mark is missing. -/
def numberAfter? (mark : Char) (other : Nat) : List Char → Option (Nat × List Char)
  | c :: rest => if c = mark then number? rest else some (other, c :: rest)
  | [] => some (other, [])

/-- Reads a time in seconds. -/
def time? (cs : List Char) : Option (Nat × List Char) := do
  let (hours, rest) ← number? cs
  let (minutes, rest) ← numberAfter? ':' 0 rest
  let (seconds, rest) ← numberAfter? ':' 0 rest
  if hours ≤ 24 ∧ minutes < 60 ∧ seconds < 60 then return (3600 * hours + 60 * minutes + seconds, rest)
  else none

/-- Reads the seconds by which a zone is ahead. -/
def ahead? (cs : List Char) : Option (Int × List Char) :=
  match cs with
  | '-' :: rest => (time? rest).map fun (n, rest) => ((n : Int), rest)
  | '+' :: rest => (time? rest).map fun (n, rest) => (-(n : Int), rest)
  | cs => (time? cs).map fun (n, rest) => (-(n : Int), rest)

/-- Reads a day. -/
def yearDay? (cs : List Char) : Option (YearDay × List Char) :=
  match cs with
  | 'M' :: rest => do
    let (month, rest) ← number? rest
    let (week, rest) ← numberAfter? '.' 0 rest
    let (day, rest) ← numberAfter? '.' 7 rest
    if 1 ≤ month ∧ month ≤ 12 ∧ 1 ≤ week ∧ week ≤ 5 ∧ day < 7 then return (.ofWeek month week day, rest)
    else none
  | 'J' :: rest => do
    let (n, rest) ← number? rest
    if 1 ≤ n ∧ n ≤ 365 then return (.regular n, rest) else none
  | cs => do
    let (n, rest) ← number? cs
    if n ≤ 365 then return (.counted n, rest) else none

/-- Reads a moment and the comma in front of it. -/
def yearMoment? (cs : List Char) : Option (YearMoment × List Char) :=
  match cs with
  | ',' :: rest => do
    let (day, rest) ← yearDay? rest
    match rest with
    | '/' :: rest =>
      let (second, rest) ← time? rest
      return (⟨day, second⟩, rest)
    | rest => return (⟨day, 7200⟩, rest)
  | _ => none

/-- Reads a setting. -/
def ofSetting? (setting : String) : Option LocalTime := do
  let (standard, rest) ← ahead? (← skipName? setting.toList)
  if rest.isEmpty then return .fixed standard
  let rest ← skipName? rest
  let (summer, rest) ← if rest.head? = some ',' then some (standard + 3600, rest) else ahead? rest
  let (starts, rest) ← yearMoment? rest
  let (ends, rest) ← yearMoment? rest
  if rest.isEmpty then return withSummer standard summer starts ends else none

example : (ofSetting? "<+0530>-05:30").map (·.ahead 0) = some 19800 := by decide
example : (ofSetting? "Mars").isNone := by decide

/-- Central European Time, around the last Sundays of March and October 2024. -/
example : (ofSetting? "CET-1CEST,M3.5.0,M10.5.0/3").map (fun l =>
    [1711846799, 1711846800, 1729990799, 1729990800].map l.ahead) = some [3600, 7200, 7200, 3600] := by
  decide

end LogRotation.LocalTime
