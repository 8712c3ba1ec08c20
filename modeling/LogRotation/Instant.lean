/-
  Instants, and what a clock on the wall shows at one.

  An instant counts seconds from the start of 1970 in universal time, with nanoseconds beside them.
  A leap second has no count of its own: it is the second before it with its nanoseconds running
  past 10⁹, and shows as second 60.

  Two zones are known: universal time, and the local time of the host, which is ahead of it by some
  seconds at each instant.  A wall clock is an instant seen in a zone, split into a day and a second of
  the day; every date field is read off it.
-/
import LogRotation.Text
import LogRotation.Calendar

namespace LogRotation

/-! ## Instants -/

/-- An instant of universal time. -/
structure Instant where
  seconds : Int
  /-- Below 10⁹, or below 2·10⁹ within a leap second. -/
  nanos : Nat
  deriving DecidableEq, Repr

namespace Instant

/-- The start of 1970. -/
def epoch : Instant := ⟨0, 0⟩

/-- The first and the last millisecond that can be rendered: years -262143 to 262142. -/
def firstMillis : Int := -8334601228800000

@[inherit_doc firstMillis]
def lastMillis : Int := 8210266876799999

/-- Holds of the milliseconds that can be rendered. -/
def Renderable (millis : Int) : Prop := firstMillis ≤ millis ∧ millis ≤ lastMillis

instance (millis : Int) : Decidable (Renderable millis) := by unfold Renderable; infer_instance

/-- The instant of a count of milliseconds; a count that cannot be rendered stands for the epoch. -/
def ofMillis (millis : Int) : Instant :=
  if Renderable millis then ⟨millis / 1000, (millis % 1000).toNat * 1000000⟩ else epoch

/-- The milliseconds up to an instant. -/
def millis (i : Instant) : Int := 1000 * i.seconds + (i.nanos / 1000000 : Nat)

theorem millis_ofMillis {n : Int} (h : Renderable n) : (ofMillis n).millis = n := by
  simp only [ofMillis, if_pos h, millis]
  omega

end Instant

/-! ## Zones and wall clocks -/

/-- The two zones in which dates are written. -/
inductive Zone
  | localTime
  | utc
  deriving DecidableEq, Repr

/-- A name of a zone as a configuration writes it. -/
def Zone.name : Zone → String
  | .localTime => "local"
  | .utc => "utc"

/-- Local time: how many seconds it is ahead of universal time, in each second of that. -/
structure LocalTime where
  ahead : Int → Int

/-- Local time that is always as far ahead. -/
def LocalTime.fixed (seconds : Int) : LocalTime := ⟨fun _ => seconds⟩

/-- How many seconds a zone is ahead of universal time, in a second of that. -/
def Zone.ahead (zone : Zone) (localTime : LocalTime) (seconds : Int) : Int :=
  match zone with
  | .utc => 0
  | .localTime => localTime.ahead seconds

theorem Zone.ahead_fixed (zone : Zone) (offset s t : Int) :
    zone.ahead (.fixed offset) s = zone.ahead (.fixed offset) t := by cases zone <;> rfl

/-- What a wall clock shows: `day` counts days from 1 January 1970, and `offset` the seconds by which the
clock is ahead of universal time. -/
structure WallClock where
  day : Int
  second : Nat
  nanos : Nat
  zone : Zone
  offset : Int
  deriving DecidableEq, Repr

namespace WallClock

/-- The wall clock of an instant. -/
def ofInstant (zone : Zone) (localTime : LocalTime) (instant : Instant) : WallClock :=
  let offset := zone.ahead localTime instant.seconds
  let seconds := instant.seconds + offset
  ⟨seconds / 86400, (seconds % 86400).toNat, instant.nanos, zone, offset⟩

/-- Hours count from 0 to 23. -/
def hour (w : WallClock) : Nat := w.second / 3600

/-- Hours of a half day, from 1 to 12. -/
def hourOfHalf (w : WallClock) : Nat := if w.hour % 12 = 0 then 12 else w.hour % 12

/-- Minutes count from 0 to 59. -/
def minute (w : WallClock) : Nat := w.second / 60 % 60

/-- Seconds count from 0 to 59, and to 60 in a leap second. -/
def secondOfMinute (w : WallClock) : Nat := w.second % 60 + w.nanos / 1000000000

/-- Milliseconds count from 0 to 999. -/
def millisecond (w : WallClock) : Nat := w.nanos % 1000000000 / 1000000

end WallClock

/-! ## How years and offsets are written -/

namespace Text

/-- A year from 0 to 9999 has four digits; any other has a sign and at least four digits. -/
def year (y : Int) : List Char :=
  if 0 ≤ y ∧ y ≤ 9999 then fixed 4 y.toNat
  else (if y < 0 then '-' else '+') :: atLeast 4 y.natAbs

/-- The sign of an offset. -/
def sign (seconds : Int) : Char := if seconds < 0 then '-' else '+'

/-- An offset in short has a sign, two digits of hours and two of minutes, to the nearest minute. -/
def offset (seconds : Int) : List Char :=
  let minutes := (seconds.natAbs + 30) / 60
  sign seconds :: (fixed 2 (minutes / 60) ++ fixed 2 (minutes % 60))

/-- An offset in full has colons between its digits, and those of its seconds if there are any. -/
def offsetInFull (seconds : Int) : List Char :=
  let n := seconds.natAbs
  sign seconds :: (fixed 2 (n / 3600) ++ ':' :: fixed 2 (n / 60 % 60) ++
    if n % 60 = 0 then [] else ':' :: fixed 2 (n % 60))

example : year (-1) = ['-', '0', '0', '0', '1'] := by decide
example : year 10000 = ['+', '1', '0', '0', '0', '0'] := by decide
example : offset 19800 = ['+', '0', '5', '3', '0'] := by decide
example : offsetInFull (-17776) = ['-', '0', '4', ':', '5', '6', ':', '1', '6'] := by decide

end Text

end LogRotation
