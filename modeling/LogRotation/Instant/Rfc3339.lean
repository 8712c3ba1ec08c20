/-
  Instants as RFC 3339 writes them.

    instant   =  date ( "T" | "t" | " " ) time offset
    date      =  4 digits "-" 2 digits "-" 2 digits
    time      =  2 digits ":" 2 digits ":" 2 digits [ "." digits ]
    offset    =  "Z" | "z" | sign 2 digits ":" 2 digits

  A second may be 60: that is a leap second.  Of a fraction nine digits count.  An instant is written
  in universal time, with as many groups of three digits as its fraction needs.
-/
import LogRotation.Instant

namespace LogRotation.Instant

/-! ## Reading -/

/-- Reads exactly so many digits. -/
def digits? (count : Nat) (cs : List Char) : Option (Nat × List Char) :=
  let ds := cs.take count
  if ds.length = count ∧ ds.all Text.isDigit then some (Text.numberOf ds, cs.drop count) else none

/-- Reads one of some characters. -/
def mark? (marks : List Char) : List Char → Option (List Char)
  | c :: rest => if marks.contains c then some rest else none
  | [] => none

/-- Reads a fraction, if there is one, as nanoseconds. -/
def fraction? : List Char → Option (Nat × List Char)
  | '.' :: rest =>
    let ds := rest.takeWhile Text.isDigit
    if ds.isEmpty then none
    else
      let kept := ds.take 9
      some (Text.numberOf kept * Nat.pow 10 (9 - kept.length), rest.dropWhile Text.isDigit)
  | cs => some (0, cs)

/-- Reads an offset from universal time, in minutes. -/
def offset? (cs : List Char) : Option (Int × List Char) :=
  match cs with
  | c :: rest =>
    if c = 'Z' ∨ c = 'z' then some (0, rest)
    else do
      let sign : Int ← if c = '+' then some 1 else if c = '-' ∨ c = '\u2212' then some (-1) else none
      let (hours, rest) ← digits? 2 rest
      let (minutes, rest) ← digits? 2 (← mark? [':'] rest)
      if hours < 24 ∧ minutes < 60 then return (sign * (60 * hours + minutes : Nat), rest) else none
  | [] => none

/-- Reads a date. -/
def date? (cs : List Char) : Option (Calendar.Date × List Char) := do
  let (year, rest) ← digits? 4 cs
  let (month, rest) ← digits? 2 (← mark? ['-'] rest)
  let (day, rest) ← digits? 2 (← mark? ['-'] rest)
  let date : Calendar.Date := ⟨year, month, day⟩
  if date.isValid then return (date, rest) else none

/-- Reads a time of the day: its seconds, and the nanoseconds beside them. -/
def time? (cs : List Char) : Option ((Nat × Nat) × List Char) := do
  let (hour, rest) ← digits? 2 cs
  let (minute, rest) ← digits? 2 (← mark? [':'] rest)
  let (second, rest) ← digits? 2 (← mark? [':'] rest)
  let (nanos, rest) ← fraction? rest
  if hour < 24 ∧ minute < 60 ∧ second ≤ 60 then
    if second = 60 then return ((3600 * hour + 60 * minute + 59, nanos + 1000000000), rest)
    else return ((3600 * hour + 60 * minute + second, nanos), rest)
  else none

/-- Reads an instant. -/
def ofRfc3339? (text : String) : Option Instant := do
  let (date, rest) ← date? text.toList
  let ((second, nanos), rest) ← time? (← mark? ['T', 't', ' '] rest)
  let (offset, rest) ← offset? rest
  if rest.isEmpty then return ⟨86400 * date.toDay + second - 60 * offset, nanos⟩ else none

/-! ## Writing -/

/-- Writes a fraction of a second in 0, 3, 6 or 9 digits. -/
def fractionText (nanos : Nat) : List Char :=
  if nanos = 0 then []
  else if nanos % 1000000 = 0 then '.' :: Text.fixed 3 (nanos / 1000000)
  else if nanos % 1000 = 0 then '.' :: Text.fixed 6 (nanos / 1000)
  else '.' :: Text.fixed 9 nanos

/-- Writes an instant in universal time. -/
def toRfc3339 (i : Instant) : String :=
  let w := WallClock.ofInstant .utc (.fixed 0) i
  let date := Calendar.Date.ofDay w.day
  String.ofList (Text.year date.year ++ '-' :: Text.fixed 2 date.month ++ '-' :: Text.fixed 2 date.day ++
    'T' :: Text.fixed 2 w.hour ++ ':' :: Text.fixed 2 w.minute ++
    ':' :: Text.fixed 2 w.secondOfMinute ++ fractionText (i.nanos % 1000000000) ++ Text.offsetInFull 0)

example : ofRfc3339? "2004-11-23T23:59:60.5+05:30" = some ⟨1101234599, 1500000000⟩ := by decide
example : ofRfc3339? "2004-02-30T00:00:00Z" = none := by decide
example : toRfc3339 ⟨1101234599, 1500000000⟩ = "2004-11-23T18:29:60.500+00:00" := by decide

end LogRotation.Instant
