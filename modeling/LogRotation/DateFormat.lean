/-
  Date formats: the text between the braces of a date placeholder.

  A format is read in three steps, each a recursion on the list it takes apart.

    * SYMBOLS   quotes are resolved: a pair of quotes is a quote, a single one opens or closes a
                quoted section, and what remains is either quoted or not;
    * PIECES    neighbouring copies of one unquoted letter form a run, all else is literal text;
    * PARTS     a run becomes a date field, by its letter and its length.

  Main definitions: `DateFormat.parse`, which fails at the first letter that is no field and
  otherwise at a quoted section left open, and `Field.write`, the value of one field on a wall clock.
-/
import LogRotation.Instant

namespace LogRotation

/-! ## Fields -/

/-- How a number is written: in as few digits as it needs, or with leading zeros. -/
inductive NumberStyle
  | bare
  | padded
  deriving DecidableEq, Repr

/-- How a year is written: in full, or its last two digits. -/
inductive YearStyle
  | full
  | lastTwo
  deriving DecidableEq, Repr

/-- How a name is written. -/
inductive NameStyle
  | short
  | full
  deriving DecidableEq, Repr

/-- The values that a date format can name. -/
inductive Field
  | era
  | year (style : YearStyle)
  | weekYear (style : YearStyle)
  | month (style : NumberStyle)
  | monthName (style : NameStyle)
  | day (style : NumberStyle)
  | dayOfYear (style : NumberStyle)
  | hour (style : NumberStyle)
  | hourOfHalf (style : NumberStyle)
  | minute (style : NumberStyle)
  | second (style : NumberStyle)
  | millisecond
  | weekdayName (style : NameStyle)
  | halfDay
  | week (style : NumberStyle)
  | weekday
  | offset
  | zoneName
  deriving DecidableEq, Repr

namespace Field

/-- The field that a run of one letter stands for. -/
def ofRun? (letter : Char) (length : Nat) : Option Field :=
  let number : NumberStyle := if length = 1 then .bare else .padded
  let years : YearStyle := if length = 2 then .lastTwo else .full
  match letter with
  | 'G' => some .era
  | 'y' => some (.year years)
  | 'Y' => some (.weekYear years)
  | 'M' => some (if length ≤ 2 then .month number else .monthName (if length = 3 then .short else .full))
  | 'd' => some (.day number)
  | 'D' => some (.dayOfYear number)
  | 'H' => some (.hour number)
  | 'h' => some (.hourOfHalf number)
  | 'm' => some (.minute number)
  | 's' => some (.second number)
  | 'S' => some .millisecond
  | 'E' => some (.weekdayName (if length ≤ 3 then .short else .full))
  | 'a' => some .halfDay
  | 'w' => some (.week number)
  | 'u' => some .weekday
  | 'Z' => some .offset
  | 'z' => some .zoneName
  | _ => none

/-- Writes a number in a style, where the padded form has `width` digits. -/
def number (style : NumberStyle) (width n : Nat) : List Char :=
  match style with
  | .bare => Text.decimal n
  | .padded => Text.fixed width n

/-- Writes a year in a style. -/
def yearText (style : YearStyle) (y : Int) : List Char :=
  match style with
  | .full => Text.year y
  | .lastTwo => Text.fixed 2 (y % 100).toNat

/-- Writes a name in a style; the short form has three letters. -/
def nameText (style : NameStyle) (name : String) : List Char :=
  match style with
  | .full => name.toList
  | .short => name.toList.take 3

/-- The value of a field on a wall clock. -/
def write (w : WallClock) : Field → List Char
  | era => ['A', 'D']
  | year style => yearText style (Calendar.yearOf w.day)
  | weekYear style => yearText style (Calendar.Week.ofDay w.day).year
  | month style => number style 2 (Calendar.Date.ofDay w.day).month
  | monthName style =>
    nameText style (Calendar.monthNames.getD ((Calendar.Date.ofDay w.day).month - 1) "")
  | day style => number style 2 (Calendar.Date.ofDay w.day).day
  | dayOfYear style => number style 3 (Calendar.dayOfYear w.day + 1)
  | hour style => number style 2 w.hour
  | hourOfHalf style => number style 2 w.hourOfHalf
  | minute style => number style 2 w.minute
  | second style => number style 2 w.secondOfMinute
  | millisecond => Text.fixed 3 w.millisecond
  | weekdayName style =>
    nameText style (Calendar.weekdayNames.getD (Calendar.weekday w.day - 1) "")
  | halfDay => if w.hour < 12 then ['A', 'M'] else ['P', 'M']
  | week style => number style 2 (Calendar.Week.ofDay w.day).number
  | weekday => Text.decimal (Calendar.weekday w.day)
  | offset => Text.offset w.offset
  | zoneName =>
    match w.zone with
    | .utc => ['U', 'T', 'C']
    | .localTime => Text.offsetInFull w.offset

end Field

/-! ## Symbols -/

namespace DateFormat

/-- A character of a format, once its quotes are resolved. -/
inductive Symbol
  | quoted (c : Char)
  | plain (c : Char)
  deriving DecidableEq, Repr

/-- Resolves the quotes of a format; the second component tells whether a section is left open.
The flag tells whether reading begins within a quoted section. -/
def symbols : Bool → List Char → List Symbol × Bool
  | inside, [] => ([], inside)
  | inside, '\x27' :: '\x27' :: rest =>
    (.quoted '\x27' :: (symbols inside rest).1, (symbols inside rest).2)
  | inside, c :: rest =>
    if c = '\x27' then symbols (!inside) rest
    else if inside then (.quoted c :: (symbols true rest).1, (symbols true rest).2)
    else (.plain c :: (symbols false rest).1, (symbols false rest).2)

/-! ## Pieces -/

/-- Literal text, or a run of one letter. -/
inductive Piece
  | literal (c : Char)
  | run (letter : Char) (length : Nat)
  deriving DecidableEq, Repr

/-- Adds one unquoted letter in front of some pieces, to the run that it continues. -/
def joinLetter (letter : Char) : List Piece → List Piece
  | .run l n :: rest => if l = letter then .run l (n + 1) :: rest else .run letter 1 :: .run l n :: rest
  | rest => .run letter 1 :: rest

/-- Gathers the unquoted letters into runs. -/
def pieces : List Symbol → List Piece
  | [] => []
  | .quoted c :: rest => .literal c :: pieces rest
  | .plain c :: rest => if Text.isLetter c then joinLetter c (pieces rest) else .literal c :: pieces rest

/-! ## Parts -/

/-- One part of a format: a character that stands for itself, or a field. -/
inductive Part
  | literal (c : Char)
  | field (f : Field)
  deriving DecidableEq, Repr

/-- The reasons to refuse a format. -/
inductive Fault
  /-- A letter that is no field. -/
  | unsupportedLetter (letter : Char)
  /-- A quoted section that is left open. -/
  | unterminatedQuote
  deriving DecidableEq, Repr

/-- Turns runs into fields, and fails at the first letter that is none. -/
def parts : List Piece → Except Fault (List Part)
  | [] => .ok []
  | .literal c :: rest => do return .literal c :: (← parts rest)
  | .run letter length :: rest => do
    match Field.ofRun? letter length with
    | none => .error (.unsupportedLetter letter)
    | some f => return .field f :: (← parts rest)

/-- Reads a format. -/
def parse (format : List Char) : Except Fault (List Part) := do
  let (read, unterminated) := symbols false format
  let result ← parts (pieces read)
  if unterminated then .error .unterminatedQuote else return result

/-- Explains why a format is refused. -/
def Fault.text (format : String) : Fault → String
  | .unterminatedQuote => s!"unterminated quote in date format '{format}'"
  | .unsupportedLetter c =>
    if c = 'k' ∨ c = 'K' then
      s!"hour letter '{c}' in date format '{format}' is not supported, use 'H' or 'h'"
    else if c = 'W' ∨ c = 'F' then
      s!"week-of-month letter '{c}' in date format '{format}' is not supported, use 'w'"
    else s!"unsupported date letter '{c}' in date format '{format}'"

/-! ## Rendering -/

/-- What a part shows on a wall clock. -/
def Part.write (w : WallClock) : Part → List Char
  | .literal c => [c]
  | .field f => f.write w

/-- A format shows its parts one after the other. -/
def render (w : WallClock) (format : List Part) : List Char := format.flatMap (Part.write w)

example : symbols false "yy'T''x'H".toList =
    ([.plain 'y', .plain 'y', .quoted 'T', .quoted '\x27', .quoted 'x', .plain 'H'], false) := by
  decide

example : parse "yyyy-MM".toList =
    .ok [.field (.year .full), .literal '-', .field (.month .padded)] := by rfl

example : parse "q'".toList = .error (.unsupportedLetter 'q') := by rfl

end DateFormat

end LogRotation
