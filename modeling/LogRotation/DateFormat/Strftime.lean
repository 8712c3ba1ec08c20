/-
  Date formats as programs in the notation of strftime.

  In a program a percent sign begins a conversion, and every other character stands for itself.  A
  format is translated once, and its program is what is run at each instant.

    * TOKENS       a format is gone over from left to right: a run of one letter, a quoted section, a
                   pair of quotes, or any other character;
    * TRANSLATION  a run becomes a conversion, literal text has its percent signs doubled;
    * PARTS        what a program prints, conversion by conversion;
    * CHECK        a program is gone over once more before it is kept: all its conversions must be known.

  Main definitions: `Strftime.ofFormat`, which fails at the first token that cannot be translated,
  `Strftime.parts?`, and `Strftime.translate`, which does both.
-/
import LogRotation.DateFormat

namespace LogRotation

/-! ## Tokens -/

namespace DateFormat

/-- A token of a format. -/
inductive Token
  /-- A run of one unquoted letter. -/
  | letters (letter : Char) (length : Nat)
  /-- A quoted section, by what it says. -/
  | quoted (text : List Char)
  /-- A pair of quotes. -/
  | quote
  | other (c : Char)
  deriving DecidableEq, Repr

/-- Reads a quoted section behind its opening quote: what it says, and what follows it. -/
def quotation? : List Char → Option (List Char × List Char)
  | [] => none
  | '\x27' :: '\x27' :: rest => (quotation? rest).map fun (text, after) => ('\x27' :: text, after)
  | c :: rest =>
    if c = '\x27' then some ([], rest)
    else (quotation? rest).map fun (text, after) => (c :: text, after)

/-- Reads the first token; a quoted section that is left open is none. -/
def first? : List Char → Option (Token × List Char)
  | [] => none
  | '\x27' :: '\x27' :: rest => some (.quote, rest)
  | c :: rest =>
    if c = '\x27' then (quotation? rest).map fun (text, after) => (.quoted text, after)
    else if Text.isLetter c then
      some (.letters c ((rest.takeWhile (· == c)).length + 1), rest.dropWhile (· == c))
    else some (.other c, rest)

theorem length_quotation? {cs text after : List Char} (h : quotation? cs = some (text, after)) :
    after.length < cs.length := by
  fun_induction quotation? cs generalizing text with
  | case1 => cases h
  | case2 rest ih =>
    obtain ⟨⟨text', after'⟩, hr, he⟩ := Option.map_eq_some_iff.mp h
    cases he
    have := ih hr
    simp only [List.length_cons]
    omega
  | case3 =>
    cases h
    exact Nat.lt_succ_self _
  | case4 c rest _ _ ih =>
    obtain ⟨⟨text', after'⟩, hr, he⟩ := Option.map_eq_some_iff.mp h
    cases he
    exact Nat.lt_succ_of_lt (ih hr)

/-- A token takes something away. -/
theorem length_first? {cs rest : List Char} {t : Token} (h : first? cs = some (t, rest)) :
    rest.length < cs.length := by
  unfold first? at h
  split at h
  · cases h
  · cases h
    simp only [List.length_cons]
    omega
  · split at h
    · obtain ⟨⟨text, after⟩, hr, he⟩ := Option.map_eq_some_iff.mp h
      cases he
      exact Nat.lt_succ_of_lt (length_quotation? hr)
    · split at h
      · cases h
        exact Nat.lt_succ_of_le (List.dropWhile_sublist _).length_le
      · cases h
        exact Nat.lt_succ_self _

end DateFormat

namespace Strftime

open DateFormat (Token Fault Part)

/-! ## Translation -/

/-- A character that stands for itself. -/
def literal (c : Char) : List Char := if c = '%' then ['%', '%'] else [c]

/-- The conversion for a run of one letter; the era is the same at all times. -/
def conversion? (letter : Char) (length : Nat) : Option String :=
  match letter with
  | 'G' => some "AD"
  | 'y' => some (if length = 2 then "%y" else "%Y")
  | 'Y' => some (if length = 2 then "%g" else "%G")
  | 'M' =>
    some (if length = 1 then "%-m" else if length = 2 then "%m" else if length = 3 then "%b" else "%B")
  | 'd' => some (if length = 1 then "%-d" else "%d")
  | 'D' => some (if length = 1 then "%-j" else "%j")
  | 'H' => some (if length = 1 then "%-H" else "%H")
  | 'h' => some (if length = 1 then "%-I" else "%I")
  | 'm' => some (if length = 1 then "%-M" else "%M")
  | 's' => some (if length = 1 then "%-S" else "%S")
  | 'S' => some "%3f"
  | 'E' => some (if length ≤ 3 then "%a" else "%A")
  | 'a' => some "%p"
  | 'w' => some (if length = 1 then "%-V" else "%V")
  | 'u' => some "%u"
  | 'Z' => some "%z"
  | 'z' => some "%Z"
  | _ => none

/-- Translates one token. -/
def ofToken : Token → Except Fault (List Char)
  | .letters letter length =>
    match conversion? letter length with
    | some conversion => .ok conversion.toList
    | none => .error (.unsupportedLetter letter)
  | .quoted text => .ok (text.flatMap literal)
  | .quote => .ok ['\x27']
  | .other c => .ok (literal c)

/-- Translates a format, token by token. -/
def ofFormat (cs : List Char) : Except Fault (List Char) :=
  if cs.isEmpty then .ok []
  else
    match _h : DateFormat.first? cs with
    | none => .error .unterminatedQuote
    | some (token, rest) => do return (← ofToken token) ++ (← ofFormat rest)
termination_by cs.length
decreasing_by exact DateFormat.length_first? _h

/-! ## Parts -/

/-- The field of a conversion. -/
def field? : Char → Option Field
  | 'Y' => some (.year .full)
  | 'y' => some (.year .lastTwo)
  | 'G' => some (.weekYear .full)
  | 'g' => some (.weekYear .lastTwo)
  | 'm' => some (.month .padded)
  | 'b' => some (.monthName .short)
  | 'B' => some (.monthName .full)
  | 'd' => some (.day .padded)
  | 'j' => some (.dayOfYear .padded)
  | 'H' => some (.hour .padded)
  | 'I' => some (.hourOfHalf .padded)
  | 'M' => some (.minute .padded)
  | 'S' => some (.second .padded)
  | 'a' => some (.weekdayName .short)
  | 'A' => some (.weekdayName .full)
  | 'p' => some .halfDay
  | 'V' => some (.week .padded)
  | 'u' => some .weekday
  | 'z' => some .offset
  | 'Z' => some .zoneName
  | _ => none

/-- The field of a conversion that asks for no leading zeros. -/
def bareField? : Char → Option Field
  | 'm' => some (.month .bare)
  | 'd' => some (.day .bare)
  | 'j' => some (.dayOfYear .bare)
  | 'H' => some (.hour .bare)
  | 'I' => some (.hourOfHalf .bare)
  | 'M' => some (.minute .bare)
  | 'S' => some (.second .bare)
  | 'V' => some (.week .bare)
  | _ => none

/-- What a program prints: conversions are taken from the left, each as far as it goes. -/
def parts? : List Char → Option (List Part)
  | [] => some []
  | ['%'] => none
  | '%' :: '%' :: rest => (parts? rest).map (.literal '%' :: ·)
  | '%' :: '3' :: 'f' :: rest => (parts? rest).map (.field .millisecond :: ·)
  | '%' :: '-' :: c :: rest => do return .field (← bareField? c) :: (← parts? rest)
  | '%' :: c :: rest => do return .field (← field? c) :: (← parts? rest)
  | c :: rest => (parts? rest).map (.literal c :: ·)

/-- What a program prints on a wall clock, if all its conversions are known. -/
def print? (w : WallClock) (program : List Char) : Option (List Char) :=
  (parts? program).map (DateFormat.render w)

/-! ## Check -/

/-- The reasons to keep no program for a format. -/
inductive Refusal
  /-- The format cannot be translated. -/
  | fault (fault : Fault)
  /-- Its program cannot be run. -/
  | unrenderable
  deriving DecidableEq, Repr

/-- Translates a format into a program that can be run. -/
def translate (format : List Char) : Except Refusal (List Char) :=
  match ofFormat format with
  | .error fault => .error (.fault fault)
  | .ok program => if (parts? program).isSome then .ok program else .error .unrenderable

end Strftime

end LogRotation
