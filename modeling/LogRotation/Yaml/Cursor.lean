/-
  A place in a YAML text: what is left of it, and the mark that says where that is.

  Moving over a character moves the mark with it; moving over a line break starts a line, and a
  carriage return with a line feed is one break.  Two more breaks than in other texts are known here:
  the line and the paragraph separator, which stay themselves when a text is folded, where every
  other break counts as a line feed.
-/

namespace LogRotation.Yaml

/-- A place in a text, counted from 0. -/
structure Mark where
  index : Nat
  line : Nat
  column : Nat
  deriving DecidableEq, Repr, Inhabited

/-- Names a place: by line and column from 1, or as position 0. -/
def Mark.text (m : Mark) : String :=
  if m.line = 0 ∧ m.column = 0 then s!"position {m.index}"
  else s!"line {m.line + 1} column {m.column + 1}"

/-- A problem in a text, and the construct that was being read when it came up. -/
structure Fault where
  problem : String
  mark : Mark
  context : Option (String × Mark)
  deriving DecidableEq, Repr

/-- Tells a problem with its place; the place of the construct is told where it is another. -/
def Fault.text (f : Fault) : String :=
  let place := if f.mark.line = 0 ∧ f.mark.column = 0 then "" else s!" at {f.mark.text}"
  let context := match f.context with
    | none => ""
    | some (what, mark) =>
      if (mark.line = 0 ∧ mark.column = 0) ∨ (mark.line = f.mark.line ∧ mark.column = f.mark.column) then
        s!", {what}"
      else s!", {what} at {mark.text}"
  f.problem ++ place ++ context

/-! ## Characters -/

/-- Holds of the characters that a text may contain. -/
def isAllowed (c : Char) : Bool :=
  let n := c.toNat
  n == 9 || n == 10 || n == 13 || (0x20 ≤ n && n ≤ 0x7E) || n == 0x85 || (0xA0 ≤ n && n ≤ 0xFFFD) ||
    0x10000 ≤ n

/-- Holds of the characters that end a line. -/
def isBreak (c : Char) : Bool :=
  c == '\n' || c == '\r' || c == '\u0085' || c == '\u2028' || c == '\u2029'

/-- Holds of a space and a tab. -/
def isBlank (c : Char) : Bool := c == ' ' || c == '\t'

/-- Holds of the characters of names: letters, digits, the underscore and the hyphen. -/
def isWord (c : Char) : Bool :=
  let n := c.toNat
  (48 ≤ n && n ≤ 57) || (65 ≤ n && n ≤ 90) || (97 ≤ n && n ≤ 122) || c == '_' || c == '-'

/-- Holds at the end of a text and in front of a character of a class. -/
def endsOr (p : Char → Bool) : List Char → Bool
  | [] => true
  | c :: _ => p c

/-- Holds at the end of a text and in front of a blank or a line break. -/
def atGap (cs : List Char) : Bool := endsOr (fun c => isBlank c || isBreak c) cs

/-- Holds at the end of a text and in front of a line break. -/
def atLineEnd (cs : List Char) : Bool := endsOr isBreak cs

/-- Holds in front of a character of a class. -/
def ahead (p : Char → Bool) : List Char → Bool
  | [] => false
  | c :: _ => p c

/-! ## Cursors -/

/-- A place in a text with what is left of it. -/
structure Cursor where
  rest : List Char
  mark : Mark
  deriving DecidableEq, Repr, Inhabited

namespace Cursor

/-- Moves over `n` characters that are no line breaks. -/
def skip (n : Nat) (c : Cursor) : Cursor :=
  ⟨c.rest.drop n, { c.mark with index := c.mark.index + n, column := c.mark.column + n }⟩

/-- Moves over one line break; the result says what the break counts as. -/
def skipBreak (c : Cursor) : List Char × Cursor :=
  let next (n : Nat) (rest : List Char) : Cursor := ⟨rest, ⟨c.mark.index + n, c.mark.line + 1, 0⟩⟩
  match c.rest with
  | '\r' :: '\n' :: rest => (['\n'], next 2 rest)
  | b :: rest =>
    if b = '\u2028' ∨ b = '\u2029' then ([b], next 1 rest)
    else if isBreak b then (['\n'], next 1 rest)
    else ([], c)
  | [] => ([], c)

/-- Moves over the characters of a class, which must hold no line break, and gives them. -/
def takeWhile (p : Char → Bool) (c : Cursor) : List Char × Cursor :=
  let taken := c.rest.takeWhile p
  (taken, c.skip taken.length)

/-- Moves over the characters of a class, which must hold no line break. -/
def dropWhile (p : Char → Bool) (c : Cursor) : Cursor := (c.takeWhile p).2

/-- Moves over the blanks, and over a comment that follows them, to the end of the line. -/
def skipComment (c : Cursor) : Cursor :=
  let c := c.dropWhile isBlank
  if ahead (· == '#') c.rest then c.dropWhile (fun x => !isBreak x) else c

/-- Holds at the start of a line that begins with three characters alone: a document mark. -/
def atDocumentMark (c : Cursor) : Bool :=
  c.mark.column == 0 &&
    match c.rest with
    | '-' :: '-' :: '-' :: rest => atGap rest
    | '.' :: '.' :: '.' :: rest => atGap rest
    | _ => false

end Cursor

end LogRotation.Yaml
