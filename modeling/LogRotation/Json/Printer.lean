/-
  JSON objects as text: one field on a line, indented by two blanks.

  A string is quoted; a quote, a backslash and the control characters are written as escapes, and all
  other characters as themselves.
-/
import LogRotation.Text

namespace LogRotation.Json

/-- What a field of a report holds. -/
inductive Scalar
  | text (s : String)
  | truth (b : Bool)
  deriving DecidableEq, Repr

/-- A digit to the base 16, with small letters. -/
def hexDigit (n : Nat) : Char := if n < 10 then Text.digit n else Char.ofNat (87 + n)

/-- Writes one character of a string. -/
def escaped (c : Char) : List Char :=
  if c = '"' then ['\\', '"']
  else if c = '\\' then ['\\', '\\']
  else if c = '\n' then ['\\', 'n']
  else if c = '\r' then ['\\', 'r']
  else if c = '\t' then ['\\', 't']
  else if c = '\x08' then ['\\', 'b']
  else if c = '\x0c' then ['\\', 'f']
  else if c.toNat < 32 then ['\\', 'u', '0', '0', hexDigit (c.toNat / 16), hexDigit (c.toNat % 16)]
  else [c]

/-- Writes a string. -/
def quote (s : String) : String := String.ofList ('"' :: s.toList.flatMap escaped ++ ['"'])

/-- Writes what a field holds. -/
def Scalar.print : Scalar → String
  | text s => quote s
  | truth true => "true"
  | truth false => "false"

/-- Writes an object of at least one field. -/
def printObject (fields : List (String × Scalar)) : String :=
  let line (f : String × Scalar) : String := "  " ++ quote f.1 ++ ": " ++ f.2.print
  "\x7b\n" ++ String.intercalate ",\n" (fields.map line) ++ "\n\x7d"

example : quote "a\"\n\x01" = "\"a\\\"\\n\\u0001\"" := by decide

end LogRotation.Json
