/-
  JSON values, and how they are read from text.

  The grammar is that of RFC 8259.  A string is kept as its characters together with the lone
  surrogates that escapes may write: a string with such a surrogate is a value like any other, but
  stands for no text.

  Main definition: `Value.parse?`, which accepts one value between blanks and nothing else.
-/
import LogRotation.Text

namespace LogRotation.Json

/-! ## Values -/

/-- An element of a string. -/
inductive Element
  | char (c : Char)
  /-- Half of a pair of UTF-16 surrogates, as an escape writes it. -/
  | surrogate (code : Nat)
  deriving DecidableEq, Repr

/-- A value.  Of a number only its text is kept; an object keeps the order of its members. -/
inductive Value
  | null
  | bool (b : Bool)
  | number (text : List Char)
  | string (s : List Element)
  | array (items : List Value)
  | object (members : List (List Element × Value))

/-- The text of a string: surrogates must come in pairs. -/
def text? : List Element → Option (List Char)
  | [] => some []
  | .char c :: rest => (text? rest).map (c :: ·)
  | .surrogate high :: .surrogate low :: rest =>
    if high < 0xDC00 ∧ 0xDC00 ≤ low then
      (text? rest).map (Char.ofNat (0x10000 + (high - 0xD800) * 0x400 + (low - 0xDC00)) :: ·)
    else none
  | .surrogate _ :: _ => none

/-! ## Blanks, numbers, strings -/

/-- Holds of the four blanks of JSON. -/
def isBlank (c : Char) : Bool := c == ' ' || c == '\n' || c == '\t' || c == '\r'

/-- Drops leading blanks. -/
def skip (cs : List Char) : List Char := cs.dropWhile isBlank

/-- Cuts off a run of digits, which must not be empty. -/
def digits? (cs : List Char) : Option (List Char × List Char) :=
  match cs.takeWhile Text.isDigit with
  | [] => none
  | ds => some (ds, cs.dropWhile Text.isDigit)

/-- Cuts off the whole part of a number: a zero stands alone. -/
def whole? : List Char → Option (List Char × List Char)
  | '0' :: rest => some (['0'], rest)
  | cs => digits? cs

/-- Cuts off a fraction, if there is one. -/
def fraction? : List Char → Option (List Char × List Char)
  | '.' :: rest => (digits? rest).map fun (ds, r) => ('.' :: ds, r)
  | cs => some ([], cs)

/-- Cuts off a sign, if there is one. -/
def sign : List Char → List Char × List Char
  | '+' :: rest => (['+'], rest)
  | '-' :: rest => (['-'], rest)
  | cs => ([], cs)

/-- Cuts off an exponent, if there is one. -/
def exponent? : List Char → Option (List Char × List Char)
  | c :: rest =>
    if c = 'e' ∨ c = 'E' then
      (digits? (sign rest).2).map fun (ds, r) => (c :: (sign rest).1 ++ ds, r)
    else some ([], c :: rest)
  | [] => some ([], [])

/-- Cuts off a number without its sign. -/
def magnitude? (cs : List Char) : Option (List Char × List Char) := do
  let (whole, rest) ← whole? cs
  let (fraction, rest) ← fraction? rest
  let (exponent, rest) ← exponent? rest
  return (whole ++ fraction ++ exponent, rest)

/-- Cuts off a number. -/
def number? : List Char → Option (List Char × List Char)
  | '-' :: rest => (magnitude? rest).map fun (ds, r) => ('-' :: ds, r)
  | cs => magnitude? cs

/-- Reads four hexadecimal digits. -/
def fourHex? : List Char → Option (Nat × List Char)
  | a :: b :: c :: d :: rest => do
    let a ← Text.hexValue? a
    let b ← Text.hexValue? b
    let c ← Text.hexValue? c
    let d ← Text.hexValue? d
    return (((a * 16 + b) * 16 + c) * 16 + d, rest)
  | _ => none

/-- The character that a one-letter escape writes. -/
def escaped? : Char → Option Char
  | '"' => some '"'
  | '\\' => some '\\'
  | '/' => some '/'
  | 'b' => some '\x08'
  | 'f' => some '\x0c'
  | 'n' => some '\n'
  | 'r' => some '\r'
  | 't' => some '\t'
  | _ => none

/-- The element of a code unit. -/
def unit (code : Nat) : Element :=
  if 0xD800 ≤ code ∧ code ≤ 0xDFFF then .surrogate code else .char (Char.ofNat code)

/-- Reads the elements of a string up to and with the closing quote. -/
def string? : List Char → Option (List Element × List Char)
  | [] => none
  | '"' :: rest => some ([], rest)
  | '\\' :: 'u' :: a :: b :: c :: d :: rest => do
    let (code, _) ← fourHex? [a, b, c, d]
    let (s, r) ← string? rest
    return (unit code :: s, r)
  | '\\' :: c :: rest => do
    let e ← escaped? c
    let (s, r) ← string? rest
    return (.char e :: s, r)
  | c :: rest =>
    if c.toNat < 32 then none
    else (string? rest).map fun (s, r) => (.char c :: s, r)

/-! ## Values -/

mutual

/-- Reads one value, which must start at once.  The number bounds the depth of the recursion. -/
def value? : Nat → List Char → Option (Value × List Char)
  | 0, _ => none
  | fuel + 1, cs =>
    match cs with
    | 'n' :: 'u' :: 'l' :: 'l' :: rest => some (.null, rest)
    | 't' :: 'r' :: 'u' :: 'e' :: rest => some (.bool true, rest)
    | 'f' :: 'a' :: 'l' :: 's' :: 'e' :: rest => some (.bool false, rest)
    | '"' :: rest => (string? rest).map fun (s, r) => (.string s, r)
    | '[' :: rest =>
      match skip rest with
      | ']' :: rest => some (.array [], rest)
      | rest => (items? fuel rest).map fun (vs, r) => (.array vs, r)
    | '{' :: rest =>
      match skip rest with
      | '}' :: rest => some (.object [], rest)
      | rest => (members? fuel rest).map fun (ms, r) => (.object ms, r)
    | cs => (number? cs).map fun (t, r) => (.number t, r)

/-- Reads the items of an array, at least one, up to and with the closing bracket. -/
def items? : Nat → List Char → Option (List Value × List Char)
  | 0, _ => none
  | fuel + 1, cs => do
    let (v, rest) ← value? fuel cs
    match skip rest with
    | ']' :: rest => some ([v], rest)
    | ',' :: rest =>
      let (vs, rest) ← items? fuel (skip rest)
      some (v :: vs, rest)
    | _ => none

/-- Reads the members of an object, at least one, up to and with the closing brace. -/
def members? : Nat → List Char → Option (List (List Element × Value) × List Char)
  | 0, _ => none
  | fuel + 1, cs =>
    match cs with
    | '"' :: rest => do
      let (name, rest) ← string? rest
      match skip rest with
      | ':' :: rest =>
        let (v, rest) ← value? fuel (skip rest)
        match skip rest with
        | '}' :: rest => some ([(name, v)], rest)
        | ',' :: rest =>
          let (ms, rest) ← members? fuel (skip rest)
          some ((name, v) :: ms, rest)
        | _ => none
      | _ => none
    | _ => none

end

/-- Reads a text that holds one value. -/
def Value.parse? (cs : List Char) : Option Value :=
  match value? (cs.length + 1) (skip cs) with
  | some (v, rest) => if (skip rest).isEmpty then some v else none
  | none => none

end LogRotation.Json
