/-
  TOML values, and how they are read from text.

  The grammar is that of TOML 1.0.  A configuration needs the texts and the tables of a document, so
  numbers, booleans and times are recognised with all their rules and then forgotten: each is a
  `Value.scalar`.

  Sections: characters, strings, numbers, dates and times, keys, and the values built from them.
-/
import LogRotation.Calendar
import LogRotation.Text

namespace LogRotation.Toml

/-- How a table came to be, which decides who may still add to it. -/
inductive TableKind
  /-- Written between braces: closed. -/
  | inline
  /-- Named by a header of its own. -/
  | header
  /-- Named on the way to another header. -/
  | implicit
  /-- Named by a dotted key. -/
  | dotted
  deriving DecidableEq, Repr

/-- A value; the entries of a table keep their order. -/
inductive Value
  | text (s : List Char)
  | scalar
  | array (items : List Value)
  | table (kind : TableKind) (entries : List (List Char × Value))
  | tables (elements : List (List (List Char × Value)))

/-- The entries of a table. -/
abbrev Entries := List (List Char × Value)

/-- A key, which is a path when it has dots. -/
abbrev KeyPath := List (List Char)

/-! ## Characters -/

/-- Holds of the two blanks. -/
def isBlank (c : Char) : Bool := c == ' ' || c == '\t'

/-- Drops leading blanks. -/
def skip (cs : List Char) : List Char := cs.dropWhile isBlank

/-- Holds of the characters that a comment or a string may hold as they are. -/
def isPlain (c : Char) : Bool := c == '\t' || (32 ≤ c.toNat && c.toNat != 127)

/-- Drops one line break. -/
def newline? : List Char → Option (List Char)
  | '\n' :: rest => some rest
  | '\r' :: '\n' :: rest => some rest
  | _ => none

/-- Drops a comment, if there is one, up to the end of its line. -/
def dropComment : List Char → List Char
  | '#' :: rest => rest.dropWhile isPlain
  | cs => cs

/-- Drops what may stand at the end of a line and the line break; the text may end instead. -/
def lineEnd? (cs : List Char) : Option (List Char) :=
  match dropComment (skip cs) with
  | [] => some []
  | rest => newline? rest

/-! ## Strings -/

/-- The character that a one-letter escape writes. -/
def escaped? : Char → Option Char
  | 'b' => some '\x08'
  | 't' => some '\t'
  | 'n' => some '\n'
  | 'f' => some '\x0c'
  | 'r' => some '\r'
  | '"' => some '"'
  | '\\' => some '\\'
  | _ => none

/-- The character of a code point in hexadecimal digits; surrogates are no characters. -/
def codePoint? (digits : List Char) : Option Char := do
  let values ← digits.mapM Text.hexValue?
  let n := values.foldl (fun n d => 16 * n + d) 0
  if n < 0xD800 ∨ (0xDFFF < n ∧ n < 0x110000) then some (Char.ofNat n) else none

/-- Adds a character in front of a string that was read. -/
def put (c : Char) : Option (List Char × List Char) → Option (List Char × List Char) :=
  Option.map fun (s, rest) => (c :: s, rest)

/-- Reads a basic string after its opening quote. -/
def basic? : List Char → Option (List Char × List Char)
  | [] => none
  | '"' :: rest => some ([], rest)
  | '\\' :: 'u' :: a :: b :: c :: d :: rest =>
    (codePoint? [a, b, c, d]).bind fun x => put x (basic? rest)
  | '\\' :: 'U' :: a :: b :: c :: d :: e :: f :: g :: h :: rest =>
    (codePoint? [a, b, c, d, e, f, g, h]).bind fun x => put x (basic? rest)
  | '\\' :: c :: rest => (escaped? c).bind fun x => put x (basic? rest)
  | c :: rest => if isPlain c then put c (basic? rest) else none

/-- Reads a literal string after its opening quote. -/
def literal? : List Char → Option (List Char × List Char)
  | [] => none
  | '\x27' :: rest => some ([], rest)
  | c :: rest => if isPlain c then put c (literal? rest) else none

/-- Holds when nothing but blanks stands before the end of the line. -/
def blankToLineEnd (cs : List Char) : Bool := (newline? (skip cs)).isSome

/-- Reads a basic string of many lines after its opening quotes.  While `trimming`, blanks and line
breaks are passed over: a backslash at the end of a line asks for that. -/
def basicLines? : Bool → List Char → Option (List Char × List Char)
  | _, [] => none
  | _, '"' :: '"' :: '"' :: '"' :: '"' :: rest => some (['"', '"'], rest)
  | _, '"' :: '"' :: '"' :: '"' :: rest => some (['"'], rest)
  | _, '"' :: '"' :: '"' :: rest => some ([], rest)
  | _, '\\' :: 'u' :: a :: b :: c :: d :: rest =>
    (codePoint? [a, b, c, d]).bind fun x => put x (basicLines? false rest)
  | _, '\\' :: 'U' :: a :: b :: c :: d :: e :: f :: g :: h :: rest =>
    (codePoint? [a, b, c, d, e, f, g, h]).bind fun x => put x (basicLines? false rest)
  | _, '\\' :: c :: rest =>
    if blankToLineEnd (c :: rest) then basicLines? true rest
    else (escaped? c).bind fun x => put x (basicLines? false rest)
  | trimming, '\r' :: '\n' :: rest =>
    if trimming then basicLines? true rest else put '\n' (basicLines? false rest)
  | trimming, c :: rest =>
    if trimming && (isBlank c || c == '\n') then basicLines? true rest
    else if isPlain c || c == '\n' then put c (basicLines? false rest)
    else none

/-- Reads a literal string of many lines after its opening quotes. -/
def literalLines? : List Char → Option (List Char × List Char)
  | [] => none
  | '\x27' :: '\x27' :: '\x27' :: '\x27' :: '\x27' :: rest => some (['\x27', '\x27'], rest)
  | '\x27' :: '\x27' :: '\x27' :: '\x27' :: rest => some (['\x27'], rest)
  | '\x27' :: '\x27' :: '\x27' :: rest => some ([], rest)
  | '\r' :: '\n' :: rest => put '\n' (literalLines? rest)
  | c :: rest => if isPlain c || c == '\n' then put c (literalLines? rest) else none

/-- Drops the line break that may follow the opening quotes of a string of many lines. -/
def dropNewline (cs : List Char) : List Char := (newline? cs).getD cs

/-- Reads a string of any form. -/
def string? : List Char → Option (List Char × List Char)
  | '"' :: '"' :: '"' :: rest => basicLines? false (dropNewline rest)
  | '"' :: rest => basic? rest
  | '\x27' :: '\x27' :: '\x27' :: rest => literalLines? (dropNewline rest)
  | '\x27' :: rest => literal? rest
  | _ => none

/-! ## Numbers -/

/-- The rest of a run of digits, where an underscore may stand between two of them. -/
def moreDigits (p : Char → Bool) : List Char → List Char × List Char
  | '_' :: c :: rest =>
    if p c then (c :: (moreDigits p rest).1, (moreDigits p rest).2) else ([], '_' :: c :: rest)
  | c :: rest => if p c then (c :: (moreDigits p rest).1, (moreDigits p rest).2) else ([], c :: rest)
  | [] => ([], [])

/-- Cuts off a run of digits, which must not be empty. -/
def digits? (p : Char → Bool) : List Char → Option (List Char × List Char)
  | c :: rest => if p c then some (c :: (moreDigits p rest).1, (moreDigits p rest).2) else none
  | [] => none

/-- Cuts off a sign, if there is one; the flag tells a minus. -/
def sign : List Char → Bool × List Char
  | '+' :: rest => (false, rest)
  | '-' :: rest => (true, rest)
  | cs => (false, cs)

/-- Cuts off the decimal digits of a whole number: a zero stands alone. -/
def whole? : List Char → Option (List Char × List Char)
  | '0' :: rest => some (['0'], rest)
  | cs => digits? Text.isDigit cs

/-- Reads a number in a base that is a power of two, up to the largest of 64 bits with a sign. -/
def basedInteger? (base : Nat) (cs : List Char) : Option (List Char) := do
  let valid (c : Char) : Bool := match Text.hexValue? c with
    | some v => decide (v < base)
    | none => false
  let (ds, rest) ← digits? valid cs
  let n := ds.foldl (fun n c => base * n + (Text.hexValue? c).getD 0) 0
  if n < Nat.pow 2 63 then some rest else none

/-- Cuts off an exponent and reads it, if there is one. -/
def exponent? : List Char → Option (Option Int × List Char)
  | c :: rest =>
    if c = 'e' ∨ c = 'E' then do
      let (negative, rest) := sign rest
      let (ds, rest) ← digits? Text.isDigit rest
      let n : Int := Text.numberOf ds
      return (some (if negative then -n else n), rest)
    else some (none, c :: rest)
  | [] => some (none, [])

/-- Holds when a decimal number is too large for a double: it rounds to infinity. -/
def overflows (digits : List Char) (exponent : Int) : Bool :=
  let digits := digits.dropWhile (· == '0')
  let size := (digits.length : Int) + exponent
  if digits.isEmpty then false
  else if size ≤ 308 then false
  else if 310 ≤ size then true
  else
    let limit := (Nat.pow 2 54 - 1) * Nat.pow 2 970
    let m := Text.numberOf digits
    if 0 ≤ exponent then decide (limit ≤ m * Nat.pow 10 exponent.toNat)
    else decide (limit * Nat.pow 10 exponent.natAbs ≤ m)

/-- Cuts off a fraction, if there is one. -/
def fraction? : List Char → Option (Option (List Char) × List Char)
  | '.' :: rest => (digits? Text.isDigit rest).map fun (ds, r) => (some ds, r)
  | cs => some (none, cs)

/-- Cuts off a decimal number. -/
def decimal? (cs : List Char) : Option (List Char) := do
  let (negative, rest) := sign cs
  match rest with
  | 'i' :: 'n' :: 'f' :: rest => some rest
  | 'n' :: 'a' :: 'n' :: rest => some rest
  | _ =>
    let (whole, rest) ← whole? rest
    let (fraction, rest) ← fraction? rest
    let (exponent, rest) ← exponent? rest
    match fraction, exponent with
    | none, none =>
      if Text.numberOf whole < Nat.pow 2 63 + (if negative then 1 else 0) then some rest else none
    | fraction, exponent =>
      let ds := fraction.getD []
      if !negative && overflows (whole ++ ds) (exponent.getD 0 - ds.length) then none
      else some rest

/-- Cuts off a number. -/
def number? : List Char → Option (List Char)
  | '0' :: 'x' :: rest => basedInteger? 16 rest
  | '0' :: 'o' :: rest => basedInteger? 8 rest
  | '0' :: 'b' :: rest => basedInteger? 2 rest
  | cs => decimal? cs

/-! ## Dates and times -/

/-- Cuts off a number of exactly `width` digits. -/
def fixedNumber? (width : Nat) (cs : List Char) : Option (Nat × List Char) :=
  let ds := cs.take width
  if ds.length = width ∧ ds.all Text.isDigit then some (Text.numberOf ds, cs.drop width) else none

/-- Cuts off one character. -/
def only? (c : Char) : List Char → Option (List Char)
  | d :: rest => if d = c then some rest else none
  | [] => none

/-- Cuts off a date that the calendar has. -/
def date? (cs : List Char) : Option (List Char) := do
  let (year, rest) ← fixedNumber? 4 cs
  let (month, rest) ← fixedNumber? 2 (← only? '-' rest)
  let (day, rest) ← fixedNumber? 2 (← only? '-' rest)
  if (Calendar.Date.mk year month day).isValid then some rest else none

/-- Cuts off a time of day, which may have a fraction. -/
def time? (cs : List Char) : Option (List Char) := do
  let (hour, rest) ← fixedNumber? 2 cs
  let (minute, rest) ← fixedNumber? 2 (← only? ':' rest)
  let (second, rest) ← fixedNumber? 2 (← only? ':' rest)
  if hour ≤ 23 ∧ minute ≤ 59 ∧ second ≤ 60 then
    match rest with
    | '.' :: rest =>
      match rest.takeWhile Text.isDigit with
      | [] => none
      | _ => some (rest.dropWhile Text.isDigit)
    | rest => some rest
  else none

/-- Cuts off the offset of a time, if there is one. -/
def timeOffset (cs : List Char) : List Char :=
  match cs with
  | c :: rest =>
    if c = 'Z' ∨ c = 'z' then rest
    else if c = '+' ∨ c = '-' then
      let read : Option (List Char) := do
        let (hour, rest) ← fixedNumber? 2 rest
        let (minute, rest) ← fixedNumber? 2 (← only? ':' rest)
        if hour ≤ 23 ∧ minute ≤ 59 then some rest else none
      read.getD cs
    else cs
  | [] => []

/-- Cuts off a time after a date, if there is one. -/
def timeAfterDate (cs : List Char) : List Char :=
  match cs with
  | c :: rest =>
    if c = 'T' ∨ c = 't' ∨ c = ' ' then ((time? rest).map timeOffset).getD cs else cs
  | [] => []

/-- Cuts off a date, a time, or both. -/
def dateTime? (cs : List Char) : Option (List Char) :=
  match date? cs with
  | some rest => some (timeAfterDate rest)
  | none => time? cs

/-! ## Keys -/

/-- Holds of the characters of a bare key. -/
def isKeyChar (c : Char) : Bool := Text.isLetter c || Text.isDigit c || c == '_' || c == '-'

/-- Cuts off one part of a key. -/
def simpleKey? : List Char → Option (List Char × List Char)
  | '"' :: rest => basic? rest
  | '\x27' :: rest => literal? rest
  | cs =>
    match cs.takeWhile isKeyChar with
    | [] => none
    | key => some (key, cs.dropWhile isKeyChar)

/-- The deepest nesting that is read, of values and of keys. -/
def depthLimit : Nat := 80

/-- Cuts off a key of at most so many parts, with the blanks around it. -/
def key? : Nat → List Char → Option (KeyPath × List Char)
  | 0, _ => none
  | limit + 1, cs => do
    let (key, rest) ← simpleKey? (skip cs)
    match skip rest with
    | '.' :: rest => (key? limit rest).map fun (path, r) => (key :: path, r)
    | rest => some ([key], rest)

/-! ## Tables as values -/

/-- The value of a key. -/
def lookup (key : List Char) (entries : Entries) : Option Value :=
  (entries.find? fun e => e.1 == key).map Prod.snd

/-- Sets the value of a key, at its place or at the end. -/
def set (key : List Char) (v : Value) : Entries → Entries
  | [] => [(key, v)]
  | (k, w) :: rest => if k = key then (k, v) :: rest else (k, w) :: set key v rest

/-- Adds an entry to a table between braces; a dotted key makes tables that only dotted keys reach,
and no key is set twice. -/
def insertInline? (key : List Char) (v : Value) : KeyPath → Entries → Option Entries
  | [], entries => if (lookup key entries).isSome then none else some (entries ++ [(key, v)])
  | step :: path, entries =>
    match lookup step entries with
    | none => (insertInline? key v path []).map fun inner => entries ++ [(step, .table .dotted inner)]
    | some (.table .dotted inner) =>
      (insertInline? key v path inner).map fun inner => set step (.table .dotted inner) entries
    | some _ => none

/-! ## Values -/

/-- Drops blanks, comments and line breaks between the items of an array.  The number bounds the
count of lines. -/
def skipLines : Nat → List Char → List Char
  | 0, cs => cs
  | fuel + 1, cs =>
    match dropComment (skip cs) with
    | [] => []
    | rest =>
      match newline? rest with
      | some rest => skipLines fuel rest
      | none => rest

mutual

/-- Reads one value, which must start at once.  The first number bounds the recursion, the second
the nesting that is left. -/
def value? : Nat → Nat → List Char → Option (Value × List Char)
  | 0, _, _ => none
  | fuel + 1, depth, cs =>
    match cs with
    | [] => none
    | c :: rest =>
      if c = '"' ∨ c = '\x27' then (string? cs).map fun (s, r) => (.text s, r)
      else if c = '[' then
        match depth with
        | 0 => none
        | depth + 1 => (items? fuel depth (skipLines fuel rest)).map fun (vs, r) => (.array vs, r)
      else if c = '{' then
        match depth with
        | 0 => none
        | depth + 1 =>
          match skip rest with
          | '}' :: rest => some (.table .inline [], rest)
          | rest => (pairs? fuel depth [] rest).map fun (es, r) => (.table .inline es, r)
      else match cs with
        | 't' :: 'r' :: 'u' :: 'e' :: rest => some (.scalar, rest)
        | 'f' :: 'a' :: 'l' :: 's' :: 'e' :: rest => some (.scalar, rest)
        | cs =>
          match dateTime? cs with
          | some rest => some (.scalar, rest)
          | none => (number? cs).map fun r => (.scalar, r)

/-- Reads the items of an array up to and with the closing bracket; a comma may end them. -/
def items? : Nat → Nat → List Char → Option (List Value × List Char)
  | 0, _, _ => none
  | fuel + 1, depth, cs =>
    match cs with
    | ']' :: rest => some ([], rest)
    | cs => do
      let (v, rest) ← value? fuel depth cs
      match skipLines fuel rest with
      | ']' :: rest => some ([v], rest)
      | ',' :: rest =>
        let (vs, rest) ← items? fuel depth (skipLines fuel rest)
        some (v :: vs, rest)
      | _ => none

/-- Reads the pairs of a table between braces, at least one, up to and with the closing brace. -/
def pairs? : Nat → Nat → Entries → List Char → Option (Entries × List Char)
  | 0, _, _, _ => none
  | fuel + 1, depth, entries, cs => do
    let (path, rest) ← key? (depthLimit - 1) cs
    let (v, rest) ← value? fuel depth (skip (← only? '=' rest))
    let entries ← insertInline? (path.getLast?.getD []) v path.dropLast entries
    match skip rest with
    | '}' :: rest => some (entries, rest)
    | ',' :: rest => pairs? fuel depth entries rest
    | _ => none

end

end LogRotation.Toml
