/-
  The four forms of YAML scalars that run over several lines, and how their lines are joined.

    * PLAIN            without quotes; ends at a colon or comment, or where the indentation ends
    * SINGLE, DOUBLE   between quotes; a double quoted one has escapes
    * BLOCK            under a header: literal keeps its line breaks, folded joins lines

  Everywhere but in a literal block, one line break between two lines counts as a space, and of
  several the first is dropped.

  Each reader is a recursion with a bound on its steps, which is the length of what is left.
-/
import LogRotation.Yaml.Cursor
import LogRotation.Text

namespace LogRotation.Yaml

/-- How a scalar is written. -/
inductive ScalarStyle
  | plain
  | singleQuoted
  | doubleQuoted
  | literal
  | folded
  deriving DecidableEq, Repr

/-! ## Blanks between words -/

/-- What stands between two words: blanks on one line, or line breaks. -/
structure Gap where
  /-- Blanks, as long as no line break was seen. -/
  blanks : List Char
  /-- What the first line break counts as. -/
  first : List Char
  /-- What the other line breaks count as. -/
  others : List Char
  /-- Set once a line break was seen. -/
  broken : Bool
  deriving DecidableEq, Repr

/-- Nothing between two words. -/
def Gap.empty : Gap := ⟨[], [], [], false⟩

/-- The text that a gap counts as. -/
def Gap.fold (g : Gap) : List Char :=
  if g.broken then
    if g.first.head? = some '\n' then (if g.others.isEmpty then [' '] else g.others)
    else g.first ++ g.others
  else g.blanks

/-- Adds a line break to a gap. -/
def Gap.addBreak (g : Gap) (b : List Char) : Gap :=
  if g.broken then { g with others := g.others ++ b } else ⟨[], b, g.others, true⟩

/-- Reads a gap.  `tabFault` says whether a tab at a column is out of place; the place of such a tab
is the error. -/
def gap (tabFault : Nat → Bool) : Nat → Gap → Cursor → Except Mark (Gap × Cursor)
  | 0, g, c => .ok (g, c)
  | fuel + 1, g, c =>
    match c.rest with
    | [] => .ok (g, c)
    | x :: _ =>
      if isBlank x then
        if g.broken && x == '\t' && tabFault c.mark.column then .error c.mark
        else gap tabFault fuel (if g.broken then g else { g with blanks := g.blanks ++ [x] }) (c.skip 1)
      else if isBreak x then gap tabFault fuel (g.addBreak c.skipBreak.1) c.skipBreak.2
      else .ok (g, c)

/-! ## Quoted scalars -/

/-- The character that a one-letter escape writes. -/
def escaped? : Char → Option Char
  | '0' => some '\x00'
  | 'a' => some '\x07'
  | 'b' => some '\x08'
  | 't' => some '\t'
  | '\t' => some '\t'
  | 'n' => some '\n'
  | 'v' => some '\x0b'
  | 'f' => some '\x0c'
  | 'r' => some '\x0d'
  | 'e' => some '\x1b'
  | ' ' => some ' '
  | '"' => some '"'
  | '/' => some '/'
  | '\\' => some '\\'
  | 'N' => some '\u0085'
  | '_' => some '\u00a0'
  | 'L' => some '\u2028'
  | 'P' => some '\u2029'
  | _ => none

/-- The count of digits that an escape of a code point has. -/
def escapeWidth? : Char → Option Nat
  | 'x' => some 2
  | 'u' => some 4
  | 'U' => some 8
  | _ => none

/-- Reads an escape after its backslash. -/
def escape (start : Mark) (c : Cursor) : Except Fault (Char × Cursor) :=
  let refuse (problem : String) (mark : Mark) : Except Fault (Char × Cursor) :=
    .error ⟨problem, mark, some ("while parsing a quoted scalar", start)⟩
  match c.rest with
  | [] => refuse "found unknown escape character" c.mark
  | x :: rest =>
    match escaped? x, escapeWidth? x with
    | some y, _ => .ok (y, c.skip 1)
    | none, none =>
      refuse "found unknown escape character" { c.mark with column := c.mark.column - 1 }
    | none, some width =>
      match (rest.take width).mapM Text.hexValue? with
      | none => refuse "did not find expected hexdecimal number" (c.skip 1).mark
      | some values =>
        if values.length < width then refuse "did not find expected hexdecimal number" (c.skip 1).mark
        else
          let n := values.foldl (fun n d => 16 * n + d) 0
          if (0xD800 ≤ n ∧ n ≤ 0xDFFF) ∨ 0x10FFFF < n then
            refuse "found invalid Unicode character escape code" (c.skip 1).mark
          else .ok (Char.ofNat n, c.skip (width + 1))

/-- How the words of a quoted scalar end. -/
inductive WordEnd
  | gap
  /-- A backslash in front of a line break: the lines are joined without a space. -/
  | joinedLine
  deriving DecidableEq, Repr

/-- Reads the characters of a quoted scalar up to a gap or the closing quote. -/
def quotedWord (single : Bool) (start : Mark) :
    Nat → List Char → Cursor → Except Fault (List Char × WordEnd × Cursor)
  | 0, out, c => .ok (out, .gap, c)
  | fuel + 1, out, c =>
    match c.rest with
    | [] => .ok (out, .gap, c)
    | '\x27' :: '\x27' :: _ =>
      if single then quotedWord single start fuel ('\x27' :: out) (c.skip 2)
      else quotedWord single start fuel ('\x27' :: out) (c.skip 1)
    | x :: rest =>
      if isBlank x || isBreak x then .ok (out, .gap, c)
      else if x = (if single then '\x27' else '"') then .ok (out, .gap, c)
      else if !single && x == '\\' then
        if ahead isBreak rest then .ok (out, .joinedLine, (c.skip 1).skipBreak.2)
        else
          match escape start (c.skip 1) with
          | .error f => .error f
          | .ok (y, c) => quotedWord single start fuel (y :: out) c
      else quotedWord single start fuel (x :: out) (c.skip 1)

/-- Reads a quoted scalar after its opening quote.  The text is gathered backwards. -/
def quotedLines (single : Bool) (start : Mark) :
    Nat → List Char → Cursor → Except Fault (List Char × Cursor)
  | 0, _, c =>
    .error ⟨"found unexpected end of stream", c.mark, some ("while scanning a quoted scalar", start)⟩
  | fuel + 1, out, c =>
    if c.atDocumentMark then
      .error ⟨"found unexpected document indicator", c.mark,
        some ("while scanning a quoted scalar", start)⟩
    else if c.rest.isEmpty then
      .error ⟨"found unexpected end of stream", c.mark, some ("while scanning a quoted scalar", start)⟩
    else
      match quotedWord single start (c.rest.length + 1) out c with
      | .error f => .error f
      | .ok (out, wordEnd, c) =>
        if ahead (· == (if single then '\x27' else '"')) c.rest then .ok (out, c.skip 1)
        else
          let g : Gap := { Gap.empty with broken := wordEnd == .joinedLine }
          match gap (fun _ => false) (c.rest.length + 1) g c with
          | .error _ => .ok (out, c)
          | .ok (g, c) => quotedLines single start fuel (g.fold.reverse ++ out) c

/-- Reads a quoted scalar. -/
def quoted (single : Bool) (c : Cursor) : Except Fault (List Char × Cursor) :=
  (quotedLines single c.mark (c.rest.length + 1) [] (c.skip 1)).map fun (out, c) => (out.reverse, c)

/-! ## Plain scalars -/

/-- Holds where a plain scalar in a flow collection ends. -/
def isFlowEnd (x : Char) : Bool := x == ',' || x == '[' || x == ']' || x == '{' || x == '}'

/-- Reads one word of a plain scalar, up to a gap or an indicator that ends the scalar. -/
def plainWord (inFlow : Bool) (start : Mark) :
    Nat → List Char → Cursor → Except Fault (List Char × Cursor)
  | 0, out, c => .ok (out, c)
  | fuel + 1, out, c =>
    match c.rest with
    | [] => .ok (out, c)
    | x :: rest =>
      if isBlank x || isBreak x then .ok (out, c)
      else if inFlow && x == ':' && ahead (fun y => isFlowEnd y || y == '?') rest then
        .error ⟨"found unexpected ':'", c.mark, some ("while scanning a plain scalar", start)⟩
      else if (x == ':' && atGap rest) || (inFlow && isFlowEnd x) then .ok (out, c)
      else plainWord inFlow start fuel (x :: out) (c.skip 1)

/-- A plain scalar as far as it was read. -/
structure PlainText where
  /-- The text, backwards. -/
  out : List Char
  /-- Where the text ends and the cursor may be ahead of it. -/
  cursor : Cursor
  /-- Set when the text is followed by a line break. -/
  broken : Bool

/-- Reads words and the gaps between them.  `indent` is the least column of a line that goes on. -/
def plainLines (inFlow : Bool) (indent : Nat) (start : Mark) :
    Nat → List Char → Gap → Cursor → Except Fault PlainText
  | 0, out, g, c => .ok ⟨out, c, g.broken⟩
  | fuel + 1, out, g, c =>
    if c.atDocumentMark || ahead (· == '#') c.rest then .ok ⟨out, c, g.broken⟩
    else
      match plainWord inFlow start (c.rest.length + 1) [] c with
      | .error f => .error f
      | .ok (word, c') =>
        let (out, g) := if word.isEmpty then (out, g) else (word ++ g.fold.reverse ++ out, Gap.empty)
        if !(ahead (fun x => isBlank x || isBreak x) c'.rest) then .ok ⟨out, c', g.broken⟩
        else
          match gap (fun column => decide (column < indent)) (c'.rest.length + 1) g c' with
          | .error mark =>
            .error ⟨"found a tab character that violates indentation", mark,
              some ("while scanning a plain scalar", start)⟩
          | .ok (g, c) =>
            if !inFlow && decide (c.mark.column < indent) then .ok ⟨out, c, g.broken⟩
            else plainLines inFlow indent start fuel out g c

/-! ## Block scalars -/

/-- What becomes of the line breaks at the end of a block scalar. -/
inductive Chomping
  | strip
  | clip
  | keep
  deriving DecidableEq, Repr

/-- Reads a chomping indicator, if there is one. -/
def chomping? (c : Cursor) : Option (Chomping × Cursor) :=
  match c.rest with
  | '+' :: _ => some (.keep, c.skip 1)
  | '-' :: _ => some (.strip, c.skip 1)
  | _ => none

/-- Reads an indentation indicator, if there is one. -/
def indentDigit? (c : Cursor) : Option (Nat × Cursor) :=
  match c.rest with
  | x :: _ => if Text.isDigit x then some (Text.digitValue x, c.skip 1) else none
  | [] => none

/-- Reads the two indicators of a header, in either order. -/
def blockHeader (c : Cursor) : Chomping × Option Nat × Cursor :=
  match chomping? c with
  | some (ch, c) =>
    match indentDigit? c with
    | some (n, c) => (ch, some n, c)
    | none => (ch, none, c)
  | none =>
    match indentDigit? c with
    | some (n, c) =>
      match chomping? c with
      | some (ch, c) => (ch, some n, c)
      | none => (.clip, some n, c)
    | none => (.clip, none, c)

/-- Passes over indentation and empty lines.  `indent` is 0 while the indentation is not known. -/
def blockBreaks (start : Mark) (indent : Nat) :
    Nat → Nat → List Char → Cursor → Except Fault (Nat × List Char × Cursor)
  | 0, widest, breaks, c => .ok (widest, breaks, c)
  | fuel + 1, widest, breaks, c =>
    let spaces := (c.rest.takeWhile (· == ' ')).length
    let c := c.skip (if indent = 0 then spaces else min spaces (indent - c.mark.column))
    let widest := max widest c.mark.column
    if (indent = 0 || c.mark.column < indent) && ahead (· == '\t') c.rest then
      .error ⟨"found a tab character where an indentation space is expected", c.mark,
        some ("while scanning a block scalar", start)⟩
    else if ahead isBreak c.rest then
      blockBreaks start indent fuel widest (breaks ++ c.skipBreak.1) c.skipBreak.2
    else .ok (widest, breaks, c)

/-- The line breaks around the lines of a block scalar. -/
structure BlockState where
  /-- The text, backwards. -/
  out : List Char
  /-- What the break after the last line counts as. -/
  leading : List Char
  /-- What the breaks of the empty lines after it count as. -/
  trailing : List Char
  /-- Set when the last line began with a blank. -/
  blankLine : Bool

/-- Reads the lines of a block scalar. -/
def blockLines (folded : Bool) (start : Mark) (indent : Nat) :
    Nat → BlockState → Cursor → Except Fault (BlockState × Cursor)
  | 0, s, c => .ok (s, c)
  | fuel + 1, s, c =>
    if c.mark.column ≠ indent ∨ c.rest.isEmpty then .ok (s, c)
    else
      let blank := ahead isBlank c.rest
      let joined :=
        if folded && s.leading.head? == some '\n' && !s.blankLine && !blank then
          (if s.trailing.isEmpty then [' '] else []) ++ s.trailing
        else s.leading ++ s.trailing
      let (line, c) := c.takeWhile (fun x => !isBreak x)
      let (leading, c) := c.skipBreak
      match blockBreaks start indent (c.rest.length + 1) 0 [] c with
      | .error f => .error f
      | .ok (_, trailing, c) =>
        blockLines folded start indent fuel
          ⟨line.reverse ++ joined.reverse ++ s.out, leading, trailing, blank⟩ c

/-- Reads a block scalar.  `parent` is the indentation around it, -1 at the top. -/
def block (folded : Bool) (parent : Int) (c : Cursor) : Except Fault (List Char × Cursor) :=
  let start := c.mark
  let refuse (problem : String) (mark : Mark) : Except Fault (List Char × Cursor) :=
    .error ⟨problem, mark, some ("while scanning a block scalar", start)⟩
  let (chomping, increment, c) := blockHeader (c.skip 1)
  if increment = some 0 then
    refuse "found an indentation indicator equal to 0" { c.mark with column := c.mark.column - 1 }
  else
    let c := c.skipComment
    if !(atLineEnd c.rest) then refuse "did not find expected comment or line break" c.mark
    else
      let c := c.skipBreak.2
      let indent := match increment with
        | some n => if 0 ≤ parent then parent.toNat + n else n
        | none => 0
      match blockBreaks start indent (c.rest.length + 1) 0 [] c with
      | .error f => .error f
      | .ok (widest, breaks, c) =>
        let indent := if indent = 0 then max 1 (max widest (parent + 1).toNat) else indent
        match blockLines folded start indent (c.rest.length + 1) ⟨[], [], breaks, false⟩ c with
        | .error f => .error f
        | .ok (s, c) =>
          let text := s.out.reverse
          .ok (match chomping with
            | .strip => (text, c)
            | .clip => (text ++ s.leading, c)
            | .keep => (text ++ s.leading ++ s.trailing, c))

end LogRotation.Yaml
