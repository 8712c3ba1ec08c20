/-
  YAML tokens: indicators, scalars, and the starts and ends of blocks that indentation implies.

  A token is found at the cursor by its first characters, and two things must be remembered between
  tokens.

    * INDENTATION   the columns of the open blocks; a token further left closes blocks, and each
                    closing is a token of its own;
    * SIMPLE KEYS   a scalar may turn out to be a key when a colon follows on the same line.  The
                    place of such a candidate is kept, one for each level of brackets, and the colon
                    puts a key token there after the fact.

  Main definition: `Token.scan`, which gives the tokens of a text up to its end or to the first
  fault.  Tokens from an open candidate on are not given with a fault: whether they are preceded by
  a key was not known.
-/
import LogRotation.Yaml.Scalar

namespace LogRotation.Yaml

/-! ## Tokens -/

/-- What a token says. -/
inductive TokenKind
  | streamStart
  | streamEnd
  | versionDirective (major minor : Nat)
  | tagDirective (handle lead : List Char)
  | documentStart
  | documentEnd
  | blockSequenceStart
  | blockMappingStart
  | blockEnd
  | flowSequenceStart
  | flowSequenceEnd
  | flowMappingStart
  | flowMappingEnd
  | blockEntry
  | flowEntry
  | key
  | value
  | alias (name : List Char)
  | anchor (name : List Char)
  | tag (handle suffix : List Char)
  | scalar (text : List Char) (style : ScalarStyle)
  deriving DecidableEq, Repr, Inhabited

/-- A token at its place. -/
structure Token where
  kind : TokenKind
  mark : Mark
  deriving DecidableEq, Repr, Inhabited

/-! ## Directives, anchors and tags -/

/-- Builds a fault at a cursor. -/
def faultAt {α : Type} (c : Cursor) (what : String) (start : Mark) (problem : String) :
    Except Fault α :=
  .error ⟨problem, c.mark, some (what, start)⟩

/-- Reads a number of a version. -/
def versionNumber (start : Mark) (c : Cursor) : Except Fault (Nat × Cursor) :=
  let (ds, rest) := c.takeWhile Text.isDigit
  if ds.isEmpty then
    faultAt c "while scanning a %YAML directive" start "did not find expected version number"
  else if 9 < ds.length then
    faultAt c "while scanning a %YAML directive" start "found extremely long version number"
  else .ok (Text.numberOf ds, rest)

/-- Reads the handle of a tag: an exclamation mark, or a word between two. -/
def tagHandle (directive : Bool) (start : Mark) (c : Cursor) : Except Fault (List Char × Cursor) :=
  let what := if directive then "while scanning a directive" else "while scanning a tag"
  if !(ahead (· == '!') c.rest) then faultAt c what start "did not find expected '!'"
  else
    let (word, c) := (c.skip 1).takeWhile isWord
    if ahead (· == '!') c.rest then .ok ('!' :: word ++ ['!'], c.skip 1)
    else if directive && !word.isEmpty then
      faultAt c "while parsing a tag directive" start "did not find expected '!'"
    else .ok ('!' :: word, c)

/-- Holds of the characters of a tag's name; between angle brackets there are a few more. -/
def isTagChar (verbatim : Bool) (c : Char) : Bool :=
  isWord c || ";/?:@&=+$.!~*\x27()".toList.contains c ||
    (verbatim && (c == ',' || c == '[' || c == ']'))

/-- Reads one octet that is written with a percent sign. -/
def octet? : List Char → Option (Nat × List Char)
  | '%' :: a :: b :: rest => do return ((← Text.hexValue? a) * 16 + (← Text.hexValue? b), rest)
  | _ => none

/-- The count of octets of a character, by its first octet. -/
def octetCount (n : Nat) : Nat :=
  if n < 0x80 then 1 else if 0xC0 ≤ n ∧ n < 0xE0 then 2 else if 0xE0 ≤ n ∧ n < 0xF0 then 3
  else if 0xF0 ≤ n ∧ n < 0xF8 then 4 else 0

/-- Reads the octets that follow the first one of a character. -/
def moreOctets : Nat → Nat → List Char → Except String (Nat × List Char)
  | 0, n, cs => .ok (n, cs)
  | count + 1, n, cs =>
    match octet? cs with
    | none => .error "did not find URI escaped octet"
    | some (o, rest) =>
      if 0x80 ≤ o ∧ o < 0xC0 then moreOctets count (n * 64 + o % 64) rest
      else .error "found an incorrect trailing UTF-8 octet"

/-- Reads one character that is written as octets. -/
def octets (cs : List Char) : Except String (Char × List Char) :=
  match octet? cs with
  | none => .error "did not find URI escaped octet"
  | some (o, rest) =>
    match octetCount o with
    | 0 => .error "found an incorrect leading UTF-8 octet"
    | count + 1 => do
      let first := if count = 0 then o else o % Nat.pow 2 (6 - count)
      let (n, rest) ← moreOctets count first rest
      return (Char.ofNat n, rest)

/-- Reads the characters of a tag's name. -/
def tagChars (verbatim directive : Bool) (start : Mark) :
    Nat → List Char → Cursor → Except Fault (List Char × Cursor)
  | 0, out, c => .ok (out, c)
  | fuel + 1, out, c =>
    match c.rest with
    | '%' :: _ =>
      match octets c.rest with
      | .error problem =>
        faultAt c (if directive then "while parsing a %TAG directive" else "while parsing a tag") start
          problem
      | .ok (x, rest) =>
        tagChars verbatim directive start fuel (out ++ [x]) (c.skip (c.rest.length - rest.length))
    | x :: _ =>
      if isTagChar verbatim x then tagChars verbatim directive start fuel (out ++ [x]) (c.skip 1)
      else .ok (out, c)
    | [] => .ok (out, c)

/-- Reads a tag's name, part of which may be known already. -/
def tagName (verbatim directive : Bool) (known : List Char) (start : Mark) (c : Cursor) :
    Except Fault (List Char × Cursor) :=
  match tagChars verbatim directive start (c.rest.length + 1) (known.drop 1) c with
  | .error f => .error f
  | .ok (name, rest) =>
    if known.isEmpty && name.isEmpty then
      faultAt rest (if directive then "while parsing a %TAG directive" else "while parsing a tag") start
        "did not find expected tag URI"
    else .ok (name, rest)

/-- Reads a tag: in full between angle brackets, or a name that a handle may begin. -/
def tagToken (inFlow : Bool) (c : Cursor) : Except Fault (TokenKind × Cursor) := do
  let start := c.mark
  let (kind, c) ← (match c.rest with
    | '!' :: '<' :: _ => do
      let (name, c) ← tagName true false [] start (c.skip 2)
      if ahead (· == '>') c.rest then return (TokenKind.tag [] name, c.skip 1)
      else faultAt c "while scanning a tag" start "did not find the expected '>'"
    | _ => do
      let (handle, c) ← tagHandle false start c
      if 2 ≤ handle.length ∧ handle.getLast? = some '!' then
        let (name, c) ← tagName false false [] start c
        return (TokenKind.tag handle name, c)
      else
        let (name, c) ← tagName false false handle start c
        if name.isEmpty then return (TokenKind.tag [] ['!'], c)
        else return (TokenKind.tag ['!'] name, c))
  if (inFlow && ahead (· == ',') c.rest) || atGap c.rest then return (kind, c)
  else faultAt c "while scanning a tag" start "did not find expected whitespace or line break"

/-- Reads an anchor or an alias. -/
def anchorToken (isAlias : Bool) (c : Cursor) : Except Fault (TokenKind × Cursor) :=
  let (name, rest) := (c.skip 1).takeWhile isWord
  let ends (x : Char) : Bool := "?:,]\x7d%@\x60".toList.contains x
  if name.isEmpty || !(atGap rest.rest || ahead ends rest.rest) then
    faultAt rest (if isAlias then "while scanning an alias" else "while scanning an anchor") c.mark
      "did not find expected alphabetic or numeric character"
  else .ok (if isAlias then .alias name else .anchor name, rest)

/-- Reads a directive and the rest of its line. -/
def directiveToken (c : Cursor) : Except Fault (TokenKind × Cursor) := do
  let start := c.mark
  let what := "while scanning a directive"
  let (name, c) := (c.skip 1).takeWhile isWord
  if name.isEmpty then faultAt c what start "could not find expected directive name"
  else if !(atGap c.rest) then faultAt c what start "found unexpected non-alphabetical character"
  else
    let (kind, c) ← (if name = "YAML".toList then do
        let (major, c) ← versionNumber start (c.dropWhile isBlank)
        if !(ahead (· == '.') c.rest) then
          faultAt c "while scanning a %YAML directive" start
            "did not find expected digit or '.' character"
        else
          let (minor, c) ← versionNumber start (c.skip 1)
          return (TokenKind.versionDirective major minor, c)
      else if name = "TAG".toList then do
        let (handle, c) ← tagHandle true start (c.dropWhile isBlank)
        if !(ahead isBlank c.rest) then
          faultAt c "while scanning a %TAG directive" start "did not find expected whitespace"
        else
          let (lead, c) ← tagName true true [] start (c.dropWhile isBlank)
          if !(atGap c.rest) then
            faultAt c "while scanning a %TAG directive" start
              "did not find expected whitespace or line break"
          else return (TokenKind.tagDirective handle lead, c)
      else faultAt c what start "found unknown directive name")
    let c := c.skipComment
    if !(atLineEnd c.rest) then faultAt c what start "did not find expected comment or line break"
    else return (kind, c.skipBreak.2)

/-! ## The state between tokens -/

/-- A scalar that may turn out to be a key. -/
structure Candidate where
  /-- The count of tokens before it. -/
  position : Nat
  /-- Set where a block has nothing but keys at this column. -/
  required : Bool
  mark : Mark
  deriving DecidableEq, Repr

/-- The state between tokens. -/
structure Scanner where
  cursor : Cursor
  tokens : Array Token
  /-- The column of the innermost open block, -1 outside of all. -/
  indent : Int
  /-- The columns of the blocks around it. -/
  indents : List Int
  keyAllowed : Bool
  /-- The candidate of the current level of brackets. -/
  candidate : Option Candidate
  /-- The candidates of the levels around it: there are as many as brackets are open. -/
  outer : List (Option Candidate)

namespace Scanner

/-- The state at the start of a text. -/
def start (cs : List Char) : Scanner :=
  { cursor := ⟨cs, ⟨0, 0, 0⟩⟩, tokens := #[⟨.streamStart, ⟨0, 0, 0⟩⟩], indent := -1, indents := [],
    keyAllowed := true, candidate := none, outer := [] }

/-- Holds between brackets. -/
def inFlow (s : Scanner) : Bool := !s.outer.isEmpty

/-- Adds a token at the end. -/
def push (s : Scanner) (kind : TokenKind) (mark : Mark) : Scanner :=
  { s with tokens := s.tokens.push ⟨kind, mark⟩ }

/-- Adds a token in front of all but the first `position`. -/
def insert (s : Scanner) (position : Nat) (kind : TokenKind) (mark : Mark) : Scanner :=
  { s with tokens :=
      (s.tokens.extract 0 position).push ⟨kind, mark⟩ ++ s.tokens.extract position s.tokens.size }

/-- Fails for a required candidate, which can be no key any more. -/
def missingColon (s : Scanner) (k : Candidate) : Except Fault Scanner :=
  .error ⟨"could not find expected ':'", s.cursor.mark, some ("while scanning a simple key", k.mark)⟩

/-- Gives up the candidate of the current level. -/
def dropCandidate (s : Scanner) : Except Fault Scanner :=
  match s.candidate with
  | some k => if k.required then s.missingColon k else .ok { s with candidate := none }
  | none => .ok s

/-- Makes the next token a candidate, where a key may stand. -/
def saveCandidate (s : Scanner) : Except Fault Scanner :=
  if s.keyAllowed then do
    let required := !s.inFlow && s.indent == (s.cursor.mark.column : Int)
    let k : Candidate := ⟨s.tokens.size, required, s.cursor.mark⟩
    return { ← s.dropCandidate with candidate := some k }
  else .ok s

/-- Gives up the candidates that a colon would reach too late: keys are short and on one line. -/
def dropStale (s : Scanner) : Except Fault Scanner :=
  let m := s.cursor.mark
  let isStale (k : Candidate) : Bool := k.mark.line < m.line || k.mark.index + 1024 < m.index
  let all := s.outer.reverse ++ [s.candidate]
  match all.find? fun k => match k with
    | some k => isStale k && k.required
    | none => false with
  | some (some k) => s.missingColon k
  | _ =>
    let keep (k : Option Candidate) : Option Candidate := k.filter fun k => !isStale k
    .ok { s with candidate := keep s.candidate, outer := s.outer.map keep }

/-- Opens a block at a column, if the column is further right than the innermost block. -/
def openBlock (s : Scanner) (column : Nat) (position : Option Nat) (kind : TokenKind) (mark : Mark) :
    Scanner :=
  if s.inFlow || decide ((column : Int) ≤ s.indent) then s
  else
    let s := { s with indents := s.indent :: s.indents, indent := column }
    match position with
    | none => s.push kind mark
    | some n => s.insert n kind mark

/-- Closes the blocks that are further right than a column. -/
def closeBlocks (column : Int) (s : Scanner) : Scanner :=
  if s.inFlow then s
  else
    let opened := s.indent :: s.indents
    let closing := opened.takeWhile fun i => decide (column < i)
    let rest := opened.dropWhile fun i => decide (column < i)
    let closed := closing.foldl (fun s _ => s.push .blockEnd s.cursor.mark) s
    { closed with indent := rest.head?.getD (-1), indents := rest.tail }

/-- Passes over blanks, comments and line breaks in front of a token. -/
def skipToToken : Nat → Scanner → Scanner
  | 0, s => s
  | fuel + 1, s =>
    let c := s.cursor
    let c := if c.mark.column = 0 ∧ ahead (· == '\uFEFF') c.rest then c.skip 1 else c
    let c := c.dropWhile fun x => x == ' ' || (x == '\t' && (s.inFlow || !s.keyAllowed))
    let c := if ahead (· == '#') c.rest then c.dropWhile (fun x => !isBreak x) else c
    if ahead isBreak c.rest then
      skipToToken fuel { s with cursor := c.skipBreak.2, keyAllowed := s.keyAllowed || !s.inFlow }
    else { s with cursor := c }

/-- Adds a token of `n` characters at the cursor. -/
def indicator (s : Scanner) (kind : TokenKind) (n : Nat) : Scanner :=
  { s.push kind s.cursor.mark with cursor := s.cursor.skip n }

/-- Adds a token that was read from the cursor on. -/
def pushRead (s : Scanner) (read : TokenKind × Cursor) : Scanner :=
  { s.push read.1 s.cursor.mark with cursor := read.2 }

/-- Fails at the cursor, where an indicator is out of place. -/
def misplaced (s : Scanner) (problem : String) : Except Fault Scanner :=
  .error ⟨problem, s.cursor.mark, none⟩

/-! ## One token -/

/-- Reads a document mark or a directive, which close all blocks. -/
def documentToken (s : Scanner) (read : Scanner → Except Fault Scanner) : Except Fault Scanner := do
  read { ← (s.closeBlocks (-1)).dropCandidate with keyAllowed := false }

/-- Reads an opening bracket. -/
def openFlow (s : Scanner) (kind : TokenKind) : Except Fault Scanner := do
  let s ← s.saveCandidate
  return { s.indicator kind 1 with
    outer := s.candidate :: s.outer, candidate := none, keyAllowed := true }

/-- Reads a closing bracket. -/
def closeFlow (s : Scanner) (kind : TokenKind) : Except Fault Scanner := do
  let s ← s.dropCandidate
  let s := match s.outer with
    | k :: outer => { s with candidate := k, outer := outer }
    | [] => s
  return { s.indicator kind 1 with keyAllowed := false }

/-- Reads the hyphen of a sequence. -/
def blockEntry (s : Scanner) : Except Fault Scanner :=
  if !s.inFlow && !s.keyAllowed then
    s.misplaced "block sequence entries are not allowed in this context"
  else do
    let s := s.openBlock s.cursor.mark.column none .blockSequenceStart s.cursor.mark
    return { (← s.dropCandidate).indicator .blockEntry 1 with keyAllowed := true }

/-- Reads the question mark of a key. -/
def explicitKey (s : Scanner) : Except Fault Scanner :=
  if !s.inFlow && !s.keyAllowed then s.misplaced "mapping keys are not allowed in this context"
  else do
    let s := s.openBlock s.cursor.mark.column none .blockMappingStart s.cursor.mark
    return { (← s.dropCandidate).indicator .key 1 with keyAllowed := !s.inFlow }

/-- Reads the colon of a value; it makes a key of the candidate, if there is one. -/
def valueToken (s : Scanner) : Except Fault Scanner :=
  match s.candidate with
  | some k =>
    let s := (s.insert k.position .key k.mark).openBlock k.mark.column (some k.position)
      .blockMappingStart k.mark
    .ok { s.indicator .value 1 with candidate := none, keyAllowed := false }
  | none =>
    if !s.inFlow && !s.keyAllowed then s.misplaced "mapping values are not allowed in this context"
    else
      let s := s.openBlock s.cursor.mark.column none .blockMappingStart s.cursor.mark
      .ok { s.indicator .value 1 with keyAllowed := !s.inFlow }

/-- Reads an anchor, an alias, a tag or a quoted scalar: each may begin a key. -/
def keyLike (s : Scanner) (read : Cursor → Except Fault (TokenKind × Cursor)) :
    Except Fault Scanner := do
  let s ← s.saveCandidate
  return { s.pushRead (← read s.cursor) with keyAllowed := false }

/-- Reads a quoted scalar as a token. -/
def quotedToken (single : Bool) (c : Cursor) : Except Fault (TokenKind × Cursor) := do
  let (text, rest) ← quoted single c
  return (.scalar text (if single then .singleQuoted else .doubleQuoted), rest)

/-- Reads a block scalar. -/
def blockScalar (s : Scanner) (folded : Bool) : Except Fault Scanner := do
  let s ← s.dropCandidate
  let (text, rest) ← block folded s.indent s.cursor
  let style := if folded then ScalarStyle.folded else .literal
  return { s.pushRead (.scalar text style, rest) with keyAllowed := true }

/-- Reads a plain scalar. -/
def plainScalar (s : Scanner) : Except Fault Scanner := do
  let s ← s.saveCandidate
  let c := s.cursor
  let read ← plainLines s.inFlow (s.indent + 1).toNat c.mark (c.rest.length + 1) [] .empty c
  return { s.pushRead (.scalar read.out.reverse .plain, read.cursor) with keyAllowed := read.broken }

/-- Holds where a plain scalar may begin. -/
def beginsPlain (s : Scanner) (x : Char) (rest : List Char) : Bool :=
  !(isBlank x || "-?:,[]\x7b\x7d#&*!|>\x27\"%@\x60".toList.contains x) ||
    (x == '-' && !(ahead isBlank rest)) ||
    (!s.inFlow && (x == '?' || x == ':') && !(atGap rest))

/-- Reads one token where a text goes on. -/
def token (s : Scanner) (x : Char) (rest : List Char) : Except Fault Scanner :=
  let c := s.cursor
  if c.mark.column = 0 ∧ x = '%' then
    s.documentToken fun s => do return s.pushRead (← directiveToken s.cursor)
  else if c.atDocumentMark then
    s.documentToken fun s =>
      .ok (s.indicator (if x = '-' then .documentStart else .documentEnd) 3)
  else if x = '[' then s.openFlow .flowSequenceStart
  else if x = '{' then s.openFlow .flowMappingStart
  else if x = ']' then s.closeFlow .flowSequenceEnd
  else if x = '}' then s.closeFlow .flowMappingEnd
  else if x = ',' then do return { (← s.dropCandidate).indicator .flowEntry 1 with keyAllowed := true }
  else if x = '-' ∧ atGap rest then s.blockEntry
  else if x = '?' ∧ (s.inFlow ∨ atGap rest) then s.explicitKey
  else if x = ':' ∧ (s.inFlow ∨ atGap rest) then s.valueToken
  else if x = '*' then s.keyLike (anchorToken true)
  else if x = '&' then s.keyLike (anchorToken false)
  else if x = '!' then s.keyLike (tagToken s.inFlow)
  else if x = '|' ∧ !s.inFlow then s.blockScalar false
  else if x = '>' ∧ !s.inFlow then s.blockScalar true
  else if x = '\x27' then s.keyLike (quotedToken true)
  else if x = '"' then s.keyLike (quotedToken false)
  else if s.beginsPlain x rest then s.plainScalar
  else faultAt c "while scanning for the next token" c.mark "found character that cannot start any token"

/-- Ends the stream, on a line of its own. -/
def finish (s : Scanner) : Except Fault Scanner := do
  let m := s.cursor.mark
  let m := if m.column = 0 then m else { m with line := m.line + 1, column := 0 }
  let s := { s with cursor := { s.cursor with mark := m } }
  let s ← (s.closeBlocks (-1)).dropCandidate
  return s.push .streamEnd m

/-- The tokens that are certain when a fault stops the scan. -/
def certain (s : Scanner) : List Token :=
  let positions := ((s.candidate :: s.outer).filterMap fun k => k.map Candidate.position)
  s.tokens.toList.take (positions.foldl min s.tokens.size)

/-- Reads tokens to the end of the text.  The number bounds their count. -/
def run : Nat → Scanner → List Token × Option Fault
  | 0, s => (s.certain, none)
  | fuel + 1, s =>
    let s := skipToToken (s.cursor.rest.length + 1) s
    match s.dropStale with
    | .error f => (s.certain, some f)
    | .ok s =>
      let s := s.closeBlocks s.cursor.mark.column
      match s.cursor.rest with
      | [] =>
        match s.finish with
        | .error f => (s.certain, some f)
        | .ok s => (s.tokens.toList, none)
      | x :: rest =>
        match s.token x rest with
        | .error f => (s.certain, some f)
        | .ok s => run fuel s

end Scanner

/-- The fault of a text that holds a character it may not contain, told by its place in bytes. -/
def controlFault (offset : Nat) : Fault :=
  let place := if offset = 0 then "" else s!" at position {offset}"
  ⟨"control characters are not allowed" ++ place, ⟨0, 0, 0⟩, none⟩

/-- The tokens of a text, and the fault that stopped the scan if there was one. -/
def Token.scan (cs : List Char) : List Token × Option Fault :=
  let body := match cs with
    | '\uFEFF' :: rest => rest
    | cs => cs
  if body.all isAllowed then Scanner.run (body.length + 1) (.start body)
  else
    let before := String.ofList (cs.takeWhile isAllowed)
    ([], some (controlFault before.utf8ByteSize))

end LogRotation.Yaml
