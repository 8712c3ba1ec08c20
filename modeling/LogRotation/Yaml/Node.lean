/-
  YAML nodes, built from tokens.

  A document is one node: a scalar, a sequence or a mapping.  An alias stands for the node that
  its anchor names, so it is replaced by that node; an alias within its own node is replaced by an
  empty sequence, which is as little of a text as the node around it.

  The readers recurse on a bound that the count of tokens gives; each follows one production.  When
  the tokens run out, the fault that stopped the scan is the fault of the reader.

  Main definition: `Node.parse`, the node of a text that holds at most one document.
-/
import LogRotation.Yaml.Token

namespace LogRotation.Yaml

/-! ## Nodes -/

/-- A node with its tag, which is empty where none is written. -/
inductive Node
  | scalar (mark : Mark) (tag : List Char) (text : List Char) (style : ScalarStyle)
  | sequence (mark : Mark) (tag : List Char) (items : List Node)
  | mapping (mark : Mark) (tag : List Char) (entries : List (Node × Node))

namespace Node

/-- The place of a node. -/
def mark : Node → Mark
  | scalar m .. => m
  | sequence m .. => m
  | mapping m .. => m

/-- A scalar where nothing is written. -/
def empty (mark : Mark) : Node := .scalar mark [] [] .plain

/-! ## Reading tokens -/

/-- The tokens that are left, and what is known from those before. -/
structure Source where
  tokens : List Token
  /-- Why there are no more tokens. -/
  stop : Fault
  /-- The nodes that anchors name, the last one first. -/
  anchors : List (List Char × Node)
  /-- What the handles of tags stand for. -/
  handles : List (List Char × List Char)

/-- A step of a reader. -/
abbrev Reader := StateT Source (Except Fault)

/-- The next token. -/
def peek : Reader Token := do
  let s ← get
  match s.tokens with
  | t :: _ => return t
  | [] => throw s.stop

/-- Passes over the next token. -/
def advance : Reader Unit := modify fun s => { s with tokens := s.tokens.drop 1 }

/-- Fails at a place, within a construct. -/
def refuse {α : Type} (what : String) (start : Mark) (problem : String) (mark : Mark) : Reader α :=
  throw ⟨problem, mark, some (what, start)⟩

/-- Fails with the fault of a scan that was stopped. -/
def exhausted {α : Type} : Reader α := do throw (← get).stop

/-- Lets an anchor name a node. -/
def define (anchor : Option (List Char)) (n : Node) : Reader Unit :=
  match anchor with
  | some name => modify fun s => { s with anchors := (name, n) :: s.anchors }
  | none => return

/-- The node of an alias. -/
def resolve (name : List Char) (mark : Mark) : Reader Node := do
  match (← get).anchors.find? fun a => a.1 == name with
  | some (_, n) => return n
  | none => throw ⟨"unknown anchor", mark, none⟩

/-- The handles that every document knows. -/
def defaultHandles : List (List Char × List Char) :=
  [("!".toList, "!".toList), ("!!".toList, "tag:yaml.org,2002:".toList)]

/-- The full form of a tag. -/
def expandTag (handle suffix : List Char) (start mark : Mark) : Reader (List Char) := do
  if handle.isEmpty then return suffix
  else match (← get).handles.find? fun h => h.1 == handle with
    | some (_, lead) => return lead ++ suffix
    | none => refuse "while parsing a node" start "found undefined tag handle" mark

/-- What may stand in front of a node's content. -/
structure Properties where
  anchor : Option (List Char)
  tag : List Char
  mark : Mark

/-- Reads an anchor and a tag, in either order, as far as they are there. -/
def properties : Reader Properties := do
  let t ← peek
  match t.kind with
  | .anchor name =>
    advance
    let u ← peek
    match u.kind with
    | .tag handle suffix =>
      advance
      return ⟨some name, ← expandTag handle suffix t.mark u.mark, t.mark⟩
    | _ => return ⟨some name, [], t.mark⟩
  | .tag handle suffix =>
    advance
    let u ← peek
    match u.kind with
    | .anchor name =>
      advance
      return ⟨some name, ← expandTag handle suffix t.mark t.mark, t.mark⟩
    | _ => return ⟨none, ← expandTag handle suffix t.mark t.mark, t.mark⟩
  | _ => return ⟨none, [], t.mark⟩

/-- Holds of the tokens after which no node can follow in a block mapping. -/
def endsBlockPair : TokenKind → Bool
  | .key | .value | .blockEnd => true
  | _ => false

/-- Holds of the tokens after which no node can follow in an unindented sequence. -/
def endsBareEntry : TokenKind → Bool
  | .blockEntry | .key | .value | .blockEnd => true
  | _ => false

/-- Holds of the tokens after which no node can follow in a pair between brackets. -/
def endsFlowPair : TokenKind → Bool
  | .value | .flowEntry | .flowSequenceEnd => true
  | _ => false

/-- Holds of the tokens after which no node can follow in a pair between braces. -/
def endsBracePair : TokenKind → Bool
  | .value | .flowEntry | .flowMappingEnd => true
  | _ => false

mutual

/-- Reads a node.  In a block, sequences and mappings by indentation are nodes; the values of a
block mapping may be sequences without indentation. -/
def read (inBlock bare : Bool) : Nat → Reader Node
  | 0 => exhausted
  | fuel + 1 => do
    let t ← peek
    match t.kind with
    | .alias name =>
      advance
      resolve name t.mark
    | _ =>
      let p ← properties
      let t ← peek
      let collection (readItems : Reader Node) : Reader Node := do
        define p.anchor (.sequence p.mark p.tag [])
        let n ← readItems
        define p.anchor n
        return n
      match t.kind, inBlock, bare with
      | .blockEntry, _, true =>
        collection (do return .sequence p.mark p.tag (← bareEntries fuel))
      | .scalar text style, _, _ =>
        advance
        let n : Node := .scalar p.mark (if p.tag = ['!'] then [] else p.tag) text style
        define p.anchor n
        return n
      | .flowSequenceStart, _, _ =>
        collection (do
          advance
          return .sequence p.mark p.tag (← flowEntries t.mark true fuel))
      | .flowMappingStart, _, _ =>
        collection (do
          advance
          return .mapping p.mark p.tag (← flowPairs t.mark true fuel))
      | .blockSequenceStart, true, _ =>
        collection (do
          advance
          return .sequence p.mark p.tag (← blockEntries t.mark fuel))
      | .blockMappingStart, true, _ =>
        collection (do
          advance
          return .mapping p.mark p.tag (← blockPairs t.mark fuel))
      | _, _, _ =>
        if p.anchor.isSome || !p.tag.isEmpty then
          let n : Node := .scalar p.mark p.tag [] .plain
          define p.anchor n
          return n
        else
          refuse (if inBlock then "while parsing a block node" else "while parsing a flow node") p.mark
            "did not find expected node content" t.mark

/-- Reads the entries of a block sequence up to and with its end. -/
def blockEntries (start : Mark) : Nat → Reader (List Node)
  | 0 => exhausted
  | fuel + 1 => do
    let t ← peek
    match t.kind with
    | .blockEntry =>
      advance
      let u ← peek
      let n ← match u.kind with
        | .blockEntry | .blockEnd => pure (Node.empty u.mark)
        | _ => read true false fuel
      return n :: (← blockEntries start fuel)
    | .blockEnd =>
      advance
      return []
    | _ =>
      refuse "while parsing a block collection" start "did not find expected '-' indicator" t.mark

/-- Reads the entries of a sequence without indentation. -/
def bareEntries : Nat → Reader (List Node)
  | 0 => exhausted
  | fuel + 1 => do
    let t ← peek
    match t.kind with
    | .blockEntry =>
      advance
      let u ← peek
      let n ← if endsBareEntry u.kind then pure (Node.empty u.mark) else read true false fuel
      return n :: (← bareEntries fuel)
    | _ => return []

/-- Reads the pairs of a block mapping up to and with its end. -/
def blockPairs (start : Mark) : Nat → Reader (List (Node × Node))
  | 0 => exhausted
  | fuel + 1 => do
    let t ← peek
    match t.kind with
    | .key =>
      advance
      let u ← peek
      let k ← if endsBlockPair u.kind then pure (Node.empty u.mark) else read true true fuel
      let v ← blockValue fuel
      return (k, v) :: (← blockPairs start fuel)
    | .blockEnd =>
      advance
      return []
    | _ => refuse "while parsing a block mapping" start "did not find expected key" t.mark

/-- Reads the value of a pair in a block mapping, if there is one. -/
def blockValue : Nat → Reader Node
  | 0 => exhausted
  | fuel + 1 => do
    let t ← peek
    match t.kind with
    | .value =>
      advance
      let u ← peek
      if endsBlockPair u.kind then return .empty u.mark else read true true fuel
    | _ => return .empty t.mark

/-- Reads the entries between brackets up to and with the closing one. -/
def flowEntries (start : Mark) (first : Bool) : Nat → Reader (List Node)
  | 0 => exhausted
  | fuel + 1 => do
    let t ← peek
    match t.kind with
    | .flowSequenceEnd =>
      advance
      return []
    | _ =>
      if !first then
        match t.kind with
        | .flowEntry => advance
        | _ => refuse "while parsing a flow sequence" start "did not find expected ',' or ']'" t.mark
      let u ← peek
      match u.kind with
      | .flowSequenceEnd =>
        advance
        return []
      | .key =>
        advance
        let n ← flowPair u.mark fuel
        return n :: (← flowEntries start false fuel)
      | _ =>
        let n ← read false false fuel
        return n :: (← flowEntries start false fuel)

/-- Reads a pair that is an entry between brackets, as a mapping of its own. -/
def flowPair (start : Mark) : Nat → Reader Node
  | 0 => exhausted
  | fuel + 1 => do
    let t ← peek
    let k ← if endsFlowPair t.kind then do
        advance
        pure (Node.empty t.mark)
      else read false false fuel
    let u ← peek
    match u.kind with
    | .value =>
      advance
      let w ← peek
      let v ← match w.kind with
        | .flowEntry | .flowSequenceEnd => pure (Node.empty w.mark)
        | _ => read false false fuel
      return .mapping start [] [(k, v)]
    | _ => return .mapping start [] [(k, .empty u.mark)]

/-- Reads the pairs between braces up to and with the closing one. -/
def flowPairs (start : Mark) (first : Bool) : Nat → Reader (List (Node × Node))
  | 0 => exhausted
  | fuel + 1 => do
    let t ← peek
    match t.kind with
    | .flowMappingEnd =>
      advance
      return []
    | _ =>
      if !first then
        match t.kind with
        | .flowEntry => advance
        | _ => refuse "while parsing a flow mapping" start "did not find expected ',' or '\x7d'" t.mark
      let u ← peek
      match u.kind with
      | .flowMappingEnd =>
        advance
        return []
      | .key =>
        advance
        let w ← peek
        let k ← if endsBracePair w.kind then pure (Node.empty w.mark) else read false false fuel
        let v ← flowValue fuel
        return (k, v) :: (← flowPairs start false fuel)
      | _ =>
        let k ← read false false fuel
        return (k, .empty k.mark) :: (← flowPairs start false fuel)

/-- Reads the value of a pair between braces, if there is one. -/
def flowValue : Nat → Reader Node
  | 0 => exhausted
  | fuel + 1 => do
    let t ← peek
    match t.kind with
    | .value =>
      advance
      let u ← peek
      match u.kind with
      | .flowEntry | .flowMappingEnd => return .empty u.mark
      | _ => read false false fuel
    | _ => return .empty t.mark

end

/-! ## Documents -/

/-- Reads the directives in front of a document.  The number bounds their count. -/
def directives : Nat → Bool → List (List Char × List Char) → Reader Unit
  | 0, _, _ => exhausted
  | fuel + 1, hasVersion, handles => do
    let t ← peek
    match t.kind with
    | .versionDirective major minor =>
      if hasVersion then throw ⟨"found duplicate %YAML directive", t.mark, none⟩
      else if major ≠ 1 ∨ (minor ≠ 1 ∧ minor ≠ 2) then
        throw ⟨"found incompatible YAML document", t.mark, none⟩
      else
        advance
        directives fuel true handles
    | .tagDirective handle lead =>
      if handles.any fun h => h.1 == handle then
        throw ⟨"found duplicate %TAG directive", t.mark, none⟩
      else
        advance
        directives fuel hasVersion (handles ++ [(handle, lead)])
    | _ => modify fun s => { s with handles := handles ++ defaultHandles }

/-- Holds of the tokens that end a document or stand in front of the next one. -/
def endsDocument : TokenKind → Bool
  | .versionDirective .. | .tagDirective .. | .documentStart | .documentEnd | .streamEnd => true
  | _ => false

/-- Passes over the marks of ended documents.  The number bounds their count. -/
def skipDocumentEnds : Nat → Reader Unit
  | 0 => exhausted
  | fuel + 1 => do
    match (← peek).kind with
    | .documentEnd =>
      advance
      skipDocumentEnds fuel
    | _ => return

/-- Reads a stream that holds at most one document. -/
def stream (fuel : Nat) : Reader (Option Node) := do
  advance
  let t ← peek
  match t.kind with
  | .streamEnd => return none
  | _ =>
    let implicit := !endsDocument t.kind
    if !implicit then skipDocumentEnds fuel
    let t ← peek
    if t.kind == .streamEnd then return none
    else
      directives fuel false []
      if !implicit then
        let u ← peek
        if u.kind == .documentStart then advance
        else throw ⟨"did not find expected <document start>", u.mark, none⟩
      let u ← peek
      let root ← if endsDocument u.kind then pure (Node.empty u.mark) else read true false fuel
      skipDocumentEnds fuel
      let u ← peek
      if u.kind == .streamEnd then return some root
      else
        throw ⟨"deserializing from YAML containing more than one document is not supported",
          ⟨0, 0, 0⟩, none⟩

/-- The node of a text, if it holds any. -/
def parse (cs : List Char) : Except Fault (Option Node) :=
  let (tokens, fault) := Token.scan cs
  let stop := fault.getD ⟨"EOF while parsing a value", ⟨0, 0, 0⟩, none⟩
  ((stream (4 * tokens.length + 4)).run ⟨tokens, stop, [], []⟩).map Prod.fst

end Node

end LogRotation.Yaml
