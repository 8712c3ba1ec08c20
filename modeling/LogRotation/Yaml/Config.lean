/-
  Rolling configurations in YAML: the fields are keys of one mapping.

  A field takes any scalar for a text, whatever the scalar looks like; only a plain one that is
  empty or spells null is missing.  Other keys are passed over with their values.  A zone is its
  name, or a tag of that name on nothing.
-/
import LogRotation.Yaml.Node
import LogRotation.Config

namespace LogRotation.Yaml

/-- Holds of the spellings of null. -/
def isNull (text : List Char) : Bool :=
  text == "null".toList || text == "Null".toList || text == "NULL".toList || text == "~".toList

/-- The tag of null. -/
def nullTag : List Char := "tag:yaml.org,2002:null".toList

/-- Names the kind of a node in a message. -/
def Node.kindText : Node → String
  | .scalar .. => "string"
  | .sequence .. => "sequence"
  | .mapping .. => "map"

/-- Fails for the value of a field. -/
def refuseField {α : Type} (key : Config.Key) (problem : String) (mark : Mark) : Except Error α :=
  .error (.yaml s!"{key.name}: {problem} at {mark.text}")

/-- A text that may be missing. -/
def optionalText (key : Config.Key) : Node → Except Error (Option String)
  | .scalar mark tag text style =>
    if style != .plain then .ok (some (String.ofList text))
    else if tag == nullTag then
      if isNull text then .ok none
      else refuseField key s!"invalid value: string \"{String.ofList text}\", expected null" mark
    else if tag.isEmpty && (text.isEmpty || isNull text) then .ok none
    else .ok (some (String.ofList text))
  | n => refuseField key s!"invalid type: {n.kindText}, expected a string" n.mark

/-- Reads the name of a zone. -/
def zoneOfName (name : String) (mark : Mark) : Except Error Zone :=
  match Config.zoneOfName? name with
  | some z => .ok z
  | none =>
    refuseField .zone s!"unknown variant `{name}`, expected `local` or `utc`" mark

/-- Reads a zone. -/
def zone : Node → Except Error Zone
  | .scalar mark ('!' :: name) text style =>
    if style == .plain && (text.isEmpty || isNull text) then zoneOfName (String.ofList name) mark
    else
      refuseField .zone s!"invalid type: string \"{String.ofList text}\", expected unit variant" mark
  | .scalar mark _ text _ => zoneOfName (String.ofList text) mark
  | n => refuseField .zone s!"invalid type: {n.kindText}, expected a YAML tag starting with '!'" n.mark

/-- Sets one field of a draft, which must not be set yet.  A second setting is told by the place of
the whole mapping. -/
def setField (mapping : Mark) (d : Config.Draft) (key : Config.Key) (n : Node) :
    Except Error Config.Draft :=
  if d.has key then .error (.yaml s!"duplicate field `{key.name}` at {mapping.text}")
  else match key with
    | .fileNamePattern => do return { d with fileNamePattern := some (← optionalText key n) }
    | .activeFile => do return { d with activeFile := some (← optionalText key n) }
    | .zone => do return { d with zone := some (← zone n) }

/-- Sets the fields that the keys of a mapping name. -/
def setEntries (mapping : Mark) (d : Config.Draft) : List (Node × Node) → Except Error Config.Draft
  | [] => .ok d
  | (.scalar _ _ name _, n) :: rest =>
    match Config.Key.ofName? (String.ofList name) with
    | none => setEntries mapping d rest
    | some key => do setEntries mapping (← setField mapping d key n) rest
  | (k, _) :: _ =>
    .error (.yaml s!"invalid type: {k.kindText}, expected field identifier at {k.mark.text}")

/-- Reads a configuration. -/
def readConfig (content : String) : Except Error Config :=
  match Node.parse content.toList with
  | .error f => .error (.yaml f.text)
  | .ok none => .ok .default
  | .ok (some (.scalar _ [] [] .plain)) => .ok .default
  | .ok (some (.mapping mark _ entries)) => (setEntries mark .empty entries).map Config.Draft.config
  | .ok (some n) =>
    .error (.yaml s!"invalid type: {n.kindText}, expected struct RollingConfig at {n.mark.text}")

end LogRotation.Yaml
