/-
  Rolling configurations in TOML: the fields are keys of the root table.

  Other keys are passed over with their values.  A zone is its name, or a table whose only key is
  the name, with nothing in it.
-/
import LogRotation.Toml.Document
import LogRotation.Config

namespace LogRotation.Toml

/-- A value that must be text. -/
def text? : Value → Option (Option String)
  | .text s => some (some (String.ofList s))
  | _ => none

/-- Holds of the tables and arrays without content. -/
def isEmptyValue : Value → Bool
  | .table _ [] => true
  | .array [] => true
  | .tables [] => true
  | _ => false

/-- Reads a zone. -/
def zone? : Value → Option Zone
  | .text s => Config.zoneOfName? (String.ofList s)
  | .table _ [(name, v)] =>
    if isEmptyValue v then Config.zoneOfName? (String.ofList name) else none
  | _ => none

/-- Sets one field of a draft, which must not be set yet. -/
def setField (d : Config.Draft) (key : Config.Key) (v : Value) : Option Config.Draft :=
  if d.has key then none
  else match key with
    | .fileNamePattern => (text? v).map fun t => { d with fileNamePattern := some t }
    | .activeFile => (text? v).map fun t => { d with activeFile := some t }
    | .zone => (zone? v).map fun z => { d with zone := some z }

/-- Sets the fields that the keys of a table name. -/
def setEntries (d : Config.Draft) : Entries → Option Config.Draft
  | [] => some d
  | (name, v) :: rest =>
    match Config.Key.ofName? (String.ofList name) with
    | none => setEntries d rest
    | some key => do setEntries (← setField d key v) rest

/-- Reads a configuration. -/
def readConfig (content : String) : Except Error Config :=
  match document? content.toList with
  | none => .error (.toml "not a TOML document")
  | some root =>
    match setEntries .empty root with
    | none => .error (.toml "not a rolling configuration")
    | some d => .ok d.config

end LogRotation.Toml
