/-
  Rolling configurations in JSON.

  An object sets the fields by name, in any order; names that are no field are passed over with
  their values, and a field must not be set twice, be it under one name or two.  An array gives the
  fields in their order, and may stop early.
-/
import LogRotation.Json.Value
import LogRotation.Config

namespace LogRotation.Json

/-- A text that may be missing. -/
def optionalText? : Value → Option (Option String)
  | .null => some none
  | .string s => (text? s).map fun cs => some (String.ofList cs)
  | _ => none

/-- A zone: its name, or an object of the name and nothing. -/
def zone? : Value → Option Zone
  | .string s => (text? s).bind fun cs => Config.zoneOfName? (String.ofList cs)
  | .object [(s, .null)] => (text? s).bind fun cs => Config.zoneOfName? (String.ofList cs)
  | _ => none

/-- Sets one field of a draft, which must not be set yet. -/
def setField (d : Config.Draft) (key : Config.Key) (v : Value) : Option Config.Draft :=
  if d.has key then none
  else match key with
    | .fileNamePattern => (optionalText? v).map fun t => { d with fileNamePattern := some t }
    | .activeFile => (optionalText? v).map fun t => { d with activeFile := some t }
    | .zone => (zone? v).map fun z => { d with zone := some z }

/-- Sets the fields that the members of an object name. -/
def setMembers (d : Config.Draft) : List (List Element × Value) → Option Config.Draft
  | [] => some d
  | (name, v) :: rest => do
    let name ← text? name
    match Config.Key.ofName? (String.ofList name) with
    | none => setMembers d rest
    | some key => setMembers (← setField d key v) rest

/-- Sets the fields in their order. -/
def setItems (d : Config.Draft) : List Config.Key → List Value → Option Config.Draft
  | _, [] => some d
  | [], _ :: _ => none
  | key :: keys, v :: vs => do setItems (← setField d key v) keys vs

/-- The configuration that a value describes. -/
def config? : Value → Option Config
  | .object members => (setMembers .empty members).map Config.Draft.config
  | .array items =>
    (setItems .empty [.fileNamePattern, .activeFile, .zone] items).map Config.Draft.config
  | _ => none

/-- Reads a configuration. -/
def readConfig (content : String) : Except Error Config :=
  match Value.parse? content.toList with
  | none => .error (.json "not a JSON value")
  | some v =>
    match config? v with
    | none => .error (.json "not a rolling configuration")
    | some c => .ok c

end LogRotation.Json
