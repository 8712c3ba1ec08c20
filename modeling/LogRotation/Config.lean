/-
  Rolling configurations: the pattern of the file names, the fixed active file if there is one, and
  the zone of the dates.

  A configuration is fixed once a policy is activated.  Its own checks look at presence alone: the
  pattern must hold more than blanks, and a fixed active file must have a name.  Whether the pattern
  makes sense is the template's business.
-/
import LogRotation.Error

namespace LogRotation

/-- A rolling configuration. -/
structure Config where
  fileNamePattern : Option String
  activeFile : Option Path
  zone : Zone
  deriving DecidableEq, Repr

namespace Config

/-- Nothing set, dates in local time. -/
def default : Config := ⟨none, none, .localTime⟩

instance : Inhabited Config := ⟨default⟩

/-- The configuration of a pattern alone. -/
def ofPattern (pattern : String) : Config := { default with fileNamePattern := some pattern }

/-- Fixes the active file. -/
def withActiveFile (c : Config) (path : Path) : Config := { c with activeFile := some path }

/-- Sets the zone. -/
def withZone (c : Config) (zone : Zone) : Config := { c with zone := zone }

/-- The pattern, which must be there and must not be blank. -/
def pattern (c : Config) : Except Error String :=
  match c.fileNamePattern with
  | none => .error .patternNotSet
  | some p => if Text.allBlank p.toList then .error .patternNotSet else .ok p

/-- Checks all that can be checked without reading the pattern. -/
def validate (c : Config) : Except Error Unit :=
  match c.pattern with
  | .error e => .error e
  | .ok _ =>
    match c.activeFile with
    | some path => if path.isEmpty then .error (.config .emptyActiveFile) else .ok ()
    | none => .ok ()

/-! ## The names of the fields in a document -/

/-- The fields that a document can set. -/
inductive Key
  | fileNamePattern
  | activeFile
  | zone
  deriving DecidableEq, Repr

/-- Reads the name of a field; two of the fields have a second name. -/
def Key.ofName? (name : String) : Option Key :=
  if name = "file_name_pattern" ∨ name = "FileNamePattern" then some .fileNamePattern
  else if name = "active_file_name" ∨ name = "ActiveFileName" then some .activeFile
  else if name = "time_zone" then some .zone
  else none

/-- The first name of a field. -/
def Key.name : Key → String
  | fileNamePattern => "file_name_pattern"
  | activeFile => "active_file_name"
  | zone => "time_zone"

/-- Reads the name of a zone. -/
def zoneOfName? (name : String) : Option Zone :=
  if name = "local" then some .localTime else if name = "utc" then some .utc else none

/-- The settings of a document: each field at most once. -/
structure Draft where
  fileNamePattern : Option (Option String)
  activeFile : Option (Option String)
  zone : Option Zone
  deriving DecidableEq, Repr

/-- No field is set. -/
def Draft.empty : Draft := ⟨none, none, none⟩

/-- Holds when a field is set already. -/
def Draft.has (d : Draft) : Key → Bool
  | .fileNamePattern => d.fileNamePattern.isSome
  | .activeFile => d.activeFile.isSome
  | .zone => d.zone.isSome

/-- A field that is not set has its default value. -/
def Draft.config (d : Draft) : Config :=
  ⟨d.fileNamePattern.join, d.activeFile.join.map Path.mk, d.zone.getD .localTime⟩

end Config

end LogRotation
