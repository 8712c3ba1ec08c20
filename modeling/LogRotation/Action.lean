/-
  What it takes to finish a rollover: files are moved, and files become archives.

  An action is data.  What it does is in `Action.Execution`.
-/
import LogRotation.Path

namespace LogRotation

/-- The formats of archives. -/
inductive ArchiveFormat
  | gzip
  | zip
  deriving DecidableEq, Repr

/-- The name of an archive format. -/
def ArchiveFormat.name : ArchiveFormat → String
  | gzip => "gzip"
  | zip => "zip"

/-- One thing to do with a file. -/
inductive Action
  /-- Moves a file; a move that is mandatory must succeed. -/
  | rename (source target : Path) (mandatory : Bool)
  /-- Puts a file into an archive. -/
  | compress (format : ArchiveFormat) (source target : Path) (deleteSource : Bool)
  deriving DecidableEq, Repr

namespace Action

/-- The path an action reads from. -/
def source : Action → Path
  | rename source _ _ => source
  | compress _ source _ _ => source

/-- The path an action produces. -/
def target : Action → Path
  | rename _ target _ => target
  | compress _ _ target _ => target

end Action

end LogRotation
