/-
  Carrying out actions.

  An action tells whether it did something: there is nothing to do where its source is missing.  An
  archive is written and brought to the disk before its source is removed, so that at every moment
  one of the two is whole.
-/
import LogRotation.Archive.Gzip
import LogRotation.Archive.Zip
import LogRotation.Routine

namespace LogRotation.Action

open Routine (Attempt)

/-! ## Moving -/

/-- The two halves of a move: the directories above the target, and the move itself. -/
def runRename (source target : Path) (mandatory : Bool) : Attempt Error Bool := do
  let failed (fault : RenameFault) : Error := .renameFailed source target fault
  if ← Routine.reply (.present source) then
    (Routine.makeParents target).adapt fun e => failed (.io e)
    match ← (Routine.rename source target).run with
    | .ok () => return true
    | .error e => if mandatory then throw (failed (.io e)) else return false
  else if mandatory then throw (failed .sourceMissing)
  else return false

/-! ## Archives -/

/-- The name of an entry where a path ends in no name. -/
def defaultEntryName : String := "log"

/-- The failure of an archive whose sizes do not fit into its fields. -/
def tooLarge : IoError := .other "Large file option has not been set"

/-- What an archive has before its content is read, and what it has after that, if it fits in. -/
def archiveParts (format : ArchiveFormat) (source : Path) : Bytes × (Bytes → Option Bytes) :=
  match format with
  | .gzip => ([], fun bytes => some (Archive.Gzip.encode bytes))
  | .zip =>
    let name := Bytes.ofText (source.fileName?.getD defaultEntryName)
    (Archive.Zip.header name, Archive.Zip.body? name)

/-- Reads an open file, and writes the rest of its archive.  A content that cannot be read leaves the
archive of nothing. -/
def writeRest (rest : Bytes → Option Bytes) (input output : Handle) : Attempt IoError Unit := do
  match ← ExceptT.lift (Routine.read input).run with
  | .ok bytes =>
    match rest bytes with
    | some rest =>
      Routine.writeAll output rest
      Routine.sync output
    | none => throw tooLarge
  | .error e =>
    let _ ← ExceptT.lift (Routine.writeAll output ((rest []).getD [])).run
    throw e

/-- Writes the archive of a file. -/
def writeArchive (format : ArchiveFormat) (source target : Path) : Attempt IoError Unit := do
  let (start, rest) := archiveParts format source
  let input ← Routine.openRead source
  Routine.closing input do
    let output ← Routine.openWrite target false
    Routine.closing output do
      unless start.isEmpty do Routine.writeAll output start
      writeRest rest input output

/-- Writes the archive of a file, and removes the file if that is wanted. -/
def runCompress (format : ArchiveFormat) (source target : Path) (deleteSource : Bool) :
    Attempt Error Bool := do
  let failed (fault : CompressionFault) : Error := .compressionFailed source fault
  if ← Routine.reply (.present source) then
    (writeArchive format source target).adapt fun e => failed (.io e)
    if deleteSource then (Routine.remove source).adapt fun e => failed (.sourceKept e)
    return true
  else return false

/-! ## Actions -/

/-- Carries out an action. -/
def execute : Action → Attempt Error Bool
  | rename source target mandatory => runRename source target mandatory
  | compress format source target deleteSource => runCompress format source target deleteSource

/-- Carries out actions in order, up to the first that fails. -/
def executeAll : List Action → Attempt Error Unit
  | [] => pure ()
  | a :: rest => do
    let _ ← a.execute
    executeAll rest

/-- Carries out an action in the background, where nobody is told what came of it. -/
def executeQuietly (a : Action) : Routine Unit := do
  let _ ← a.execute.run

end LogRotation.Action
