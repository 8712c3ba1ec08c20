/-
  Finding and loading configuration files.
-/
import LogRotation.Config.Format
import LogRotation.Routine

namespace LogRotation

open Routine (Attempt)

/-- Reads a file that must hold text. -/
def Routine.readText (p : Path) : Attempt IoError String := do
  let h ← openRead p
  let bytes ← closing h (read h)
  match Bytes.text? bytes with
  | some text => return text
  | none => throw .notText

namespace Config

/-- Loads a configuration from a file.  The file must be there before its name is looked at. -/
def load (p : Path) : Attempt Error Config := do
  unless ← Routine.reply (.present p) do throw (.configNotFound p)
  match ConfigFormat.ofPath? p with
  | none => throw (.config (.unsupportedExtension p))
  | some format =>
    let text ← (Routine.readText p).adapt Error.io
    ExceptT.mk (Routine.done (format.read text))

/-- The first of some paths that leads somewhere. -/
def firstPresent : List Path → Routine (Option Path)
  | [] => return none
  | p :: rest => do if ← Routine.request (.present p) then return some p else firstPresent rest

/-- Finds the configuration file of a directory. -/
def find (directory : Path) : Routine (Option Path) := firstPresent (candidates directory)

end Config

end LogRotation
