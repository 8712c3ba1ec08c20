/-
  Writing records to a log that rolls over.

  Before each record the policy is asked.  When a period is over, the old file is closed, what must be
  done at once is done, the new file is opened, and the rest is handed to the background.

    * BUFFER      records are gathered up to a size; each record is then written out before the call
                  is over, so that a buffer holds bytes only after a failure;
    * FAILURE     a record is written after its rollover or not at all; the new file is opened even if
                  a move failed, and a writer that was left without a file opens one when it needs it;
    * LIVE TAIL   records that were written are also shown to a reader, as long as it has room.
-/
import LogRotation.Policy
import LogRotation.Action.Execution

namespace LogRotation

/-! ## Buffers -/

/-- An open file, and the bytes that are still to be written to it. -/
structure Buffered where
  handle : Handle
  pending : Bytes
  deriving DecidableEq, Repr

namespace Buffered

/-- The count of bytes that a buffer has room for. -/
def capacity : Nat := 8192

/-- Tells a write as a success or a failure. -/
def outcome (w : Written) : Except IoError Unit :=
  match w.failure with
  | none => .ok ()
  | some e => .error e

/-- Writes out what is pending.  After a failure the bytes that were not taken stay pending. -/
def flush (f : Buffered) : Routine (Except IoError Unit × Buffered) := do
  if f.pending.isEmpty then return (.ok (), f)
  else
    let w ← Routine.request (.write f.handle f.pending)
    return (outcome w, { f with pending := f.pending.drop w.count })

/-- Adds bytes: to the buffer if they fit in, else past it. -/
def add (f : Buffered) (bytes : Bytes) : Routine (Except IoError Unit × Buffered) := do
  let (r, f) ← if capacity - f.pending.length < bytes.length then f.flush else pure (.ok (), f)
  match r with
  | .error e => return (.error e, f)
  | .ok () =>
    if bytes.length < capacity then return (.ok (), { f with pending := f.pending ++ bytes })
    else return (outcome (← Routine.request (.write f.handle bytes)), f)

/-- Lets go of a file, after one more try to write out what is pending. -/
def release (f : Buffered) : Routine Unit := do
  let _ ← f.flush
  Routine.request (.close f.handle)

end Buffered

/-! ## The live tail -/

/-- The records that a reader was shown and has not taken. -/
structure LiveTail where
  capacity : Nat
  records : List String
  deriving DecidableEq, Repr

/-- Shows a record, if there is room for it. -/
def LiveTail.send (t : LiveTail) (record : String) : LiveTail :=
  if t.records.length < t.capacity then { t with records := t.records ++ [record] } else t

/-! ## Writers -/

/-- A policy at work on a log. -/
structure Writer where
  policy : Policy
  /-- The file that was opened last. -/
  path : Path
  file : Option Buffered
  tail : Option LiveTail

/-- Opens a file at its end, after making the directories above it. -/
def Routine.openAppend (p : Path) : Attempt IoError Buffered := do
  makeParents p
  return ⟨← openWrite p true, []⟩

namespace Writer

open Routine (Attempt)

/-- Opens the active file of a policy. -/
def ofPolicy (policy : Policy) : Attempt Error Writer := do
  let file ← (Routine.openAppend policy.activeFile).adapt Error.io
  return ⟨policy, policy.activeFile, some file, none⟩

/-- Puts a configuration to use and opens its active file. -/
def ofConfig (localTime : LocalTime) (config : Config) (now : Int) : Attempt Error Writer := do
  let policy ← ExceptT.mk (Routine.done (Policy.activate localTime config now))
  ofPolicy policy

/-- Shows the records to a reader from now on. -/
def withTail (w : Writer) (tail : LiveTail) : Writer := { w with tail := some tail }

/-- Work on a writer that may fail; what was changed before a failure stays changed. -/
abbrev Work (α : Type) := ExceptT Error (StateT Writer Routine) α

namespace Work

/-- Takes a routine as work. -/
def ofRoutine {α : Type} (r : Routine α) : Work α := ExceptT.lift (StateT.lift r)

/-- Takes a result as work. -/
def ofExcept {α : Type} (r : Except Error α) : Work α := ExceptT.mk (pure r)

/-- Takes a file operation as work. -/
def ofAttempt {α : Type} (r : Attempt IoError α) : Work α := do
  ofExcept ((← ofRoutine r.run).mapError Error.io)

/-- Closes the file, if there is one.  The writer is without it even if that fails. -/
def closeFile : Work Unit := do
  match (← get).file with
  | none => pure ()
  | some f =>
    modify fun w => { w with file := none }
    let (r, f) ← ofRoutine f.flush
    ofRoutine f.release
    ofExcept (r.mapError Error.io)

/-- Opens a file, which is the writer's from then on. -/
def openFile (p : Path) : Work Unit := do
  let f ← ofAttempt (Routine.openAppend p)
  modify fun w => { w with file := some f, path := p }

/-- Asks the policy, and keeps what it answers. -/
def consult (now : Int) : Work Rollover := do
  let (rollover, policy) ← ofRoutine ((← get).policy.consult now)
  modify fun w => { w with policy := policy }
  return rollover

/-- Rolls over if a period is over.  A look that finds none over still goes to the active file, which
may not have been opened when it should have been. -/
def roll (now : Int) : Work Unit := do
  if (← get).policy.isDue now then
    let rollover ← consult now
    if rollover.crossed then
      closeFile
      let moved ← ofRoutine (Action.executeAll rollover.before).run
      openFile rollover.activeFile
      ofExcept moved
      unless rollover.background.isEmpty do ofRoutine (Routine.request (.submit rollover.background))
    else if rollover.activeFile.components ≠ (← get).path.components then
      closeFile
      openFile rollover.activeFile

/-- The writer's file, opened if there is none. -/
def needFile : Work Buffered := do
  match (← get).file with
  | some f => return f
  | none =>
    let f ← ofAttempt (Routine.openAppend (← get).path)
    modify fun w => { w with file := some f }
    return f

/-- Keeps a file and what was done to it. -/
def keepFile (step : Except IoError Unit × Buffered) : Work Unit := do
  modify fun w => { w with file := some step.2 }
  ofExcept (step.1.mapError Error.io)

/-- Writes bytes to the writer's file, and out of its buffer. -/
def append (bytes : Bytes) : Work Unit := do
  keepFile (← ofRoutine ((← needFile).add bytes))
  keepFile (← ofRoutine (← needFile).flush)

/-- Shows a record to the reader, if there is one. -/
def showRecord (record : Option String) : Work Unit :=
  match record with
  | none => pure ()
  | some r => modify fun w => { w with tail := w.tail.map fun t => t.send r }

/-- Writes a record, after the rollover that it needs. -/
def record (now : Int) (bytes : Bytes) : Work Unit := do
  roll now
  append bytes
  showRecord (Bytes.text? bytes)

/-- Writes out what is pending. -/
def flush : Work Unit := do
  match (← get).file with
  | none => pure ()
  | some f => keepFile (← ofRoutine f.flush)

end Work

/-! ## Records -/

/-- The stamp of a record: the date and the time to the second. -/
def stamp (w : WallClock) : List Char :=
  let date := Calendar.Date.ofDay w.day
  Text.year date.year ++ '-' :: Text.fixed 2 date.month ++ '-' :: Text.fixed 2 date.day ++
    ' ' :: Text.fixed 2 w.hour ++ ':' :: Text.fixed 2 w.minute ++ ':' :: Text.fixed 2 w.secondOfMinute

/-- The record of a line: its stamp, in the zone of the file names, and its text. -/
def lineRecord (policy : Policy) (text : String) (now : Instant) : Bytes :=
  let clock := WallClock.ofInstant policy.template.zone policy.localTime now
  Bytes.ofText (String.ofList ('[' :: stamp clock ++ [']', ' ']) ++ text ++ "\n")

/-- Writes a line with its stamp. -/
def writeLine (w : Writer) (text : String) (now : Instant) : Routine (Except Error Unit × Writer) :=
  (Work.record now.millis (lineRecord w.policy text now)).run.run w

/-- Writes bytes as they are. -/
def writeRaw (w : Writer) (bytes : Bytes) (now : Instant) : Routine (Except Error Unit × Writer) :=
  (Work.record now.millis bytes).run.run w

/-- Writes out what is pending. -/
def flush (w : Writer) : Routine (Except Error Unit × Writer) := Work.flush.run.run w

/-- Closes the log, and waits for the background, whatever came of the closing. -/
def close (w : Writer) : Routine (Except Error Unit × Writer) := do
  let r ← Work.closeFile.run.run w
  Routine.request .await
  return r

end Writer

end LogRotation
