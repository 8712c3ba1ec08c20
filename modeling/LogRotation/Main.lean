/-
  The program: routines run on the files of the host.

  A request is one operation of the host, and its failure becomes a cause of the library.  Submitted
  actions run in a task, one after the other.
-/
import LogRotation.CommandLine.Commands
import LogRotation.Instant.LocalTime
import Std.Time.DateTime.Timestamp

namespace LogRotation.Main

/-! ## The host -/

/-- The open files, by their numbers, and the last of the background tasks. -/
structure Host where
  files : IO.Ref (List (Nat × IO.FS.Handle))
  fresh : IO.Ref Nat
  worker : IO.Ref (Task (Except IO.Error Unit))

/-- A host without open files. -/
def Host.start : IO Host := do
  return ⟨← IO.mkRef [], ← IO.mkRef 0, ← IO.mkRef (Task.pure (.ok ()))⟩

/-- The number that the host gives to a failure. -/
def failureNumber : IO.Error → UInt32
  | .alreadyExists _ n _ | .otherError n _ | .resourceBusy n _ | .resourceVanished n _
  | .unsupportedOperation n _ | .hardwareFault n _ | .unsatisfiedConstraints n _ | .illegalOperation n _
  | .protocolError n _ | .timeExpired n _ | .interrupted _ n _ | .noFileOrDirectory _ n _
  | .invalidArgument _ n _ | .permissionDenied _ n _ | .resourceExhausted _ n _
  | .inappropriateType _ n _ | .noSuchThing _ n _ => n
  | .unexpectedEof | .userError _ => 0

/-- The cause that a failure of the host stands for. -/
def causeOf (e : IO.Error) : IoError :=
  match failureNumber e with
  | 2 => .notFound
  | 16 => .busy
  | 17 => .alreadyExists
  | 18 => .crossesDevices
  | 20 => .notADirectory
  | 21 => .isADirectory
  | 22 => .invalidArgument
  | 28 => .storageFull
  | 36 => .nameTooLong
  | 39 => .notEmpty
  | _ => .other (toString e)

/-- Does an operation of the host. -/
def attempt {α : Type} (operation : IO α) : IO (Except IoError α) := do
  try return .ok (← operation)
  catch e => return .error (causeOf e)

/-- Does an operation of the host at a path. -/
def attemptAt {α : Type} (p : Path) (operation : String → IO α) : IO (Except IoError α) :=
  if p.text.toList.contains '\x00' then return .error .nulInPath
  else attempt (operation p.text)

/-- Whether an operation of the host at a path succeeds. -/
def holdsAt {α : Type} (p : Path) (operation : String → IO α) : IO Bool := do
  return (← attemptAt p operation).isOk

/-- Numbers an open file. -/
def Host.keep (host : Host) (file : IO.FS.Handle) : IO Handle := do
  let n ← host.fresh.modifyGet fun n => (n, n + 1)
  host.files.modify ((n, file) :: ·)
  return .file n

/-- Does something with an open file. -/
def Host.withFile {α : Type} (host : Host) (h : Handle) (operation : IO.FS.Handle → IO α) :
    IO (Except IoError α) := do
  match h with
  | .file n =>
    match (← host.files.get).lookup n with
    | some file => attempt (operation file)
    | none => return .error .invalidArgument
  | _ => return .error .invalidArgument

/-- Answers a request that does not wait for the background. -/
def Host.answer (host : Host) : (q : Request) → IO q.Reply
  | .present p => holdsAt p fun s => IO.FS.realPath s
  | .isDirectory p => holdsAt p fun s => IO.FS.realPath (s ++ "/.")
  | .makeDirectory p => attemptAt p fun s => IO.FS.createDir s
  | .rename source target =>
    if target.text.toList.contains '\x00' then return .error .nulInPath
    else attemptAt source fun s => IO.FS.rename s target.text
  | .remove p => attemptAt p fun s => IO.FS.removeFile s
  | .openRead p => attemptAt p fun s => do host.keep (← IO.FS.Handle.mk s .read)
  | .openWrite p keep =>
    attemptAt p fun s => do host.keep (← IO.FS.Handle.mk s (if keep then .append else .write))
  | .read h => host.withFile h fun file => return (← file.readBinToEnd).toList
  | .write h bytes => do
    let r ← host.withFile h fun file => do
      file.write bytes.toByteArray
      file.flush
    return match r with
      | .ok () => ⟨bytes.length, none⟩
      | .error e => ⟨0, some e⟩
  | .sync h => host.withFile h fun file => file.flush
  | .close h => do
    match h with
    | .file n => host.files.modify (·.filter fun x => x.1 != n)
    | _ => pure ()
  | .submit _ | .await => return ()
  | .clock => do
    let now := (← Std.Time.Timestamp.now).toNanosecondsSinceUnixEpoch.val
    return ⟨now / 1000000000, (now % 1000000000).toNat⟩

/-- Runs a routine of the background. -/
def Host.runAlone {α : Type} (host : Host) : Routine α → IO α
  | .done a => return a
  | .ask q next => do host.runAlone (next (← host.answer q))

/-- Answers a request of the program. -/
def Host.perform (host : Host) (q : Request) : IO q.Reply :=
  match q with
  | .submit actions => do
    let work := actions.forM fun a => host.runAlone a.executeQuietly
    host.worker.set (← IO.mapTask (fun _ => work) (← host.worker.get))
  | .await => do
    let _ ← IO.wait (← host.worker.get)
  | q => host.answer q

/-- Runs a routine of the program. -/
def Host.run {α : Type} (host : Host) : Routine α → IO α
  | .done a => return a
  | .ask q next => do host.run (next (← host.perform q))

/-! ## The program -/

/-- Reads up to the end of a line or of the input. -/
partial def readPiece (input : IO.FS.Stream) (piece : ByteArray) : IO ByteArray := do
  let byte ← input.read 1
  if byte.isEmpty || byte.toList.contains newline then return piece ++ byte
  else readPiece input (piece ++ byte)

/-- Feeds the standard input to a capture. -/
partial def captureAll (host : Host) (input : IO.FS.Stream) (c : Capture) : IO Capture := do
  let piece ← readPiece input .empty
  if piece.isEmpty then return c
  else captureAll host input (← host.run (c.feed piece.toList))

/-- What the program finds around it. -/
def surroundings : IO CommandLine.Surroundings := do
  let home := (← IO.getEnv "HOME").getD ""
  let localTime := (← IO.getEnv "TZ").bind LocalTime.ofSetting?
  return ⟨← IO.getEnv "TIMEROLL_PATTERN", ⟨home⟩, localTime.getD (.fixed 0)⟩

/-- Carries out what the command line asks for. -/
def execute (arguments : List String) : IO CommandLine.Outcome := do
  let host ← Host.start
  match ← host.run (CommandLine.start (← surroundings) arguments) with
  | .over outcome => return outcome
  | .capturing c => host.run (CommandLine.conclude (← captureAll host (← IO.getStdin) c))

end LogRotation.Main

/-- Tells how the command ended, and ends with its number. -/
def main (arguments : List String) : IO UInt32 := do
  let outcome ← LogRotation.Main.execute arguments
  IO.print outcome.output
  IO.eprint outcome.complaint
  return outcome.exitCode.toUInt32
