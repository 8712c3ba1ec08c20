/-
  Running routines on a file system in memory.

  A world is a file system and a worker that carries out submitted actions in the background, one
  after the other.  How the two are interleaved, which requests fail, and what the clock shows are not
  the world's own: they are `Conditions`, and every choice of them is a run that may happen.

    * CALM      nothing fails, the worker waits until it is waited for, and the clock stands still;
    * DRAIN     the worker finishes all that was submitted.
-/
import LogRotation.Action.Execution

namespace LogRotation

/-! ## Single requests -/

/-- Gives what an operation gave, and keeps the file system where it failed. -/
def FileSystem.settle {α : Type} (fs : FileSystem) :
    Except IoError (α × FileSystem) → Except IoError α × FileSystem
  | .ok (a, fs) => (.ok a, fs)
  | .error e => (.error e, fs)

/-- Answers a request that is about files. -/
def FileSystem.serve (fs : FileSystem) : (q : Request) → q.Reply × FileSystem
  | .present p => (fs.present p, fs)
  | .isDirectory p => (fs.isDirectory p, fs)
  | .makeDirectory p => fs.settle ((fs.makeDirectory p).map fun fs => ((), fs))
  | .rename source target => fs.settle ((fs.rename source target).map fun fs => ((), fs))
  | .remove p => fs.settle ((fs.remove p).map fun fs => ((), fs))
  | .openRead p => (fs.openRead p, fs)
  | .openWrite p keep => fs.settle (fs.openWrite p keep)
  | .read h => (fs.read h, fs)
  | .write h bytes => fs.write h bytes
  | .sync _ => (.ok (), fs)
  | .close _ | .submit _ | .await => ((), fs)
  | .clock => (⟨0, 0⟩, fs)

/-- A failure that comes from outside.  A write that fails may have taken some bytes before. -/
structure Fault where
  cause : IoError
  taken : Nat
  deriving DecidableEq, Repr

/-- Answers a request that fails from outside, unless it is one that cannot. -/
def FileSystem.serveFault (fs : FileSystem) (fault : Fault) :
    (q : Request) → Option (q.Reply × FileSystem)
  | .present _ | .isDirectory _ => some (false, fs)
  | .makeDirectory _ | .rename .. | .remove _ | .sync _ => some (.error fault.cause, fs)
  | .openRead _ | .openWrite .. => some (.error fault.cause, fs)
  | .read _ => some (.error fault.cause, fs)
  | .write h bytes =>
    let (written, fs) := fs.write h (bytes.take fault.taken)
    some (⟨written.count, written.failure <|> some fault.cause⟩, fs)
  | .close _ | .submit _ | .await | .clock => none

/-! ## Worlds -/

/-- A file system and a worker. -/
structure World where
  files : FileSystem
  /-- The actions that were submitted and not yet begun. -/
  queue : List Action
  /-- What is left of the action that the worker has begun. -/
  begun : Routine Unit
  /-- The count of requests so far. -/
  ticks : Nat

/-- What a run depends on beside the world, told by the count of requests so far. -/
structure Conditions where
  fault : Nat → Request → Option Fault
  clock : Nat → Instant
  /-- How many requests of the worker come before the next request of the program. -/
  turns : Nat → Nat

/-- Nothing fails, and the worker waits. -/
def Conditions.calm (now : Instant) : Conditions := ⟨fun _ _ => none, fun _ => now, fun _ => 0⟩

namespace World

/-- A world with nothing to do. -/
def ofFiles (files : FileSystem) : World := ⟨files, [], .done (), 0⟩

/-- Answers one request, which does not wait for the worker. -/
def answer (c : Conditions) (w : World) (q : Request) : q.Reply × World :=
  match q with
  | .submit actions => ((), { w with queue := w.queue ++ actions, ticks := w.ticks + 1 })
  | .clock => (c.clock w.ticks, { w with ticks := w.ticks + 1 })
  | q =>
    let faulty := (c.fault w.ticks q).bind fun fault => w.files.serveFault fault q
    let (r, files) := faulty.getD (w.files.serve q)
    (r, { w with files := files, ticks := w.ticks + 1 })

/-! ## The worker -/

/-- Runs a routine with nothing in between. -/
def runAlone {α : Type} (c : Conditions) : Routine α → World → α × World
  | .done a, w => (a, w)
  | .ask q next, w =>
    let (r, w) := w.answer c q
    runAlone c (next r) w

/-- Lets the worker finish what it has begun and all that was submitted. -/
def drain (c : Conditions) (w : World) : World :=
  let finish (w : World) (r : Routine Unit) : World := (runAlone c r w).2
  let w := finish { w with begun := .done () } w.begun
  w.queue.foldl (fun w a => finish w a.executeQuietly) { w with queue := [] }

/-- Lets the worker ask one request, or begin an action. -/
def turn (c : Conditions) (w : World) : World :=
  match w.begun with
  | .ask q next =>
    let (r, w) := w.answer c q
    { w with begun := next r }
  | .done () =>
    match w.queue with
    | [] => w
    | a :: rest => { w with queue := rest, begun := a.executeQuietly }

/-- Lets the worker go on so many times. -/
def turns (c : Conditions) : Nat → World → World
  | 0, w => w
  | n + 1, w => turns c n (w.turn c)

/-! ## Runs -/

/-- Answers one request of the program. -/
def perform (c : Conditions) (w : World) (q : Request) : q.Reply × World :=
  match q with
  | .await => ((), w.drain c)
  | q => w.answer c q

/-- Runs a routine of the program, with the worker in between. -/
def run {α : Type} (c : Conditions) : Routine α → World → α × World
  | .done a, w => (a, w)
  | .ask q next, w =>
    let (r, w) := (turns c (c.turns w.ticks) w).perform c q
    run c (next r) w

/-! ## Laws -/

theorem run_bind {α β : Type} (c : Conditions) (r : Routine α) (f : α → Routine β) (w : World) :
    run c (r >>= f) w = run c (f (run c r w).1) (run c r w).2 := by
  induction r generalizing w with
  | done a => rfl
  | ask q next ih => exact ih _ _

theorem runAlone_bind {α β : Type} (c : Conditions) (r : Routine α) (f : α → Routine β) (w : World) :
    runAlone c (r >>= f) w = runAlone c (f (runAlone c r w).1) (runAlone c r w).2 := by
  induction r generalizing w with
  | done a => rfl
  | ask q next ih => exact ih _ _

end World

end LogRotation
