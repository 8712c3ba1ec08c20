/-
  Routines: what the library asks of the world, step by step.

  Everything that touches files, hands work to the background or looks at the clock is a routine.  A
  routine is over, or it asks one request and goes on with the reply.  It is a finite tree and no
  effect: a file system, a file system that fails at will, or a real one can run it.

  Main definitions: `Request`, `Request.Reply`, `Routine`.
-/
import LogRotation.Action
import LogRotation.FileSystem.Operations
import LogRotation.Instant

namespace LogRotation

/-! ## Requests -/

/-- What can be asked of the world. -/
inductive Request
  | present (p : Path)
  | isDirectory (p : Path)
  | makeDirectory (p : Path)
  | rename (source target : Path)
  | remove (p : Path)
  | openRead (p : Path)
  /-- Opens a file for writing, at its end or from nothing. -/
  | openWrite (p : Path) (keep : Bool)
  | read (h : Handle)
  | write (h : Handle) (bytes : Bytes)
  /-- Waits until what was written is on the disk. -/
  | sync (h : Handle)
  | close (h : Handle)
  /-- Hands actions to the background. -/
  | submit (actions : List Action)
  /-- Waits until the background has done all that was submitted. -/
  | await
  | clock
  deriving DecidableEq, Repr

/-- What a request is answered with. -/
abbrev Request.Reply : Request → Type
  | present _ | isDirectory _ => Bool
  | makeDirectory _ | rename .. | remove _ | sync _ => Except IoError Unit
  | openRead _ | openWrite .. => Except IoError Handle
  | read _ => Except IoError Bytes
  | write .. => Written
  | close _ | submit _ | await => Unit
  | clock => Instant

/-! ## Routines -/

/-- A finite tree of requests that ends in a result. -/
inductive Routine (α : Type) : Type
  | done (result : α)
  | ask (q : Request) (next : q.Reply → Routine α)

namespace Routine

/-- Goes on where a routine is over. -/
def bind {α β : Type} : Routine α → (α → Routine β) → Routine β
  | done a, f => f a
  | ask q next, f => ask q fun r => bind (next r) f

instance : Monad Routine where
  pure := done
  bind := bind

/-- Asks one request. -/
def request (q : Request) : Routine q.Reply := ask q done

@[simp] theorem pure_eq {α : Type} (a : α) : (pure a : Routine α) = done a := rfl

@[simp] theorem done_bind {α β : Type} (a : α) (f : α → Routine β) : done a >>= f = f a := rfl

@[simp] theorem map_done {α β : Type} (f : α → β) (a : α) : f <$> (done a : Routine α) = done (f a) := rfl

@[simp] theorem ask_bind {α β : Type} (q : Request) (next : q.Reply → Routine α) (f : α → Routine β) :
    ask q next >>= f = ask q fun r => next r >>= f := rfl

theorem bind_done {α : Type} (r : Routine α) : r >>= done = r := by
  induction r with
  | done a => rfl
  | ask q next ih => simp [ih]

theorem bind_assoc {α β γ : Type} (r : Routine α) (f : α → Routine β) (g : β → Routine γ) :
    r >>= f >>= g = r >>= fun a => f a >>= g := by
  induction r with
  | done a => rfl
  | ask q next ih => simp [ih]

instance : LawfulMonad Routine := LawfulMonad.mk' Routine
  (by
    intro α r
    show r >>= (fun a => done (id a)) = r
    exact bind_done r)
  (fun _ _ => rfl) bind_assoc

/-! ## Asking for what may fail -/

/-- A routine that may fail. -/
abbrev Attempt (ε α : Type) := ExceptT ε Routine α

/-- Asks a request and looks at its reply. -/
def reply {ε : Type} (q : Request) : Attempt ε q.Reply := ExceptT.lift (request q)

/-- Moves what is at a path. -/
def rename (source target : Path) : Attempt IoError Unit := ExceptT.mk (request (.rename source target))

/-- Takes away the file at a path. -/
def remove (p : Path) : Attempt IoError Unit := ExceptT.mk (request (.remove p))

/-- Opens what is at a path for reading. -/
def openRead (p : Path) : Attempt IoError Handle := ExceptT.mk (request (.openRead p))

/-- Opens a file for writing. -/
def openWrite (p : Path) (keep : Bool) : Attempt IoError Handle :=
  ExceptT.mk (request (.openWrite p keep))

/-- Reads all that an open file holds. -/
def read (h : Handle) : Attempt IoError Bytes := ExceptT.mk (request (.read h))

/-- Waits until an open file is on the disk. -/
def sync (h : Handle) : Attempt IoError Unit := ExceptT.mk (request (.sync h))

/-- Does something with an open file, and closes it whatever comes of that. -/
def closing {ε α : Type} (h : Handle) (body : Attempt ε α) : Attempt ε α :=
  ExceptT.mk do
    let r ← body.run
    request (.close h)
    return r

/-- Makes a directory unless it is there, and before it the directories above it.  The list holds the
path and the paths above it. -/
def makeDirectories : List Path → Attempt IoError Unit
  | [] => pure ()
  | p :: above => do
    match ← reply (.makeDirectory p) with
    | .ok () => pure ()
    | .error .notFound => do
      makeDirectories above
      match ← reply (.makeDirectory p) with
      | .ok () => pure ()
      | .error e => unless ← reply (.isDirectory p) do throw e
    | .error e => unless ← reply (.isDirectory p) do throw e

/-- Makes the directories above a path. -/
def makeParents (p : Path) : Attempt IoError Unit :=
  match p.parent? with
  | some parent => makeDirectories parent.ancestors
  | none => pure ()

/-- Writes bytes to an open file.  A failure says how many of them were taken. -/
def writeAll (h : Handle) (bytes : Bytes) : Attempt IoError Unit := do
  match (← reply (.write h bytes)).failure with
  | none => pure ()
  | some e => throw e

end Routine

end LogRotation
