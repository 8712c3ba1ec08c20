/-
  When a log rolls over, and what it takes.

  A policy does not know how long a period is.  It renders the name of the log for the present instant
  and compares it with the name that it rendered last: another name is another period.  So that a
  stream of records costs little, it looks at most once in each second of the clock.

    * DERIVED   without a fixed active file, the log is written to the rendered name itself, less the
                ending of an archive;
    * FIXED     with one, the log is written there, and moved to that name when its period is over.

  The file of a period that is over becomes an archive, if its name ends like one.

  Main definitions: `Policy.activate`, `Policy.isDue`, `Policy.rollover`.
-/
import LogRotation.Action
import LogRotation.Compression
import LogRotation.Config
import LogRotation.Routine
import LogRotation.Template

namespace LogRotation

/-- A policy in use. -/
structure Policy where
  template : Template
  localTime : LocalTime
  fixedFile : Option Path
  compression : Compression
  /-- The name that was rendered last. -/
  lastName : String
  /-- The first millisecond at which it is worth looking again. -/
  nextCheck : Int

/-- What a look at the clock led to. -/
structure Rollover where
  /-- Whether a period is over. -/
  crossed : Bool
  /-- The file to write to from now on. -/
  activeFile : Path
  /-- What must be done before the next record. -/
  before : List Action
  /-- What may be done in the background. -/
  background : List Action
  deriving DecidableEq, Repr

/-- The archives of a kind of compression. -/
def Compression.archive? : Compression → Option ArchiveFormat
  | none => Option.none
  | gzip => some .gzip
  | zip => some .zip

namespace Policy

/-- The milliseconds between two looks at the clock. -/
def checkInterval : Int := 1000

/-! ## Activation -/

/-- Puts a configuration to use.  The first look is due at once. -/
def activate (localTime : LocalTime) (config : Config) (now : Int) : Except Error Policy := do
  let pattern ← config.pattern
  config.validate
  let template := (← Template.parse pattern).withZone config.zone
  let name := template.renderMillis localTime now
  return ⟨template, localTime, config.activeFile, .detect name, name, 0⟩

/-! ## Names -/

/-- The name that the template gives at an instant. -/
def nameAt (p : Policy) (now : Int) : String := p.template.renderMillis p.localTime now

/-- The file that a rendered name stands for while its period lasts. -/
def baseOf (p : Policy) (name : String) : Path := ⟨p.compression.strip name⟩

/-- The file to write to in the period of a rendered name. -/
def activeFileFor (p : Policy) (name : String) : Path := p.fixedFile.getD (p.baseOf name)

/-- The file to write to. -/
def activeFile (p : Policy) : Path := p.activeFileFor p.lastName

/-! ## Rolling over -/

/-- Whether it is worth looking. -/
def isDue (p : Policy) (now : Int) : Bool := p.nextCheck ≤ now

/-- The start of the second after an instant. -/
def nextSecond (now : Int) : Int := (now / checkInterval + 1) * checkInterval

/-- Whether the period of the last name is over. -/
def isOver (p : Policy) (now : Int) : Bool := p.nameAt now != p.lastName

/-- What becomes of a file whose period is over. -/
def archiving (p : Policy) : List Action :=
  match p.compression.archive? with
  | none => []
  | some format => [.compress format (p.baseOf p.lastName) ⟨p.lastName⟩ true]

/-- Looks at the clock.  `written` says whether the file of the last period is there. -/
def rollover (p : Policy) (now : Int) (written : Bool) : Rollover × Policy :=
  let next := { p with nextCheck := nextSecond now, lastName := p.nameAt now }
  if p.isOver now then
    let moves := match p.fixedFile with
      | some active => [.rename active (p.baseOf p.lastName) true]
      | none => []
    (⟨true, next.activeFile, moves, if written then p.archiving else []⟩, next)
  else (⟨false, next.activeFile, [], []⟩, next)

/-- Looks at the clock, and for the file of the last period if that is over. -/
def consult (p : Policy) (now : Int) : Routine (Rollover × Policy) := do
  if p.isOver now then
    let written ← Routine.request (.present p.activeFile)
    return p.rollover now written
  else return p.rollover now false

end Policy

end LogRotation
