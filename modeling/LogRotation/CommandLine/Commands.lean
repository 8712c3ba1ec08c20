/-
  The commands: what the command line does.

    * RUN      captures the standard input into a log that rolls over;
    * CHECK    reports what a configuration comes to at the present time;
    * RENDER   prints the file name of an instant.

  All three resolve their configuration in the same way.  A file that is named is loaded; without one,
  and without a pattern, the known places are searched.  What the options say then wins over the file.
-/
import LogRotation.Capture
import LogRotation.CommandLine.Arguments
import LogRotation.Config.File
import LogRotation.Instant.Rfc3339
import LogRotation.Json.Printer

namespace LogRotation.CommandLine

open Routine (Attempt)

/-! ## What a command starts from and comes to -/

/-- What a command finds around it. -/
structure Surroundings where
  /-- The pattern that the environment names. -/
  pattern : Option String
  home : Path
  localTime : LocalTime

/-- How a command ended. -/
structure Outcome where
  exitCode : Nat
  output : String
  complaint : String
  deriving DecidableEq, Repr

/-- The reasons for which a command fails. -/
inductive Failure
  | error (e : Error)
  | invalidInstant (text : String)
  deriving DecidableEq, Repr

/-- The words for a failure. -/
def Failure.message : Failure → String
  | error e => e.message
  | invalidInstant text => s!"Invalid RFC 3339 instant: {text}"

namespace Outcome

/-- A command that did its work. -/
def success (output : String) : Outcome := ⟨0, output, ""⟩

/-- A command that failed. -/
def failure (f : Failure) : Outcome := ⟨1, "", s!"Error: {f.message}\n"⟩

/-- The name of the program and its version. -/
def versionLine : String := "timeroll 0.1.0\n"

/-- The use of the command line. -/
def usage : String :=
  "Usage: timeroll [OPTIONS] <COMMAND>\n\nCommands:\n" ++
    "  run     Read stdin and append it to rotating log files\n" ++
    "  check   Validate a rolling configuration\n" ++
    "  render  Render a file name pattern for an instant\n"

/-- What is told instead of carrying out a command. -/
def stop : Stop → Outcome
  | .help => success usage
  | .version => success versionLine
  | .misuse => ⟨2, "", usage⟩

end Outcome

/-! ## Configuration -/

/-- The options that describe a policy. -/
structure PolicyOptions where
  pattern : Option String
  activeFile : Option Path
  utc : Bool
  configFile : Option Path
  deriving DecidableEq, Repr

namespace PolicyOptions

/-- Reads the options; the environment stands in for a pattern that was not given. -/
def ofGiven (s : Surroundings) (g : Given) : PolicyOptions :=
  ⟨g.value? .pattern <|> s.pattern, (g.value? .active).map Path.mk, g.has .utc,
    (g.value? .config).map Path.mk⟩

/-- What the options say wins. -/
def override (o : PolicyOptions) (c : Config) : Config :=
  let c := match o.pattern with
    | some p => { c with fileNamePattern := some p }
    | none => c
  let c := match o.activeFile with
    | some a => c.withActiveFile a
    | none => c
  if o.utc then c.withZone .utc else c

/-- The configuration file that is found where none is named: in the working directory, or else in the
home directory. -/
def discover (home : Path) : Routine (Option Path) := do
  match ← Config.find ⟨""⟩ with
  | some p => return some p
  | none => Config.firstPresent [Config.homeFile home]

/-- The configuration that the options start from. -/
def base (o : PolicyOptions) (home : Path) : Attempt Error Config := do
  match o.configFile, o.pattern with
  | some p, _ => Config.load p
  | none, some _ => return .default
  | none, none =>
    match ← ExceptT.lift (discover home) with
    | some p => Config.load p
    | none => return .default

/-- The configuration that the options come to. -/
def resolve (o : PolicyOptions) (home : Path) : Attempt Error Config := do
  return o.override (← o.base home)

end PolicyOptions

/-! ## Checking -/

/-- What a configuration comes to. -/
structure Report where
  pattern : String
  dateFormat : String
  zone : Zone
  compression : Compression
  currentName : String
  activeFile : Path
  fixed : Bool
  deriving DecidableEq, Repr

namespace Report

/-- The report on a policy. -/
def ofPolicy (p : Policy) : Report :=
  ⟨p.template.raw, String.ofList p.template.dateFormat, p.template.zone, p.compression, p.lastName,
    p.activeFile, p.fixedFile.isSome⟩

/-- A line of the report, with its label filled up to a common width. -/
def line (label value : String) : String :=
  "  " ++ label ++ String.ofList (List.replicate (14 - label.length) ' ') ++ " " ++ value ++ "\n"

/-- Writes a report for a reader. -/
def text (r : Report) : String :=
  "✓ Configuration is valid\n" ++ line "pattern:" r.pattern ++ line "date format:" r.dateFormat ++
    line "time zone:" r.zone.name ++ line "compression:" r.compression.name ++
    line "current name:" r.currentName ++
    line "active file:" (r.activeFile.text ++ if r.fixed then " (fixed)" else "")

/-- Writes a report for a program. -/
def json (r : Report) : String :=
  Json.printObject [("pattern", .text r.pattern), ("date_format", .text r.dateFormat),
    ("time_zone", .text r.zone.name), ("compression", .text r.compression.name),
    ("current_name", .text r.currentName), ("active_file", .text r.activeFile.text),
    ("decoupled", .truth r.fixed)] ++ "\n"

end Report

/-! ## Rendering -/

/-- A file name at an instant. -/
structure Rendered where
  instant : Instant
  name : String
  deriving DecidableEq, Repr

namespace Rendered

/-- Writes a name for a reader. -/
def text (r : Rendered) : String := r.name ++ "\n"

/-- Writes a name for a program. -/
def json (r : Rendered) : String :=
  let kind := Compression.detect r.name
  Json.printObject [("at", .text r.instant.toRfc3339), ("rendered", .text r.name),
    ("base", .text (kind.strip r.name)), ("compression", .text kind.name)] ++ "\n"

end Rendered

/-! ## Commands -/

/-- A command and all it was told. -/
structure Command where
  verb : Verb
  options : PolicyOptions
  json : Bool
  raw : Bool
  instant : Option String
  deriving DecidableEq, Repr

/-- Reads the command line. -/
def Command.read (s : Surroundings) (arguments : List String) : Except Stop Command := do
  let a ← Arguments.read arguments
  return ⟨a.verb, .ofGiven s a.after, a.before.has .json || a.after.has .json, a.after.has .raw,
    a.after.value? .instant⟩

namespace Command

/-- Reports on the policy that the options describe. -/
def check (c : Command) (s : Surroundings) : Attempt Error Report := do
  let config ← c.options.resolve s.home
  let now ← Routine.reply .clock
  let policy ← ExceptT.mk (Routine.done (Policy.activate s.localTime config now.millis))
  return .ofPolicy policy

/-- Renders the template that the options describe. -/
def render (c : Command) (s : Surroundings) : Attempt Failure Rendered := do
  let config ← (c.options.resolve s.home).adapt Failure.error
  let parsed := do return (← Template.parse (← config.pattern)).withZone config.zone
  let template ← (ExceptT.mk (Routine.done parsed)).adapt Failure.error
  let instant ← match c.instant with
    | some text =>
      match Instant.ofRfc3339? text with
      | some instant => pure instant
      | none => throw (.invalidInstant text)
    | none => Routine.reply .clock
  return ⟨instant, template.render s.localTime instant⟩

/-- Opens the log that the options describe. -/
def openLog (c : Command) (s : Surroundings) : Attempt Error Capture := do
  let config ← c.options.resolve s.home
  return .ofWriter (← Writer.openNow s.localTime config) c.raw

/-- A command that is over, or one that takes the standard input. -/
inductive Progress
  | over (o : Outcome)
  | capturing (c : Capture)

/-- Carries out a command up to where it takes the standard input. -/
def start (c : Command) (s : Surroundings) : Routine Progress := do
  match c.verb with
  | .check =>
    match ← (c.check s).run with
    | .ok report => return .over (.success (if c.json then report.json else report.text))
    | .error e => return .over (.failure (.error e))
  | .render =>
    match ← (c.render s).run with
    | .ok rendered => return .over (.success (if c.json then rendered.json else rendered.text))
    | .error f => return .over (.failure f)
  | .run =>
    match ← (c.openLog s).run with
    | .ok capture => return .capturing capture
    | .error e => return .over (.failure (.error e))

end Command

/-- Starts what the command line asks for. -/
def start (s : Surroundings) (arguments : List String) : Routine Command.Progress :=
  match Command.read s arguments with
  | .ok command => command.start s
  | .error reason => return .over (.stop reason)

/-- Ends a capture when the standard input is over. -/
def conclude (c : Capture) : Routine Outcome := do
  match (← (← c.finish).close).1 with
  | .ok () => return .success ""
  | .error e => return .failure (.error e)

end LogRotation.CommandLine
