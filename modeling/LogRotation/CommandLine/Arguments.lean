/-
  Reading the arguments of the command line.

    arguments  =  option* command option*
    option     =  "--" name [ "=" value ]   |   "-" letters [ [ "=" ] value ]

  An option that takes a value has it after an equals sign, after its letter, or as the next argument,
  which must not look like an option.  Letters may share one hyphen.  Every option may be given once,
  but for the one that counts.  Arguments are read from left to right, and the first that is wrong, or
  that asks for help or for the version, decides.
-/
import LogRotation.Path

namespace LogRotation.CommandLine

/-! ## Options and commands -/

/-- The options. -/
inductive Flag
  | pattern
  | active
  | utc
  | config
  | raw
  | instant
  | json
  | verbose
  | help
  | version
  deriving DecidableEq, Repr

/-- The commands, as they are named. -/
inductive Verb
  | run
  | check
  | render
  deriving DecidableEq, Repr

namespace Flag

/-- All options. -/
def all : List Flag := [pattern, active, utc, config, raw, instant, json, verbose, help, version]

/-- The name of an option. -/
def name : Flag → String
  | pattern => "pattern"
  | active => "active"
  | utc => "utc"
  | config => "config"
  | raw => "raw"
  | instant => "at"
  | json => "json"
  | verbose => "verbose"
  | help => "help"
  | version => "version"

/-- The letter of an option. -/
def letter? : Flag → Option Char
  | pattern => some 'p'
  | active => some 'a'
  | config => some 'c'
  | verbose => some 'v'
  | help => some 'h'
  | version => some 'V'
  | _ => none

/-- Holds of the options that take a value. -/
def takesValue : Flag → Bool
  | pattern | active | config | instant => true
  | _ => false

/-- Holds of the options whose value is a path, which has at least one character. -/
def takesPath : Flag → Bool
  | active | config => true
  | _ => false

/-- Whether an option may be given before a command (`none`) or after it. -/
def allowed : Option Verb → Flag → Bool
  | _, json | _, verbose | _, help => true
  | none, version => true
  | none, _ | some _, version => false
  | some .run, raw | some .render, instant => true
  | some _, raw | some _, instant => false
  | some _, _ => true

/-- The option of a name. -/
def ofName? (place : Option Verb) (name : List Char) : Option Flag :=
  all.find? fun f => f.name.toList == name && allowed place f

/-- The option of a letter. -/
def ofLetter? (place : Option Verb) (letter : Char) : Option Flag :=
  all.find? fun f => f.letter? == some letter && allowed place f

end Flag

/-- The command of a name. -/
def Verb.ofName? (name : String) : Option Verb :=
  if name = "run" then some .run
  else if name = "check" then some .check
  else if name = "render" then some .render
  else none

/-! ## What is read -/

/-- The reasons not to carry out a command. -/
inductive Stop
  | help
  | version
  | misuse
  deriving DecidableEq, Repr

/-- Options that were given, the last one first, with their values. -/
structure Given where
  options : List (Flag × String)
  deriving DecidableEq, Repr

namespace Given

/-- No option. -/
def nothing : Given := ⟨[]⟩

/-- Whether an option was given. -/
def has (g : Given) (f : Flag) : Bool := g.options.any (·.1 == f)

/-- The value of an option. -/
def value? (g : Given) (f : Flag) : Option String := g.options.lookup f

/-- How often an option was given. -/
def count (g : Given) (f : Flag) : Nat := g.options.countP (·.1 == f)

/-- Adds an option. -/
def add (g : Given) (f : Flag) (value : String) : Except Stop Given :=
  match f with
  | .help => .error .help
  | .version => .error .version
  | .verbose => .ok ⟨(f, value) :: g.options⟩
  | f =>
    if g.has f || (f.takesPath && value.isEmpty) then .error .misuse else .ok ⟨(f, value) :: g.options⟩

end Given

/-! ## The form of an argument -/

/-- The forms of an argument. -/
inductive Form
  /-- Two hyphens alone: no option follows. -/
  | separator
  | long (name : List Char) (value : Option (List Char))
  | short (letters : List Char)
  | plain
  deriving DecidableEq, Repr

/-- Splits at the first equals sign. -/
def splitAtEquals : List Char → List Char × Option (List Char)
  | [] => ([], none)
  | c :: rest =>
    if c = '=' then ([], some rest)
    else (c :: (splitAtEquals rest).1, (splitAtEquals rest).2)

/-- The form of an argument; a hyphen alone is plain. -/
def Form.of (argument : String) : Form :=
  match argument.toList with
  | ['-', '-'] => .separator
  | '-' :: '-' :: rest => .long (splitAtEquals rest).1 (splitAtEquals rest).2
  | '-' :: c :: rest => .short (c :: rest)
  | _ => .plain

/-! ## Reading -/

/-- Reads the letters of one argument.  The second part of the result is an option that still waits
for its value. -/
def readLetters (place : Option Verb) (g : Given) : List Char → Except Stop (Given × Option Flag)
  | [] => .ok (g, none)
  | c :: rest =>
    match Flag.ofLetter? place c with
    | none => .error .misuse
    | some f =>
      if f.takesValue then
        match rest with
        | [] => .ok (g, some f)
        | '=' :: value => (g.add f (String.ofList value)).map (·, none)
        | value => (g.add f (String.ofList value)).map (·, none)
      else do readLetters place (← g.add f "") rest

/-- Reads an argument that is an option, with the option that it leaves waiting for a value. -/
def readOption (place : Option Verb) (g : Given) : Form → Except Stop (Given × Option Flag)
  | .short letters => readLetters place g letters
  | .long name value =>
    match Flag.ofName? place name with
    | none => .error .misuse
    | some f =>
      match f.takesValue, value with
      | true, none => .ok (g, some f)
      | true, some value => (g.add f (String.ofList value)).map (·, none)
      | false, none => (g.add f "").map (·, none)
      | false, some _ => .error .misuse
  | .separator | .plain => .error .misuse

/-- Reads the options after a command.  `waiting` is the option that takes the next argument. -/
def readAfter (verb : Verb) (g : Given) (waiting : Option Flag) : List String → Except Stop Given
  | [] => if waiting.isSome then .error .misuse else .ok g
  | argument :: rest =>
    match waiting, Form.of argument with
    | some f, .plain => do readAfter verb (← g.add f argument) none rest
    | some _, _ => .error .misuse
    | none, .separator => if rest.isEmpty then .ok g else .error .misuse
    | none, form => do
      let (g, waiting) ← readOption (some verb) g form
      readAfter verb g waiting rest

/-- Reads what follows the word that asks for help. -/
def readHelp : List String → Stop
  | [] => .help
  | [name] => if (Verb.ofName? name).isSome || name == "help" then .help else .misuse
  | _ => .misuse

/-- A command with the options before and after it. -/
structure Arguments where
  verb : Verb
  before : Given
  after : Given
  deriving DecidableEq, Repr

/-- Reads the options before a command, the command, and the options after it. -/
def readBefore (g : Given) : List String → Except Stop Arguments
  | [] => .error .misuse
  | argument :: rest =>
    if argument = "help" then .error (readHelp rest)
    else match Verb.ofName? argument with
      | some verb => (readAfter verb .nothing none rest).map fun after => ⟨verb, g, after⟩
      | none => do
        let (g, _) ← readOption none g (Form.of argument)
        readBefore g rest

/-- Reads the arguments of the command line. -/
def Arguments.read (arguments : List String) : Except Stop Arguments := readBefore .nothing arguments

example : Arguments.read ["check", "-vpa=b", "--utc"] =
    .ok ⟨.check, .nothing, ⟨[(.utc, ""), (.pattern, "a=b"), (.verbose, "")]⟩⟩ := rfl
example : Arguments.read ["check", "-p", "--utc"] = .error .misuse := rfl
example : Arguments.read ["--json", "-V", "--bogus"] = .error .version := rfl

end LogRotation.CommandLine
