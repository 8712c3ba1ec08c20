/-
  File name templates: literal text around exactly one date placeholder.

    template     =  literal "%d" ["ate"] [ "{" format "}" [ "{" zone "}" ] ] literal
    literal      =  any characters, where a percent sign is written twice

  A placeholder without a format, or with a blank one, stands for `yyyy-MM-dd`.  A zone in the
  template is pinned: no configuration changes it.  Rendering a template at two instants and
  comparing the names is how a rotation decides whether a period has ended, so the format alone fixes
  how long a period is.

  Main definitions: `Template.parse`, `Template.withZone`, `Template.render`.
-/
import LogRotation.Error

namespace LogRotation

/-! ## Literal text -/

namespace Template

/-- What ends a stretch of literal text. -/
inductive Stop
  /-- The template is over. -/
  | finish
  /-- A percent sign in front of another character, and what follows. -/
  | conversion (letter : Char) (rest : List Char)
  /-- A percent sign with nothing after it. -/
  | dangling
  deriving DecidableEq, Repr

/-- Reads literal text up to what ends it. -/
def literal : List Char → List Char × Stop
  | [] => ([], .finish)
  | '%' :: '%' :: rest => ('%' :: (literal rest).1, (literal rest).2)
  | '%' :: c :: rest => ([], .conversion c rest)
  | ['%'] => ([], .dangling)
  | c :: rest => (c :: (literal rest).1, (literal rest).2)

/-- Writes literal text: every percent sign twice. -/
def escape : List Char → List Char
  | [] => []
  | c :: rest => if c = '%' then '%' :: '%' :: escape rest else c :: escape rest

/-! ## The placeholder -/

/-- Reads up to a closing brace; there may be none. -/
def block : List Char → Option (List Char × List Char)
  | [] => none
  | c :: rest => if c = '}' then some ([], rest) else (block rest).map fun (b, r) => (c :: b, r)

/-- Reads a zone by its name. -/
def zoneOf? (name : List Char) : Option Zone :=
  let name := Text.trim name
  if Text.sameWord name "utc".toList || Text.sameWord name "gmt".toList then some .utc
  else if Text.sameWord name "local".toList then some .localTime
  else none

/-- The format of a placeholder that names none. -/
def defaultFormat : List Char := "yyyy-MM-dd".toList

/-- The format that a placeholder uses. -/
def effectiveFormat (format : List Char) : List Char :=
  if Text.allBlank format then defaultFormat else format

/-- A placeholder as it was read: its format, its zone if it names one, and what follows it. -/
structure Placeholder where
  format : List Char
  zone : Option Zone
  rest : List Char
  deriving DecidableEq, Repr

/-- Drops the long ending of the placeholder's name. -/
def dropLongName : List Char → List Char
  | 'a' :: 't' :: 'e' :: rest => rest
  | rest => rest

/-- Reads a placeholder after its letter. -/
def placeholder (cs : List Char) : Except PatternFault Placeholder :=
  match dropLongName cs with
  | '{' :: afterBrace =>
    match block afterBrace with
    | none => .error .unterminatedFormat
    | some (format, '{' :: afterSecond) =>
      match block afterSecond with
      | none => .error .unterminatedZone
      | some (zone, rest) =>
        match zoneOf? zone with
        | none => .error (.unknownZone (String.ofList zone))
        | some z => .ok ⟨effectiveFormat format, some z, rest⟩
    | some (format, rest) => .ok ⟨effectiveFormat format, none, rest⟩
  | rest => .ok ⟨defaultFormat, none, rest⟩

end Template

/-! ## Templates -/

/-- A template that was read.  `lead` and `tail` are the literal texts around the placeholder, with
their percent signs written once. -/
structure Template where
  raw : String
  lead : List Char
  dateFormat : List Char
  parts : List DateFormat.Part
  tail : List Char
  zone : Zone
  /-- Set when the template names its own zone. -/
  zonePinned : Bool
  deriving DecidableEq, Repr

namespace Template

/-- What literal text must not be followed by, where nothing but the end may follow. -/
def stopFault : Stop → Option PatternFault
  | .finish => none
  | .dangling => some .danglingPercent
  | .conversion 'd' _ => some .secondPlaceholder
  | .conversion c _ => some (.unsupportedConversion c)

/-- Reads a template. -/
def parse (template : String) : Except Error Template :=
  let refuse (fault : PatternFault) : Except Error Template :=
    .error (.invalidPattern template fault)
  match literal template.toList with
  | (_, .finish) => .error (.noDateSpecifier template)
  | (_, .dangling) => refuse .danglingPercent
  | (lead, .conversion c rest) =>
    if c ≠ 'd' then refuse (.unsupportedConversion c)
    else match placeholder rest with
      | .error fault => refuse fault
      | .ok p =>
        match stopFault (literal p.rest).2 with
        | some fault => refuse fault
        | none =>
          match DateFormat.parse p.format with
          | .error fault => refuse (.dateFormat (String.ofList p.format) fault)
          | .ok parts =>
            .ok ⟨template, lead, p.format, parts, (literal p.rest).1,
              p.zone.getD .localTime, p.zone.isSome⟩

/-- Sets the zone of a template, unless the template names its own. -/
def withZone (t : Template) (zone : Zone) : Template :=
  if t.zonePinned then t else { t with zone := zone }

/-- The characters of the name that a template gives at an instant. -/
def renderChars (t : Template) (localTime : LocalTime) (instant : Instant) : List Char :=
  t.lead ++ DateFormat.render (WallClock.ofInstant t.zone localTime instant) t.parts ++ t.tail

/-- The file name that a template gives at an instant. -/
def render (t : Template) (localTime : LocalTime) (instant : Instant) : String :=
  String.ofList (t.renderChars localTime instant)

/-- The file name that a template gives at a count of milliseconds. -/
def renderMillis (t : Template) (localTime : LocalTime) (millis : Int) : String :=
  t.render localTime (.ofMillis millis)

theorem literal_escape (cs : List Char) : literal (escape cs) = (cs, .finish) := by
  induction cs with
  | nil => rfl
  | cons c rest ih =>
    by_cases h : c = '%'
    · subst h; simp [escape, literal, ih]
    · simp only [escape, if_neg h]
      rw [literal]
      · rw [ih]
      all_goals grind

end Template

end LogRotation
