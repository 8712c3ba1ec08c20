/-
  File paths as text.

  A path is a text whose parts are separated by slashes.  Nothing here looks at a file system: these
  are the operations that see the text alone.

    * COMPONENTS   the parts that matter: empty parts and all dots but a leading one are dropped;
    * PARENT, FILE NAME, EXTENSION, JOIN   the usual questions, answered on the components.
-/

namespace LogRotation

/-- A path as it was written. -/
structure Path where
  text : String
  deriving DecidableEq, Repr

namespace Path

instance : Inhabited Path := ⟨⟨""⟩⟩

/-! ## Segments and components -/

/-- Cuts characters at the slashes; there is always one segment more than there are slashes. -/
def cutAtSlashes : List Char → List (List Char)
  | [] => [[]]
  | c :: rest =>
    if c = '/' then [] :: cutAtSlashes rest
    else match cutAtSlashes rest with
      | [] => [[c]]
      | segment :: others => (c :: segment) :: others

/-- The texts between slashes, without the empty ones. -/
def segments (p : Path) : List String :=
  ((cutAtSlashes p.text.toList).filter (fun s => !s.isEmpty)).map String.ofList

/-- A path that starts at the root. -/
def isAbsolute (p : Path) : Bool := p.text.toList.head? == some '/'

/-- A path whose last character is a slash. -/
def endsInSlash (p : Path) : Bool := p.text.toList.getLast? == some '/'

/-- A path without any text. -/
def isEmpty (p : Path) : Bool := p.text.isEmpty

/-- One step of a path. -/
inductive Component
  | root
  | here
  | up
  | name (text : String)
  deriving DecidableEq, Repr

/-- The text of a component. -/
def Component.text : Component → String
  | root => ""
  | here => "."
  | up => ".."
  | name t => t

/-- Reads one segment; a dot says nothing unless the path begins with it. -/
def stepOf (s : String) : Option Component :=
  if s = "." then none else if s = ".." then some .up else some (.name s)

/-- The steps of a path. -/
def components (p : Path) : List Component :=
  let steps := p.segments.filterMap stepOf
  if p.isAbsolute then .root :: steps
  else if p.segments.head? = some "." then .here :: steps
  else steps

/-- Writes steps as a path. -/
def ofComponents (cs : List Component) : Path :=
  match cs with
  | [.root] => ⟨"/"⟩
  | cs => ⟨String.intercalate "/" (cs.map Component.text)⟩

/-! ## Questions -/

/-- The path without its last step; the root and the empty path have none. -/
def parent? (p : Path) : Option Path :=
  match p.components.getLast? with
  | none => none
  | some .root => none
  | some _ => some (ofComponents p.components.dropLast)

/-- A path of steps, given from the last step on, and the paths above it. -/
def ancestorsOf : List Component → List Path
  | [] => []
  | c :: above => ofComponents (c :: above).reverse :: ancestorsOf above

/-- A path and the paths above it, up to the first step. -/
def ancestors (p : Path) : List Path := ancestorsOf p.components.reverse

/-- The name in the last step, if that step is a name. -/
def fileName? (p : Path) : Option String :=
  match p.components.getLast? with
  | some (.name n) => some n
  | _ => none

/-- Splits characters at the last dot. -/
def splitAtLastDot (cs : List Char) : Option (List Char × List Char) :=
  match cs.reverse.dropWhile (· != '.') with
  | [] => none
  | _ :: before => some (before.reverse, (cs.reverse.takeWhile (· != '.')).reverse)

/-- The text after the last dot of the file name, unless that dot begins the name. -/
def extension? (p : Path) : Option String :=
  match p.fileName? with
  | none => none
  | some n =>
    match splitAtLastDot n.toList with
    | some (before, after) => if before.isEmpty then none else some (String.ofList after)
    | none => none

/-- Appends a relative path; an absolute one replaces what was there. -/
def join (p q : Path) : Path :=
  if q.isAbsolute then q
  else if p.isEmpty || p.endsInSlash then ⟨p.text ++ q.text⟩
  else ⟨p.text ++ "/" ++ q.text⟩

example : (⟨"a//b/./c"⟩ : Path).parent? = some ⟨"a/b"⟩ := by decide
example : (⟨"/a"⟩ : Path).parent? = some ⟨"/"⟩ := by decide
example : (⟨"/a/b"⟩ : Path).ancestors = [⟨"/a/b"⟩, ⟨"/a"⟩, ⟨"/"⟩] := by decide
example : (⟨"a/b/."⟩ : Path).fileName? = some "b" := by decide
example : (⟨".toml"⟩ : Path).extension? = none := by decide
example : (⟨"..toml"⟩ : Path).extension? = some "toml" := by decide
example : (⟨"d/"⟩ : Path).join ⟨"x"⟩ = ⟨"d/x"⟩ := by decide

end Path

end LogRotation
