/-
  What a path means in a file system.

  A path is followed name by name from the root or from the directory `here`.  A step goes out of a
  directory only, so that a file in the middle of a path, and a slash after a file, are faults of
  their own.

    * `resolve`   follows a path to the end: something must be there;
    * `entry`     follows a path up to its last name, which may be free: this is how places are made,
                  moved and removed.
-/
import LogRotation.FileSystem.Basic

namespace LogRotation.FileSystem

/-- The greatest count of bytes in a name. -/
def maxName : Nat := 255

/-- The count of bytes from which on a path is too long. -/
def maxPath : Nat := 4096

/-- Refuses a path for its text alone. -/
def checkText (p : Path) : Except IoError Unit :=
  if p.text.toList.contains '\x00' then .error .nulInPath
  else if p.isEmpty then .error .notFound
  else if maxPath ≤ p.text.utf8ByteSize then .error .nameTooLong
  else .ok ()

/-- Refuses a name for its text alone. -/
def checkName (name : String) : Except IoError Unit :=
  if maxName < name.utf8ByteSize then .error .nameTooLong else .ok ()

/-- Where a path starts. -/
def origin (fs : FileSystem) (p : Path) : Place := if p.isAbsolute then [] else fs.here

/-- Fails unless a place is a directory. -/
def requireDirectory (fs : FileSystem) (p : Place) : Except IoError Unit :=
  if fs.node? p = some .directory then .ok () else .error .notADirectory

/-- Goes one step from a place: up, nowhere, or to a name that must be there. -/
def step (fs : FileSystem) (p : Place) (segment : String) : Except IoError Place := do
  fs.requireDirectory p
  if segment = "." then return p
  else if segment = ".." then return p.dropLast
  else
    checkName segment
    if (fs.node? (p ++ [segment])).isSome then return p ++ [segment] else throw .notFound

/-- Goes from a place along segments. -/
def walk (fs : FileSystem) (p : Place) (segments : List String) : Except IoError Place :=
  segments.foldlM fs.step p

/-- The place and the node that a path leads to. -/
def resolve (fs : FileSystem) (p : Path) : Except IoError (Place × Node) := do
  checkText p
  let place ← fs.walk (fs.origin p) p.segments
  if p.endsInSlash then fs.requireDirectory place
  match fs.node? place with
  | some node => return (place, node)
  | none => throw .notFound

/-- The end of a path: a name in a directory, or a step that names no place of its own. -/
inductive Entry
  | name (directory : Place) (name : String) (slash : Bool)
  | noName (directory : Place)
  deriving DecidableEq, Repr

/-- The directory in which a path ends. -/
def Entry.directory : Entry → Place
  | name directory _ _ => directory
  | noName directory => directory

/-- Follows a path up to its last segment. -/
def entry (fs : FileSystem) (p : Path) : Except IoError Entry := do
  checkText p
  match p.segments.getLast? with
  | none => return .noName (fs.origin p)
  | some last =>
    let parent ← fs.walk (fs.origin p) p.segments.dropLast
    fs.requireDirectory parent
    if last = "." ∨ last = ".." then return .noName parent
    else return .name parent last p.endsInSlash

end LogRotation.FileSystem
