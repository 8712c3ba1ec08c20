/-
  What can be done to a file system, one operation at a time.

  An operation gives a new file system or a failure, so that a failure changes nothing: this is in
  the types.  The one exception is writing, where a device may take a part of the bytes; `Written`
  says how many it took.
-/
import LogRotation.FileSystem.Resolve

namespace LogRotation

/-- What an open file is used by. -/
inductive Handle
  | file (id : Nat)
  | directory
  | full
  deriving DecidableEq, Repr

/-- How far a write came. -/
structure Written where
  count : Nat
  failure : Option IoError
  deriving DecidableEq, Repr

namespace FileSystem

/-! ## Questions -/

/-- Holds when a path leads somewhere. -/
def present (fs : FileSystem) (p : Path) : Bool :=
  match fs.resolve p with
  | .ok _ => true
  | .error _ => false

/-- Holds when a path leads to a directory. -/
def isDirectory (fs : FileSystem) (p : Path) : Bool :=
  match fs.resolve p with
  | .ok (_, .directory) => true
  | _ => false

/-! ## Places -/

/-- Makes one directory, whose place must be free. -/
def makeDirectory (fs : FileSystem) (p : Path) : Except IoError FileSystem := do
  match ← fs.entry p with
  | .noName _ => throw .alreadyExists
  | .name parent name _ =>
    checkName name
    match fs.node? (parent ++ [name]) with
    | some _ => throw .alreadyExists
    | none => return fs.insert (parent ++ [name]) .directory

/-- Names the device that a directory is on. -/
def deviceOf (p : Place) : Option String := p.head?.filter (· == "dev")

/-- Whether a node may be moved to where another one is. -/
def replaceable (fs : FileSystem) (node : Node) (target : Place) : Except IoError Unit :=
  match node, fs.node? target with
  | _, none => .ok ()
  | .directory, some .directory => if fs.isBare target then .ok () else .error .notEmpty
  | .directory, some _ => .error .notADirectory
  | _, some .directory => .error .isADirectory
  | _, some _ => .ok ()

/-- Whether a node is a file that has a name at a place too. -/
def hasNameAt (fs : FileSystem) (node : Node) (p : Place) : Bool :=
  match node, fs.node? p with
  | .file id, some (.file other) => id == other
  | _, _ => false

/-- Moves what is at one path to another path, over what is there.  Two names of one file are left as
they are. -/
def rename (fs : FileSystem) (source target : Path) : Except IoError FileSystem := do
  let s ← fs.entry source
  let t ← fs.entry target
  if deviceOf s.directory ≠ deviceOf t.directory then throw .crossesDevices
  match s, t with
  | .name sourceParent sourceName sourceSlash, .name targetParent targetName targetSlash =>
    checkName sourceName
    let s := sourceParent ++ [sourceName]
    let t := targetParent ++ [targetName]
    match fs.node? s with
    | none => throw .notFound
    | some node =>
      checkName targetName
      if node ≠ .directory ∧ (sourceSlash || targetSlash) then throw .notADirectory
      if s.isPrefixOf targetParent then throw .invalidArgument
      if t.isPrefixOf sourceParent then throw .notEmpty
      if s = t ∨ fs.hasNameAt node t then return fs
      fs.replaceable node t
      return fs.move s t
  | _, _ => throw .busy

/-- Takes away the file at a path. -/
def remove (fs : FileSystem) (p : Path) : Except IoError FileSystem := do
  match ← fs.entry p with
  | .noName _ => throw .isADirectory
  | .name parent name slash =>
    checkName name
    match fs.node? (parent ++ [name]) with
    | none => throw .notFound
    | some .directory => throw .isADirectory
    | some _ => if slash then throw .notADirectory else return fs.erase (parent ++ [name])

/-! ## Contents -/

/-- Opens what is at a path for reading; a directory can be opened but not read. -/
def openRead (fs : FileSystem) (p : Path) : Except IoError Handle := do
  match ← fs.resolve p with
  | (_, .directory) => return .directory
  | (_, .file id) => return .file id
  | (_, .full) => return .full

/-- Opens the file at a path for writing; a missing one is made.  A new writer either keeps what the
file holds and goes on at its end, or starts from nothing. -/
def openWrite (fs : FileSystem) (p : Path) (keep : Bool) : Except IoError (Handle × FileSystem) := do
  match ← fs.entry p with
  | .noName _ => throw .isADirectory
  | .name parent name slash =>
    if slash then throw .isADirectory
    checkName name
    match fs.node? (parent ++ [name]) with
    | none =>
      let (id, fs) := fs.addFile (parent ++ [name])
      return (.file id, fs)
    | some .directory => throw .isADirectory
    | some .full => return (.full, fs)
    | some (.file id) => return (.file id, if keep then fs else fs.setContent id .empty)

/-- Reads all that an open file holds. -/
def read (fs : FileSystem) (h : Handle) : Except IoError Bytes :=
  match h with
  | .file id => .ok (fs.content id).bytes
  | .directory => .error .isADirectory
  | .full => .ok []

/-- Adds bytes to an open file. -/
def write (fs : FileSystem) (h : Handle) (bytes : Bytes) : Written × FileSystem :=
  match h with
  | .file id => (⟨bytes.length, none⟩, fs.setContent id ((fs.content id).append bytes))
  | .directory => (⟨0, some .isADirectory⟩, fs)
  | .full => (if bytes.isEmpty then ⟨0, none⟩ else ⟨0, some .storageFull⟩, fs)

end FileSystem

end LogRotation
