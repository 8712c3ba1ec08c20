/-
  File systems as whole trees: building one from a list of files, and listing what it holds.

  `FileSystem.blank` is the start: a working directory with nothing in it, and a device that is
  always full.  `put`, `link` and `discard` are what a user does to the tree beside the program.
-/
import LogRotation.FileSystem.Operations

namespace LogRotation.FileSystem

/-- An empty working directory, and `/dev/full`. -/
def blank : FileSystem :=
  { nodes := [(["work"], .directory), (["dev"], .directory), (["dev", "full"], .full)]
    contents := [], fresh := 0, here := ["work"] }

/-- Makes the directories from a place down to a path's end. -/
def putDirectories (fs : FileSystem) (p : Place) : List String → FileSystem × Place
  | [] => (fs, p)
  | s :: rest =>
    match fs.step p s with
    | .ok next => putDirectories fs next rest
    | .error _ => putDirectories (fs.insert (p ++ [s]) .directory) (p ++ [s]) rest

/-- Puts a file or, without bytes, a directory at a path, and the directories above it. -/
def put (fs : FileSystem) (p : Path) (bytes : Option Bytes) : FileSystem :=
  match bytes with
  | none => (fs.putDirectories (fs.origin p) p.segments).1
  | some bytes =>
    let fs := (fs.putDirectories (fs.origin p) p.segments.dropLast).1
    match fs.openWrite p false with
    | .ok (.file id, fs) => fs.setContent id (.ofBytes bytes)
    | _ => fs

/-- Gives the file at a path one more name, at a path where nothing is. -/
def link (fs : FileSystem) (p name : Path) : FileSystem :=
  match fs.resolve p, fs.entry name with
  | .ok (_, .file id), .ok (.name parent last false) =>
    if (fs.node? (parent ++ [last])).isSome then fs else fs.insert (parent ++ [last]) (.file id)
  | _, _ => fs

/-- Takes away what is at a path, with all below it. -/
def discard (fs : FileSystem) (p : Path) : FileSystem :=
  match fs.resolve p with
  | .ok (place, _) => fs.erase place
  | .error _ => fs

/-- Builds a tree in the working directory. -/
def ofFiles (files : List (Path × Option Bytes)) : FileSystem :=
  files.foldl (fun fs (p, bytes) => fs.put p bytes) blank

/-- Where the working directory's places are, by their paths; a directory has no bytes. -/
def listing (fs : FileSystem) : List (Path × Option Bytes) :=
  let entries := fs.nodes.filterMap fun (p, n) =>
    if fs.here.isPrefixOf p && p != fs.here then
      let path : Path := ⟨String.intercalate "/" (p.drop fs.here.length)⟩
      match n with
      | .directory => some (path, none)
      | .file id => some (path, some (fs.content id).bytes)
      | .full => none
    else none
  entries.mergeSort fun a b => decide (a.1.text ≤ b.1.text)

example : (ofFiles [(⟨"a/b"⟩, some [1, 2]), (⟨"c"⟩, none)]).listing =
    [(⟨"a"⟩, none), (⟨"a/b"⟩, some [1, 2]), (⟨"c"⟩, none)] := by cbv

end LogRotation.FileSystem
