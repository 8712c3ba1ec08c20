/-
  A file system: a tree of names, and the contents of its files.

    * PLACE      the names from the root down; what is there is a node;
    * NODE       a directory, a file, or a device that takes no byte;
    * CONTENT    belongs to a file and not to its place: a file that is open keeps its content when
                 its place is renamed, removed or taken by another file.

  The root is a directory and is not listed.  Nothing here reads a path: see `Resolve` for that.
-/
import LogRotation.Bytes
import LogRotation.Error

namespace LogRotation

/-- The names from the root down to a place. -/
abbrev Place := List String

/-- What may be at a place. -/
inductive Node
  | directory
  | file (id : Nat)
  /-- A device that is always full: every byte written to it is one too many. -/
  | full
  deriving DecidableEq, Repr

/-- A tree of names, the contents of its files, and the directory where relative paths start. -/
structure FileSystem where
  nodes : List (Place × Node)
  contents : List (Nat × Content)
  /-- The least number that no file has had. -/
  fresh : Nat
  here : Place
  deriving DecidableEq, Repr

namespace FileSystem

/-! ## Nodes -/

/-- What is at a place. -/
def node? (fs : FileSystem) (p : Place) : Option Node :=
  if p = [] then some .directory else fs.nodes.lookup p

/-- Puts a node at a place, instead of what was there. -/
def insert (fs : FileSystem) (p : Place) (n : Node) : FileSystem :=
  { fs with nodes := (p, n) :: fs.nodes.filter (·.1 != p) }

/-- Takes a place away, with all places below it. -/
def erase (fs : FileSystem) (p : Place) : FileSystem :=
  { fs with nodes := fs.nodes.filter fun x => !p.isPrefixOf x.1 }

/-- Holds of a place that has no places below it. -/
def isBare (fs : FileSystem) (p : Place) : Bool :=
  fs.nodes.all fun x => !(p.isPrefixOf x.1 && x.1 != p)

/-- Where a place is after the tree at `source` has become the tree at `target`. -/
def relocated (source target p : Place) : Place :=
  if source.isPrefixOf p then target ++ p.drop source.length else p

/-- Moves a tree, over what was at its target. -/
def move (fs : FileSystem) (source target : Place) : FileSystem :=
  { fs with nodes :=
      (fs.nodes.filter fun x => !target.isPrefixOf x.1).map fun x =>
        (relocated source target x.1, x.2) }

/-! ## Contents -/

/-- What a file holds. -/
def content (fs : FileSystem) (id : Nat) : Content := (fs.contents.lookup id).getD .empty

/-- Sets what a file holds. -/
def setContent (fs : FileSystem) (id : Nat) (c : Content) : FileSystem :=
  { fs with contents := (id, c) :: fs.contents.filter (·.1 != id) }

/-- Puts a new and empty file at a place. -/
def addFile (fs : FileSystem) (p : Place) : Nat × FileSystem :=
  (fs.fresh, { (fs.insert p (.file fs.fresh)).setContent fs.fresh .empty with fresh := fs.fresh + 1 })

/-! ## Laws -/

@[simp] theorem node?_root (fs : FileSystem) : fs.node? [] = some .directory := rfl

theorem lookup_filter_of_ne {α β : Type} [BEq α] [LawfulBEq α] (l : List (α × β)) {a b : α}
    (h : a ≠ b) :
    (l.filter (·.1 != b)).lookup a = l.lookup a := by
  induction l with
  | nil => rfl
  | cons x rest ih =>
    obtain ⟨k, v⟩ := x
    by_cases hk : k = b
    · subst hk
      have : (a == k) = false := by simpa using h
      simp [List.lookup_cons, this, ih]
    · have : (k != b) = true := by simpa using hk
      simp only [List.filter, this, List.lookup_cons]
      split <;> simp_all

theorem node?_insert_self (fs : FileSystem) {p : Place} (n : Node) (h : p ≠ []) :
    (fs.insert p n).node? p = some n := by
  simp [node?, insert, h]

theorem node?_insert_of_ne (fs : FileSystem) {p q : Place} (n : Node) (h : q ≠ p) :
    (fs.insert p n).node? q = fs.node? q := by
  have : (q == p) = false := by simpa using h
  simp [node?, insert, List.lookup_cons, this, lookup_filter_of_ne fs.nodes h]

@[simp] theorem content_setContent_self (fs : FileSystem) (id : Nat) (c : Content) :
    (fs.setContent id c).content id = c := by
  simp [content, setContent]

theorem content_setContent_of_ne (fs : FileSystem) {id other : Nat} (c : Content) (h : other ≠ id) :
    (fs.setContent id c).content other = fs.content other := by
  have : (other == id) = false := by simpa using h
  simp [content, setContent, List.lookup_cons, this, lookup_filter_of_ne fs.contents h]

end FileSystem

end LogRotation
