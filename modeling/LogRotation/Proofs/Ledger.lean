/-
  Where the records of a log are: the books that a log keeps.

  The records of one period are in one slot: in its file or, once that is gone, in its archive.
  What was acknowledged is what the slots of a log hold, one after the other.

    * VACANT   a path where nothing is that could be read back;
    * SLOT     a file and its archive, and what the two hold together;
    * GATHER   what slots hold, in their order.
-/
import LogRotation.Proofs.Frames
import LogRotation.Archive.Gzip
import LogRotation.Archive.Zip

namespace LogRotation

/-! ## Reading back -/

/-- The content of an archive of one content. -/
def ArchiveFormat.decode? : ArchiveFormat → Bytes → Option Bytes
  | gzip, bytes => Archive.Gzip.decode? bytes
  | zip, bytes =>
    match Archive.Zip.decode? bytes with
    | some [entry] => some entry.content
    | _ => none

namespace FileSystem

variable {fs fs' : FileSystem} {x : Path}

/-- The bytes of the file at a path; anything else has none. -/
def bytesAt (fs : FileSystem) (x : Path) : Bytes :=
  match fs.nodeAt x with
  | some (.file id) => (fs.content id).bytes
  | _ => []

/-- Holds where there is nothing, or a directory. -/
def Vacant (fs : FileSystem) (x : Path) : Prop :=
  fs.nodeAt x = none ∨ fs.nodeAt x = some .directory

instance (fs : FileSystem) (x : Path) : Decidable (fs.Vacant x) := by
  unfold Vacant; infer_instance

theorem bytesAt_of_file {id : Nat} (h : fs.nodeAt x = some (.file id)) :
    fs.bytesAt x = (fs.content id).bytes := by
  rw [bytesAt, h]

theorem bytesAt_of_vacant (h : fs.Vacant x) : fs.bytesAt x = [] := by
  rcases h with h | h <;> rw [bytesAt, h]

theorem Vacant.not_file {id : Nat} (h : fs.Vacant x) : fs.nodeAt x ≠ some (.file id) := by
  intro hfile
  rcases h with h | h <;> rw [h] at hfile <;> cases hfile

theorem SameAt.bytesAt (h : SameAt fs fs' x) : fs'.bytesAt x = fs.bytesAt x := by
  unfold FileSystem.bytesAt
  rw [h.node]
  split
  · rename_i id hid
    rw [h.content id hid]
  · rfl

theorem SameAt.vacant (h : SameAt fs fs' x) (hv : fs.Vacant x) : fs'.Vacant x := by
  unfold Vacant
  rw [h.node]
  exact hv

/-- A directory that is made at a free place leaves vacant what is vacant. -/
theorem Vacant.insert_directory {p : Place} (hv : fs.Vacant x) (h : fs.node? p = none) :
    (fs.insert p .directory).Vacant x := by
  unfold Vacant
  rw [nodeAt_insert_directory p h]
  split
  · exact .inr rfl
  · exact hv

/-- A directory that is made at a free place takes the place of no bytes. -/
theorem bytesAt_insert_directory {p : Place} (h : fs.node? p = none) :
    (fs.insert p .directory).bytesAt x = fs.bytesAt x := by
  by_cases hx : x.placeIn fs.here = p
  · have hfree : fs.nodeAt x = none := by
      rw [nodeAt, hx]
      exact h
    have hv : fs.Vacant x := .inl hfree
    rw [bytesAt_of_vacant hv, bytesAt_of_vacant (hv.insert_directory h)]
  · have hframe := frame_insert_directory [x] p h
    exact (hframe.same x (List.mem_singleton_self x) hx).bytesAt

end FileSystem

/-! ## Slots -/

/-- The file of a period, and the archive that it is to become. -/
structure Slot where
  file : Path
  archive : Option (ArchiveFormat × Path)
  deriving DecidableEq, Repr

namespace Slot

variable {fs fs' : FileSystem} {s : Slot}

/-- The paths that a slot owns. -/
def paths (s : Slot) : List Path := s.file :: (s.archive.map Prod.snd).toList

/-- What makes the archive of a slot. -/
def archiving (s : Slot) : List Action :=
  match s.archive with
  | none => []
  | some (format, target) => [.compress format s.file target true]

/-- What a slot holds: its file if its name is occupied, and otherwise its archive decompressed.  An
archive that does not read back is no content. -/
def content? (fs : FileSystem) (s : Slot) : Option Bytes :=
  match fs.nodeAt s.file with
  | some _ => some (fs.bytesAt s.file)
  | none =>
    match s.archive with
    | none => some []
    | some (format, x) =>
      match fs.nodeAt x with
      | some (.file id) => format.decode? (fs.content id).bytes
      | _ => some []

/-- What slots hold, one after the other. -/
def gather (fs : FileSystem) : List Slot → Option Bytes
  | [] => some []
  | s :: rest => do return (← s.content? fs) ++ (← gather fs rest)

theorem file_mem_paths (s : Slot) : s.file ∈ s.paths := List.mem_cons_self

theorem archive_mem_paths {format : ArchiveFormat} {x : Path} (h : s.archive = some (format, x)) :
    x ∈ s.paths := by
  rw [paths, h]
  exact List.mem_cons_of_mem _ (List.mem_singleton_self x)

/-- Where slots share no path, none of them has a path of the others. -/
theorem not_mem_of_split {slots before after : List Slot} {t : Slot} {x : Path}
    (hn : (slots.flatMap paths).Nodup) (hsplit : slots = before ++ s :: after)
    (ht : t ∈ before ++ after) (hx : x ∈ t.paths) : x ∉ s.paths := by
  rw [hsplit, List.flatMap_append, List.flatMap_cons, List.nodup_append, List.nodup_append] at hn
  obtain ⟨-, ⟨-, -, hafter⟩, hbefore⟩ := hn
  intro hxs
  rcases List.mem_append.mp ht with ht | ht
  · exact hbefore x (List.mem_flatMap.mpr ⟨t, ht, hx⟩) x (List.mem_append_left _ hxs) rfl
  · exact hafter x hxs x (List.mem_flatMap.mpr ⟨t, ht, hx⟩) rfl

theorem content?_of_occupied (h : fs.nodeAt s.file ≠ none) :
    s.content? fs = some (fs.bytesAt s.file) := by
  unfold content?
  split
  · rfl
  · exact absurd ‹_› h

/-- A slot without an archive holds what its file holds. -/
theorem content?_of_unarchived (h : ∀ x ∈ s.archive.map Prod.snd, fs.Vacant x) :
    s.content? fs = some (fs.bytesAt s.file) := by
  unfold content?
  split
  · rfl
  · rename_i hfile
    rw [FileSystem.bytesAt_of_vacant (.inl hfile)]
    split
    · rfl
    · rename_i format x harchive
      have hx : fs.Vacant x := h x (by rw [harchive]; rfl)
      split
      · rename_i id hid
        exact absurd hid hx.not_file
      · rfl

theorem content?_of_vacant (h : ∀ x ∈ s.paths, fs.Vacant x) : s.content? fs = some [] := by
  have harchive : ∀ x ∈ s.archive.map Prod.snd, fs.Vacant x := by
    intro x hx
    exact h x (List.mem_cons_of_mem _ (Option.mem_toList.mpr hx))
  rw [content?_of_unarchived harchive, FileSystem.bytesAt_of_vacant (h _ s.file_mem_paths)]

theorem content?_congr (h : ∀ x ∈ s.paths, FileSystem.SameAt fs fs' x) :
    s.content? fs' = s.content? fs := by
  have hfile := h _ s.file_mem_paths
  unfold content?
  rw [hfile.node, hfile.bytesAt]
  split
  · rfl
  · split
    · rfl
    · rename_i format x harchive
      have hx := h x (archive_mem_paths harchive)
      rw [hx.node]
      split
      · rename_i id hid
        rw [hx.content id hid]
      · rfl

theorem gather_congr {slots : List Slot} (h : ∀ s ∈ slots, s.content? fs' = s.content? fs) :
    gather fs' slots = gather fs slots := by
  induction slots with
  | nil => rfl
  | cons s rest ih =>
    have hrest := ih fun t ht => h t (List.mem_cons_of_mem _ ht)
    rw [gather, gather, h s List.mem_cons_self, hrest]

theorem gather_append (before after : List Slot) :
    gather fs (before ++ after) = do return (← gather fs before) ++ (← gather fs after) := by
  induction before with
  | nil => simp [gather]
  | cons s rest ih =>
    simp only [List.cons_append, gather, ih]
    cases s.content? fs <;> cases gather fs rest <;> cases gather fs after <;> simp

theorem gather_of_vacant {slots : List Slot} (h : ∀ s ∈ slots, ∀ x ∈ s.paths, fs.Vacant x) :
    gather fs slots = some [] := by
  induction slots with
  | nil => rfl
  | cons s rest ih =>
    have hrest := ih fun t ht => h t (List.mem_cons_of_mem _ ht)
    rw [gather, content?_of_vacant (h s List.mem_cons_self), hrest]
    rfl

end Slot

end LogRotation
