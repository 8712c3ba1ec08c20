/-
  How the books of a log are kept up, whatever is done to its files.

  At any time the slots of a log fall into those that are sealed, the current one, and those that
  are still to come; new records go to the current one alone.

    * PAGE      how far a log has come: its slots, the open file, and the acknowledged bytes;
    * BOOKS     what a page says of the files that are there: above all, that the sealed slots and
                the current file hold the acknowledged bytes, one after the other;
    * MOVES     a step of the log, which leaves sealed slots alone: one statement for each thing
                that a writer does to its files;
    * SETTLING  a step of the background, which stays within one sealed slot and changes nothing of
                what that slot holds.
-/
import LogRotation.Proofs.Ledger
import Mathlib.Data.List.Nodup

namespace LogRotation

open FileSystem (SameAt Frame)

/-! ## Pages -/

/-- How far a log has come. -/
structure Page where
  /-- The slots that no record goes to any more. -/
  sealed : List Slot
  /-- The slots that the current file is to be moved to. -/
  targets : List Slot
  current : Slot
  /-- The slots that are to be current later. -/
  later : List Slot
  /-- The open file, if there is one. -/
  handle : Option Nat
  acked : Bytes
  deriving DecidableEq, Repr

namespace Page

variable {g g' : Page} {fs fs' : FileSystem} {s t : Slot} {x y : Path}

/-- All slots, in the order of their records. -/
def slots (g : Page) : List Slot := g.sealed ++ (g.targets ++ g.current :: g.later)

/-- All paths that a log owns. -/
def paths (g : Page) : List Path := g.slots.flatMap Slot.paths

/-- What a page says of the files that are there. -/
structure Books (g : Page) (fs : FileSystem) : Prop where
  apart : g.paths.Pairwise (Path.Apart fs.here)
  tidy : fs.Tidy g.paths
  vacant : ∀ s ∈ g.targets ++ g.later, ∀ x ∈ s.paths, fs.Vacant x
  unarchived : ∀ x ∈ g.current.archive.map Prod.snd, fs.Vacant x
  opened : ∀ id, g.handle = some id → fs.nodeAt g.current.file = some (.file id)
  balance : ∃ kept, Slot.gather fs g.sealed = some kept ∧
    kept ++ fs.bytesAt g.current.file = g.acked

/-- A step of the log: it keeps its slots, seals more of them or none, and leaves the sealed
alone. -/
structure Moves (g : Page) (fs : FileSystem) (g' : Page) (fs' : FileSystem) : Prop where
  books : g'.Books fs'
  slots : g'.slots = g.slots
  sealed : ∀ s ∈ g.sealed, s ∈ g'.sealed
  frame : Frame g.paths (fun x => ∀ s ∈ g.sealed, x ∉ s.paths) fs fs'

/-! ## Whose path it is -/

theorem mem_paths (hs : s ∈ g.slots) (hx : x ∈ s.paths) : x ∈ g.paths :=
  List.mem_flatMap.mpr ⟨s, hs, hx⟩

theorem mem_slots_of_sealed (hs : s ∈ g.sealed) : s ∈ g.slots := List.mem_append_left _ hs

theorem mem_slots_of_open (hs : s ∈ g.targets ++ g.current :: g.later) : s ∈ g.slots :=
  List.mem_append_right _ hs

theorem current_mem_open : g.current ∈ g.targets ++ g.current :: g.later :=
  List.mem_append_right _ List.mem_cons_self

theorem mem_open_of_coming (hs : s ∈ g.targets ++ g.later) :
    s ∈ g.targets ++ g.current :: g.later := by
  rcases List.mem_append.mp hs with hs | hs
  · exact List.mem_append_left _ hs
  · exact List.mem_append_right _ (List.mem_cons_of_mem _ hs)

theorem current_mem_paths : g.current.file ∈ g.paths :=
  mem_paths (mem_slots_of_open current_mem_open) g.current.file_mem_paths

/-- A path of a sealed slot is no open slot's. -/
theorem sealed_ne (hn : g.paths.Nodup) (hs : s ∈ g.sealed) (hx : x ∈ s.paths)
    (ht : t ∈ g.targets ++ g.current :: g.later) (hy : y ∈ t.paths) : x ≠ y := by
  rw [paths, slots, List.flatMap_append, List.nodup_append] at hn
  exact hn.2.2 x (List.mem_flatMap.mpr ⟨s, hs, hx⟩) y (List.mem_flatMap.mpr ⟨t, ht, hy⟩)

/-- A path of a slot to come is not the current slot's. -/
theorem coming_ne (hn : g.paths.Nodup) (ht : t ∈ g.targets ++ g.later) (hx : x ∈ t.paths)
    (hy : y ∈ g.current.paths) : x ≠ y := by
  have hsplit : g.slots = (g.sealed ++ g.targets) ++ g.current :: g.later := by simp [slots]
  have hmem : t ∈ (g.sealed ++ g.targets) ++ g.later := by
    rw [List.append_assoc]
    exact List.mem_append_right _ ht
  rintro rfl
  exact Slot.not_mem_of_split hn hsplit hmem hx hy

/-- The archive of a slot is not its file. -/
theorem archive_ne (hn : g.paths.Nodup) (hs : s ∈ g.slots) (hx : x ∈ s.archive.map Prod.snd) :
    x ≠ s.file := by
  rintro rfl
  have hslot : s.paths.Nodup := (List.nodup_flatMap.mp hn).1 s hs
  exact (List.nodup_cons.mp hslot).1 (Option.mem_toList.mpr hx)

/-- Slots that share a path are one. -/
theorem eq_of_shared (hn : g.paths.Nodup) (hs : s ∈ g.slots) (ht : t ∈ g.slots) (hx : x ∈ s.paths)
    (hx' : x ∈ t.paths) : s = t := by
  by_contra hne
  -- different slots have no path in common, in either order
  have : Std.Symm (Function.onFun List.Disjoint Slot.paths) := ⟨fun _ _ hd _ hx hy => hd hy hx⟩
  exact (List.nodup_flatMap.mp hn).2.forall hs ht hne hx hx'

theorem mem_paths_of_archive (hx : x ∈ s.archive.map Prod.snd) : x ∈ s.paths :=
  List.mem_cons_of_mem _ (Option.mem_toList.mpr hx)

theorem Books.nodup (h : g.Books fs) : g.paths.Nodup := h.apart.imp Path.Apart.ne

theorem Moves.refl (h : g.Books fs) : g.Moves fs g fs :=
  ⟨h, rfl, fun _ hs => hs, .refl _ _ fs⟩

/-! ## Settling -/

/-- The background stays within one sealed slot, and what that slot holds stays the same. -/
theorem Books.settle (h : g.Books fs) (hs : s ∈ g.sealed)
    (hframe : Frame g.paths (· ∈ s.paths) fs fs') (hcontent : s.content? fs' = s.content? fs) :
    g.Books fs' := by
  have hopen : ∀ t ∈ g.targets ++ g.current :: g.later, ∀ x ∈ t.paths, SameAt fs fs' x := by
    intro t ht x hx
    refine hframe.same x (mem_paths (mem_slots_of_open ht) hx) ?_
    intro hxs
    exact sealed_ne h.nodup hs hxs ht hx rfl
  have hcurrent := hopen _ current_mem_open
  have hsealed : ∀ t ∈ g.sealed, t.content? fs' = t.content? fs := by
    intro t ht
    by_cases hts : t = s
    · rw [hts, hcontent]
    · refine Slot.content?_congr fun x hx => ?_
      refine hframe.same x (mem_paths (mem_slots_of_sealed ht) hx) ?_
      intro hxs
      exact hts (eq_of_shared h.nodup (mem_slots_of_sealed ht) (mem_slots_of_sealed hs) hx hxs)
  refine ⟨?_, hframe.tidy h.tidy, ?_, ?_, ?_, ?_⟩
  · rw [hframe.here]
    exact h.apart
  · intro t ht x hx
    exact (hopen t (mem_open_of_coming ht) x hx).vacant (h.vacant t ht x hx)
  · intro x hx
    exact (hcurrent x (mem_paths_of_archive hx)).vacant (h.unarchived x hx)
  · intro id hid
    rw [(hcurrent _ g.current.file_mem_paths).node]
    exact h.opened id hid
  · obtain ⟨kept, hkept, hacked⟩ := h.balance
    refine ⟨kept, ?_, ?_⟩
    · rw [Slot.gather_congr hsealed, hkept]
    · rw [(hcurrent _ g.current.file_mem_paths).bytesAt, hacked]

/-! ## Moves -/

/-- A step that is not seen at sealed slots: what they hold is the same. -/
theorem gather_sealed
    (hframe : Frame g.paths (fun x => ∀ s ∈ g.sealed, x ∉ s.paths) fs fs') :
    Slot.gather fs' g.sealed = Slot.gather fs g.sealed := by
  refine Slot.gather_congr fun s hs => Slot.content?_congr fun x hx => ?_
  refine hframe.same x (mem_paths (mem_slots_of_sealed hs) hx) ?_
  intro hall
  exact hall s hs hx

/-- A step that is seen at paths of slots that are not sealed only. -/
theorem Books.frame_open (h : g.Books fs) {touched : Path → Prop}
    (hframe : Frame g.paths touched fs fs')
    (htouched : ∀ x, touched x → ∃ t ∈ g.targets ++ g.current :: g.later, x ∈ t.paths) :
    Frame g.paths (fun x => ∀ s ∈ g.sealed, x ∉ s.paths) fs fs' := by
  refine hframe.mono fun x _ hx s hs hxs => ?_
  obtain ⟨t, ht, hxt⟩ := htouched x hx
  exact sealed_ne h.nodup hs hxs ht hxt rfl

/-- The directories above an open slot are made where nothing is, so that no file is lost to
them. -/
theorem moves_makeDirectory (h : g.Books fs) (ht : t ∈ g.targets ++ g.current :: g.later)
    (hx : x ∈ t.paths) {d : Path} (hd : d ∈ x.above) (hmake : fs.makeDirectory d = .ok fs') :
    g.Moves fs g fs' := by
  obtain ⟨hfree, rfl⟩ := FileSystem.makeDirectory_ok hmake
  have hmade := FileSystem.frame_insert_directory g.paths (d.placeIn fs.here) hfree
  -- a sealed path at the place of the directory would be above the open path
  have hframe : Frame g.paths (fun y => ∀ s ∈ g.sealed, y ∉ s.paths) fs
      (fs.insert (d.placeIn fs.here) .directory) := by
    refine hmade.mono fun y hy hplace s hs hys => ?_
    have hyx : y ≠ x := sealed_ne h.nodup hs hys ht hx
    have hapart : y.Apart fs.here x := h.apart.forall hy (mem_paths (mem_slots_of_open ht) hx) hyx
    exact hapart.1 (.inr ⟨d, hd, hplace.symm⟩)
  refine ⟨⟨h.apart, hmade.tidy h.tidy, ?_, ?_, ?_, ?_⟩, rfl, fun _ hs => hs, hframe⟩
  · intro s hs y hy
    exact (h.vacant s hs y hy).insert_directory hfree
  · intro y hy
    exact (h.unarchived y hy).insert_directory hfree
  · -- the open file is not where the directory was made
    intro id hid
    have hcurrent := h.opened id hid
    have hplace : g.current.file.placeIn fs.here ≠ d.placeIn fs.here := by
      intro hplace
      rw [FileSystem.nodeAt, hplace] at hcurrent
      cases hfree.symm.trans hcurrent
    rw [FileSystem.nodeAt_insert_directory _ hfree, if_neg hplace, hcurrent]
  · obtain ⟨kept, hkept, hacked⟩ := h.balance
    refine ⟨kept, (gather_sealed hframe).trans hkept, ?_⟩
    rw [FileSystem.bytesAt_insert_directory hfree]
    exact hacked

/-- A step at the current file that adds bytes to it, or none. -/
theorem moves_current (h : g.Books fs) (hframe : Frame g.paths (· = g.current.file) fs fs')
    {id : Nat} (hnode : fs'.nodeAt g.current.file = some (.file id)) (bytes : Bytes)
    (hbytes : fs'.bytesAt g.current.file = fs.bytesAt g.current.file ++ bytes) :
    g.Moves fs { g with handle := some id, acked := g.acked ++ bytes } fs' := by
  have hopen := h.frame_open hframe fun x hx =>
    ⟨_, current_mem_open, by rw [hx]; exact g.current.file_mem_paths⟩
  refine ⟨⟨?_, hframe.tidy h.tidy, ?_, ?_, ?_, ?_⟩, rfl, fun _ hs => hs, hopen⟩
  · rw [hframe.here]
    exact h.apart
  · intro s hs x hx
    have hne := coming_ne h.nodup hs hx g.current.file_mem_paths
    exact (hframe.same x (mem_paths (mem_slots_of_open (mem_open_of_coming hs)) hx) hne).vacant
      (h.vacant s hs x hx)
  · intro x hx
    have hcurrent := mem_slots_of_open (g := g) current_mem_open
    exact (hframe.same x (mem_paths hcurrent (mem_paths_of_archive hx))
      (archive_ne h.nodup hcurrent hx)).vacant (h.unarchived x hx)
  · rintro other ⟨⟩
    exact hnode
  · obtain ⟨kept, hkept, hacked⟩ := h.balance
    refine ⟨kept, (gather_sealed hopen).trans hkept, ?_⟩
    show kept ++ fs'.bytesAt g.current.file = g.acked ++ bytes
    rw [hbytes, ← List.append_assoc, hacked]

/-- Opening the current file at its end. -/
theorem moves_open (h : g.Books fs) {handle : Handle}
    (hopen : fs.openWrite g.current.file true = .ok (handle, fs')) :
    ∃ id, handle = .file id ∧ g.Moves fs { g with handle := some id } fs' := by
  rcases FileSystem.openWrite_ok hopen with ⟨hfree, rfl, rfl⟩ | ⟨id, hfile, rfl, rfl⟩ | hfull
  · -- a new file, which is empty
    refine ⟨_, rfl, ?_⟩
    have hnode := FileSystem.nodeAt_addFile hfree
    have hframe := FileSystem.frame_addFile h.apart h.tidy current_mem_paths hfree
    have hmoves := moves_current h hframe hnode [] (by
      rw [FileSystem.bytesAt_of_file hnode, FileSystem.content_addFile,
        FileSystem.bytesAt_of_vacant (.inl hfree)]
      rfl)
    rwa [List.append_nil] at hmoves
  · -- the file that is there, with what it holds
    refine ⟨id, rfl, ?_⟩
    have hmoves := moves_current h (.refl _ _ _) hfile [] (List.append_nil _).symm
    rwa [List.append_nil] at hmoves
  · -- a log owns no device
    exact absurd hfull (h.tidy.noDevice _ current_mem_paths)

/-- Adding bytes to the open file. -/
theorem moves_append (h : g.Books fs) {id : Nat} (hid : g.handle = some id) (bytes : Bytes) :
    g.Moves fs { g with acked := g.acked ++ bytes }
      (fs.setContent id ((fs.content id).append bytes)) := by
  have hfile := h.opened id hid
  have hafter : (fs.setContent id ((fs.content id).append bytes)).nodeAt g.current.file =
      some (.file id) := hfile
  have hbytes : (fs.setContent id ((fs.content id).append bytes)).bytesAt g.current.file =
      fs.bytesAt g.current.file ++ bytes := by
    rw [FileSystem.bytesAt_of_file hafter, FileSystem.bytesAt_of_file hfile,
      FileSystem.content_setContent_self, Content.bytes_append]
  have hframe := FileSystem.frame_setContent h.tidy current_mem_paths hfile
    ((fs.content id).append bytes)
  have hmoves := moves_current h hframe hafter bytes hbytes
  rwa [← hid] at hmoves

/-! ## Turning a page -/

/-- What moves from a page where more is sealed moves from where less was. -/
theorem Moves.of_turned {g₁ : Page} (h : g₁.Moves fs g' fs') (hslots : g₁.slots = g.slots)
    (hsealed : ∀ s ∈ g.sealed, s ∈ g₁.sealed) : g.Moves fs g' fs' := by
  have hpaths : g₁.paths = g.paths := congrArg (List.flatMap Slot.paths) hslots
  refine ⟨h.books, h.slots.trans hslots, fun s hs => h.sealed s (hsealed s hs), ?_⟩
  rw [← hpaths]
  exact h.frame.mono fun x _ hx s hs => hx s (hsealed s hs)

/-- The current slot may be sealed, and slots to come with it, when the next of them becomes
current. -/
theorem Books.turn (h : g.Books fs) {skipped rest : List Slot} (htargets : g.targets = [])
    (hlater : g.later = skipped ++ t :: rest) :
    Books ⟨g.sealed ++ g.current :: skipped, [], t, rest, none, g.acked⟩ fs ∧
      Page.slots ⟨g.sealed ++ g.current :: skipped, [], t, rest, none, g.acked⟩ = g.slots := by
  have hslots : Page.slots ⟨g.sealed ++ g.current :: skipped, [], t, rest, none, g.acked⟩ =
      g.slots := by
    simp [slots, htargets, hlater]
  have hpaths : Page.paths ⟨g.sealed ++ g.current :: skipped, [], t, rest, none, g.acked⟩ =
      g.paths := congrArg (List.flatMap Slot.paths) hslots
  have hvacant : ∀ s ∈ skipped ++ t :: rest, ∀ x ∈ s.paths, fs.Vacant x := by
    intro s hs
    exact h.vacant s (List.mem_append_right _ (hlater ▸ hs))
  have ht : ∀ x ∈ t.paths, fs.Vacant x := hvacant t (List.mem_append_right _ List.mem_cons_self)
  refine ⟨⟨hpaths ▸ h.apart, hpaths ▸ h.tidy, ?_, ?_, nofun, ?_⟩, hslots⟩
  · intro s hs
    exact hvacant s (List.mem_append_right _ (List.mem_cons_of_mem _ hs))
  · intro x hx
    exact ht x (mem_paths_of_archive hx)
  · -- what the current file holds is now held by a sealed slot, and the new current file is empty
    obtain ⟨kept, hkept, hacked⟩ := h.balance
    have hskipped : Slot.gather fs skipped = some [] :=
      Slot.gather_of_vacant fun s hs => hvacant s (List.mem_append_left _ hs)
    refine ⟨g.acked, ?_, ?_⟩
    · show Slot.gather fs (g.sealed ++ g.current :: skipped) = some g.acked
      rw [Slot.gather_append, hkept, Slot.gather, Slot.content?_of_unarchived h.unarchived,
        hskipped]
      simp [hacked]
    · rw [FileSystem.bytesAt_of_vacant (ht _ t.file_mem_paths), List.append_nil]

/-- Opening the file of a slot to come, which is current from then on. -/
theorem moves_turn (h : g.Books fs) {skipped rest : List Slot} (htargets : g.targets = [])
    (hlater : g.later = skipped ++ t :: rest) {handle : Handle}
    (hopen : fs.openWrite t.file true = .ok (handle, fs')) :
    ∃ id, handle = .file id ∧
      g.Moves fs ⟨g.sealed ++ g.current :: skipped, [], t, rest, some id, g.acked⟩ fs' := by
  obtain ⟨hbooks, hslots⟩ := h.turn htargets hlater
  obtain ⟨id, hid, hmoves⟩ := moves_open hbooks hopen
  exact ⟨id, hid, hmoves.of_turned hslots fun s hs => List.mem_append_left _ hs⟩

/-- Slots that the current file was to be moved to may be passed over. -/
theorem Books.skip (h : g.Books fs) {skipped rest : List Slot}
    (htargets : g.targets = skipped ++ rest) :
    Books { g with sealed := g.sealed ++ skipped, targets := rest } fs ∧
      Page.slots { g with sealed := g.sealed ++ skipped, targets := rest } = g.slots := by
  have hslots : Page.slots { g with sealed := g.sealed ++ skipped, targets := rest } = g.slots := by
    simp [slots, htargets]
  have hpaths : Page.paths { g with sealed := g.sealed ++ skipped, targets := rest } = g.paths :=
    congrArg (List.flatMap Slot.paths) hslots
  refine ⟨⟨hpaths ▸ h.apart, hpaths ▸ h.tidy, ?_, h.unarchived, h.opened, ?_⟩, hslots⟩
  · intro s hs
    refine h.vacant s ?_
    rcases List.mem_append.mp hs with hs | hs
    · exact List.mem_append_left _ (htargets ▸ List.mem_append_right _ hs)
    · exact List.mem_append_right _ hs
  · obtain ⟨kept, hkept, hacked⟩ := h.balance
    have hskipped : Slot.gather fs skipped = some [] := by
      refine Slot.gather_of_vacant fun s hs => h.vacant s (List.mem_append_left _ ?_)
      rw [htargets]
      exact List.mem_append_left _ hs
    refine ⟨kept, ?_, hacked⟩
    show Slot.gather fs (g.sealed ++ skipped) = some kept
    rw [Slot.gather_append, hkept, hskipped]
    simp

/-- Moving the current file to the next target, which is sealed with it. -/
theorem moves_rename (h : g.Books fs) {rest : List Slot} (htargets : g.targets = t :: rest)
    (hrename : fs.rename g.current.file t.file = .ok fs') :
    g.Moves fs { g with sealed := g.sealed ++ [t], targets := rest, handle := none } fs' := by
  have hslots : Page.slots { g with sealed := g.sealed ++ [t], targets := rest, handle := none } =
      g.slots := by
    simp [slots, htargets]
  have hpaths : Page.paths { g with sealed := g.sealed ++ [t], targets := rest, handle := none } =
      g.paths := congrArg (List.flatMap Slot.paths) hslots
  have hn' := hpaths ▸ h.nodup
  have htarget : t ∈ g.targets ++ g.later := List.mem_append_left _ (htargets ▸ List.mem_cons_self)
  have htopen := mem_open_of_coming htarget
  have htpath : t.file ∈ g.paths := mem_paths (mem_slots_of_open htopen) t.file_mem_paths
  have hne : t.file ≠ g.current.file :=
    coming_ne h.nodup htarget t.file_mem_paths g.current.file_mem_paths
  obtain ⟨hframe, hgone, hthere, hcontent⟩ :=
    FileSystem.frame_rename h.apart h.tidy current_mem_paths htpath hne.symm hrename
  have hopen := h.frame_open hframe fun x hx => by
    rcases hx with rfl | rfl
    · exact ⟨_, current_mem_open, g.current.file_mem_paths⟩
    · exact ⟨t, htopen, t.file_mem_paths⟩
  have hcoming : ∀ s ∈ rest ++ g.later, s ∈ g.targets ++ g.later := by
    intro s hs
    rw [htargets]
    exact List.mem_cons_of_mem t hs
  -- what stays open is seen at other paths than those of the move
  have hstill : ∀ s ∈ rest ++ g.later, ∀ x ∈ s.paths, SameAt fs fs' x := by
    intro s hs x hx
    have hsopen := mem_open_of_coming (hcoming s hs)
    refine hframe.same x (mem_paths (mem_slots_of_open hsopen) hx) ?_
    rintro (hxc | hxt)
    · exact coming_ne h.nodup (hcoming s hs) hx g.current.file_mem_paths hxc
    · exact sealed_ne hn' (List.mem_append_right _ (List.mem_singleton_self t)) t.file_mem_paths
        (mem_open_of_coming hs) hx hxt.symm
  have harchive : ∀ x ∈ g.current.archive.map Prod.snd, SameAt fs fs' x := by
    intro x hx
    have hcurrent := mem_slots_of_open (g := g) current_mem_open
    refine hframe.same x (mem_paths hcurrent (mem_paths_of_archive hx)) ?_
    rintro (hxc | hxt)
    · exact archive_ne h.nodup hcurrent hx hxc
    · exact coming_ne h.nodup htarget t.file_mem_paths (mem_paths_of_archive hx) hxt.symm
  -- the target holds now what the current file held
  have hsealed : t.content? fs' = some (fs.bytesAt g.current.file) := by
    rw [Slot.content?_of_unarchived, FileSystem.bytesAt, FileSystem.bytesAt, hthere]
    · split
      · rw [hcontent]
      · rfl
    · intro x hx
      have hxt := archive_ne h.nodup (mem_slots_of_open htopen) hx
      have hxc := coming_ne h.nodup htarget (mem_paths_of_archive hx) g.current.file_mem_paths
      exact (hframe.same x (mem_paths (mem_slots_of_open htopen) (mem_paths_of_archive hx))
        (not_or.mpr ⟨hxc, hxt⟩)).vacant (h.vacant t htarget x (mem_paths_of_archive hx))
  refine ⟨⟨?_, hpaths ▸ hframe.tidy h.tidy, ?_, ?_, ?_, ?_⟩, hslots,
    fun s hs => List.mem_append_left _ hs, hopen⟩
  · rw [hframe.here, hpaths]
    exact h.apart
  · intro s hs x hx
    exact (hstill s hs x hx).vacant (h.vacant s (hcoming s hs) x hx)
  · intro x hx
    exact (harchive x hx).vacant (h.unarchived x hx)
  · intro handle hhandle
    cases hhandle
  · obtain ⟨kept, hkept, hacked⟩ := h.balance
    refine ⟨g.acked, ?_, ?_⟩
    · show Slot.gather fs' (g.sealed ++ [t]) = some g.acked
      rw [Slot.gather_append, (gather_sealed hopen).trans hkept, Slot.gather, hsealed]
      simp [Slot.gather, hacked]
    · show g.acked ++ fs'.bytesAt g.current.file = g.acked
      rw [FileSystem.bytesAt_of_vacant (.inl hgone), List.append_nil]

/-- Moving the current file to one of its targets; those before it are passed over. -/
theorem moves_rename_later (h : g.Books fs) {skipped rest : List Slot}
    (htargets : g.targets = skipped ++ t :: rest)
    (hrename : fs.rename g.current.file t.file = .ok fs') :
    g.Moves fs
      { g with sealed := g.sealed ++ skipped ++ [t], targets := rest, handle := none } fs' := by
  obtain ⟨hbooks, hslots⟩ := h.skip htargets
  exact (moves_rename hbooks rfl hrename).of_turned hslots fun s hs => List.mem_append_left _ hs

end Page

end LogRotation
