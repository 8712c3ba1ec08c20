/-
  The chronicle of a log that nothing befalls: what each of its periods left behind.

  A log leaves one slot after the other.  As long as nothing fails, all is known about each: what it was
  left with, and how far the worker is with it.  Only the current file still grows, and the slots to
  come are as they were found.

    * CHRONICLE   the deposits of the periods that are over, the current slot, and the slots to come;
    * TELLS       what a chronicle says of the files that are there;
    * MOVES       a step of the log, which leaves alone what the worker may be busy with: one statement
                  for each thing that a writer does to its files.
-/
import LogRotation.Proofs.Deposits
import LogRotation.Proofs.Pages

namespace LogRotation

open FileSystem (Change SameAt)

/-! ## Chronicles -/

/-- What was there when a log was opened, and paths that are not the log's. -/
structure Scene where
  start : FileSystem
  others : List Path

/-- How far a log has come. -/
structure Chronicle where
  /-- The deposits that the worker was waited for with. -/
  settled : List Deposit
  /-- The deposits that were handed to the worker. -/
  handed : List Deposit
  /-- The deposits that the worker was not told of. -/
  whole : List Deposit
  /-- The slots that the current file is to be moved to. -/
  targets : List Slot
  current : Slot
  /-- The slots that are to be current later. -/
  later : List Slot
  /-- The current file, if it was opened. -/
  file : Option Nat
  content : Bytes
  deriving DecidableEq, Repr

namespace Chronicle

variable {b : Scene} {g g' : Chronicle} {fs fs' : FileSystem} {t : Slot} {d : Deposit} {x : Path}
variable {id : Nat} {handle : Handle} {rest : List Slot}

/-- All deposits, in the order of their records. -/
def deposits (g : Chronicle) : List Deposit := g.settled ++ (g.handed ++ g.whole)

/-- The slots that are not left yet. -/
def coming (g : Chronicle) : List Slot := g.targets ++ g.current :: g.later

/-- All slots, in the order of their records. -/
def slots (g : Chronicle) : List Slot := g.deposits.map Deposit.slot ++ g.coming

/-- All paths that a log owns. -/
def paths (g : Chronicle) : List Path := g.slots.flatMap Slot.paths

/-- What is said of all but the current slot and those to come. -/
structure Backs (b : Scene) (g : Chronicle) (fs : FileSystem) : Prop where
  apart : (g.paths ++ b.others).Pairwise (Path.Apart fs.here)
  tidy : fs.Tidy (g.paths ++ b.others)
  rooted : fs.Rooted
  settled : ∀ d ∈ g.settled, d.slot.Settled d.content fs
  whole : ∀ d ∈ g.whole, d.Whole fs
  others : ∀ x ∈ b.others, SameAt b.start fs x

/-- What a chronicle says of the files that are there. -/
structure Tells (b : Scene) (g : Chronicle) (fs : FileSystem) : Prop extends Backs b g fs where
  there : ∀ id, g.file = some id →
    fs.Named g.current.file ∧ fs.nodeAt g.current.file = some (.file id)
  bytes : fs.bytesAt g.current.file = g.content
  later : ∀ s ∈ g.later, fs.bytesAt s.file = b.start.bytesAt s.file

/-- A step of the log: it keeps its slots, and leaves the deposits alone. -/
structure Moves (b : Scene) (g : Chronicle) (fs : FileSystem) (g' : Chronicle)
    (fs' : FileSystem) : Prop where
  tells : g'.Tells b fs'
  slots : g'.slots = g.slots
  handed : g'.handed = g.handed
  change : Change (g.paths ++ b.others) (fun x => ∃ s ∈ g.coming, x ∈ s.paths) fs fs'

/-! ## Whose path it is -/

theorem mem_paths {s : Slot} (hs : s ∈ g.slots) (hx : x ∈ s.paths) : x ∈ g.paths ++ b.others :=
  List.mem_append_left _ (List.mem_flatMap.mpr ⟨s, hs, hx⟩)

theorem mem_slots_of_coming (ht : t ∈ g.coming) : t ∈ g.slots := List.mem_append_right _ ht

theorem mem_slots_of_deposit (hd : d ∈ g.deposits) : d.slot ∈ g.slots :=
  List.mem_append_left _ (List.mem_map_of_mem hd)

theorem current_mem_coming : g.current ∈ g.coming := List.mem_append_right _ List.mem_cons_self

theorem whole_mem_deposits (hd : d ∈ g.whole) : d ∈ g.deposits :=
  List.mem_append_right _ (List.mem_append_right _ hd)

theorem settled_mem_deposits (hd : d ∈ g.settled) : d ∈ g.deposits := List.mem_append_left _ hd

theorem later_mem_coming (ht : t ∈ g.later) : t ∈ g.coming :=
  List.mem_append_right _ (List.mem_cons_of_mem _ ht)

theorem current_mem_paths : g.current.file ∈ g.paths ++ b.others :=
  mem_paths (mem_slots_of_coming current_mem_coming) g.current.file_mem_paths

theorem Backs.nodup (h : g.Backs b fs) : (g.paths ++ b.others).Nodup := h.apart.imp Path.Apart.ne

/-- No path of a deposit is one of a slot that is to come. -/
theorem deposit_not_coming (hn : (g.paths ++ b.others).Nodup) (hd : d ∈ g.deposits)
    (hx : x ∈ d.slot.paths) : ¬ ∃ s ∈ g.coming, x ∈ s.paths := by
  rintro ⟨s, hs, hxs⟩
  have hpaths := (List.nodup_append.mp hn).1
  rw [paths, slots, List.flatMap_append, List.nodup_append] at hpaths
  have hdeposit : x ∈ (g.deposits.map Deposit.slot).flatMap Slot.paths :=
    List.mem_flatMap.mpr ⟨_, List.mem_map_of_mem hd, hx⟩
  exact hpaths.2.2 x hdeposit x (List.mem_flatMap.mpr ⟨s, hs, hxs⟩) rfl

/-- No path of a log is another one's. -/
theorem other_not_coming (hn : (g.paths ++ b.others).Nodup) (hx : x ∈ b.others) :
    ¬ ∃ s ∈ g.coming, x ∈ s.paths := by
  rintro ⟨s, hs, hxs⟩
  have hmem : x ∈ g.paths := List.mem_flatMap.mpr ⟨s, mem_slots_of_coming hs, hxs⟩
  exact (List.nodup_append.mp hn).2.2 x hmem x hx rfl

/-- The current file is at no other slot that is to come. -/
theorem ne_current (hn : (g.paths ++ b.others).Nodup) (ht : t ∈ g.targets ++ g.later)
    (hx : x ∈ t.paths) : x ≠ g.current.file := by
  have hsplit : g.slots = (g.deposits.map Deposit.slot ++ g.targets) ++ g.current :: g.later := by
    simp [slots, coming]
  have hmem : t ∈ (g.deposits.map Deposit.slot ++ g.targets) ++ g.later := by
    rw [List.append_assoc]
    exact List.mem_append_right _ ht
  rintro rfl
  exact Slot.not_mem_of_split (List.nodup_append.mp hn).1 hsplit hmem hx g.current.file_mem_paths

/-- The archive of a slot is not its file. -/
theorem archive_ne (hn : (g.paths ++ b.others).Nodup) {s : Slot} (hs : s ∈ g.slots)
    (hx : x ∈ s.archive.map Prod.snd) : x ≠ s.file := by
  rintro rfl
  have hslot : s.paths.Nodup := (List.nodup_flatMap.mp (List.nodup_append.mp hn).1).1 s hs
  exact (List.nodup_cons.mp hslot).1 (Option.mem_toList.mpr hx)

/-! ## Moves -/

/-- A step at slots to come is not seen elsewhere. -/
theorem Backs.change (h : g.Backs b fs)
    (hchange : Change (g.paths ++ b.others) (fun x => ∃ s ∈ g.coming, x ∈ s.paths) fs fs') :
    g.Backs b fs' := by
  refine ⟨?_, hchange.tidy h.tidy, hchange.rooted h.rooted, ?_, ?_, ?_⟩
  · rw [hchange.here]
    exact h.apart
  · intro d hd
    have hdeposit := settled_mem_deposits hd
    refine (h.settled d hd).congr fun x hx => ?_
    exact hchange.same x (mem_paths (mem_slots_of_deposit hdeposit) hx)
      (deposit_not_coming h.nodup hdeposit hx)
  · intro d hd
    have hdeposit := whole_mem_deposits hd
    have hfile := d.slot.file_mem_paths
    exact (h.whole d hd).change hchange h.rooted (mem_paths (mem_slots_of_deposit hdeposit) hfile)
      (deposit_not_coming h.nodup hdeposit hfile)
  · intro x hx
    exact (h.others x hx).trans
      (hchange.same x (List.mem_append_right _ hx) (other_not_coming h.nodup hx))

theorem Moves.refl (h : g.Tells b fs) : g.Moves b fs g fs := ⟨h, rfl, rfl, .refl _ _ fs⟩

/-- A directory above a slot to come is made. -/
theorem moves_makeDirectory (h : g.Tells b fs) (ht : t ∈ g.coming) (hx : x ∈ t.paths) {d : Path}
    (hd : d ∈ x.above) (hmake : fs.makeDirectory d = .ok fs') : g.Moves b fs g fs' := by
  have hxmem := mem_paths (b := b) (mem_slots_of_coming ht) hx
  -- of the log's paths only this one may be where a directory above it is made
  have hchange : Change (g.paths ++ b.others) (fun y => ∃ s ∈ g.coming, y ∈ s.paths) fs fs' := by
    refine (FileSystem.change_makeDirectory _ hmake).mono fun y hy hplace => ?_
    by_cases hyx : y = x
    · exact ⟨t, ht, hyx ▸ hx⟩
    · exact absurd (.inr ⟨d, hd, hplace.symm⟩) (h.apart.forall hy hxmem hyx).1
  obtain ⟨hfree, rfl⟩ := FileSystem.makeDirectory_ok hmake
  refine ⟨⟨h.toBacks.change hchange, ?_, ?_, ?_⟩, rfl, rfl, hchange⟩
  · intro id hid
    obtain ⟨hnamed, hnode⟩ := h.there id hid
    have hplace : g.current.file.placeIn fs.here ≠ d.placeIn fs.here := by
      intro hplace
      rw [FileSystem.nodeAt, hplace] at hnode
      cases hfree.symm.trans hnode
    refine ⟨hchange.named h.rooted hnamed, ?_⟩
    rw [FileSystem.nodeAt_insert_directory _ hfree, if_neg hplace, hnode]
  · rw [FileSystem.bytesAt_insert_directory hfree]
    exact h.bytes
  · intro s hs
    rw [FileSystem.bytesAt_insert_directory hfree]
    exact h.later s hs

/-- A step at the current file. -/
theorem moves_current (h : g.Tells b fs)
    (hchange : Change (g.paths ++ b.others) (· = g.current.file) fs fs')
    (hnamed : fs.Named g.current.file) (hnode : fs'.nodeAt g.current.file = some (.file id)) :
    g.Moves b fs { g with file := some id, content := fs'.bytesAt g.current.file } fs' := by
  have hcoming : Change (g.paths ++ b.others) (fun y => ∃ s ∈ g.coming, y ∈ s.paths) fs fs' :=
    hchange.mono fun y _ hy => ⟨_, current_mem_coming, hy ▸ g.current.file_mem_paths⟩
  have hbacks := h.toBacks.change hcoming
  refine ⟨⟨⟨hbacks.apart, hbacks.tidy, hbacks.rooted, hbacks.settled, hbacks.whole, hbacks.others⟩,
    ?_, rfl, ?_⟩, rfl, rfl, hcoming⟩
  · rintro other ⟨⟩
    exact ⟨hchange.named h.rooted hnamed, hnode⟩
  · intro s hs
    have hslots := mem_slots_of_coming (later_mem_coming hs)
    have hsame := hchange.same s.file (mem_paths hslots s.file_mem_paths)
      (ne_current h.nodup (List.mem_append_right _ hs) s.file_mem_paths)
    rw [hsame.bytesAt, h.later s hs]

/-- The current file is opened at its end. -/
theorem moves_open (h : g.Tells b fs)
    (hopen : fs.openWrite g.current.file true = .ok (handle, fs')) :
    ∃ id, handle = .file id ∧ g.Moves b fs { g with file := some id } fs' := by
  obtain ⟨hchange, hnamed, id, rfl, hnode, hbytes⟩ :=
    FileSystem.change_openWrite h.apart h.tidy current_mem_paths hopen
  have hmoves := moves_current h hchange hnamed hnode
  have hsame : fs'.bytesAt g.current.file = g.content := by
    rw [hbytes, if_pos rfl, h.bytes]
  rw [hsame] at hmoves
  exact ⟨id, rfl, hmoves⟩

/-- Bytes are added to the current file. -/
theorem moves_append (h : g.Tells b fs) (hid : g.file = some id) (bytes : Bytes) :
    g.Moves b fs { g with content := g.content ++ bytes }
      (fs.setContent id ((fs.content id).append bytes)) := by
  obtain ⟨hnamed, hnode⟩ := h.there id hid
  obtain ⟨hchange, hbytes⟩ := FileSystem.change_append h.tidy current_mem_paths hnode bytes
  have hmoves := moves_current h hchange hnamed hnode
  rw [hbytes, h.bytes, ← hid] at hmoves
  exact hmoves

/-! ## Leaving a slot -/

/-- One more deposit is whole, and nothing else is said. -/
theorem Backs.leave (h : g.Backs b fs) (hslots : g'.slots = g.slots) (hsettled : g'.settled = g.settled)
    (hwhole : g'.whole = g.whole ++ [d]) (hd : d.Whole fs) : g'.Backs b fs := by
  have hpaths : g'.paths = g.paths := congrArg (List.flatMap Slot.paths) hslots
  refine ⟨hpaths ▸ h.apart, hpaths ▸ h.tidy, h.rooted, hsettled ▸ h.settled, ?_, h.others⟩
  intro e he
  rw [hwhole] at he
  rcases List.mem_append.mp he with he | he
  · exact h.whole e he
  · rw [List.mem_singleton.mp he]
    exact hd

/-- The file of the next slot is opened, and the current one is left with what it holds. -/
theorem moves_turn (h : g.Tells b fs) (hid : g.file = some id) (htargets : g.targets = [])
    (hlater : g.later = t :: rest) (hopen : fs.openWrite t.file true = .ok (handle, fs')) :
    ∃ new, handle = .file new ∧ g.Moves b fs
      { g with
        whole := g.whole ++ [⟨g.current, g.content⟩]
        current := t, later := rest, file := some new, content := b.start.bytesAt t.file } fs' := by
  have ht : t ∈ g.later := by
    rw [hlater]
    exact List.mem_cons_self
  have htfile := t.file_mem_paths
  have hcurrent := current_mem_paths (b := b) (g := g)
  obtain ⟨hchange, hnamed, new, rfl, hnode, hbytes⟩ := FileSystem.change_openWrite h.apart h.tidy
    (mem_paths (mem_slots_of_coming (later_mem_coming ht)) htfile) hopen
  have hcoming : Change (g.paths ++ b.others) (fun y => ∃ s ∈ g.coming, y ∈ s.paths) fs fs' :=
    hchange.mono fun y _ hy => ⟨t, later_mem_coming ht, hy ▸ htfile⟩
  -- the current file is left alone
  obtain ⟨hcurrentNamed, hcurrentNode⟩ := h.there id hid
  have hleft : Deposit.Whole ⟨g.current, g.content⟩ fs' := by
    have hbefore : Deposit.Whole ⟨g.current, g.content⟩ fs := ⟨hcurrentNamed, ⟨id, hcurrentNode⟩, h.bytes⟩
    have hne := ne_current h.nodup (List.mem_append_right _ ht) htfile
    exact hbefore.change hchange h.rooted hcurrent hne.symm
  refine ⟨new, rfl, ⟨(h.toBacks.change hcoming).leave ?_ rfl rfl hleft, ?_, ?_, ?_⟩, ?_, rfl, hcoming⟩
  · simp [slots, deposits, coming, htargets, hlater]
  · rintro other ⟨⟩
    exact ⟨hchange.named h.rooted hnamed, hnode⟩
  · show fs'.bytesAt t.file = _
    rw [hbytes, if_pos rfl, h.later t ht]
  · -- the slots after the next one are not its paths
    intro s hs
    have hsl : s ∈ g.later := by
      rw [hlater]
      exact List.mem_cons_of_mem t hs
    have hsplit : g.slots =
        (g.deposits.map Deposit.slot ++ g.targets ++ [g.current]) ++ t :: rest := by
      simp [slots, coming, hlater]
    have hne : s.file ≠ t.file := by
      intro he
      exact Slot.not_mem_of_split (List.nodup_append.mp h.nodup).1 hsplit
        (List.mem_append_right _ hs) s.file_mem_paths (he ▸ htfile)
    have hslots := mem_slots_of_coming (later_mem_coming hsl)
    rw [(hchange.same s.file (mem_paths hslots s.file_mem_paths) hne).bytesAt, h.later s hsl]
  · simp [slots, deposits, coming, htargets, hlater]

/-- The current file is moved to the first of its targets, which is left with what it held. -/
theorem moves_rename (h : g.Tells b fs) (hid : g.file = some id) (htargets : g.targets = t :: rest)
    (hlater : g.later = []) (hrename : fs.rename g.current.file t.file = .ok fs') :
    g.Moves b fs
      { g with
        whole := g.whole ++ [⟨t, g.content⟩]
        targets := rest, file := none, content := [] } fs' := by
  have ht : t ∈ g.targets := by
    rw [htargets]
    exact List.mem_cons_self
  have htcoming : t ∈ g.coming := List.mem_append_left _ ht
  have htfile := t.file_mem_paths
  obtain ⟨hcurrentNamed, hcurrentNode⟩ := h.there id hid
  obtain ⟨hchange, hnamed, hgone, hnode, hbytes⟩ := FileSystem.change_rename h.apart h.tidy current_mem_paths
    (mem_paths (mem_slots_of_coming htcoming) htfile)
    (ne_current h.nodup (List.mem_append_left _ ht) htfile).symm
    hcurrentNode hrename
  have hcoming : Change (g.paths ++ b.others) (fun y => ∃ s ∈ g.coming, y ∈ s.paths) fs fs' := by
    refine hchange.mono fun y _ hy => ?_
    rcases hy with rfl | rfl
    · exact ⟨_, current_mem_coming, g.current.file_mem_paths⟩
    · exact ⟨t, htcoming, htfile⟩
  have hleft : Deposit.Whole ⟨t, g.content⟩ fs' :=
    ⟨hchange.named h.rooted hnamed, ⟨id, hnode⟩, hbytes.trans h.bytes⟩
  refine ⟨⟨(h.toBacks.change hcoming).leave ?_ rfl rfl hleft, nofun, ?_, ?_⟩, ?_, rfl, hcoming⟩
  · simp [slots, deposits, coming, htargets]
  · exact FileSystem.bytesAt_of_vacant (.inl hgone)
  · rw [hlater]
    exact nofun
  · simp [slots, deposits, coming, htargets]

end Chronicle

end LogRotation
