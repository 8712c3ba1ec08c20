/-
  What a period leaves behind, and how the worker puts it into its archive.

  When a period is over, its file is whole: it holds all that was written to it, and nobody writes to
  it again.  From there the worker goes one way, as long as nothing fails: it copies the file into the
  archive and takes the file away.  In the end the content is in the archive alone.

    * DEPOSIT   a slot and the content that it was left with;
    * SETTLED   the content is where it is to stay;
    * WHOLE     the content is in the file;
    * BUSY      a routine that ends where a deposit is settled, whatever others do to other paths.

  Main statement: `Deposit.busy_archiving`.
-/
import LogRotation.Proofs.Archiving
import LogRotation.Proofs.Directories
import LogRotation.Proofs.Smoothness

namespace LogRotation

open FileSystem (Change SameAt)
open Routine (Smoothly)

/-! ## Deposits -/

/-- A slot that no record goes to any more, and what it was left with. -/
structure Deposit where
  slot : Slot
  content : Bytes
  deriving DecidableEq, Repr

/-- Holds where a content is where it is to stay: in the archive of its slot, with no file left, or in
the file of a slot that has no archive. -/
def Slot.Settled (s : Slot) (content : Bytes) (fs : FileSystem) : Prop :=
  match s.archive with
  | none => ∃ id, fs.nodeAt s.file = some (.file id) ∧ (fs.content id).bytes = content
  | some (format, target) => fs.nodeAt s.file = none ∧
      ∃ id, fs.nodeAt target = some (.file id) ∧ format.decode? (fs.content id).bytes = some content

theorem Slot.Settled.congr {s : Slot} {content : Bytes} {fs fs' : FileSystem}
    (h : s.Settled content fs) (hsame : ∀ x ∈ s.paths, SameAt fs fs' x) : s.Settled content fs' := by
  have hfile := hsame _ s.file_mem_paths
  unfold Slot.Settled at h ⊢
  split at h
  · obtain ⟨id, hnode, hbytes⟩ := h
    refine ⟨id, hfile.node.trans hnode, ?_⟩
    rw [hfile.content id hnode, hbytes]
  · rename_i format target harchive
    obtain ⟨hgone, id, hnode, hdecode⟩ := h
    have htarget := hsame target (s.archive_mem_paths harchive)
    refine ⟨hfile.node.trans hgone, id, htarget.node.trans hnode, ?_⟩
    rw [htarget.content id hnode, hdecode]

namespace Deposit

variable {xs : List Path} {d : Deposit} {fs fs' : FileSystem} {touched : Path → Prop}

/-- All that was left is in the file, which is known by its path. -/
structure Whole (d : Deposit) (fs : FileSystem) : Prop where
  named : fs.Named d.slot.file
  node : ∃ id, fs.nodeAt d.slot.file = some (.file id)
  bytes : fs.bytesAt d.slot.file = d.content

theorem Whole.change (h : d.Whole fs) (hchange : Change xs touched fs fs') (hr : fs.Rooted)
    (hmem : d.slot.file ∈ xs) (hnot : ¬ touched d.slot.file) : d.Whole fs' := by
  have hsame := hchange.same _ hmem hnot
  obtain ⟨id, hid⟩ := h.node
  refine ⟨hchange.named hr h.named, ⟨id, hsame.node.trans hid⟩, ?_⟩
  rw [hsame.bytesAt, h.bytes]

/-- What is whole is settled, if there is no archive to make. -/
theorem Whole.settled (h : d.Whole fs) (hnone : d.slot.archive = none) :
    d.slot.Settled d.content fs := by
  obtain ⟨id, hid⟩ := h.node
  have hbytes := h.bytes
  rw [FileSystem.bytesAt_of_file hid] at hbytes
  unfold Slot.Settled
  rw [hnone]
  exact ⟨id, hid, hbytes⟩

/-- An archive is to be made of a deposit, and it fits in. -/
def Ready (d : Deposit) : Prop :=
  ∃ format target more, d.slot.archive = some (format, target) ∧
    (Action.archiveParts format d.slot.file).2 d.content = some more

/-- Holds of a routine that, as long as it does not fail, ends where a deposit is settled, and that is
not seen at other paths; others leave the paths of the deposit alone. -/
abbrev Busy (xs : List Path) (d : Deposit) (r : Routine Unit) (fs : FileSystem) : Prop :=
  r.Smoothly (Change xs (· ∉ d.slot.paths)) (Change xs (· ∈ d.slot.paths))
    (fun _ fs => d.slot.Settled d.content fs) fs

theorem Busy.after {r : Routine Unit} (hxs : ∀ x ∈ d.slot.paths, x ∈ xs) (h : d.Busy xs r fs)
    (hrely : Change xs (· ∉ d.slot.paths) fs fs') : d.Busy xs r fs' := by
  refine Smoothly.after (fun _ _ _ h h' => h.trans h') ?_ h hrely
  intro _ a b hab ha
  refine ha.congr fun x hx => ?_
  exact hab.same x (hxs x hx) fun hnot => hnot hx

/-! ## What the worker knows -/

/-- The paths are in order, and the deposit is in its file. -/
structure Known (xs : List Path) (d : Deposit) (source : Nat) (fs : FileSystem) : Prop where
  apart : xs.Pairwise (Path.Apart fs.here)
  tidy : fs.Tidy xs
  rooted : fs.Rooted
  named : fs.Named d.slot.file
  node : fs.nodeAt d.slot.file = some (.file source)
  bytes : (fs.content source).bytes = d.content

variable {source : Nat}

theorem Known.change (h : d.Known xs source fs) (hchange : Change xs touched fs fs')
    (hmem : d.slot.file ∈ xs) (hnot : ¬ touched d.slot.file) : d.Known xs source fs' := by
  have hsame := hchange.same _ hmem hnot
  refine ⟨?_, hchange.tidy h.tidy, hchange.rooted h.rooted, hchange.named h.rooted h.named,
    hsame.node.trans h.node, ?_⟩
  · rw [hchange.here]
    exact h.apart
  · rw [hsame.content source h.node, h.bytes]

/-- What is opened for reading is the file of the deposit. -/
theorem Known.openRead (h : d.Known xs source fs) {handle : Handle}
    (hopen : fs.openRead d.slot.file = .ok handle) : handle = .file source := by
  have hnode := h.node
  rcases FileSystem.openRead_ok hopen with ⟨hd, -⟩ | ⟨id, hid, rfl⟩ | hfull
  · rw [hnode] at hd
    cases hd
  · rw [hnode] at hid
    cases hid
    rfl
  · rw [hnode] at hfull
    cases hfull

section Archiving

variable {format : ArchiveFormat} {target : Path} {id : Nat} {written : Bytes}
variable (hxs : ∀ x ∈ d.slot.paths, x ∈ xs) (harchive : d.slot.archive = some (format, target))
variable (hne : target ≠ d.slot.file)

/-- The deposit is in its file, and the archive has been written so far. -/
def Copying (xs : List Path) (d : Deposit) (source : Nat) (target : Path) (id : Nat)
    (written : Bytes) (fs : FileSystem) : Prop :=
  d.Known xs source fs ∧ Slot.Target target id written fs

include hxs

theorem known_stable (a b : FileSystem) (hab : Change xs (· ∉ d.slot.paths) a b)
    (ha : d.Known xs source a) : d.Known xs source b :=
  ha.change hab (hxs _ d.slot.file_mem_paths) fun hnot => hnot d.slot.file_mem_paths

include harchive

theorem copying_stable (a b : FileSystem) (hab : Change xs (· ∉ d.slot.paths) a b)
    (ha : d.Copying xs source target id written a) : d.Copying xs source target id written b := by
  have htarget := d.slot.archive_mem_paths harchive
  exact ⟨known_stable hxs a b hab ha.1,
    ha.2.frame hab.toFrame (hxs _ htarget) fun hnot => hnot htarget⟩

include hne

/-- Writing to the archive adds to what was written. -/
theorem smoothly_writeAll (h : d.Copying xs source target id written fs) (more : Bytes) :
    Smoothly (Change xs (· ∉ d.slot.paths)) (Change xs (· ∈ d.slot.paths))
      (Routine.writeAll (.file id) more).run
      (fun r fs => r = .ok () ∧ d.Copying xs source target id (written ++ more) fs) fs := by
  refine Routine.leads_attempt (Routine.leads_lift
    (Routine.smoothly_request rfl h (copying_stable hxs harchive) ?_))
  rintro fs₁ ⟨h₁, ht₁⟩ -
  have htarget := d.slot.archive_mem_paths harchive
  obtain ⟨hchange, -⟩ := FileSystem.change_append h₁.tidy (hxs _ htarget) ht₁.node more
  have hknown := h₁.change hchange (hxs _ d.slot.file_mem_paths) hne.symm
  refine ⟨hchange.mono fun x _ hx => hx ▸ htarget, rfl, hknown, ht₁.node, ?_⟩
  show ((fs₁.setContent id _).content id).bytes = _
  rw [FileSystem.content_setContent_self, Content.bytes_append, ht₁.bytes]

/-- Writing the rest of an archive: it reads back as the deposit. -/
theorem smoothly_writeRest {start more : Bytes} {rest : Bytes → Option Bytes}
    (h : d.Copying xs source target id start fs) (hrest : rest d.content = some more) :
    Smoothly (Change xs (· ∉ d.slot.paths)) (Change xs (· ∈ d.slot.paths))
      (Action.writeRest rest (.file source) (.file id)).run
      (fun r fs => r = .ok () ∧ d.Copying xs source target id (start ++ more) fs) fs := by
  refine Routine.leads_attempt (Routine.leads_lift
    (Routine.smoothly_request rfl h (copying_stable hxs harchive) ?_))
  rintro fs₁ h₁ -
  refine ⟨.refl xs _ fs₁, ?_⟩
  -- what is read is the deposit
  have hread : (fs₁.serve (.read (.file source))).1 = .ok d.content := by
    rw [← h₁.1.bytes]
    rfl
  rw [hread]
  dsimp only
  rw [hrest]
  refine Routine.leads_attempt ((smoothly_writeAll hxs harchive hne h₁ more).mono ?_)
  rintro r fs₂ ⟨rfl, h₂⟩
  refine Routine.smoothly_request rfl h₂ (copying_stable hxs harchive) ?_
  rintro fs₃ h₃ -
  exact ⟨.refl xs _ fs₃, rfl, h₃⟩

/-- Writing the archive of a deposit. -/
theorem smoothly_writeArchive (h : d.Known xs source fs) {more : Bytes}
    (hfits : (Action.archiveParts format d.slot.file).2 d.content = some more) :
    Smoothly (Change xs (· ∉ d.slot.paths)) (Change xs (· ∈ d.slot.paths))
      (Action.writeArchive format d.slot.file target).run
      (fun r fs => r = .ok () ∧ ∃ id, d.Copying xs source target id
        ((Action.archiveParts format d.slot.file).1 ++ more) fs) fs := by
  have htarget := d.slot.archive_mem_paths harchive
  have hstable : ∀ (r : Except IoError Unit) a b, Change xs (· ∉ d.slot.paths) a b →
      (r = .ok () ∧ ∃ id, d.Copying xs source target id
        ((Action.archiveParts format d.slot.file).1 ++ more) a) →
      r = .ok () ∧ ∃ id, d.Copying xs source target id
        ((Action.archiveParts format d.slot.file).1 ++ more) b := by
    rintro r a b hab ⟨hr, id, ha⟩
    exact ⟨hr, id, copying_stable hxs harchive a b hab ha⟩
  -- the file is opened
  refine Routine.leads_attempt (Routine.smoothly_request rfl h (known_stable hxs) ?_)
  intro fs₁ h₁ hok
  obtain ⟨input, hopen, hserve⟩ := FileSystem.served_openRead hok
  rw [hserve]
  cases h₁.openRead hopen
  refine ⟨.refl xs _ fs₁, Routine.smoothly_closing (.refl xs _) hstable ?_⟩
  -- the archive is opened, and empty
  refine Routine.leads_attempt (Routine.smoothly_request rfl h₁ (known_stable hxs) ?_)
  intro fs₁ h₁ hok
  obtain ⟨output, fs₂, hopen, hserve⟩ := FileSystem.served_openWrite hok
  rw [hserve]
  obtain ⟨hchange, -, id, rfl, hnode, hbytes⟩ :=
    FileSystem.change_openWrite h₁.apart h₁.tidy (hxs _ htarget) hopen
  have h₂ : d.Copying xs source target id [] fs₂ := by
    refine ⟨h₁.change hchange (hxs _ d.slot.file_mem_paths) hne.symm, hnode, ?_⟩
    rw [← FileSystem.bytesAt_of_file hnode, hbytes]
    rfl
  refine ⟨hchange.mono fun x _ hx => hx ▸ htarget, Routine.smoothly_closing (.refl xs _) hstable ?_⟩
  -- the start of the archive is written, unless there is none, and then the rest
  have hrest : ∀ fs, d.Copying xs source target id (Action.archiveParts format d.slot.file).1 fs →
      Smoothly (Change xs (· ∉ d.slot.paths)) (Change xs (· ∈ d.slot.paths))
        (Action.writeRest (Action.archiveParts format d.slot.file).2 (.file source) (.file id)).run
        (fun r fs => r = .ok () ∧ ∃ id, d.Copying xs source target id
          ((Action.archiveParts format d.slot.file).1 ++ more) fs) fs := by
    intro fs h
    refine (smoothly_writeRest hxs harchive hne h hfits).mono ?_
    rintro r fs ⟨hr, hfs⟩
    exact ⟨hr, id, hfs⟩
  show Smoothly _ _ (ExceptT.run (if (Action.archiveParts format d.slot.file).1.isEmpty then
    Action.writeRest (Action.archiveParts format d.slot.file).2 (.file source) (.file id)
    else Routine.writeAll (.file id) (Action.archiveParts format d.slot.file).1 >>= fun _ =>
      Action.writeRest (Action.archiveParts format d.slot.file).2 (.file source) (.file id))) _ _
  split
  · rename_i hempty
    exact hrest fs₂ (List.isEmpty_iff.mp hempty ▸ h₂)
  · refine Routine.leads_attempt ((smoothly_writeAll hxs harchive hne h₂ _).mono ?_)
    rintro r fs ⟨rfl, hfs⟩
    exact hrest fs hfs

end Archiving

/-- **The archive of a deposit.**  The worker, which begins with a whole file, ends with the archive
alone. -/
theorem busy_archiving {a : Action} (apart : xs.Pairwise (Path.Apart fs.here)) (tidy : fs.Tidy xs)
    (rooted : fs.Rooted) (hxs : ∀ x ∈ d.slot.paths, x ∈ xs)
    (hne : ∀ x ∈ d.slot.archive.map Prod.snd, x ≠ d.slot.file) (hwhole : d.Whole fs)
    (hready : d.Ready) (ha : a ∈ d.slot.archiving) : d.Busy xs a.executeQuietly fs := by
  obtain ⟨format, target, more, harchive, hfits⟩ := hready
  have hne : target ≠ d.slot.file := by
    refine hne target ?_
    rw [harchive]
    rfl
  have hmaking : a = .compress format d.slot.file target true := by
    simp only [Slot.archiving, harchive, List.mem_singleton] at ha
    exact ha
  obtain ⟨source, hnode⟩ := hwhole.node
  have hbytes := hwhole.bytes
  rw [FileSystem.bytesAt_of_file hnode] at hbytes
  have hknown : d.Known xs source fs := ⟨apart, tidy, rooted, hwhole.named, hnode, hbytes⟩
  rw [hmaking]
  refine Routine.Leads.bind (Routine.Leads.mono
    (Q := fun _ fs => d.slot.Settled d.content fs) ?_ fun _ _ hfs => hfs)
  -- the file is there
  refine Routine.leads_attempt (Routine.leads_lift
    (Routine.smoothly_request rfl hknown (known_stable hxs) ?_))
  intro fs₁ h₁ _
  have hpresent : (fs₁.serve (.present d.slot.file)).1 = true := h₁.named.present h₁.node
  rw [hpresent]
  refine ⟨.refl xs _ fs₁, ?_⟩
  refine Routine.leads_attempt (Routine.leads_adapt ?_)
  refine (smoothly_writeArchive hxs harchive hne h₁ hfits).mono ?_
  rintro r fs₂ ⟨rfl, id, h₂⟩
  -- the archive is complete, and the file goes
  refine Routine.leads_attempt (Routine.leads_adapt
    (Routine.smoothly_request rfl h₂ (copying_stable hxs harchive) ?_))
  intro fs₃ h₃ hok
  obtain ⟨fs₄, hremove, hserve⟩ := FileSystem.served_remove hok
  rw [hserve]
  have hfile := hxs _ d.slot.file_mem_paths
  have htarget := d.slot.archive_mem_paths harchive
  obtain ⟨hchange, hgone⟩ := FileSystem.change_remove h₃.1.apart hfile hremove
  have hcopy := h₃.2.frame hchange.toFrame (hxs _ htarget) hne
  refine ⟨hchange.mono fun x _ hx => hx ▸ d.slot.file_mem_paths, ?_⟩
  show d.slot.Settled d.content fs₄
  unfold Slot.Settled
  rw [harchive]
  refine ⟨hgone, id, hcopy.node, ?_⟩
  rw [hcopy.bytes]
  exact decode?_archiveParts hfits

end Deposit

end LogRotation
