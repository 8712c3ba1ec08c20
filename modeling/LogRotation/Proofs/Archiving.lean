/-
  Making an archive in the background is safe at every moment.

  While the archive is being written, its source is there and is what counts.  The source goes only
  after the archive was written to its end, and then the archive reads back as the source was.  So
  what a slot holds never changes, whatever fails, and whatever is done to other paths between two
  requests.

    * WITHIN    a step that is seen at the paths of one slot only, which holds the same after it;
    * CAREFUL   a routine all of whose steps are within a slot, as long as nobody else touches the
                slot.

  Main statement: `careful_archiving`.
-/
import LogRotation.Proofs.Interference
import LogRotation.Proofs.Ledger
import LogRotation.Action.Execution

namespace LogRotation

open FileSystem (SameAt Frame Tidy)
open Routine (Safe)

/-! ## Parts of an archive -/

/-- What is written before a content and after it reads back as the content. -/
theorem decode?_archiveParts {format : ArchiveFormat} {source : Path} {bytes more : Bytes}
    (h : (Action.archiveParts format source).2 bytes = some more) :
    format.decode? ((Action.archiveParts format source).1 ++ more) = some bytes := by
  cases format with
  | gzip =>
    cases h
    exact Archive.Gzip.decode?_encode bytes
  | zip =>
    have hread : Archive.Zip.decode? ((Action.archiveParts .zip source).1 ++ more) = _ :=
      Archive.Zip.decode?_body? h
    unfold ArchiveFormat.decode?
    dsimp only
    rw [hread]

namespace Slot

variable {xs : List Path} {s : Slot} {fs fs' : FileSystem} {n : Node} {content : Bytes}
variable {target : Path}

/-! ## Within a slot -/

/-- What the maker of an archive relies on: the paths of its slot are left alone. -/
abbrev Relied (xs : List Path) (s : Slot) : FileSystem → FileSystem → Prop := Frame xs (· ∉ s.paths)

/-- A step at the paths of a slot alone, which holds the same after it. -/
structure Within (xs : List Path) (s : Slot) (fs fs' : FileSystem) : Prop where
  frame : Frame xs (· ∈ s.paths) fs fs'
  content : s.content? fs' = s.content? fs

theorem Within.refl (xs : List Path) (s : Slot) (fs : FileSystem) : Within xs s fs fs :=
  ⟨.refl xs _ fs, rfl⟩

/-- Holds of a routine that is not seen outside a slot, nor changes what the slot holds. -/
def Careful (xs : List Path) (s : Slot) (r : Routine Unit) (fs : FileSystem) : Prop :=
  r.Safe (Relied xs s) (Within xs s) (fun _ _ => True) fs

theorem Careful.after {r : Routine Unit} (h : s.Careful xs r fs) (hrely : Relied xs s fs fs') :
    s.Careful xs r fs' :=
  Safe.after (fun _ _ _ h h' => h.trans h') h hrely

/-! ## What the maker of an archive knows -/

/-- The source is there, and it is what the slot holds. -/
structure Source (xs : List Path) (s : Slot) (n : Node) (content : Bytes)
    (fs : FileSystem) : Prop where
  apart : xs.Pairwise (Path.Apart fs.here)
  tidy : fs.Tidy xs
  node : fs.nodeAt s.file = some n
  bytes : fs.bytesAt s.file = content

/-- The file at a path has been written so far. -/
structure Target (target : Path) (id : Nat) (written : Bytes) (fs : FileSystem) : Prop where
  node : fs.nodeAt target = some (.file id)
  bytes : (fs.content id).bytes = written

theorem Source.content? (h : Source xs s n content fs) : s.content? fs = some content := by
  have hoccupied : fs.nodeAt s.file ≠ none := by
    rw [h.node]
    exact Option.some_ne_none n
  rw [content?_of_occupied hoccupied, h.bytes]

/-- Holds of what opening a node for reading gives. -/
def Reads (handle : Handle) (n : Node) : Prop :=
  (handle = .directory ∧ n = .directory) ∨ ∃ id, handle = .file id ∧ n = .file id

/-- What is read from the source is what the slot holds. -/
theorem Source.read (h : Source xs s n content fs) {input : Handle} (hinput : Reads input n)
    {bytes : Bytes} (hread : fs.read input = .ok bytes) : bytes = content := by
  rcases hinput with ⟨rfl, -⟩ | ⟨id, rfl, rfl⟩
  · -- a directory is opened for reading, but it is not read
    cases hread
  · cases hread
    rw [← h.bytes, FileSystem.bytesAt_of_file h.node]

theorem Source.reads (h : Source xs s n content fs) (hmem : s.file ∈ xs) {input : Handle}
    (hopen : fs.openRead s.file = .ok input) : Reads input n := by
  have hn := h.node
  rcases FileSystem.openRead_ok hopen with ⟨hd, rfl⟩ | ⟨id, hf, rfl⟩ | hfull
  · exact .inl ⟨rfl, Option.some.inj (hn.symm.trans hd)⟩
  · exact .inr ⟨id, rfl, Option.some.inj (hn.symm.trans hf)⟩
  · exact absurd hfull (h.tidy.noDevice _ hmem)

theorem Source.frame {touched : Path → Prop} (h : Source xs s n content fs)
    (hframe : Frame xs touched fs fs') (hmem : s.file ∈ xs) (hnot : ¬ touched s.file) :
    Source xs s n content fs' := by
  have hsame := hframe.same _ hmem hnot
  refine ⟨?_, hframe.tidy h.tidy, hsame.node.trans h.node, hsame.bytesAt.trans h.bytes⟩
  rw [hframe.here]
  exact h.apart

theorem Target.frame {touched : Path → Prop} {id : Nat} {written : Bytes}
    (h : Target target id written fs) (hframe : Frame xs touched fs fs') (hmem : target ∈ xs)
    (hnot : ¬ touched target) : Target target id written fs' := by
  have hsame := hframe.same _ hmem hnot
  refine ⟨hsame.node.trans h.node, ?_⟩
  rw [hsame.content id h.node]
  exact h.bytes

theorem Source.stable (h : Source xs s n content fs) (hxs : ∀ x ∈ s.paths, x ∈ xs)
    (hrely : Relied xs s fs fs') : Source xs s n content fs' :=
  h.frame hrely (hxs _ s.file_mem_paths) fun hnot => hnot s.file_mem_paths

theorem Target.stable {id : Nat} {written : Bytes} (h : Target target id written fs)
    (hxs : ∀ x ∈ s.paths, x ∈ xs) (hpath : target ∈ s.paths) (hrely : Relied xs s fs fs') :
    Target target id written fs' :=
  h.frame hrely (hxs _ hpath) fun hnot => hnot hpath

/-- What is known while the archive is being written is known after others had their turn. -/
theorem Source.stable_target {id : Nat} {written : Bytes} (hxs : ∀ x ∈ s.paths, x ∈ xs)
    (hpath : target ∈ s.paths) (hrely : Relied xs s fs fs')
    (h : Source xs s n content fs ∧ Target target id written fs) :
    Source xs s n content fs' ∧ Target target id written fs' :=
  ⟨h.1.stable hxs hrely, h.2.stable hxs hpath hrely⟩

/-! ## Steps -/

section Steps

variable {format : ArchiveFormat} {id : Nat} {written : Bytes}
variable (hxs : ∀ x ∈ s.paths, x ∈ xs) (harchive : s.archive = some (format, target))
variable (hne : target ≠ s.file)
include hxs harchive hne

/-- While the source is there, a step at the target is within the slot. -/
theorem Source.within (h : Source xs s n content fs) (hframe : Frame xs (· = target) fs fs') :
    Within xs s fs fs' ∧ Source xs s n content fs' := by
  have hsource := h.frame hframe (hxs _ s.file_mem_paths) (fun he => hne he.symm)
  refine ⟨⟨hframe.mono ?_, ?_⟩, hsource⟩
  · intro x _ hx
    rw [hx]
    exact archive_mem_paths harchive
  · rw [h.content?, hsource.content?]

/-- Opening the target makes it an empty file. -/
theorem Source.openTarget (h : Source xs s n content fs) {handle : Handle}
    (hopen : fs.openWrite target false = .ok (handle, fs')) :
    Within xs s fs fs' ∧ Source xs s n content fs' ∧
      ∃ id, handle = .file id ∧ Target target id [] fs' := by
  have hmem := hxs _ (archive_mem_paths harchive)
  rcases FileSystem.openWrite_ok hopen with ⟨hfree, rfl, rfl⟩ | ⟨id, hfile, rfl, rfl⟩ | hfull
  · -- a new file
    obtain ⟨hwithin, hsource⟩ := h.within hxs harchive hne
      (FileSystem.frame_addFile h.apart h.tidy hmem hfree)
    refine ⟨hwithin, hsource, fs.fresh, rfl, FileSystem.nodeAt_addFile hfree, ?_⟩
    rw [FileSystem.content_addFile, Content.bytes_empty]
  · -- an old file, which is emptied: what it held is not what the slot holds
    obtain ⟨hwithin, hsource⟩ := h.within hxs harchive hne
      (FileSystem.frame_setContent h.tidy hmem hfile .empty)
    refine ⟨hwithin, hsource, id, rfl, hfile, ?_⟩
    show ((fs.setContent id .empty).content id).bytes = []
    rw [FileSystem.content_setContent_self, Content.bytes_empty]
  · exact absurd hfull (h.tidy.noDevice _ hmem)

/-- Writing to the target adds to what was written. -/
theorem Source.writeTarget (h : Source xs s n content fs) (ht : Target target id written fs)
    (more : Bytes) :
    Within xs s fs (fs.setContent id ((fs.content id).append more)) ∧
      Source xs s n content (fs.setContent id ((fs.content id).append more)) ∧
      Target target id (written ++ more) (fs.setContent id ((fs.content id).append more)) := by
  have hmem := hxs _ (archive_mem_paths harchive)
  obtain ⟨hwithin, hsource⟩ := h.within hxs harchive hne
    (FileSystem.frame_setContent h.tidy hmem ht.node ((fs.content id).append more))
  refine ⟨hwithin, hsource, ht.node, ?_⟩
  rw [FileSystem.content_setContent_self, Content.bytes_append, ht.bytes]

/-- The source may go once the target reads back as the source. -/
theorem Source.remove (h : Source xs s n content fs) (ht : Target target id written fs)
    (hdecode : format.decode? written = some content) (hremove : fs.remove s.file = .ok fs') :
    Within xs s fs fs' := by
  obtain ⟨hframe, hgone⟩ := FileSystem.frame_remove h.apart (hxs _ s.file_mem_paths) hremove
  have htarget := ht.frame hframe (hxs _ (archive_mem_paths harchive)) hne
  refine ⟨hframe.mono fun x _ hx => hx ▸ s.file_mem_paths, ?_⟩
  rw [h.content?, Slot.content?, hgone]
  simp only [harchive, htarget.node, htarget.bytes, hdecode]

/-! ## Making an archive -/

/-- Writing all of some bytes, of which a part is written if that fails. -/
theorem safe_writeAll (h : Source xs s n content fs) (ht : Target target id written fs)
    (more : Bytes) :
    Safe (Relied xs s) (Within xs s) (Routine.writeAll (.file id) more).run
      (fun r fs => Source xs s n content fs ∧
        ∃ part, Target target id (written ++ part) fs ∧ (r = .ok () → part = more)) fs := by
  refine Routine.leads_attempt (Routine.leads_lift (Routine.safe_request
    (P := fun fs => Source xs s n content fs ∧ Target target id written fs) rfl ⟨h, ht⟩ ?_ ?_))
  · intro a b hrely h
    exact Source.stable_target hxs (archive_mem_paths harchive) hrely h
  · rintro fs₁ ⟨h₁, ht₁⟩ r fs₂ hanswer
    obtain ⟨part, rfl, hall, -⟩ := FileSystem.answers_write hanswer
    obtain ⟨hwithin, h₂, ht₂⟩ := h₁.writeTarget hxs harchive hne ht₁ part
    refine ⟨hwithin, ?_⟩
    dsimp only
    split
    · rename_i hnone
      exact ⟨h₂, part, ht₂, fun _ => hall hnone⟩
    · refine ⟨h₂, part, ht₂, fun hok => ?_⟩
      cases hok

/-- Writing the rest of an archive: if that succeeds, the archive reads back as the source. -/
theorem safe_writeRest {input : Handle} (hinput : Reads input n) (h : Source xs s n content fs)
    {start : Bytes} (ht : Target target id start fs) {rest : Bytes → Option Bytes}
    (hparts : ∀ bytes more, rest bytes = some more → format.decode? (start ++ more) = some bytes) :
    Safe (Relied xs s) (Within xs s) (Action.writeRest rest input (.file id)).run
      (fun r fs => Source xs s n content fs ∧ (r = .ok () →
        ∃ written, Target target id written fs ∧ format.decode? written = some content)) fs := by
  have hpath := archive_mem_paths harchive
  refine Routine.leads_attempt (Routine.leads_lift (Routine.safe_request
    (P := fun fs => Source xs s n content fs ∧ Target target id start fs) rfl ⟨h, ht⟩
    (fun _ _ hrely h => Source.stable_target hxs hpath hrely h) ?_))
  rintro fs₁ ⟨h₁, ht₁⟩ r fs₂ hanswer
  cases hanswer.unchanged rfl
  refine ⟨.refl xs s _, ?_⟩
  cases r with
  | error e =>
    -- the archive is ended, but that it was not read is told
    refine Routine.leads_attempt (Routine.leads_lift ?_)
    refine (safe_writeAll hxs harchive hne h₁ ht₁ _).mono ?_
    intro r fs hr
    exact ⟨hr.1, nofun⟩
  | ok bytes =>
    have hbytes : bytes = content := h₁.read hinput (FileSystem.answers_read hanswer)
    subst hbytes
    dsimp only
    split
    · rename_i more hmore
      refine Routine.leads_attempt ((safe_writeAll hxs harchive hne h₁ ht₁ more).mono ?_)
      rintro r fs ⟨hs, part, hpart, hall⟩
      cases r with
      | error e => exact ⟨hs, nofun⟩
      | ok u =>
        cases hall rfl
        refine Routine.safe_request
          (P := fun fs => Source xs s n bytes fs ∧ Target target id (start ++ more) fs)
          rfl ⟨hs, hpart⟩ (fun _ _ hrely h => Source.stable_target hxs hpath hrely h) ?_
        rintro fs₁ ⟨h₁, ht₁⟩ r fs₂ hanswer
        cases hanswer.unchanged rfl
        exact ⟨.refl xs s _, h₁, fun _ => ⟨_, ht₁, hparts bytes more hmore⟩⟩
    · -- too large for an archive
      exact ⟨h₁, nofun⟩

/-- Writing the archive of a slot: if that succeeds, it reads back as what the slot holds. -/
theorem safe_writeArchive (h : Source xs s n content fs) :
    Safe (Relied xs s) (Within xs s) (Action.writeArchive format s.file target).run
      (fun r fs => Source xs s n content fs ∧ (r = .ok () →
        ∃ id written, Target target id written fs ∧ format.decode? written = some content)) fs := by
  have hstable : ∀ (r : Except IoError Unit) a b, Relied xs s a b →
      Source xs s n content a ∧ (r = .ok () →
        ∃ id written, Target target id written a ∧ format.decode? written = some content) →
      Source xs s n content b ∧ (r = .ok () →
        ∃ id written, Target target id written b ∧ format.decode? written = some content) := by
    rintro r a b hrely ⟨ha, hok⟩
    refine ⟨ha.stable hxs hrely, fun hr => ?_⟩
    obtain ⟨id, written, ht, hdecode⟩ := hok hr
    exact ⟨id, written, ht.stable hxs (archive_mem_paths harchive) hrely, hdecode⟩
  have hsource : ∀ a b, Relied xs s a b → Source xs s n content a → Source xs s n content b :=
    fun a b hrely ha => ha.stable hxs hrely
  -- the source is opened
  refine Routine.leads_attempt (Routine.safe_request rfl h hsource ?_)
  intro fs₁ h₁ r fs₂ hanswer
  cases hanswer.unchanged rfl
  refine ⟨.refl xs s _, ?_⟩
  rcases r with e | input
  · exact ⟨h₁, nofun⟩
  have hreads := h₁.reads (hxs _ s.file_mem_paths) (FileSystem.answers_openRead hanswer)
  refine Routine.safe_closing (.refl xs s) hstable ?_
  -- the target is opened, and empty
  refine Routine.leads_attempt (Routine.safe_request rfl h₁ hsource ?_)
  intro fs₁ h₁ r fs₂ hanswer
  rcases FileSystem.answers_openWrite hanswer with ⟨e, rfl, rfl⟩ | ⟨output, rfl, hopen⟩
  · exact ⟨.refl xs s _, h₁, nofun⟩
  obtain ⟨hwithin, h₂, id, rfl, ht₂⟩ := h₁.openTarget hxs harchive hne hopen
  refine ⟨hwithin, Routine.safe_closing (.refl xs s) hstable ?_⟩
  -- the start of the archive is written, unless there is none, and then the rest
  have hrest : ∀ fs, Source xs s n content fs →
      Target target id (Action.archiveParts format s.file).1 fs →
      Safe (Relied xs s) (Within xs s)
        (Action.writeRest (Action.archiveParts format s.file).2 input (.file id)).run
        (fun r fs => Source xs s n content fs ∧ (r = .ok () → ∃ id written,
          Target target id written fs ∧ format.decode? written = some content)) fs := by
    intro fs h ht
    refine (safe_writeRest hxs harchive hne hreads h ht ?_).mono ?_
    · intro bytes more hmore
      exact decode?_archiveParts hmore
    · rintro r fs ⟨hs, hok⟩
      exact ⟨hs, fun hr => ⟨id, hok hr⟩⟩
  show Safe _ _ (ExceptT.run (if (Action.archiveParts format s.file).1.isEmpty then
    Action.writeRest (Action.archiveParts format s.file).2 input (.file id)
    else Routine.writeAll (.file id) (Action.archiveParts format s.file).1 >>= fun _ =>
      Action.writeRest (Action.archiveParts format s.file).2 input (.file id))) _ _
  split
  · rename_i hempty
    exact hrest fs₂ h₂ (List.isEmpty_iff.mp hempty ▸ ht₂)
  · refine Routine.leads_attempt ((safe_writeAll hxs harchive hne h₂ ht₂ _).mono ?_)
    rintro r fs ⟨hs, part, hpart, hall⟩
    cases r with
    | error e => exact ⟨hs, nofun⟩
    | ok u => exact hrest fs hs (hall rfl ▸ hpart)

/-- Making the archive of a slot is safe, whatever is there at the start. -/
theorem careful_compress (apart : xs.Pairwise (Path.Apart fs.here)) (tidy : fs.Tidy xs) :
    s.Careful xs (Action.executeQuietly (.compress format s.file target true)) fs := by
  refine Routine.Leads.bind (Routine.Leads.mono (Q := fun _ _ => True) ?_ fun _ _ _ => trivial)
  refine Routine.leads_attempt (Routine.leads_lift (Routine.safe_request
    (P := fun fs => xs.Pairwise (Path.Apart fs.here) ∧ fs.Tidy xs) rfl ⟨apart, tidy⟩ ?_ ?_))
  · rintro a b hrely ⟨hapart, htidy⟩
    refine ⟨?_, hrely.tidy htidy⟩
    rw [hrely.here]
    exact hapart
  · rintro fs₁ ⟨hapart, htidy⟩ r fs₂ hanswer
    cases hanswer.unchanged rfl
    refine ⟨.refl xs s _, ?_⟩
    cases r with
    | false => trivial
    | true =>
      obtain ⟨n, hn⟩ := FileSystem.answers_present hanswer
      have hsource : Source xs s n (fs₁.bytesAt s.file) fs₁ := ⟨hapart, htidy, hn, rfl⟩
      refine Routine.leads_attempt (Routine.leads_adapt ?_)
      refine (safe_writeArchive hxs harchive hne hsource).mono ?_
      rintro r fs ⟨hs, hok⟩
      cases r with
      | error e => trivial
      | ok u =>
        -- the archive is complete, so that the source may go
        obtain ⟨id, written, ht, hdecode⟩ := hok rfl
        refine Routine.leads_attempt (Routine.leads_adapt (Routine.safe_request
          (P := fun fs => Source xs s n (fs₁.bytesAt s.file) fs ∧ Target target id written fs)
          rfl ⟨hs, ht⟩ ?_ ?_))
        · intro a b hrely h
          exact Source.stable_target hxs (archive_mem_paths harchive) hrely h
        · rintro fs₃ ⟨h₃, ht₃⟩ r fs₄ hanswer
          rcases FileSystem.answers_remove hanswer with ⟨e, rfl, rfl⟩ | ⟨rfl, hremove⟩
          · exact ⟨.refl xs s _, trivial⟩
          · exact ⟨h₃.remove hxs harchive hne ht₃ hdecode hremove, trivial⟩

end Steps

/-- **Archives are made safely.**  What makes the archive of a slot stays within the slot, and what
the slot holds stays the same. -/
theorem careful_archiving {a : Action} (apart : xs.Pairwise (Path.Apart fs.here))
    (tidy : fs.Tidy xs) (hxs : ∀ x ∈ s.paths, x ∈ xs)
    (hne : ∀ x ∈ s.archive.map Prod.snd, x ≠ s.file)
    (ha : a ∈ s.archiving) : s.Careful xs a.executeQuietly fs := by
  unfold archiving at ha
  split at ha
  · cases ha
  · rename_i format target harchive
    have htarget : target ≠ s.file := by
      refine hne target ?_
      rw [harchive]
      rfl
    rw [List.mem_singleton.mp ha]
    exact careful_compress hxs harchive htarget apart tidy

end Slot

end LogRotation
