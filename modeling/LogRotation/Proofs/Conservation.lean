/-
  Making an archive loses nothing.

  Between the opening of a source and its end there is much that may fail, and each failure leaves
  something else behind.  But all of it is at one place, that of the target, until the archive is whole;
  and only then the source goes.

  1. **One place** - what is done while an archive is written changes no other place, and takes nothing
     away (`ButFor`).  So the way to the source stays (`present_of_kept`), and what it holds.

  2. **The name** - what is no directory is known by the last name of its path, which the one entry of a
     zip archive has (`fileName?_of_resolve`).

  3. **The crux** - `leads_writeArchive_alone`: what was written to the target is always the start of an
     archive, and it is told that the archive is whole just if it is.  A target that takes no byte needs
     no case of its own: nothing is no archive (`not_readsAs_nil`).

  Main statement: `compress_loses_nothing`.
-/
import LogRotation.Proofs.Background

namespace LogRotation

/-! ## One place -/

namespace FileSystem

variable {A B C fs fs' : FileSystem} {x : Path} {p q t : Place} {id : Nat}

/-- Holds of one place, and of two names of one file. -/
def Coincide (fs : FileSystem) (p q : Place) : Prop :=
  p = q ∨ ∃ id, fs.node? p = some (.file id) ∧ fs.node? q = some (.file id)

instance (fs : FileSystem) (p q : Place) : Decidable (fs.Coincide p q) :=
  decidable_of_iff (p = q ∨ ∃ n ∈ fs.node? p, fs.hasNameAt n q = true) <| by
    refine or_congr_right ⟨?_, ?_⟩
    · rintro ⟨n, hn, hname⟩
      obtain ⟨id, rfl, hid⟩ := hasNameAt_iff.mp hname
      exact ⟨id, hn, hid⟩
    · rintro ⟨id, hp, hq⟩
      exact ⟨.file id, hp, hasNameAt_iff.mpr ⟨id, rfl, hq⟩⟩

/-- Holds of two paths to different places, the first of which is not above the second. -/
def Apart (fs : FileSystem) (x y : Path) : Prop :=
  ¬ fs.Coincide (x.placeIn fs.here) (y.placeIn fs.here) ∧ ¬ x.placeIn fs.here <+: y.placeIn fs.here

instance (fs : FileSystem) (x y : Path) : Decidable (fs.Apart x y) := by
  unfold Apart; infer_instance

/-- Holds of a file system that gives a new file another number than those it has. -/
def Numbered (fs : FileSystem) : Prop := ∀ p id, fs.node? p = some (.file id) → id < fs.fresh

/-- It is enough to look at the places that are listed. -/
theorem numbered_of_nodes (h : ∀ x ∈ fs.nodes, ∀ id ∈ number? x.2, id < fs.fresh) : fs.Numbered := by
  intro p id hp
  have hroot : p ≠ [] := by
    rintro rfl
    cases hp
  exact h _ (mem_nodes hroot hp) id rfl

/-- `ButFor t A B` - nothing has changed from one file system to the other but what is at one place, under
all the names that it has, and nothing was taken away. -/
structure ButFor (t : Place) (A B : FileSystem) : Prop where
  here : B.here = A.here
  kept : ∀ p n, A.node? p = some n → B.node? p = some n
  names : ∀ p, p ≠ t → B.node? p = A.node? p
  contents : ∀ p id, A.node? p = some (.file id) → ¬ A.Coincide p t → B.content id = A.content id

theorem ButFor.refl (t : Place) (fs : FileSystem) : ButFor t fs fs :=
  ⟨rfl, fun _ _ h => h, fun _ _ => rfl, fun _ _ _ _ => rfl⟩

theorem ButFor.agreeAt (h : ButFor t A B) (hp : ¬ A.Coincide p t) : A.AgreeAt B p where
  node := (h.names p fun he => hp (.inl he)).symm
  content id hid := (h.contents p id hid hp).symm

theorem butFor_addFile (hnumbered : fs.Numbered) (hfree : fs.node? t = none) :
    ButFor t fs (fs.addFile t).2 where
  here := rfl
  kept p n hn := by
    have hne : p ≠ t := by
      rintro rfl
      rw [hfree] at hn
      cases hn
    exact (node?_insert_of_ne fs _ hne).trans hn
  names p hp := node?_insert_of_ne fs _ hp
  contents p id hid _ := content_setContent_of_ne _ _ (Nat.ne_of_lt (hnumbered p id hid))

/-- A file is filled that no other place had. -/
theorem ButFor.setContent (h : ButFor t A B) (c : Content)
    (hid : ∀ p, A.node? p = some (.file id) → A.Coincide p t) : ButFor t A (B.setContent id c) where
  here := h.here
  kept := h.kept
  names := h.names
  contents p other hother hp := by
    have hne : other ≠ id := by
      rintro rfl
      exact hp (hid p hother)
    exact (content_setContent_of_ne B c hne).trans (h.contents p other hother hp)

/-! ## The way to the source -/

/-- A step that could be taken can be taken as long as nothing is taken away. -/
theorem step_of_kept (h : ∀ p n, A.node? p = some n → B.node? p = some n) {segment : String}
    (hstep : A.step p segment = .ok q) : B.step p segment = .ok q := by
  obtain ⟨u, hrequire, hcases⟩ := ok_of_bind hstep
  have hp : B.requireDirectory p = .ok () := if_pos (h p _ (requireDirectory_ok hrequire))
  simp only [step, hp, bind, Except.bind]
  split at hcases
  · rename_i hdot
    rw [if_pos hdot]
    exact hcases
  · rename_i hdot
    rw [if_neg hdot]
    split at hcases
    · rename_i hup
      rw [if_pos hup]
      exact hcases
    · rename_i hup
      rw [if_neg hup]
      obtain ⟨u', hcheck, hcases⟩ := ok_of_bind hcases
      rw [hcheck]
      split at hcases
      · rename_i hthere
        cases hcases
        obtain ⟨n, hn⟩ := Option.isSome_iff_exists.mp hthere
        have hthere' : (B.node? (p ++ [segment])).isSome = true := by
          rw [h _ n hn]
          rfl
        exact if_pos hthere'
      · cases hcases

theorem walk_of_kept (h : ∀ p n, A.node? p = some n → B.node? p = some n) {segments : List String}
    (hwalk : A.walk p segments = .ok q) : B.walk p segments = .ok q := by
  induction segments generalizing p with
  | nil => exact hwalk
  | cons segment rest ih =>
    obtain ⟨next, hstep, hrest⟩ := ok_of_bind hwalk
    show (B.step p segment >>= fun next => B.walk next rest) = .ok q
    rw [step_of_kept h hstep]
    exact ih hrest

/-- What a path leads to, by its steps. -/
theorem resolve_eq_ok_iff {n : Node} : fs.resolve x = .ok (p, n) ↔ checkText x = .ok () ∧
    fs.walk (fs.origin x) x.segments = .ok p ∧ (x.endsInSlash = true → n = .directory) ∧
      fs.node? p = some n := by
  constructor
  · intro h
    obtain ⟨u, htext, h⟩ := ok_of_bind h
    obtain ⟨place, hwalk, h⟩ := ok_of_bind h
    obtain ⟨hslash, h⟩ := ok_of_check h
    split at h
    · rename_i n' hn
      cases h
      refine ⟨htext, hwalk, fun hs => ?_, hn⟩
      exact Option.some.inj (hn.symm.trans (requireDirectory_ok (hslash hs)))
    · cases h
  · rintro ⟨htext, hwalk, hslash, hn⟩
    simp only [resolve, htext, hwalk, bind, Except.bind]
    split
    · rename_i hs
      have hrequire : fs.requireDirectory p = .ok () := if_pos (hslash hs ▸ hn)
      rw [hrequire, hn]
      rfl
    · rw [hn]
      rfl

/-- A path leads where it led as long as nothing is taken away. -/
theorem present_of_kept (hhere : B.here = A.here) (h : ∀ p n, A.node? p = some n → B.node? p = some n)
    (hx : A.present x = true) : B.present x = true := by
  unfold FileSystem.present at hx
  split at hx
  · rename_i found hfound
    obtain ⟨htext, hwalk, hslash, hn⟩ := resolve_eq_ok_iff.mp hfound
    have horigin : B.origin x = A.origin x := by rw [origin, origin, hhere]
    have hfound' : B.resolve x = .ok found :=
      resolve_eq_ok_iff.mpr ⟨htext, horigin ▸ walk_of_kept h hwalk, hslash, h _ _ hn⟩
    rw [FileSystem.present, hfound']
  · cases hx

theorem AgreeAt.bytesAt (h : A.AgreeAt B (x.placeIn A.here)) (hhere : B.here = A.here) :
    B.bytesAt x = A.bytesAt x := by
  unfold FileSystem.bytesAt nodeAt
  rw [hhere, ← h.node]
  split
  · rename_i id hid
    rw [h.content id hid]
  · rfl

/-! ## The name of the source -/

/-- A path with a text that does not start at the root has a segment. -/
theorem segments_ne_nil (htext : checkText x = .ok ()) (hrelative : ¬ x.isAbsolute = true) :
    x.segments ≠ [] := by
  have hne : x.text.toList ≠ [] := by
    intro hnil
    have hempty : x.isEmpty = true := by
      rw [Path.isEmpty, String.isEmpty_iff, ← String.toList_eq_nil_iff]
      exact hnil
    unfold checkText at htext
    rw [hnil, hempty] at htext
    cases htext
  unfold Path.isAbsolute at hrelative
  unfold Path.segments
  obtain ⟨c, rest, htext⟩ := List.exists_cons_of_ne_nil hne
  rw [htext] at hrelative ⊢
  have hslash : c ≠ '/' := by
    rintro rfl
    exact hrelative rfl
  rw [Path.cutAtSlashes, if_neg hslash]
  split <;> simp

/-- What is no directory is known by the last name of its path. -/
theorem fileName?_of_resolve (hrooted : fs.Rooted) {n : Node} (h : fs.resolve x = .ok (p, n))
    (hfile : n ≠ .directory) : ∃ name, x.fileName? = some name := by
  obtain ⟨htext, hwalk, hslash, hn⟩ := resolve_eq_ok_iff.mp h
  have hnot : fs.node? p ≠ some .directory := by
    rw [hn]
    exact fun he => hfile (Option.some.inj he)
  rcases List.eq_nil_or_concat' x.segments with hnil | ⟨before, last, hlast⟩
  · -- the root
    have habsolute : x.isAbsolute = true := by
      by_contra hrelative
      exact segments_ne_nil htext hrelative hnil
    rw [hnil, origin, if_pos habsolute] at hwalk
    cases hwalk
    exact absurd rfl hnot
  · rw [hlast, walk, List.foldlM_append] at hwalk
    obtain ⟨parent, -, hstep⟩ := ok_of_bind hwalk
    obtain ⟨place, hstep, hend⟩ := ok_of_bind hstep
    cases hend
    obtain ⟨u, hrequire, hcases⟩ := ok_of_bind hstep
    have hparent := requireDirectory_ok hrequire
    -- dots lead to directories
    have hdot : last ≠ "." := by
      intro hdot
      rw [if_pos hdot] at hcases
      cases hcases
      exact hnot hparent
    have hup : last ≠ ".." := by
      intro hup
      rw [if_neg hdot, if_pos hup] at hcases
      cases hcases
      rcases List.eq_nil_or_concat' parent with rfl | ⟨above, name, rfl⟩
      · exact hnot rfl
      · rw [List.dropLast_concat] at hnot
        refine hnot (hrooted above name ?_)
        rw [hparent]
        exact Option.some_ne_none _
    have hstepOf : Path.stepOf last = some (.name last) := by
      rw [Path.stepOf, if_neg hdot, if_neg hup]
    have hcomponents : x.components.getLast? = some (.name last) := by
      unfold Path.components
      rw [hlast, List.filterMap_append, List.filterMap_cons_some hstepOf, List.filterMap_nil]
      split
      · rw [← List.cons_append, List.getLast?_concat]
      · split
        · rw [← List.cons_append, List.getLast?_concat]
        · rw [List.getLast?_concat]
    refine ⟨last, ?_⟩
    rw [Path.fileName?, hcomponents]

/-! ## Opening and reading -/

/-- What opening a node for reading gives. -/
def handleOf : Node → Handle
  | .directory => .directory
  | .file id => .file id
  | .full => .full

theorem openRead_eq {handle : Handle} (h : fs.openRead x = .ok handle) :
    ∃ p n, fs.resolve x = .ok (p, n) ∧ handle = handleOf n := by
  obtain ⟨⟨p, n⟩, hfound, h⟩ := ok_of_bind h
  refine ⟨p, n, hfound, ?_⟩
  cases n <;> cases h <;> rfl

/-- What is read at a path is what it holds, and it is no directory. -/
theorem read_handleOf {n : Node} (hn : fs.nodeAt x = some n) {bytes : Bytes}
    (h : fs.read (handleOf n) = .ok bytes) : n ≠ .directory ∧ bytes = fs.bytesAt x := by
  unfold FileSystem.bytesAt
  rw [hn]
  cases n with
  | directory => cases h
  | file id =>
    cases h
    exact ⟨nofun, rfl⟩
  | full =>
    cases h
    exact ⟨nofun, rfl⟩

/-- A device that is opened for writing stays as it is. -/
theorem openWrite_full {keep : Bool} {handle : Handle} (hx : fs.nodeAt x = some .full)
    (h : fs.openWrite x keep = .ok (handle, fs')) : handle = .full ∧ fs' = fs := by
  obtain ⟨e, hentry, h⟩ := ok_of_bind h
  cases e with
  | noName d => cases h
  | name parent name slash =>
    obtain ⟨-, h⟩ := ok_of_check h
    obtain ⟨-, -, h⟩ := ok_of_bind h
    rw [nodeAt, ← entry_name hentry] at hx
    rw [hx] at h
    cases h
    exact ⟨rfl, rfl⟩

/-- A write to a device adds nothing, and tells of no failure only if there was nothing to add. -/
theorem answers_write_full {spared : Bool} {bytes : Bytes} {r : Written}
    (h : fs.Answers spared (.write .full bytes) r fs') : fs' = fs ∧ (r.failure = none → bytes = []) := by
  rcases h with h | ⟨-, fault, h⟩
  · cases h
    refine ⟨rfl, fun hnone => ?_⟩
    cases bytes with
    | nil => rfl
    | cons b rest => cases hnone
  · cases h
    refine ⟨rfl, fun hnone => ?_⟩
    dsimp only at hnone
    split at hnone <;> cases hnone

end FileSystem

/-! ## Archives that read back -/

/-- Holds of an archive that reads back as one content.  The one entry of a zip archive is deflated, and
has the name of the source. -/
def ArchiveFormat.ReadsAs (format : ArchiveFormat) (source : Path) (content archive : Bytes) : Prop :=
  match format with
  | gzip => Archive.Gzip.decode? archive = some content
  | zip => ∃ name, source.fileName? = some name ∧
      Archive.Zip.decode? archive = some [⟨name, true, content⟩]

/-- What is written around a content reads back as that content. -/
theorem readsAs_archiveParts {format : ArchiveFormat} {source : Path} {name : String}
    (hname : source.fileName? = some name) {content more : Bytes}
    (h : (Action.archiveParts format source).2 content = some more) :
    format.ReadsAs source content ((Action.archiveParts format source).1 ++ more) := by
  cases format with
  | gzip =>
    cases h
    exact Archive.Gzip.decode?_encode content
  | zip =>
    unfold Action.archiveParts at h ⊢
    rw [hname] at h ⊢
    exact ⟨name, hname, Archive.Zip.decode?_body? h⟩

/-- Nothing is no archive. -/
theorem not_readsAs_nil {format : ArchiveFormat} {source : Path} {content : Bytes} :
    ¬ format.ReadsAs source content [] := by
  cases format with
  | gzip => exact nofun
  | zip =>
    rintro ⟨name, -, h⟩
    cases h

/-! ## Routines that are alone -/

/-- Requests about files with nothing in between, each of which may fail. -/
def Regime.alone : Regime FileSystem where
  step fs q k := q.isFile = true ∧ ∀ r fs', fs.Answers false q r fs' → k r fs'
  mono h hk := ⟨h.1, fun r fs' hanswer => hk r fs' (h.2 r fs' hanswer)⟩

/-- What is known of a routine that is alone holds when it was run, whatever failed. -/
theorem World.leads_runAlone {α : Type} {c : Conditions} {r : Routine α} {w : World}
    {Q : α → FileSystem → Prop} (h : r.Leads .alone Q w.files) :
    Q (runAlone c r w).1 (runAlone c r w).2.files := by
  induction r generalizing w with
  | done a => exact h
  | ask q next ih =>
    obtain ⟨hq, hnext⟩ := h
    rw [runAlone, answer_respond hq]
    refine ih _ (hnext _ _ (w.files.answers_getD q (c.fault w.ticks q) ?_))
    intro hspared
    cases hspared

/-! ## Writing an archive -/

namespace Action

open FileSystem (ButFor butFor_addFile handleOf)
open Routine (Attempt Leads leads_attempt leads_lift leads_adapt)

variable {A fs fs' : FileSystem} {format : ArchiveFormat} {source target : Path} {output : Handle}
variable {written content : Bytes} {n : Node}

/-- Some bytes were written to the target, and else nothing was done; to a device no byte was written. -/
structure Writing (A : FileSystem) (target : Path) (output : Handle) (written : Bytes)
    (fs : FileSystem) : Prop where
  butFor : ButFor (target.placeIn A.here) A fs
  output : (output = .full ∧ written = []) ∨ ∃ id, output = .file id ∧
    (∀ p, A.node? p = some (.file id) → A.Coincide p (target.placeIn A.here)) ∧
    Slot.Target target id written fs

/-- When the target has been opened, nothing has been written. -/
theorem writing_openWrite (hnumbered : A.Numbered) (h : A.openWrite target false = .ok (output, fs)) :
    Writing A target output [] fs := by
  rcases FileSystem.openWrite_ok h with ⟨hfree, rfl, rfl⟩ | ⟨id, hfile, rfl, rfl⟩ | hfull
  · -- a new file had no place
    refine ⟨butFor_addFile hnumbered hfree, .inr ⟨_, rfl, fun p hp => ?_, ?_, ?_⟩⟩
    · exact absurd (hnumbered p _ hp) (Nat.lt_irrefl _)
    · exact FileSystem.nodeAt_addFile hfree
    · rw [FileSystem.content_addFile, Content.bytes_empty]
  · have hid : ∀ p, A.node? p = some (.file id) → A.Coincide p (target.placeIn A.here) :=
      fun p hp => .inr ⟨id, hp, hfile⟩
    refine ⟨(ButFor.refl _ A).setContent .empty hid, .inr ⟨id, rfl, hid, hfile, ?_⟩⟩
    show ((A.setContent id .empty).content id).bytes = []
    rw [FileSystem.content_setContent_self, Content.bytes_empty]
  · obtain ⟨rfl, rfl⟩ := FileSystem.openWrite_full hfull h
    exact ⟨.refl _ fs, .inl ⟨rfl, rfl⟩⟩

/-- A write adds some of its bytes, and tells of no failure only if it added all. -/
theorem Writing.write (h : Writing A target output written fs) {bytes : Bytes} {r : Written}
    (hanswer : fs.Answers false (.write output bytes) r fs') :
    ∃ taken, Writing A target output (written ++ taken) fs' ∧ (r.failure = none → taken = bytes) := by
  rcases h.output with ⟨rfl, rfl⟩ | ⟨id, rfl, hid, htarget⟩
  · obtain ⟨rfl, hall⟩ := FileSystem.answers_write_full hanswer
    exact ⟨[], ⟨h.butFor, .inl ⟨rfl, rfl⟩⟩, fun hnone => (hall hnone).symm⟩
  · obtain ⟨taken, rfl, hall, -⟩ := FileSystem.answers_write hanswer
    refine ⟨taken, ⟨h.butFor.setContent _ hid, .inr ⟨id, rfl, hid, htarget.node, ?_⟩⟩, hall⟩
    rw [FileSystem.content_setContent_self, Content.bytes_append, htarget.bytes]

theorem leads_request_alone {q : Request} {Q : q.Reply → FileSystem → Prop} (hq : q.isFile = true)
    (h : ∀ r fs', fs.Answers false q r fs' → Q r fs') : Leads .alone (Routine.request q) Q fs := ⟨hq, h⟩

theorem leads_writeAll_alone (h : Writing A target output written fs) (more : Bytes) :
    Leads .alone (Routine.writeAll output more).run
      (fun r fs' => ∃ part, Writing A target output (written ++ part) fs' ∧ (r = .ok () → part = more))
      fs := by
  refine leads_attempt (leads_lift (leads_request_alone rfl fun r fs' hanswer => ?_))
  obtain ⟨part, hpart, hall⟩ := h.write hanswer
  dsimp only
  split
  · rename_i hnone
    exact ⟨part, hpart, fun _ => hall hnone⟩
  · exact ⟨part, hpart, nofun⟩

theorem leads_closing_alone {ε α : Type} {handle : Handle} {body : Attempt ε α}
    {Q : Except ε α → FileSystem → Prop} (h : Leads .alone body.run Q fs) :
    Leads .alone (Routine.closing handle body).run Q fs := by
  refine Leads.bind (h.mono fun r fs hr => ?_)
  refine Leads.bind (leads_request_alone rfl fun u fs' hanswer => ?_)
  cases hanswer.unchanged rfl
  exact hr

section Reading

variable (hn : A.nodeAt source = some n) (hapart : A.Apart source target)
include hn hapart

/-- What is read from the source while an archive is written is what it held. -/
theorem Writing.read (h : Writing A target output written fs) {bytes : Bytes}
    (hread : fs.read (handleOf n) = .ok bytes) : n ≠ .directory ∧ bytes = A.bytesAt source := by
  have hsource : fs.nodeAt source = some n := by
    rw [FileSystem.nodeAt, h.butFor.here]
    exact h.butFor.kept _ _ hn
  obtain ⟨hfile, rfl⟩ := FileSystem.read_handleOf hsource hread
  exact ⟨hfile, (h.butFor.agreeAt hapart.1).bytesAt h.butFor.here⟩

theorem leads_writeRest_alone (h : Writing A target output written fs)
    {rest : Bytes → Option Bytes} : Leads .alone (writeRest rest (handleOf n) output).run
      (fun r fs' => (∃ written', Writing A target output written' fs') ∧ (r = .ok () →
        n ≠ .directory ∧ ∃ more, rest (A.bytesAt source) = some more ∧
          Writing A target output (written ++ more) fs')) fs := by
  refine leads_attempt (leads_lift (leads_request_alone rfl fun r fs' hanswer => ?_))
  cases hanswer.unchanged rfl
  cases r with
  | error e =>
    refine leads_attempt (leads_lift ((leads_writeAll_alone h _).mono ?_))
    rintro r fs' ⟨part, hpart, -⟩
    exact ⟨⟨_, hpart⟩, nofun⟩
  | ok bytes =>
    obtain ⟨hfile, rfl⟩ := h.read hn hapart (FileSystem.answers_read hanswer)
    dsimp only
    split
    · rename_i more hmore
      refine leads_attempt ((leads_writeAll_alone h more).mono ?_)
      rintro r fs' ⟨part, hpart, hall⟩
      cases r with
      | error e => exact ⟨⟨_, hpart⟩, nofun⟩
      | ok u =>
        cases hall rfl
        refine leads_request_alone rfl fun r fs'' hanswer => ?_
        cases hanswer.unchanged rfl
        exact ⟨⟨_, hpart⟩, fun _ => ⟨hfile, more, hmore, hpart⟩⟩
    · -- too large for an archive
      exact ⟨⟨_, h⟩, nofun⟩

/-- **Writing an archive.**  Whatever fails, nothing has changed but what is at the target; and if nothing
is told of a failure, the target is an archive of what the source held. -/
theorem leads_writeArchive_alone (hnumbered : A.Numbered) (hrooted : A.Rooted) :
    Leads .alone (writeArchive format source target).run
      (fun r fs => ButFor (target.placeIn A.here) A fs ∧ (r = .ok () → n ≠ .directory ∧
        ∃ id archive, Slot.Target target id archive fs ∧
          format.ReadsAs source (A.bytesAt source) archive)) A := by
  refine leads_attempt (leads_request_alone rfl fun r fs hanswer => ?_)
  cases hanswer.unchanged rfl
  rcases r with e | input
  · exact ⟨.refl _ A, nofun⟩
  obtain ⟨p, n', hfound, rfl⟩ := FileSystem.openRead_eq (FileSystem.answers_openRead hanswer)
  obtain rfl : n' = n := Option.some.inj ((FileSystem.resolve_ok hfound).2.symm.trans hn)
  refine leads_closing_alone (leads_attempt (leads_request_alone rfl fun r fs hanswer => ?_))
  rcases FileSystem.answers_openWrite hanswer with ⟨e, rfl, rfl⟩ | ⟨output, rfl, hopen⟩
  · exact ⟨.refl _ fs, nofun⟩
  have hwriting := writing_openWrite hnumbered hopen
  refine leads_closing_alone ?_
  -- the rest, after the start of the archive was written
  have hrest : ∀ fs, Writing A target output (archiveParts format source).1 fs →
      Leads .alone (writeRest (archiveParts format source).2 (handleOf n') output).run
        (fun r fs => ButFor (target.placeIn A.here) A fs ∧ (r = .ok () → n' ≠ .directory ∧
          ∃ id archive, Slot.Target target id archive fs ∧
            format.ReadsAs source (A.bytesAt source) archive)) fs := by
    intro fs h
    refine (leads_writeRest_alone hn hapart h).mono ?_
    rintro r fs' ⟨⟨written, hwritten⟩, hok⟩
    refine ⟨hwritten.butFor, fun hr => ?_⟩
    obtain ⟨hfile, more, hmore, hall⟩ := hok hr
    obtain ⟨name, hname⟩ := FileSystem.fileName?_of_resolve hrooted hfound hfile
    have hreads := readsAs_archiveParts hname hmore
    rcases hall.output with ⟨-, hnil⟩ | ⟨id, -, -, htarget⟩
    · rw [hnil] at hreads
      exact absurd hreads not_readsAs_nil
    · exact ⟨hfile, id, _, htarget, hreads⟩
  show Leads _ (ExceptT.run (if (archiveParts format source).1.isEmpty then
    writeRest (archiveParts format source).2 (handleOf n') output
    else Routine.writeAll output (archiveParts format source).1 >>= fun _ =>
      writeRest (archiveParts format source).2 (handleOf n') output)) _ _
  split
  · rename_i hempty
    exact hrest fs (List.isEmpty_iff.mp hempty ▸ hwriting)
  · refine leads_attempt ((leads_writeAll_alone hwriting _).mono ?_)
    rintro r fs' ⟨part, hpart, hall⟩
    cases r with
    | error e => exact ⟨hpart.butFor, nofun⟩
    | ok u =>
      cases hall rfl
      exact hrest fs' hpart

end Reading

/-! ## Compressing -/

/-- What is there after a file was compressed. -/
structure Archived (format : ArchiveFormat) (source target : Path) (deleteSource : Bool)
    (A B : FileSystem) : Prop where
  here : B.here = A.here
  /-- A directory is not compressed. -/
  file : A.nodeAt source ≠ some .directory
  archive : ∃ id, B.nodeAt target = some (.file id) ∧
    format.ReadsAs source (A.bytesAt source) (B.content id).bytes
  gone : B.nodeAt source = none ↔ deleteSource = true
  present : B.present source = !deleteSource
  /-- Every other name is left, and no new one is given. -/
  names : ∀ p, p ≠ target.placeIn A.here → (deleteSource = true → p ≠ source.placeIn A.here) →
    B.node? p = A.node? p
  elsewhere : ∀ p, ¬ A.Coincide p (target.placeIn A.here) →
    (deleteSource = true → p ≠ source.placeIn A.here) → A.AgreeAt B p

/-- What is done where the source is there. -/
def compressPresent (format : ArchiveFormat) (source target : Path) (deleteSource : Bool) :
    Attempt Error Bool := do
  (writeArchive format source target).adapt fun e => .compressionFailed source (.io e)
  if deleteSource then (Routine.remove source).adapt fun e => .compressionFailed source (.sourceKept e)
  return true

theorem run_runCompress (format : ArchiveFormat) (source target : Path) (deleteSource : Bool) :
    (runCompress format source target deleteSource).run = .ask (.present source) fun there =>
      if there then (compressPresent format source target deleteSource).run else .done (.ok false) := by
  rfl

/-- The source has been taken away after its archive was written. -/
theorem archived_remove {id : Nat} {archive : Bytes} (hrooted : A.Rooted)
    (hn : A.nodeAt source = some n) (hfile : n ≠ .directory)
    (hapart : A.Apart source target) (h : ButFor (target.placeIn A.here) A fs)
    (htarget : Slot.Target target id archive fs)
    (hreads : format.ReadsAs source (A.bytesAt source) archive) (hremove : fs.remove source = .ok fs') :
    Archived format source target true A fs' := by
  have hsource : A.nodeAt source ≠ some .directory := by
    rw [hn]
    exact fun he => hfile (Option.some.inj he)
  obtain ⟨-, -, -, rfl⟩ := FileSystem.remove_ok hremove
  rw [h.here]
  have hgone : (fs.erase (source.placeIn A.here)).nodeAt source = none := by
    have hroot : source.placeIn A.here ≠ [] := FileSystem.ne_nil_of_not_below hapart.2
    show (fs.erase (source.placeIn A.here)).node? (source.placeIn fs.here) = none
    rw [h.here]
    exact FileSystem.node?_erase_self hroot
  -- nothing is below the source, which is no directory
  have hnode : ∀ p, p ≠ target.placeIn A.here → p ≠ source.placeIn A.here →
      (fs.erase (source.placeIn A.here)).node? p = A.node? p := by
    intro p hp hps
    by_cases hbelow : source.placeIn A.here <+: p
    · obtain ⟨rest, rfl⟩ := hbelow
      have hrest : rest ≠ [] := by
        rintro rfl
        exact hps (List.append_nil _)
      rw [FileSystem.node?_erase_of_below (List.prefix_append _ rest)
        (List.append_ne_nil_of_right_ne_nil _ hrest)]
      exact (hrooted.below hsource hrest).symm
    · rw [FileSystem.node?_erase_of_not_below hbelow, h.names p hp]
  refine ⟨h.here, hsource, ⟨id, ?_, ?_⟩, ⟨fun _ => rfl, fun _ => hgone⟩, ?_,
    fun p hp hps => hnode p hp (hps rfl), fun p hp hps => ⟨?_, ?_⟩⟩
  · show (fs.erase (source.placeIn A.here)).node? (target.placeIn fs.here) = some (.file id)
    rw [h.here, FileSystem.node?_erase_of_not_below hapart.2, ← h.here]
    exact htarget.node
  · show format.ReadsAs source (A.bytesAt source) (fs.content id).bytes
    rw [htarget.bytes]
    exact hreads
  · rw [Bool.not_true, ← Bool.not_eq_true]
    intro hpresent
    obtain ⟨n, hn⟩ := FileSystem.nodeAt_of_present hpresent
    rw [hgone] at hn
    cases hn
  · exact (hnode p (fun he => hp (.inl he)) (hps rfl)).symm
  · exact fun other hother => (h.contents p other hother hp).symm

/-- Where the source is there, an archive of it is made, or a failure that names it is told of and nothing
has changed but what is at the target. -/
theorem leads_compressPresent (format : ArchiveFormat) (deleteSource : Bool) (hnumbered : A.Numbered)
    (hrooted : A.Rooted) (hapart : A.Apart source target) (hthere : A.present source = true) :
    Leads .alone (compressPresent format source target deleteSource).run
      (fun r B => (r = .ok true ∧ Archived format source target deleteSource A B) ∨
        ∃ fault, r = .error (.compressionFailed source fault) ∧ ButFor (target.placeIn A.here) A B) A := by
  obtain ⟨n, hn⟩ := FileSystem.nodeAt_of_present hthere
  refine leads_attempt (leads_adapt ((leads_writeArchive_alone hn hapart hnumbered hrooted).mono ?_))
  rintro r fs ⟨hbutFor, hok⟩
  cases r with
  | error e => exact .inr ⟨_, rfl, hbutFor⟩
  | ok u =>
    obtain ⟨hfile, id, archive, htarget, hreads⟩ := hok rfl
    cases deleteSource with
    | false =>
      refine .inl ⟨rfl, hbutFor.here, ?_, ⟨id, htarget.node, ?_⟩, ?_, ?_, fun p hp _ => hbutFor.names p hp,
        fun p hp _ => hbutFor.agreeAt hp⟩
      · rw [hn]
        exact fun he => hfile (Option.some.inj he)
      · rw [htarget.bytes]
        exact hreads
      · have hkept : fs.nodeAt source = some n := by
          rw [FileSystem.nodeAt, hbutFor.here]
          exact hbutFor.kept _ _ hn
        rw [hkept]
        exact iff_of_false (Option.some_ne_none n) Bool.false_ne_true
      · exact FileSystem.present_of_kept hbutFor.here hbutFor.kept hthere
    | true =>
      refine leads_attempt (leads_adapt (leads_request_alone rfl fun r fs' hanswer => ?_))
      rcases FileSystem.answers_remove hanswer with ⟨e, rfl, rfl⟩ | ⟨rfl, hremove⟩
      · exact .inr ⟨_, rfl, hbutFor⟩
      · exact .inl ⟨rfl, archived_remove hrooted hn hfile hapart hbutFor htarget hreads hremove⟩

/-- A file is compressed where a look that did not fail found it, and else there is nothing to do. -/
theorem runAlone_compress (c : Conditions) (w : World) (format : ArchiveFormat) (source target : Path)
    (deleteSource : Bool) :
    World.runAlone c (execute (.compress format source target deleteSource)).run w =
      if c.fault w.ticks (.present source) = none ∧ w.files.present source = true then
        World.runAlone c (compressPresent format source target deleteSource).run
          { w with ticks := w.ticks + 1 }
      else (.ok false, { w with ticks := w.ticks + 1 }) := by
  show World.runAlone c (runCompress format source target deleteSource).run w = _
  rw [run_runCompress, World.runAlone, World.answer_respond rfl]
  cases hfault : c.fault w.ticks (.present source) with
  | some fault =>
    -- a look that fails finds nothing
    rw [if_neg fun h => Option.some_ne_none fault h.1]
    rfl
  | none =>
    have hanswer : w.files.respond none (.present source) = (w.files.present source, w.files) := rfl
    rw [hanswer]
    cases hthere : w.files.present source with
    | true =>
      rw [if_pos ⟨rfl, rfl⟩]
      rfl
    | false =>
      rw [if_neg fun h => Bool.false_ne_true h.2]
      rfl

/-- A world with one file, which has two names. -/
def oneFile : World :=
  .ofFiles ((FileSystem.ofFiles [(⟨"a.log"⟩, some [104, 105])]).link ⟨"a.log"⟩ ⟨"b.log"⟩)

/-- The first write of a run finds a full disk after some bytes. -/
def fullDisk : Conditions :=
  ⟨fun tick _ => if tick = 3 then some ⟨.storageFull, 7⟩ else none, fun _ => .epoch, fun _ => 0⟩

/-- What is not apart is lost.  A file is compressed to another name of its own: it is emptied when the
archive is opened, and the archive is one of nothing. -/
theorem compress_to_own_other_name : ¬ oneFile.files.Apart ⟨"a.log"⟩ ⟨"b.log"⟩ ∧
    ∃ w', World.runAlone (.calm .epoch) (execute (.compress .gzip ⟨"a.log"⟩ ⟨"b.log"⟩ true)).run oneFile =
        (.ok true, w') ∧
      w'.files.present ⟨"a.log"⟩ = false ∧
      Archive.Gzip.decode? (w'.files.bytesAt ⟨"b.log"⟩) = some [] :=
  ⟨by decide, _, rfl, by decide, by decide +kernel⟩

end Action

end LogRotation
