/-
  What a writer does to its files, told by the books.

  Each request of a writer leads from a page to a page, whatever it is answered with.  From that
  follows what opening, writing and closing lead to: the parts of which calls are made.

    * REQUESTS   one statement for each request of a writer;
    * FILES      making directories, opening a file at its end, adding to an empty buffer;
    * WORK       parts of a call, which may fail and keep what they changed before.
-/
import LogRotation.Proofs.Schedules
import LogRotation.Proofs.Work

namespace LogRotation

/-! ## Requests of a writer -/

namespace Page

variable {g : Page} {t : Slot} {x d : Path}

/-- Looking leads nowhere else, whatever is found. -/
theorem step_look {q : Request} {k : q.Reply → Page → Prop} (hq : q.isLook = true)
    (hk : ∀ r, k r g) : g.Step q k := by
  rw [step_file (Request.isFile_of_isLook hq)]
  intro fs hbooks r fs' hanswer
  cases hanswer.unchanged hq
  exact ⟨g, .refl hbooks, hk r⟩

theorem step_makeDirectory {k : Except IoError Unit → Page → Prop}
    (ht : t ∈ g.targets ++ g.current :: g.later) (hx : x ∈ t.paths) (hd : d ∈ x.above)
    (hk : ∀ r, k r g) : g.Step (.makeDirectory d) k := by
  intro fs hbooks r fs' hanswer
  rcases FileSystem.answers_makeDirectory hanswer with ⟨e, -, rfl⟩ | ⟨-, hmake⟩
  · exact ⟨g, .refl hbooks, hk r⟩
  · exact ⟨g, moves_makeDirectory hbooks ht hx hd hmake, hk r⟩

/-- Opening at the end leads to the page that it is known to lead to, or stays where it is. -/
theorem step_openWrite {k : Except IoError Handle → Page → Prop} {turned : Nat → Page}
    (hopen : ∀ fs, g.Books fs → ∀ handle fs', fs.openWrite x true = .ok (handle, fs') →
      ∃ id, handle = .file id ∧ g.Moves fs (turned id) fs')
    (herror : ∀ e, k (.error e) g) (hok : ∀ id, k (.ok (.file id)) (turned id)) :
    g.Step (.openWrite x true) k := by
  intro fs hbooks r fs' hanswer
  rcases FileSystem.answers_openWrite hanswer with ⟨e, rfl, rfl⟩ | ⟨handle, rfl, hsuccess⟩
  · -- nothing was opened, and nothing was made
    exact ⟨g, .refl hbooks, herror e⟩
  · obtain ⟨id, rfl, hmoves⟩ := hopen fs hbooks handle fs' hsuccess
    exact ⟨turned id, hmoves, hok id⟩

/-- What is written to the open file is acknowledged. -/
theorem step_write {k : Written → Page → Prop} {id : Nat} (hid : g.handle = some id) (bytes : Bytes)
    (hk : k ⟨bytes.length, none⟩ { g with acked := g.acked ++ bytes }) :
    g.Step (.write (.file id) bytes) k := by
  intro fs hbooks r fs' hanswer
  obtain ⟨taken, rfl, htaken, hspared⟩ := FileSystem.answers_write hanswer
  -- the program's own writes are spared, so that all was taken
  cases hspared rfl
  cases htaken rfl
  exact ⟨_, moves_append hbooks hid bytes, hk⟩

theorem step_rename {k : Except IoError Unit → Page → Prop} {skipped rest : List Slot}
    (htargets : g.targets = skipped ++ t :: rest) (herror : ∀ e, k (.error e) g)
    (hok : k (.ok ())
      { g with sealed := g.sealed ++ skipped ++ [t], targets := rest, handle := none }) :
    g.Step (.rename g.current.file t.file) k := by
  intro fs hbooks r fs' hanswer
  rcases FileSystem.answers_rename hanswer with ⟨e, rfl, rfl⟩ | ⟨rfl, hrename⟩
  · exact ⟨g, .refl hbooks, herror e⟩
  · exact ⟨_, moves_rename_later hbooks htargets hrename, hok⟩

end Page

namespace Routine

variable {g : Page} {t : Slot} {x : Path}

theorem meets_reply {ε : Type} {q : Request} {Q : Except ε q.Reply → Page → Prop}
    (h : g.Step q fun r g => Q (.ok r) g) : Meets (reply q : Attempt ε q.Reply).run Q g :=
  leads_lift h

theorem meets_makeDirectories {ds : List Path} {Q : Except IoError Unit → Page → Prop}
    (ht : t ∈ g.targets ++ g.current :: g.later) (hx : x ∈ t.paths) (hds : ∀ d ∈ ds, d ∈ x.above)
    (hQ : ∀ r, Q r g) : Meets (makeDirectories ds).run Q g :=
  leads_makeDirectories (fun _ => True)
    (fun d hd _ hk => Page.step_makeDirectory ht hx (hds d hd) hk)
    (fun d _ _ hk => Page.step_look (q := .isDirectory d) rfl fun there => hk there trivial) (hQ _) fun _ _ => hQ _

theorem meets_makeParents {Q : Except IoError Unit → Page → Prop}
    (ht : t ∈ g.targets ++ g.current :: g.later) (hx : x ∈ t.paths) (hQ : ∀ r, Q r g) :
    Meets (makeParents x).run Q g := by
  unfold makeParents
  split
  · rename_i parent hparent
    have habove : ∀ d ∈ parent.ancestors, d ∈ x.above := by
      intro d hd
      rw [Path.above, hparent]
      exact hd
    exact meets_makeDirectories ht hx habove hQ
  · exact hQ _

/-- Opening a file at its end, after making the directories above it. -/
theorem meets_openAppend {turned : Nat → Page} {Q : Except IoError Buffered → Page → Prop}
    (ht : t ∈ g.targets ++ g.current :: g.later)
    (hopen : ∀ fs, g.Books fs → ∀ handle fs', fs.openWrite t.file true = .ok (handle, fs') →
      ∃ id, handle = .file id ∧ g.Moves fs (turned id) fs')
    (herror : ∀ e, Q (.error e) g) (hok : ∀ id, Q (.ok ⟨.file id, []⟩) (turned id)) :
    Meets (openAppend t.file).run Q g := by
  refine leads_attempt (meets_makeParents ht t.file_mem_paths fun r => ?_)
  cases r with
  | error e => exact herror e
  | ok u => exact leads_attempt (Page.step_openWrite hopen herror hok)

theorem meets_openCurrent {Q : Except IoError Buffered → Page → Prop}
    (herror : ∀ e, Q (.error e) g)
    (hok : ∀ id, Q (.ok ⟨.file id, []⟩) { g with handle := some id }) :
    Meets (openAppend g.current.file).run Q g := by
  refine meets_openAppend Page.current_mem_open ?_ herror hok
  intro fs hbooks handle fs' hopen
  exact Page.moves_open hbooks hopen

theorem meets_openLater {skipped rest : List Slot} {Q : Except IoError Buffered → Page → Prop}
    (htargets : g.targets = []) (hlater : g.later = skipped ++ t :: rest)
    (herror : ∀ e, Q (.error e) g)
    (hok : ∀ id, Q (.ok ⟨.file id, []⟩)
      ⟨g.sealed ++ g.current :: skipped, [], t, rest, some id, g.acked⟩) :
    Meets (openAppend t.file).run Q g := by
  have ht : t ∈ g.targets ++ g.current :: g.later := by
    rw [hlater]
    simp
  refine meets_openAppend ht ?_ herror hok
  intro fs hbooks handle fs' hopen
  exact Page.moves_turn hbooks htargets hlater hopen

/-! ## Buffers with nothing pending -/

/-- What is added to an empty buffer is pending in it, or acknowledged already. -/
theorem meets_add {id : Nat} (hid : g.handle = some id) (bytes : Bytes)
    {Q : Except IoError Unit × Buffered → Page → Prop}
    (hpending : Q (.ok (), ⟨.file id, bytes⟩) g)
    (hwritten : Q (.ok (), ⟨.file id, []⟩) { g with acked := g.acked ++ bytes }) :
    Meets (Buffered.add ⟨.file id, []⟩ bytes) Q g := by
  have hempty : Buffered.flush ⟨.file id, []⟩ = done (.ok (), ⟨.file id, []⟩) := rfl
  simp only [Buffered.add, hempty, pure_eq, done_bind, ite_self]
  split
  · -- they fit into the buffer
    exact hpending
  · -- they are as many as the buffer takes, and pass it by
    exact Leads.bind (Page.step_write hid bytes hwritten)

theorem meets_flush {id : Nat} (hid : g.handle = some id) (bytes : Bytes)
    {Q : Except IoError Unit × Buffered → Page → Prop}
    (hwritten : Q (.ok (), ⟨.file id, []⟩) { g with acked := g.acked ++ bytes }) :
    Meets (Buffered.flush ⟨.file id, bytes⟩) Q g := by
  unfold Buffered.flush
  split
  · rename_i hempty
    have hnil : bytes = [] := List.isEmpty_iff.mp hempty
    subst hnil
    rw [List.append_nil] at hwritten
    exact hwritten
  · refine Leads.bind (Page.step_write hid bytes ?_)
    show Q (.ok (), ⟨.file id, bytes.drop bytes.length⟩) _
    rw [List.drop_length]
    exact hwritten

end Routine

namespace Writer

/-! ## Work -/

namespace Work

variable {α : Type} {w : Writer} {g : Page}

/-- Holds of work that, from a writer and a page on, ends with a writer and on a page where
something holds of its result. -/
abbrev Meets (x : Work α) (Q : Except Error α → Writer → Page → Prop) (w : Writer) (g : Page) :
    Prop :=
  x.Leads Page.regime Q w g

/-! ## Files of a writer -/

/-- Holds of a writer whose file, if it has one, is the open one, with nothing pending. -/
def Linked (w : Writer) (g : Page) : Prop :=
  ∀ f, w.file = some f → ∃ id, f = ⟨.file id, []⟩ ∧ g.handle = some id

theorem meets_closeFile {Q : Except Error Unit → Writer → Page → Prop} (hlinked : Linked w g)
    (hQ : Q (.ok ()) { w with file := none } g) : closeFile.Meets Q w g := by
  refine Leads.bind (leads_get ?_)
  dsimp only
  split
  · -- there is no file to close
    rename_i hnone
    have hw : { w with file := none } = w := by rw [← hnone]
    rw [hw] at hQ
    exact hQ
  · rename_i f hf
    obtain ⟨id, rfl, hid⟩ := hlinked f hf
    refine Leads.bind (leads_modify (Leads.bind (leads_ofRoutine ?_)))
    refine Leads.bind (leads_ofRoutine ?_)
    exact Page.step_look (q := .close _) rfl fun _ => hQ

/-- The file of a writer is there in the end, or it could not be opened. -/
theorem meets_needFile {Q : Except Error Buffered → Writer → Page → Prop} (hlinked : Linked w g)
    (hpath : w.path = g.current.file) (herror : ∀ e, Q (.error e) w g)
    (hok : ∀ id, Q (.ok ⟨.file id, []⟩) { w with file := some ⟨.file id, []⟩ }
      { g with handle := some id }) : needFile.Meets Q w g := by
  refine Leads.bind (leads_get ?_)
  dsimp only
  split
  · -- the file is open already
    rename_i f hf
    obtain ⟨id, rfl, hid⟩ := hlinked f hf
    have hopened := hok id
    rwa [← hf, ← hid] at hopened
  · refine Leads.bind (leads_get (Leads.bind (leads_ofAttempt ?_)))
    rw [hpath]
    refine Routine.meets_openCurrent (fun e => herror _) fun id => ?_
    exact Leads.bind (leads_modify (hok id))

/-- Bytes are added to the current file, unless it cannot be opened. -/
theorem meets_append {Q : Except Error Unit → Writer → Page → Prop} (hlinked : Linked w g)
    (hpath : w.path = g.current.file) (bytes : Bytes) (herror : ∀ e, Q (.error e) w g)
    (hok : ∀ id, Q (.ok ()) { w with file := some ⟨.file id, []⟩ }
      { g with handle := some id, acked := g.acked ++ bytes }) : (append bytes).Meets Q w g := by
  refine Leads.bind (meets_needFile hlinked hpath herror fun id => ?_)
  refine Leads.bind (leads_ofRoutine (Routine.meets_add rfl bytes ?_ ?_))
  · -- the bytes are pending, and are written when the buffer is flushed
    refine Leads.bind (leads_keepFile (Leads.bind (Leads.bind (leads_get ?_))))
    refine Leads.bind (leads_ofRoutine (Routine.meets_flush rfl bytes ?_))
    exact leads_keepFile (hok id)
  · -- the bytes were written, and nothing is left for the flush
    refine Leads.bind (leads_keepFile (Leads.bind (Leads.bind (leads_get ?_))))
    refine Leads.bind (leads_ofRoutine (Routine.meets_flush rfl [] ?_))
    refine leads_keepFile ?_
    rw [List.append_nil]
    exact hok id

end Work

end Writer

end LogRotation
