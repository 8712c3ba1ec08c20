/-
  What a log writes, in the order in which it is written.

  Whatever a program asks, the answers tell what came of it.  A journal keeps the instants that the clock
  showed and the bytes that were taken, each time with the file that took them.  A writer that holds
  nothing back, as every writer does until a write fails, makes one stroke in the journal for each call
  that succeeds, rollover or not.

    * FOLLOW    something told of a run, request by request, whatever the answers are;
    * STROKE    the bytes that a file took at once, and the path at which it was opened last;
    * CLEAR     a writer that holds nothing back, whose file is the one that was opened last;
    * EACH      one record after the other, each at the time that the clock shows.

  Main statement: `journaled_recordEach`.
-/
import LogRotation.Proofs.Durability
import LogRotation.Proofs.Tales

namespace LogRotation

variable {S α : Type} {c : Conditions}

/-! ## Following a run -/

/-- Something is told of each request and its answer, and a request may be answered with all that can be
given. -/
def Regime.following (after : S → (q : Request) → q.Reply → S) : Regime S where
  step s q k := ∀ r, q.Fair r → k r (after s q r)
  mono h hk := fun r hr => hk r _ (h r hr)

theorem Routine.leads_following {after : S → (q : Request) → q.Reply → S} (r : Routine α)
    {Q : α → S → Prop} {s : S} (hQ : ∀ a s, Q a s) : r.Leads (.following after) Q s := by
  induction r generalizing s with
  | done a => exact hQ a s
  | ask q next ih => exact fun r _ => ih r

/-- What is told of a run of a routine. -/
def World.follow (c : Conditions) (after : S → (q : Request) → q.Reply → S) :
    Routine α → World → S → S
  | .done _, _, s => s
  | .ask q next, w, s =>
    let (r, w) := (turns c (c.turns w.ticks) w).perform c q
    follow c after (next r) w (after s q r)

/-- What a routine leads to for all answers, it leads to in every run. -/
theorem World.follow_run {after : S → (q : Request) → q.Reply → S} {r : Routine α} {Q : α → S → Prop}
    {w : World} {s : S} (h : r.Leads (.following after) Q s) : Q (run c r w).1 (follow c after r w s) := by
  induction r generalizing w s with
  | done a => exact h
  | ask q next ih => exact ih _ (h _ (fair_perform _ q))

/-- A result that is only told differently leaves behind what was told. -/
theorem World.follow_map {β : Type} {after : S → (q : Request) → q.Reply → S} (f : α → β)
    (r : Routine α) (w : World) (s : S) : follow c after (f <$> r) w s = follow c after r w s := by
  induction r generalizing w s with
  | done a => rfl
  | ask q next ih => exact ih _ _ _

/-! ## Journals -/

/-- Bytes that an open file took at once. -/
structure Stroke where
  /-- The path at which the file was opened, if no other was opened since. -/
  path : Option Path
  handle : Handle
  bytes : Bytes
  deriving DecidableEq, Repr

/-- What was written, and when it was asked for. -/
structure Journal where
  /-- The file that was opened last. -/
  last : Option (Path × Handle)
  /-- The instants that the clock showed. -/
  shown : List Instant
  strokes : List Stroke
  deriving DecidableEq, Repr

namespace Journal

/-- Nothing was written yet. -/
def blank : Journal := ⟨none, [], []⟩

/-- The path at which a file was opened, if it was the last. -/
def pathOf (j : Journal) (h : Handle) : Option Path :=
  match j.last with
  | some (p, h') => if h' = h then some p else none
  | none => none

/-- A file took bytes. -/
def wrote (j : Journal) (h : Handle) (bytes : Bytes) : Journal :=
  { j with strokes := j.strokes ++ [⟨j.pathOf h, h, bytes⟩] }

/-- A journal goes on with a request and its answer. -/
def after (j : Journal) : (q : Request) → q.Reply → Journal
  | .clock, now => { j with shown := j.shown ++ [now] }
  | .openWrite p _, r =>
    match r with
    | .ok h => { j with last := some (p, h) }
    | .error _ => j
  | .write h bytes, r => j.wrote h (bytes.take r.count)
  | _, _ => j

end Journal

/-- Runs of which a journal is kept. -/
abbrev Regime.journaled : Regime Journal := .following Journal.after

namespace World

/-- The journal of a run, going on from a journal. -/
def journal (c : Conditions) (r : Routine α) (w : World) (j : Journal) : Journal :=
  follow c Journal.after r w j

/-- What a journal tells of a write is what comes to the end of the file, whether it fails or not. -/
theorem content_perform_write (w : World) (id : Nat) (bytes : Bytes) :
    let ended := w.perform c (.write (.file id) bytes)
    (ended.2.files.content id).bytes = (w.files.content id).bytes ++ bytes.take ended.1.count := by
  intro ended
  have hended : ended = w.answer c (.write (.file id) bytes) := rfl
  clear_value ended
  subst hended
  unfold answer
  dsimp only
  cases c.fault w.ticks (.write (.file id) bytes) with
  | none =>
    show ((w.files.setContent id ((w.files.content id).append bytes)).content id).bytes =
      _ ++ bytes.take bytes.length
    rw [FileSystem.content_setContent_self, Content.bytes_append, List.take_length]
  | some fault =>
    show ((w.files.setContent id ((w.files.content id).append (bytes.take fault.taken))).content
      id).bytes = _ ++ bytes.take (bytes.take fault.taken).length
    rw [FileSystem.content_setContent_self, Content.bytes_append, List.length_take, List.take_eq_take_min]

end World

/-! ## Files -/

namespace Routine

variable {j : Journal}

theorem journaled_makeParents (x : Path) {Q : Except IoError Unit → Journal → Prop}
    (hQ : ∀ r, Q r j) : Leads .journaled (makeParents x).run Q j := by
  unfold makeParents
  split
  · exact leads_makeDirectories (fun _ => True) (fun _ _ _ hk r _ => hk r)
      (fun _ _ _ hk there _ => hk there trivial) (hQ _) fun _ _ => hQ _
  · exact hQ _

theorem journaled_openAppend (x : Path) {Q : Except IoError Buffered → Journal → Prop}
    (herror : ∀ e, Q (.error e) j) (hok : ∀ h, Q (.ok ⟨h, []⟩) { j with last := some (x, h) }) :
    Leads .journaled (openAppend x).run Q j := by
  refine leads_attempt (journaled_makeParents x fun r => ?_)
  cases r with
  | error e => exact herror e
  | ok u =>
    refine leads_attempt fun r _ => ?_
    cases r with
    | error e => exact herror e
    | ok h => exact hok h

end Routine

/-- Moving a file is no matter of the journal. -/
theorem Action.journaled_move (source target : Path) {j : Journal} {Q : Except Error Unit → Journal → Prop}
    (hQ : ∀ r, Q r j) : Routine.Leads .journaled (executeAll [.rename source target true]).run Q j := by
  refine Routine.leads_attempt (Routine.leads_attempt (Routine.leads_lift fun there _ => ?_))
  cases there with
  | false => exact hQ _
  | true =>
    refine Routine.leads_attempt (Routine.leads_adapt (Routine.journaled_makeParents _ fun made => ?_))
    cases made with
    | error e => exact hQ _
    | ok u =>
      refine Routine.leads_attempt (Routine.leads_lift fun moved _ => ?_)
      cases moved <;> exact hQ _

namespace Buffered

variable {j : Journal} {f : Buffered}

/-- A write that reports no failure has taken all bytes. -/
theorem count_of_outcome {h : Handle} {bytes : Bytes} {w : Written}
    (hfair : Request.Fair (.write h bytes) w) (hok : outcome w = .ok ()) : w.count = bytes.length := by
  refine hfair ?_
  cases hw : w.failure with
  | none => rfl
  | some e => simp [outcome, hw] at hok

/-- What is pending is one stroke, if it is all taken. -/
theorem journaled_flush (f : Buffered) : f.flush.Leads .journaled (fun r j' => r.1 = .ok () →
    r.2 = { f with pending := [] } ∧ j' = if f.pending = [] then j else j.wrote f.handle f.pending) j := by
  unfold flush
  by_cases hempty : f.pending = []
  · rw [if_pos (List.isEmpty_iff.mpr hempty)]
    intro _
    rw [if_pos hempty, ← hempty]
    exact ⟨rfl, rfl⟩
  · rw [if_neg fun h => hempty (List.isEmpty_iff.mp h), if_neg hempty]
    intro w hfair hok
    have hall := count_of_outcome hfair hok
    refine ⟨?_, ?_⟩
    · show { f with pending := f.pending.drop w.count } = _
      rw [hall, List.drop_length]
    · show j.wrote f.handle (f.pending.take w.count) = _
      rw [hall, List.take_length]

/-- A buffer that holds nothing has nothing to write out. -/
theorem flush_of_empty (hempty : f.pending = []) : f.flush = pure (.ok (), f) :=
  if_pos (List.isEmpty_iff.mpr hempty)

theorem journaled_idle (hempty : f.pending = []) :
    f.flush.Leads .journaled (fun r j' => r = (.ok (), f) ∧ j' = j) j := by
  rw [flush_of_empty hempty]
  exact ⟨rfl, rfl⟩

theorem journaled_release (hempty : f.pending = []) :
    f.release.Leads .journaled (fun _ j' => j' = j) j := by
  rw [release, flush_of_empty hempty]
  exact fun _ _ => rfl

/-- Bytes that are added to an empty buffer are pending, or were taken at once. -/
theorem journaled_add (hempty : f.pending = []) (bytes : Bytes) :
    (f.add bytes).Leads .journaled (fun r j' => r.1 = .ok () →
      (r.2 = { f with pending := bytes } ∧ j' = j) ∨
      (bytes ≠ [] ∧ r.2 = f ∧ j' = j.wrote f.handle bytes)) j := by
  have hput : Routine.Leads .journaled (if bytes.length < capacity
      then pure (.ok (), { f with pending := f.pending ++ bytes })
      else Routine.request (.write f.handle bytes) >>= fun w => pure (outcome w, f))
      (fun r j' => r.1 = .ok () → (r.2 = { f with pending := bytes } ∧ j' = j) ∨
        (bytes ≠ [] ∧ r.2 = f ∧ j' = j.wrote f.handle bytes)) j := by
    by_cases hsmall : bytes.length < capacity
    · rw [if_pos hsmall, hempty]
      exact fun _ => .inl ⟨rfl, rfl⟩
    · rw [if_neg hsmall]
      intro w hfair hok
      refine .inr ⟨?_, rfl, ?_⟩
      · rintro rfl
        exact hsmall (by decide)
      · show j.wrote f.handle (bytes.take w.count) = _
        rw [count_of_outcome hfair hok, List.take_length]
  -- there is nothing to write out first
  unfold add
  rw [flush_of_empty hempty, ite_self]
  exact hput

end Buffered

/-! ## Calls -/

namespace Writer

namespace Work

variable {w w' w'' : Writer} {j j' j'' : Journal}

/-- Holds of a writer that holds nothing back, and whose file is the one that was opened last. -/
def Clear (w : Writer) (j : Journal) : Prop :=
  ∀ f, w.file = some f → f.pending = [] ∧ j.last = some (w.path, f.handle)

/-- `Adds times records w j w' j'` - the clock has shown these times, and each of the records is one new
stroke of a file that was the last one to be opened; nothing is held back. -/
structure Adds (times : List Instant) (records : List Bytes) (w : Writer) (j : Journal) (w' : Writer)
    (j' : Journal) : Prop where
  clear : Clear w' j'
  stamps : ∀ e : Entry, e.bytes w'.policy = e.bytes w.policy
  shown : j'.shown = j.shown ++ times
  strokes : ∃ new, j'.strokes = j.strokes ++ new ∧ new.map Stroke.bytes = records ∧
    ∀ s ∈ new, s.path.isSome = true

theorem Adds.nothing (h : Clear w' j') (hstamps : ∀ e : Entry, e.bytes w'.policy = e.bytes w.policy)
    (hshown : j'.shown = j.shown) (hstrokes : j'.strokes = j.strokes) : Adds [] [] w j w' j' :=
  ⟨h, hstamps, hshown.trans (List.append_nil _).symm, [], hstrokes.trans (List.append_nil _).symm, rfl,
    nofun⟩

theorem Adds.trans {times times' : List Instant} {records records' : List Bytes}
    (h : Adds times records w j w' j') (h' : Adds times' records' w' j' w'' j'') :
    Adds (times ++ times') (records ++ records') w j w'' j'' := by
  obtain ⟨new, hstrokes, hrecords, hpaths⟩ := h.strokes
  obtain ⟨new', hstrokes', hrecords', hpaths'⟩ := h'.strokes
  refine ⟨h'.clear, fun e => (h'.stamps e).trans (h.stamps e), ?_, new ++ new', ?_, ?_, ?_⟩
  · rw [h'.shown, h.shown, List.append_assoc]
  · rw [hstrokes', hstrokes, List.append_assoc]
  · rw [List.map_append, hrecords, hrecords']
  · intro s hs
    exact (List.mem_append.mp hs).elim (hpaths s) (hpaths' s)

/-- A policy that stamps alike may stand for another. -/
theorem Adds.of_stamps {v : Writer} {times : List Instant} {records : List Bytes}
    (h : Adds times records v j w' j') (hstamps : ∀ e : Entry, e.bytes v.policy = e.bytes w.policy) :
    Adds times records w j w' j' :=
  ⟨h.clear, fun e => (h.stamps e).trans (hstamps e), h.shown, h.strokes⟩

/-- A record is told of with the time that was asked for it. -/
theorem Adds.of_shown {now : Instant} {records : List Bytes}
    (h : Adds [] records w (j.after .clock now) w' j') : Adds [now] records w j w' j' :=
  ⟨h.clear, h.stamps, h.shown.trans (List.append_nil _), h.strokes⟩

theorem journaled_closeFile (h : Clear w j) :
    closeFile.Leads .journaled (fun _ w' j' => w' = { w with file := none } ∧ j' = j) w j := by
  refine Leads.bind (leads_get ?_)
  dsimp only
  split
  · rename_i hnone
    refine ⟨?_, rfl⟩
    rw [← hnone]
  · rename_i f hf
    have hempty := (h f hf).1
    refine Leads.bind (leads_modify (Leads.bind (leads_ofRoutine ?_)))
    refine (Buffered.journaled_idle hempty).mono ?_
    rintro r j' ⟨rfl, rfl⟩
    refine Leads.bind (leads_ofRoutine ((Buffered.journaled_release hempty).mono ?_))
    rintro u j' rfl
    exact ⟨rfl, rfl⟩

/-- A file that is opened makes the writer clear. -/
theorem journaled_openFile (x : Path) : (openFile x).Leads .journaled
    (fun r w' j' => r = .ok () → Adds [] [] w j w' j') w j := by
  refine leads_openFile (Routine.journaled_openAppend x (fun e => nofun) fun handle _ => ?_)
  refine .nothing ?_ (fun _ => rfl) rfl rfl
  rintro f ⟨⟩
  exact ⟨rfl, rfl⟩

/-- What follows where a period is over. -/
theorem journaled_crossing (h : Clear w j) {rollover : Rollover}
    (hbefore : rollover.before = [] ∨ ∃ active target, w.policy.fixedFile = some active ∧
      rollover.before = [.rename active target true]) :
    Leads .journaled (do
      closeFile
      let moved ← ofRoutine (Action.executeAll rollover.before).run
      openFile rollover.activeFile
      ofExcept moved
      unless rollover.background.isEmpty do
        ofRoutine (Routine.request (.submit rollover.background)))
      (fun r w' j' => r = .ok () → Adds [] [] w j w' j') w j := by
  refine Leads.bind ((journaled_closeFile h).mono ?_)
  rintro r w₁ j₁ ⟨rfl, rfl⟩
  cases r with
  | error e => exact nofun
  | ok u =>
    have hmoved : Routine.Leads .journaled (Action.executeAll rollover.before).run
        (fun _ j' => j' = j₁) j₁ := by
      rcases hbefore with hnone | ⟨active, target, -, hmove⟩
      · rw [hnone]
        exact rfl
      · rw [hmove]
        exact Action.journaled_move active target fun _ => rfl
    refine Leads.bind (leads_ofRoutine (hmoved.mono ?_))
    rintro moved j₂ rfl
    refine Leads.bind ((journaled_openFile _).mono ?_)
    intro r w₂ j₃ hopened
    cases r with
    | error e => exact nofun
    | ok u =>
      have hopened : Adds [] [] w j₂ w₂ j₃ := (hopened rfl).of_stamps fun _ => rfl
      refine Leads.bind (leads_ofExcept ?_)
      cases moved with
      | error e => exact nofun
      | ok u =>
        dsimp only
        by_cases hnone : rollover.background.isEmpty = true
        · rw [if_pos hnone]
          exact fun _ => hopened
        · rw [if_neg hnone]
          exact leads_ofRoutine fun _ _ _ => hopened

/-- **One look.**  A rollover that succeeds writes nothing and leaves the writer clear. -/
theorem journaled_roll (h : Clear w j) (now : Int) :
    (roll now).Leads .journaled (fun r w' j' => r = .ok () → Adds [] [] w j w' j') w j := by
  refine Leads.bind (leads_get ?_)
  dsimp only
  by_cases hdue : w.policy.isDue now = true
  · rw [if_pos hdue]
    have hclear : Clear { w with policy := w.policy.looked now } j := h
    have hstamps : ∀ e : Entry, e.bytes (w.policy.looked now) = e.bytes w.policy := by
      intro e
      cases e <;> rfl
    have hlooked : ∀ written, Leads .journaled (do
        if (w.policy.rollover now written).1.crossed then
          closeFile
          let moved ← ofRoutine (Action.executeAll (w.policy.rollover now written).1.before).run
          openFile (w.policy.rollover now written).1.activeFile
          ofExcept moved
          unless (w.policy.rollover now written).1.background.isEmpty do
            ofRoutine (Routine.request (.submit (w.policy.rollover now written).1.background))
        else if (w.policy.rollover now written).1.activeFile.components ≠ (← get).path.components then
          closeFile
          openFile (w.policy.rollover now written).1.activeFile)
        (fun r w' j' => r = .ok () → Adds [] [] w j w' j')
        { w with policy := w.policy.looked now } j := by
      intro written
      by_cases hcrossed : (w.policy.rollover now written).1.crossed = true
      · rw [if_pos hcrossed]
        refine (journaled_crossing hclear (w.policy.before_rollover now written)).mono ?_
        intro r w' j' hadds hok
        exact (hadds hok).of_stamps hstamps
      · rw [if_neg hcrossed]
        refine Leads.bind (leads_get ?_)
        dsimp only
        by_cases hpath : (w.policy.rollover now written).1.activeFile.components ≠ w.path.components
        · rw [if_pos hpath]
          refine Leads.bind ((journaled_closeFile hclear).mono ?_)
          rintro r w₁ j₁ ⟨rfl, rfl⟩
          cases r with
          | error e => exact nofun
          | ok u =>
            refine (journaled_openFile _).mono ?_
            intro r w' j' hadds hok
            exact (hadds hok).of_stamps hstamps
        · rw [if_neg hpath]
          exact fun _ => .nothing h hstamps rfl rfl
    exact Leads.bind (leads_consult (fun _ written _ => hlooked written) fun _ => hlooked false)
  · rw [if_neg hdue]
    exact fun _ => .nothing h (fun _ => rfl) rfl rfl

theorem journaled_needFile (h : Clear w j) : needFile.Leads .journaled
    (fun r w' j' => ∀ f, r = .ok f → w'.file = some f ∧ Adds [] [] w j w' j') w j := by
  refine Leads.bind (leads_get ?_)
  dsimp only
  split
  · rename_i f hf
    rintro f' ⟨⟩
    exact ⟨hf, .nothing h (fun _ => rfl) rfl rfl⟩
  · refine Leads.bind (leads_get (Leads.bind (leads_ofAttempt ?_)))
    refine Routine.journaled_openAppend _ (fun e => nofun) fun handle => ?_
    refine Leads.bind (leads_modify ?_)
    rintro f ⟨⟩
    refine ⟨rfl, .nothing ?_ (fun _ => rfl) rfl rfl⟩
    rintro f ⟨⟩
    exact ⟨rfl, rfl⟩

/-- The writer's file took a record at once. -/
theorem adds_wrote {f : Buffered} {bytes : Bytes} {file : Buffered} (hlast : j.last = some (w.path, f.handle))
    (hfile : file = { f with pending := [] }) :
    Adds [] [bytes] w j { w with file := some file } (j.wrote f.handle bytes) := by
  have hpath : j.pathOf f.handle = some w.path := by
    rw [Journal.pathOf, hlast]
    exact if_pos rfl
  refine ⟨?_, fun _ => rfl, (List.append_nil _).symm, [⟨j.pathOf f.handle, f.handle, bytes⟩], rfl, rfl, ?_⟩
  · rintro f' ⟨⟩
    rw [hfile]
    exact ⟨rfl, hlast⟩
  · intro s hs
    rw [List.mem_singleton.mp hs, hpath]
    rfl

/-- A record that is added and flushed is one stroke, small or large. -/
theorem journaled_append (h : Clear w j) {bytes : Bytes} (hbytes : bytes ≠ []) :
    (append bytes).Leads .journaled (fun r w' j' => r = .ok () → Adds [] [bytes] w j w' j') w j := by
  refine Leads.bind ((journaled_needFile h).mono ?_)
  intro r w₁ j₁ hneeded
  cases r with
  | error e => exact nofun
  | ok f =>
    obtain ⟨hfile, hadds⟩ := hneeded f rfl
    obtain ⟨hempty, hlast⟩ := hadds.clear f hfile
    refine Leads.bind (leads_ofRoutine ((Buffered.journaled_add hempty bytes).mono ?_))
    rintro ⟨r, f₂⟩ j₂ hadded
    refine Leads.bind (leads_keepFile ?_)
    cases r with
    | error e => exact nofun
    | ok u =>
      -- the same file is flushed
      refine Leads.bind (Leads.bind (leads_get ?_))
      refine leads_pure (Leads.bind (leads_ofRoutine ?_))
      refine (Buffered.journaled_flush f₂).mono ?_
      rintro ⟨r, f₃⟩ j₃ hflushed
      refine leads_keepFile fun hok => ?_
      have hr : r = .ok () := by
        cases r with
        | error e => cases hok
        | ok u => rfl
      obtain ⟨hf₃, hj₃⟩ := hflushed hr
      have hf₃ : f₃ = { f₂ with pending := [] } := hf₃
      refine hadds.trans ?_
      rcases hadded rfl with ⟨hf₂, rfl⟩ | ⟨-, hf₂, rfl⟩
      · -- the record was pending
        have hf₂ : f₂ = { f with pending := bytes } := hf₂
        rw [hj₃, hf₂, if_neg hbytes]
        refine adds_wrote hlast ?_
        rw [hf₃, hf₂]
      · -- the record did not go through the buffer
        have hf₂ : f₂ = f := hf₂
        rw [hj₃, hf₂, if_pos hempty]
        refine adds_wrote hlast ?_
        rw [hf₃, hf₂]

/-- **One call** that succeeds makes one stroke. -/
theorem journaled_record (h : Clear w j) (now : Int) {bytes : Bytes} (hbytes : bytes ≠ []) :
    (record now bytes).Leads .journaled (fun r w' j' => r = .ok () → Adds [] [bytes] w j w' j') w j := by
  refine Leads.bind ((journaled_roll h now).mono ?_)
  intro r w₁ j₁ hrolled
  cases r with
  | error e => exact nofun
  | ok u =>
    have hrolled := hrolled rfl
    refine Leads.bind ((journaled_append hrolled.clear hbytes).mono ?_)
    intro r w₂ j₂ happended
    cases r with
    | error e => exact nofun
    | ok u =>
      have hall := hrolled.trans (happended rfl)
      exact leads_showRecord fun tail _ => ⟨hall.clear, hall.stamps, hall.shown, hall.strokes⟩

end Work

/-! ## Records at the present time -/

/-- Asks for one record after the other, each at the time that the clock shows, whatever comes of
them. -/
def recordEach (make : α → Instant → Entry) : List α → Writer → Routine (List (Except Error Unit) × Writer)
  | [], w => return ([], w)
  | a :: rest, w => do
    let now ← Routine.request .clock
    let (result, w) ← (make a now).write w
    let (results, w) ← recordEach make rest w
    return (result :: results, w)

variable {w : Writer} {j : Journal}

/-- A log that was opened holds nothing back. -/
theorem clear_ofPolicy (p : Policy) : (ofPolicy p).run.Leads .journaled
    (fun r j' => ∀ w, r = .ok w → Work.Clear w j' ∧ j'.strokes = j.strokes) j := by
  refine Routine.leads_attempt (Routine.leads_adapt ?_)
  refine Routine.journaled_openAppend _ (fun e => nofun) fun handle => ?_
  rintro w ⟨⟩
  refine ⟨?_, rfl⟩
  rintro f ⟨⟩
  exact ⟨rfl, rfl⟩

theorem journaled_write (h : Work.Clear w j) {e : Entry} (he : e.bytes w.policy ≠ []) :
    (e.write w).Leads .journaled
      (fun r j' => r.1 = .ok () → Work.Adds [] [e.bytes w.policy] w j r.2 j') j := by
  cases e with
  | line text now => exact Work.journaled_record h _ he
  | raw bytes now => exact Work.journaled_record h _ he

/-- **Record after record.**  If all succeed, they are the strokes of the journal, in their order. -/
theorem journaled_recordEach (make : α → Instant → Entry) {as : List α} (h : Work.Clear w j)
    (hmake : ∀ a ∈ as, ∀ now p, (make a now).bytes p ≠ []) :
    (recordEach make as w).Leads .journaled (fun r j' => (∀ result ∈ r.1, result = .ok ()) →
      ∃ times, times.length = as.length ∧
        Work.Adds times (List.zipWith (fun a now => (make a now).bytes w.policy) as times) w j r.2 j') j := by
  induction as generalizing w j with
  | nil => exact fun _ => ⟨[], rfl, .nothing h (fun _ => rfl) rfl rfl⟩
  | cons a rest ih =>
    refine Routine.Leads.bind (f := fun now => _) ?_
    intro now _
    have hnow : Work.Clear w (j.after .clock now) := h
    refine Routine.Leads.bind
      ((journaled_write hnow (hmake a List.mem_cons_self now w.policy)).mono ?_)
    rintro ⟨result, w₁⟩ j₁ hone
    refine Routine.Leads.bind ?_
    cases result with
    | error e =>
      -- then not all succeed
      refine Routine.leads_following _ fun r j' hall => ?_
      cases hall _ List.mem_cons_self
    | ok u =>
      have hone : Work.Adds [now] [(make a now).bytes w.policy] w j w₁ j₁ := (hone rfl).of_shown
      refine (ih hone.clear fun a ha => hmake a (List.mem_cons_of_mem _ ha)).mono ?_
      intro r j₂ hrest hall
      obtain ⟨times, htimes, hadds⟩ := hrest fun result hmem => hall result (List.mem_cons_of_mem _ hmem)
      refine ⟨now :: times, congrArg (· + 1) htimes, ?_⟩
      have hstamps : (fun a now => (make a now).bytes w₁.policy) = fun a now => (make a now).bytes w.policy :=
        funext fun a => funext fun now => hone.stamps (make a now)
      rw [hstamps] at hadds
      exact hone.trans hadds

end Writer

end LogRotation
