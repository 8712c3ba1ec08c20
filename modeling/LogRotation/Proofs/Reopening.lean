/-
  A writer and its policy, when opening the next file may fail.

  The policy goes on to the next period before the writer does.  Where the next file is then not
  opened, the writer is left behind until a look finds that; a look comes once in a second, and records
  before it go to the old file.

    * ROLLED    what a look at the clock, and what follows from it, leaves behind, whatever fails;
    * CALLS     one call after the other, each with its own tale;
    * IN STEP   a writer whose file is the active one: what keeps it so, and what does not.

  Main statement: `acknowledged_in_step`.
-/
import LogRotation.Proofs.Durability
import LogRotation.Proofs.Tales
import LogRotation.Proofs.Throttle

namespace LogRotation

/-! ## Work -/

namespace Writer.Work

variable {w : Writer} {t : Tale} {now : Int}

/-- Holds of a writer whose file, if it has one, is the one that was opened last. -/
def Writes (w : Writer) (t : Tale) : Prop :=
  ∀ f, w.file = some f → ∃ stream, t.Streams w.path f stream

theorem told_closeFile (h : Writes w t) : closeFile.Leads .told
    (fun _ w' t' => w' = { w with file := none } ∧ t.SameBut t') w t := by
  refine Leads.bind (leads_get ?_)
  dsimp only
  split
  · rename_i hnone
    refine ⟨?_, .refl t⟩
    rw [← hnone]
  · rename_i f hf
    obtain ⟨stream, hstreams⟩ := h f hf
    refine Leads.bind (leads_modify (Leads.bind (leads_ofRoutine ?_)))
    refine (Buffered.told_flush hstreams).mono ?_
    rintro r t₁ ⟨hsame, hstreams₁, -⟩
    refine Leads.bind (leads_ofRoutine ((Buffered.told_release hstreams₁).mono ?_))
    rintro u t₂ hsame'
    exact ⟨rfl, hsame.trans hsame'⟩

theorem told_openFile (x : Path) {Q : Except Error Unit → Writer → Tale → Prop}
    (herror : ∀ e, Q (.error e) w t)
    (hok : ∀ h, Q (.ok ()) { w with file := some ⟨h, []⟩, path := x }
      { t with landing := some ⟨x, h, []⟩, opened := t.opened ++ [x] }) :
    (openFile x).Leads .told Q w t :=
  leads_openFile (Routine.told_openAppend x (fun _ => herror _) hok)

/-- A move at most finds files. -/
theorem told_moves (active base : Path) {Q : Except Error Unit → Tale → Prop}
    (hQ : ∀ r found, Q r { t with found := found }) :
    Routine.Leads .told (Action.executeAll [.rename active base true]).run Q t := by
  refine Routine.leads_attempt (Routine.leads_attempt (Routine.leads_lift ?_))
  intro there _
  cases there with
  | false => exact hQ _ t.found
  | true =>
    refine Routine.leads_attempt (Routine.leads_adapt ?_)
    refine Routine.told_makeParents base fun r => ?_
    cases r with
    | error e => exact hQ _ _
    | ok u =>
      refine Routine.leads_attempt (Routine.leads_lift fun r _ => ?_)
      cases r with
      | error e => exact hQ _ _
      | ok u => exact hQ _ _

/-! ## Rolling over -/

/-- Whether a look at an instant takes place and finds a period over. -/
def Crosses (p : Policy) (now : Int) : Prop := p.isDue now = true ∧ p.isOver now = true

/-- `Handed p now t` - of a period that is over, the file was found, and the file of the next period
was opened. -/
def Handed (p : Policy) (now : Int) (t : Tale) : Prop :=
  Crosses p now ∧ p.activeFile ∈ t.found ∧ (p.looked now).activeFile ∈ t.opened

instance (p : Policy) (now : Int) (t : Tale) : Decidable (Handed p now t) := by
  unfold Handed Crosses; infer_instance

/-- What the look before a record, and what follows from it, leaves behind. -/
structure Rolled (w : Writer) (now : Int) (t : Tale) (r : Except Error Unit) (w' : Writer)
    (t' : Tale) : Prop where
  policy : w'.policy = w.policy.after now
  writes : Writes w' t'
  /-- The file that was opened last is the old one or the active one. -/
  path : w'.path = w.path ∨ w'.path = w'.policy.activeFile
  idle : w.policy.isDue now = false → w'.path = w.path
  /-- A look that led to no failure ended at the active file. -/
  inStep : w.policy.isDue now = true → r = .ok () →
    w'.path.components = w'.policy.activeFile.components
  /-- Without a fixed active file, what became of a period that is over was handed over just if the
  next file was opened. -/
  handed : w.policy.fixedFile = none → t.found = [] → t.opened = [] →
    t'.submitted = t.submitted ++ (if Handed w.policy now t' then w.policy.archiving else [])
  reached : Crosses w.policy now → r = .ok () → (w.policy.looked now).activeFile ∈ t'.opened

/-- A rollover that failed before a file was opened. -/
theorem rolled_failed {e : Error} {t' : Tale} (hdue : w.policy.isDue now = true)
    (hopened : t'.opened = t.opened) (hsubmitted : t'.submitted = t.submitted) :
    Rolled w now t (.error e) { w with policy := w.policy.looked now, file := none } t' := by
  refine ⟨(if_pos hdue).symm, nofun, .inl rfl, fun _ => rfl, nofun, ?_, nofun⟩
  intro _ _ hnone
  have hnot : ¬ Handed w.policy now t' := by
    rintro ⟨-, -, hmem⟩
    rw [hopened, hnone] at hmem
    cases hmem
  rw [if_neg hnot, List.append_nil, hsubmitted]

/-- A rollover that came to the file of the next period. -/
theorem rolled_opened {t' : Tale} {written : Bool} {r : Except Error Unit} (submitted : List Action)
    (hdue : w.policy.isDue now = true) (hover : w.policy.isOver now = true)
    (hfound : w.policy.fixedFile = none → t.found = [] →
      (w.policy.activeFile ∈ t'.found ↔ written = true))
    (hsubmitted : w.policy.fixedFile = none → submitted =
      t.submitted ++ (if written = true then w.policy.archiving else [])) (handle : Handle) :
    Rolled w now t r
      { w with
        policy := w.policy.looked now
        file := some ⟨handle, []⟩
        path := (w.policy.looked now).activeFile }
      { t' with
        landing := some ⟨(w.policy.looked now).activeFile, handle, []⟩
        opened := t'.opened ++ [(w.policy.looked now).activeFile]
        submitted := submitted } := by
  have hreached : (w.policy.looked now).activeFile ∈
      t'.opened ++ [(w.policy.looked now).activeFile] := List.mem_append_right _ List.mem_cons_self
  refine ⟨(if_pos hdue).symm, ?_, .inr rfl, ?_, fun _ _ => rfl, ?_, fun _ _ => hreached⟩
  · rintro f ⟨⟩
    exact ⟨[], [], rfl, rfl⟩
  · intro hnot
    rw [hdue] at hnot
    cases hnot
  · intro hfixed hnone _
    have hiff : Handed w.policy now { t' with
        landing := some ⟨(w.policy.looked now).activeFile, handle, []⟩
        opened := t'.opened ++ [(w.policy.looked now).activeFile]
        submitted := submitted } ↔ written = true := by
      rw [← hfound hfixed hnone]
      exact ⟨fun hh => hh.2.1, fun hmem => ⟨⟨hdue, hover⟩, hmem, hreached⟩⟩
    rw [hsubmitted hfixed]
    exact congrArg (t.submitted ++ ·) (if_congr hiff rfl rfl).symm

/-- After the moves, the file of the next period is opened and the rest is submitted. -/
theorem told_next {t' : Tale} {written : Bool} {moved : Except Error Unit} {background : List Action}
    (hdue : w.policy.isDue now = true) (hover : w.policy.isOver now = true)
    (hopened : t'.opened = t.opened) (hsubmitted : t'.submitted = t.submitted)
    (hderived : w.policy.fixedFile = none → moved = .ok () ∧
      (t.found = [] → (w.policy.activeFile ∈ t'.found ↔ written = true)))
    (hbackground : background = if written = true then w.policy.archiving else []) :
    Leads .told (do
      openFile (w.policy.looked now).activeFile
      ofExcept moved
      unless background.isEmpty do ofRoutine (Routine.request (.submit background)))
      (Rolled w now t) { w with policy := w.policy.looked now, file := none } t' := by
  refine Leads.bind (told_openFile _ (fun _ => rolled_failed hdue hopened hsubmitted) ?_)
  intro handle
  have hfound : w.policy.fixedFile = none → t.found = [] →
      (w.policy.activeFile ∈ t'.found ↔ written = true) := fun hfixed => (hderived hfixed).2
  refine Leads.bind (leads_ofExcept ?_)
  cases moved with
  | error e =>
    -- a move that failed: this happens with a fixed active file only
    exact rolled_opened t'.submitted hdue hover hfound
      (fun hfixed => nomatch (hderived hfixed).1) handle
  | ok u =>
    dsimp only
    by_cases hempty : background.isEmpty = true
    · rw [if_pos hempty]
      refine rolled_opened t'.submitted (r := .ok ()) hdue hover hfound ?_ handle
      intro _
      rw [← hbackground, List.isEmpty_iff.mp hempty, List.append_nil, hsubmitted]
    · rw [if_neg hempty]
      refine leads_ofRoutine (Q := Rolled w now t) fun _ _ => ?_
      refine rolled_opened (t'.submitted ++ background) hdue hover hfound ?_ handle
      intro _
      rw [hsubmitted, hbackground]

/-- What follows where a period is over. -/
theorem told_crossing {written : Bool} (h : Writes w t) (hdue : w.policy.isDue now = true)
    (hover : w.policy.isOver now = true) :
    Leads .told (do
      closeFile
      let moved ← ofRoutine (Action.executeAll (w.policy.rollover now written).1.before).run
      openFile (w.policy.rollover now written).1.activeFile
      ofExcept moved
      unless (w.policy.rollover now written).1.background.isEmpty do
        ofRoutine (Routine.request (.submit (w.policy.rollover now written).1.background)))
      (Rolled w now t) { w with policy := w.policy.looked now }
      (t.after (.present w.policy.activeFile) written) := by
  have hwrites : Writes { w with policy := w.policy.looked now }
      (t.after (.present w.policy.activeFile) written) := by
    cases written <;> exact h
  -- what was found out about the old file stays, and no file was opened by then
  have hopened : (t.after (.present w.policy.activeFile) written).opened = t.opened := by
    cases written <;> rfl
  have hsubmitted : (t.after (.present w.policy.activeFile) written).submitted = t.submitted := by
    cases written <;> rfl
  have hfound : t.found = [] → (w.policy.activeFile ∈
      (t.after (.present w.policy.activeFile) written).found ↔ written = true) := by
    intro hnone
    cases written <;> simp [Tale.after, hnone]
  refine Leads.bind ((told_closeFile hwrites).mono ?_)
  rintro r w₂ t₂ ⟨rfl, hsame⟩
  have hopened₂ := hsame.opened.trans hopened
  have hsubmitted₂ := hsame.submitted.trans hsubmitted
  rw [← hsame.found] at hfound
  rw [Policy.rollover_of_over hover]
  cases r with
  | error e => exact rolled_failed hdue hopened₂ hsubmitted₂
  | ok u =>
    refine Leads.bind (leads_ofRoutine ?_)
    dsimp only
    cases hfixed : w.policy.fixedFile with
    | none => exact told_next hdue hover hopened₂ hsubmitted₂ (fun _ => ⟨rfl, hfound⟩) rfl
    | some active =>
      refine told_moves active _ fun r found => ?_
      refine told_next hdue hover hopened₂ hsubmitted₂ (fun hnone => ?_) rfl
      rw [hfixed] at hnone
      cases hnone

/-- **One look.**  What comes before a record is bound to the policy, whatever fails. -/
theorem told_roll (h : Writes w t) : (roll now).Leads .told (Rolled w now t) w t := by
  refine Leads.bind (leads_get ?_)
  dsimp only
  by_cases hdue : w.policy.isDue now = true
  · rw [if_pos hdue]
    refine Leads.bind (leads_consult (fun hover written _ => ?_) fun hover => ?_)
    · -- a period is over
      have hcrossed : (w.policy.rollover now written).1.crossed = true := by
        rw [Policy.rollover_of_over hover]
      dsimp only
      rw [if_pos hcrossed]
      exact told_crossing h hdue hover
    · have hsame : w.policy.nameAt now = w.policy.lastName := bne_eq_false_iff_eq.mp hover
      rw [Policy.rollover_of_same hsame]
      dsimp only
      rw [if_neg Bool.false_ne_true]
      refine Leads.bind (leads_get ?_)
      -- nothing is handed over where no period is over
      have hcrosses : ¬ Crosses w.policy now := by
        rintro ⟨-, hover'⟩
        rw [hover] at hover'
        cases hover'
      have hkept : ∀ t' : Tale, t'.submitted = t.submitted → t'.submitted =
          t.submitted ++ (if Handed w.policy now t' then w.policy.archiving else []) := by
        intro t' hsubmitted
        rw [if_neg fun hh : Handed w.policy now t' => hcrosses hh.1, List.append_nil, hsubmitted]
      have hidle : ∀ {P : Prop}, w.policy.isDue now = false → P := by
        intro P hnot
        rw [hdue] at hnot
        cases hnot
      dsimp only
      by_cases hpath : (w.policy.looked now).activeFile.components ≠ w.path.components
      · rw [if_pos hpath]
        refine Leads.bind ((told_closeFile (w := { w with policy := w.policy.looked now }) h).mono ?_)
        rintro r w₂ t₂ ⟨rfl, hsameBut⟩
        cases r with
        | error e =>
          exact ⟨(if_pos hdue).symm, nofun, .inl rfl, hidle, nofun,
            fun _ _ _ => hkept t₂ hsameBut.submitted, fun hc => absurd hc hcrosses⟩
        | ok u =>
          refine told_openFile _ (fun e => ?_) fun handle => ?_
          · exact ⟨(if_pos hdue).symm, nofun, .inl rfl, hidle, nofun,
              fun _ _ _ => hkept t₂ hsameBut.submitted, fun hc => absurd hc hcrosses⟩
          · refine ⟨(if_pos hdue).symm, ?_, .inr rfl, hidle, fun _ _ => rfl,
              fun _ _ _ => hkept _ hsameBut.submitted, fun hc => absurd hc hcrosses⟩
            rintro f ⟨⟩
            exact ⟨[], [], rfl, rfl⟩
      · rw [if_neg hpath]
        exact ⟨(if_pos hdue).symm, h, .inl rfl, hidle, fun _ _ => (not_not.mp hpath).symm,
          fun _ _ _ => hkept t rfl, fun hc => absurd hc hcrosses⟩
  · -- no look takes place
    rw [if_neg hdue]
    refine ⟨(if_neg hdue).symm, h, .inl rfl, fun _ => rfl, fun hd => absurd hd hdue, ?_,
      fun hc => absurd hc.1 hdue⟩
    intro _ _ _
    rw [if_neg fun hh : Handed w.policy now t => hdue hh.1.1, List.append_nil]

/-! ## Records -/

/-- What is left behind by work that stays at the file of the writer. -/
structure Stays (w : Writer) (t : Tale) (w' : Writer) (t' : Tale) : Prop where
  policy : w'.policy = w.policy
  path : w'.path = w.path
  found : t'.found = t.found
  opened : t.opened <+: t'.opened
  submitted : t'.submitted = t.submitted
  writes : Writes w' t'

theorem Stays.trans {w' w'' : Writer} {t' t'' : Tale} (h : Stays w t w' t')
    (h' : Stays w' t' w'' t'') : Stays w t w'' t'' :=
  ⟨h'.policy.trans h.policy, h'.path.trans h.path, h'.found.trans h.found, h.opened.trans h'.opened,
    h'.submitted.trans h.submitted, h'.writes⟩

theorem told_needFile (h : Writes w t) : needFile.Leads .told (fun r w' t' =>
    Stays w t w' t' ∧ ∀ f, r = .ok f → w'.file = some f) w t := by
  refine Leads.bind (leads_get ?_)
  dsimp only
  split
  · rename_i f hf
    refine ⟨⟨rfl, rfl, rfl, List.prefix_rfl, rfl, h⟩, ?_⟩
    rintro f' ⟨⟩
    exact hf
  · refine Leads.bind (leads_get (Leads.bind (leads_ofAttempt ?_)))
    refine Routine.told_openAppend _ (fun e => ?_) fun handle => ?_
    · exact ⟨⟨rfl, rfl, rfl, List.prefix_rfl, rfl, h⟩, nofun⟩
    · refine Leads.bind (leads_modify ⟨⟨rfl, rfl, rfl, List.prefix_append _ _, rfl, ?_⟩, ?_⟩)
      · rintro f ⟨⟩
        exact ⟨[], [], rfl, rfl⟩
      · rintro f ⟨⟩
        rfl

/-- Keeping a file to which something was done. -/
theorem told_keepFile {f : Buffered} {stream : Bytes} {t' : Tale} (hsame : t.SameBut t')
    (hstreams : t'.Streams w.path f stream) : Stays w t { w with file := some f } t' := by
  refine ⟨rfl, rfl, hsame.found, ?_, hsame.submitted, ?_⟩
  · exact hsame.opened ▸ List.prefix_rfl
  · rintro f' ⟨⟩
    exact ⟨stream, hstreams⟩

/-- Bytes that were added stand at the end of what was sent to the file that was opened last. -/
theorem told_append (h : Writes w t) (bytes : Bytes) : (append bytes).Leads .told (fun r w' t' =>
    Stays w t w' t' ∧ (r = .ok () →
      ∃ handle sent, t'.landing = some ⟨w.path, handle, sent⟩ ∧ bytes <:+ sent)) w t := by
  refine Leads.bind ((told_needFile h).mono ?_)
  rintro r w₁ t₁ ⟨hstays, hfile⟩
  cases r with
  | error e => exact ⟨hstays, nofun⟩
  | ok f =>
    obtain ⟨stream, hstreams⟩ := hstays.writes f (hfile f rfl)
    refine Leads.bind (leads_ofRoutine ((Buffered.told_add hstreams bytes).mono ?_))
    rintro ⟨r, f₂⟩ t₂ ⟨hsame, ⟨stream₂, hstreams₂⟩, hadded⟩
    have hstays₂ := hstays.trans (told_keepFile hsame hstreams₂)
    refine Leads.bind (leads_keepFile ?_)
    cases r with
    | error e => exact ⟨hstays₂, nofun⟩
    | ok u =>
      -- the same file is flushed
      refine Leads.bind (Leads.bind (leads_get ?_))
      refine leads_pure (Leads.bind (leads_ofRoutine ?_))
      refine (Buffered.told_flush (hadded rfl)).mono ?_
      rintro ⟨r, f₃⟩ t₃ ⟨hsame₃, hstreams₃, hempty⟩
      refine leads_keepFile ⟨hstays₂.trans (told_keepFile hsame₃ hstreams₃), ?_⟩
      intro hok
      have hr : r = .ok () := by
        cases r with
        | error e => cases hok
        | ok u => rfl
      obtain ⟨sent, hlanding, hsent⟩ := hstreams₃
      have hnone : f₃.pending = [] := hempty hr
      rw [hnone, List.append_nil] at hsent
      refine ⟨f₃.handle, sent, ?_, ?_⟩
      · rw [hlanding, hstays.path]
      · rw [hsent]
        exact List.suffix_append _ _

/-- What stays at the file to which a look led leaves behind what the look did. -/
theorem Rolled.stays {w' w'' : Writer} {t' t'' : Tale} (h : Rolled w now t (.ok ()) w' t')
    (hstays : Stays w' t' w'' t'') (r : Except Error Unit) : Rolled w now t r w'' t'' := by
  have hpolicy := hstays.policy
  refine ⟨hpolicy.trans h.policy, hstays.writes, ?_, ?_, ?_, ?_, ?_⟩
  · rw [hstays.path, hpolicy]
    exact h.path
  · rw [hstays.path]
    exact h.idle
  · intro hdue _
    rw [hstays.path, hpolicy]
    exact h.inStep hdue rfl
  · intro hfixed hfound hopened
    have hiff : Handed w.policy now t'' ↔ Handed w.policy now t' := by
      unfold Handed
      rw [hstays.found]
      constructor
      · rintro ⟨hc, hmem, -⟩
        exact ⟨hc, hmem, h.reached hc rfl⟩
      · rintro ⟨hc, hmem, hreached⟩
        exact ⟨hc, hmem, hstays.opened.subset hreached⟩
    rw [hstays.submitted, h.handed hfixed hfound hopened]
    exact congrArg (t.submitted ++ ·) (if_congr hiff rfl rfl).symm
  · intro hc _
    exact hstays.opened.subset (h.reached hc rfl)

/-- **One call.**  Its record goes to the file of the writer, and the file of the writer is bound to the
policy by the look that came before. -/
theorem told_record (h : Writes w t) (bytes : Bytes) : (record now bytes).Leads .told (fun r w' t' =>
    Rolled w now t r w' t' ∧ (r = .ok () →
      ∃ handle sent, t'.landing = some ⟨w'.path, handle, sent⟩ ∧ bytes <:+ sent)) w t := by
  refine Leads.bind ((told_roll h).mono ?_)
  intro r w₁ t₁ hrolled
  cases r with
  | error e => exact ⟨hrolled, nofun⟩
  | ok u =>
    refine Leads.bind ((told_append hrolled.writes bytes).mono ?_)
    rintro r w₂ t₂ ⟨hstays, hlanded⟩
    rw [← hstays.path] at hlanded
    cases r with
    | error e => exact ⟨hrolled.stays hstays _, nofun⟩
    | ok u =>
      refine leads_showRecord fun tail => ⟨hrolled.stays ?_ _, fun _ => hlanded rfl⟩
      exact ⟨hstays.policy, hstays.path, hstays.found, hstays.opened, hstays.submitted, hstays.writes⟩

end Writer.Work

/-! ## Calls -/

namespace Writer

/-- One call of a run, with the writer before and after it, and what the call itself told. -/
structure Call where
  entry : Entry
  before : Writer
  result : Except Error Unit
  after : Writer
  tale : Tale

/-- The second of a call. -/
def Entry.second (e : Entry) : Int := e.now.millis / 1000

/-- A tale that begins with the file of a writer, to which nothing was sent yet. -/
def outset (w : Writer) : Tale :=
  { Tale.blank with landing := w.file.map fun f => ⟨w.path, f.handle, []⟩ }

/-- Makes calls one after the other, in a world, whatever comes of each.  Each has its own tale: what is
told to be sent was sent by the call itself. -/
def calls (c : Conditions) : List Entry → Writer → World → List Call
  | [], _, _ => []
  | e :: rest, w, world =>
    let ended := World.run c (e.write w) world
    ⟨e, w, ended.1.1, ended.1.2, World.tale c (e.write w) world w.outset⟩ ::
      calls c rest ended.1.2 ended.2

/-- The calls of a log that is opened on some files, if it can be opened. -/
def history (c : Conditions) (p : Policy) (tail : Option LiveTail) (entries : List Entry)
    (fs : FileSystem) : Except Error (List Call) :=
  let opened := World.run c (ofPolicy p).run (.ofFiles fs)
  opened.1.map fun w => calls c entries { w with tail := tail } opened.2

variable {c : Conditions} {w : Writer} {world : World} {entries : List Entry}

/-- What is pending at the outset is all that there is to tell. -/
theorem writes_outset (w : Writer) : Work.Writes w w.outset := by
  intro f hf
  refine ⟨f.pending, [], ?_, rfl⟩
  rw [outset, hf]
  rfl

/-- What a call leaves behind, in a run. -/
theorem rolled_call (c : Conditions) (e : Entry) (w : Writer) (world : World) :
    let ended := World.run c (e.write w) world
    let tale := World.tale c (e.write w) world w.outset
    Work.Rolled w e.now.millis w.outset ended.1.1 ended.1.2 tale ∧
      (ended.1.1 = .ok () → ∃ handle sent, tale.landing = some ⟨ended.1.2.path, handle, sent⟩ ∧
        e.bytes w.policy <:+ sent) := by
  cases e with
  | line text now =>
    exact World.told_run (Work.told_record (writes_outset w) (lineRecord w.policy text now))
  | raw bytes now => exact World.told_run (Work.told_record (writes_outset w) bytes)

/-! ## In step -/

/-- `Watched w entries failed` - the next look of a writer is due at once, or it is due after the second
of the last one.  By then the writer is in step with its policy, unless a call of that second has
failed. -/
def Watched (w : Writer) (entries : List Entry) (failed : Int → Prop) : Prop :=
  (∀ e ∈ entries, w.policy.isDue e.now.millis = true) ∨
  ∃ last, w.policy.nextCheck = Policy.nextSecond last ∧ (∀ e ∈ entries, last ≤ e.now.millis) ∧
    (failed (last / 1000) ∨ w.path.components = w.policy.activeFile.components)

/-- One call: it keeps the watch, and if neither it nor a call before it in its second fails, the writer
is in step after it. -/
theorem watched_call {e : Entry} {rest : List Entry} {failed : Int → Prop} {t t' : Tale}
    {r : Except Error Unit} {w' : Writer} (h : Watched w (e :: rest) failed)
    (hlater : ∀ b ∈ rest, e.now.millis ≤ b.now.millis)
    (hrolled : Work.Rolled w e.now.millis t r w' t') :
    Watched w' rest (fun s => failed s ∨ s = e.second ∧ r ≠ .ok ()) ∧
      (r = .ok () → ¬ failed e.second → w'.path.components = w'.policy.activeFile.components) := by
  have hpolicy := hrolled.policy
  unfold Policy.after at hpolicy
  by_cases hdue : w.policy.isDue e.now.millis = true
  · -- the call looked at the clock
    rw [if_pos hdue] at hpolicy
    refine ⟨.inr ⟨e.now.millis, ?_, hlater, ?_⟩, fun hok _ => hrolled.inStep hdue hok⟩
    · rw [hpolicy]
      rfl
    · by_cases hok : r = .ok ()
      · exact .inr (hrolled.inStep hdue hok)
      · exact .inl (.inr ⟨rfl, hok⟩)
  · -- the call fell into the second of the last look
    rw [if_neg hdue] at hpolicy
    have hpath := hrolled.idle (Bool.eq_false_iff.mpr hdue)
    rcases h with hall | ⟨last, hnext, hlast, hstep⟩
    · exact absurd (hall e List.mem_cons_self) hdue
    · have hsecond : e.second = last / 1000 := by
        have hle := hlast e List.mem_cons_self
        have hnot : ¬ Policy.nextSecond last ≤ e.now.millis := by
          rw [← hnext]
          exact fun hle => hdue (decide_eq_true hle)
        unfold Policy.nextSecond Policy.checkInterval at hnot
        unfold Entry.second
        omega
      rw [hpath, hpolicy, hsecond]
      refine ⟨.inr ⟨last, hpolicy ▸ hnext, fun b hb => hlast b (List.mem_cons_of_mem _ hb), ?_⟩, ?_⟩
      · rw [hpath, hpolicy]
        exact hstep.imp .inl id
      · intro _ hnot
        exact hstep.resolve_left hnot

/-- **Call after call.**  Where no call of a second has failed, the writer is in step after each call of
it, and each record that was acknowledged is the end of what its call sent to the writer's file. -/
theorem calls_in_step {failed : Int → Prop}
    (hwatched : Watched w entries failed)
    (hsorted : (instants entries).Pairwise (· ≤ ·)) :
    ∀ earlier k later, calls c entries w world = earlier ++ k :: later →
      k.result = .ok () →
      (∃ handle sent, k.tale.landing = some ⟨k.after.path, handle, sent⟩ ∧
        k.entry.bytes w.policy <:+ sent) ∧
      ((∀ active, w.policy.fixedFile = some active → w.path = active) →
        w.policy.fixedFile ≠ none ∨ (¬ failed k.entry.second ∧
          ∀ b ∈ earlier, b.entry.second = k.entry.second → b.result = .ok ()) →
        k.after.path.components = k.after.policy.activeFile.components) := by
  induction entries generalizing w world failed with
  | nil =>
    intro earlier k later he
    cases earlier <;> cases he
  | cons e rest ih =>
    obtain ⟨hlater, hsorted⟩ := List.pairwise_cons.mp hsorted
    have hlater : ∀ b ∈ rest, e.now.millis ≤ b.now.millis :=
      fun b hb => hlater _ (List.mem_map_of_mem hb)
    obtain ⟨hrolled, hlanded⟩ := rolled_call c e w world
    obtain ⟨hwatched', hstep⟩ := watched_call hwatched hlater hrolled
    -- a fixed active file stays the file of the writer
    have hfixed : (∀ active, w.policy.fixedFile = some active → w.path = active) →
        ∀ active, w.policy.fixedFile = some active →
          (World.run c (e.write w) world).1.2.path = active := by
      intro hpath active hactive
      rcases hrolled.path with he | he
      · rw [he, hpath active hactive]
      · have hactive' : (World.run c (e.write w) world).1.2.policy.fixedFile = some active := by
          rw [hrolled.policy, Policy.fixedFile_after, hactive]
        rw [he, Policy.activeFile_of_fixed hactive']
    intro earlier k later he hok
    rw [calls] at he
    cases earlier with
    | nil =>
      obtain ⟨rfl, -⟩ := List.cons.inj he
      refine ⟨hlanded hok, ?_⟩
      rintro hpath (hsome | ⟨hnot, -⟩)
      · obtain ⟨active, hactive⟩ := Option.ne_none_iff_exists'.mp hsome
        have hactive' : (World.run c (e.write w) world).1.2.policy.fixedFile = some active := by
          rw [hrolled.policy, Policy.fixedFile_after, hactive]
        rw [hfixed hpath active hactive, Policy.activeFile_of_fixed hactive']
      · exact hstep hok hnot
    | cons b earlier =>
      obtain ⟨rfl, hrest⟩ := List.cons.inj he
      obtain ⟨hsent, hin⟩ :=
        ih hwatched' hsorted earlier k later hrest hok
      rw [hrolled.policy, Policy.fixedFile_after] at hin
      rw [hrolled.policy, Entry.bytes_after] at hsent
      refine ⟨hsent, fun hpath hcases => hin (hfixed hpath) (hcases.imp id ?_)⟩
      rintro ⟨hnot, hall⟩
      refine ⟨?_, fun b hb => hall b (List.mem_cons_of_mem _ hb)⟩
      rintro (hf | ⟨hs, hr⟩)
      · exact hnot hf
      · exact hr (hall _ List.mem_cons_self hs.symm)

/-- Opening a log leaves it in step. -/
theorem opened_ofPolicy {p : Policy} {fs : FileSystem} {w : Writer}
    (h : (World.run c (ofPolicy p).run (.ofFiles fs)).1 = .ok w) :
    w.policy = p ∧ w.path = p.activeFile := by
  have htold : (ofPolicy p).run.Leads .told (fun r _ => ∀ w, r = .ok w →
      w.policy = p ∧ w.path = p.activeFile) .blank := by
    refine Routine.leads_attempt (Routine.leads_adapt ?_)
    refine Routine.told_openAppend _ (fun e => nofun) fun handle => ?_
    rintro w ⟨⟩
    exact ⟨rfl, rfl⟩
  exact World.told_run htold w h

/-- The calls of a history begin with the writer of a log that was opened. -/
theorem history_ok {p : Policy} {tail : Option LiveTail} {fs : FileSystem} {ks : List Call}
    (h : history c p tail entries fs = .ok ks) : ∃ w world,
      w.policy = p ∧ w.path = p.activeFile ∧ ks = calls c entries w world := by
  unfold history at h
  dsimp only at h
  cases hopened : (World.run c (ofPolicy p).run (.ofFiles fs)).1 with
  | error e =>
    rw [hopened] at h
    cases h
  | ok w =>
    rw [hopened] at h
    cases h
    obtain ⟨hpolicy, hpath⟩ := opened_ofPolicy hopened
    exact ⟨{ w with tail := tail }, _, hpolicy, hpath, rfl⟩

/-- **Acknowledged records follow the policy**, as long as no call fails.  Whatever fails: a record that
is acknowledged is the end of what its call sent to the writer's file; and the writer's file is then
the active file of its policy, if that is fixed, or if no call before has failed in the same second. -/
theorem acknowledged_in_step {localTime : LocalTime} {start : Int} {config : Config} {p : Policy}
    (hp : Policy.activate localTime config start = .ok p) {tail : Option LiveTail} {fs : FileSystem}
    (hpos : ∀ e ∈ entries, 0 ≤ e.now.millis) (hsorted : (instants entries).Pairwise (· ≤ ·))
    {ks : List Call} (h : history c p tail entries fs = .ok ks) :
    ∀ earlier k later, ks = earlier ++ k :: later → k.result = .ok () →
      (∃ handle sent, k.tale.landing = some ⟨k.after.path, handle, sent⟩ ∧
        k.entry.bytes p <:+ sent) ∧
      (config.activeFile ≠ none ∨
        (∀ b ∈ earlier, b.entry.second = k.entry.second → b.result = .ok ()) →
        k.after.path.components = k.after.policy.activeFile.components) := by
  have hact := Policy.activate_ok hp
  obtain ⟨w, world, rfl, hpath, rfl⟩ := history_ok h
  -- the first look is due at the start of 1970
  have hwatched : Watched w entries (fun _ => False) := by
    refine .inl fun e he => ?_
    have hnext := hact.nextCheck
    exact decide_eq_true (hnext ▸ hpos e he)
  intro earlier k later he hok
  obtain ⟨hsent, hin⟩ := calls_in_step hwatched hsorted earlier k later he hok
  refine ⟨hsent, fun hcases => hin ?_ ?_⟩
  · intro active hactive
    rw [hpath, Policy.activeFile_of_fixed hactive]
  · rw [hact.fixedFile]
    exact hcases.imp id fun hall => ⟨id, hall⟩

/-- The conditions in which a file cannot be opened up to some request, and the worker waits. -/
def refusing (x : Path) (till : Nat) : Conditions :=
  ⟨fun tick q => if tick < till ∧ q = .openWrite x true then some ⟨.isADirectory, 0⟩ else none,
    fun _ => .epoch, fun _ => 0⟩

/-- A log by the hour, where the first try to open the second file fails: in the next second the writer
is in step again. -/
theorem acknowledged_in_step_after_failure : ∃ p ks,
    Policy.activate (.fixed 0) ⟨some "app-%d{HH}.log", none, .utc⟩ 0 = .ok p ∧
    history (refusing ⟨"app-01.log"⟩ 5) p none
      [.raw [97] ⟨0, 0⟩, .raw [98] ⟨3600, 0⟩, .raw [99] ⟨3601, 0⟩] .blank = .ok ks ∧
    ks.map (·.result.isOk) = [true, false, true] ∧
    ∀ earlier k later, ks = earlier ++ k :: later → k.result = .ok () →
      (∃ handle sent, k.tale.landing = some ⟨k.after.path, handle, sent⟩ ∧
        k.entry.bytes p <:+ sent) ∧
      (none ≠ (none : Option Path) ∨
        (∀ b ∈ earlier, b.entry.second = k.entry.second → b.result = .ok ()) →
        k.after.path.components = k.after.policy.activeFile.components) := by
  have hp : Policy.activate (.fixed 0) ⟨some "app-%d{HH}.log", none, .utc⟩ 0 = .ok
      ⟨.byHour, .fixed 0, none, .none, "app-00.log", 0⟩ := by rfl
  obtain ⟨ks, hks, hresults⟩ : ∃ ks, history (refusing ⟨"app-01.log"⟩ 5)
      ⟨.byHour, .fixed 0, none, .none, "app-00.log", 0⟩ none
      [.raw [97] ⟨0, 0⟩, .raw [98] ⟨3600, 0⟩, .raw [99] ⟨3601, 0⟩] .blank = .ok ks ∧
      ks.map (·.result.isOk) = [true, false, true] := ⟨_, rfl, rfl⟩
  exact ⟨_, ks, hp, hks, hresults, acknowledged_in_step hp (by decide) (by decide) hks⟩

/-- Records that are acknowledged need not follow the policy: after a call that could not open the second
file, another one in the same second succeeds, and its record goes to the first file. -/
theorem acknowledged_out_of_step : ∃ p ks,
    Policy.activate (.fixed 0) ⟨some "app-%d{HH}.log", none, .utc⟩ 0 = .ok p ∧
    history (refusing ⟨"app-01.log"⟩ 5) p none
      [.raw [97] ⟨0, 0⟩, .raw [98] ⟨3600, 0⟩, .raw [99] ⟨3600, 500000000⟩] .blank = .ok ks ∧
    ks.map (fun k => (k.result.isOk, k.after.path.text, k.after.policy.activeFile.text)) =
      [(true, "app-00.log", "app-00.log"), (false, "app-00.log", "app-01.log"),
        (true, "app-00.log", "app-01.log")] ∧
    (World.run (refusing ⟨"app-01.log"⟩ 5) (session p none
      [.raw [97] ⟨0, 0⟩, .raw [98] ⟨3600, 0⟩, .raw [99] ⟨3600, 500000000⟩]).run
        (.ofFiles .blank)).2.files.bytesAt ⟨"app-00.log"⟩ = [97, 99] ∧
    ¬ ∀ k ∈ ks, k.result = .ok () →
      k.after.path.components = k.after.policy.activeFile.components := by
  have hp : Policy.activate (.fixed 0) ⟨some "app-%d{HH}.log", none, .utc⟩ 0 = .ok
      ⟨.byHour, .fixed 0, none, .none, "app-00.log", 0⟩ := by rfl
  refine ⟨_, _, hp, rfl, rfl, rfl, ?_⟩
  intro hall
  have hlast := hall _ (List.mem_cons_of_mem _ (List.mem_cons_of_mem _ List.mem_cons_self)) rfl
  exact absurd hlast (by decide)

end Writer

end LogRotation
