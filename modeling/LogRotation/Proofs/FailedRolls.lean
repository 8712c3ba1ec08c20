/-
  A rollover that failed.

  A record is written after the rollover that it needs.  If that fails, the call is over, and it was the
  same for every record: what a run does from then on hangs on where the rollover ended and on nothing
  of the record, so that no byte of it can come to a file.

  1. **What is left** - whatever step failed, the policy has seen the instant, the reader was shown
     nothing, nothing is pending, and files took nothing but what was pending before (`emptied_roll`).

  2. **No trace** - a call whose rollover failed ends where its rollover ended (`run_write_failed`).

  3. **The crux** - a look that failed is not made again.  In the same period no move is due any more,
     but the writer may be without a file or at the file of another period; so what follows opens files
     at most (`unfailing_roll_of_same`), and that is to succeed.

  Main statement: `failed_roll_leaves_no_trace`.
-/
import LogRotation.Proofs.Blame
import LogRotation.Proofs.Journals
import LogRotation.Proofs.Unfailing

namespace LogRotation

/-- What is told of a run in two parts. -/
theorem World.follow_bind {S α β : Type} {c : Conditions} {after : S → (q : Request) → q.Reply → S}
    (r : Routine α) (f : α → Routine β) (w : World) (s : S) :
    follow c after (r >>= f) w s =
      follow c after (f (run c r w).1) (run c r w).2 (follow c after r w s) := by
  induction r generalizing w s with
  | done a => rfl
  | ask q next ih => exact ih _ _ _

/-! ## What is left -/

/-- Holds of journals of which the later one tells of no bytes that were not pending. -/
def Journal.Drains (pending : Bytes) (j j' : Journal) : Prop :=
  ∀ s ∈ j'.strokes, s ∈ j.strokes ∨ s.bytes <:+: pending

theorem Journal.Drains.trans {pending rest : Bytes} {j j' j'' : Journal} (h : Drains pending j j')
    (h' : Drains rest j' j'') (hrest : rest <:+: pending) : Drains pending j j'' := by
  intro s hs
  rcases h' s hs with hs | hs
  · exact h s hs
  · exact .inr (hs.trans hrest)

namespace Buffered

variable {j : Journal}

/-- Whatever comes of writing out what is pending, a part of it was taken and a part of it is left. -/
theorem drains_flush (f : Buffered) : f.flush.Leads .journaled
    (fun r j' => r.2.pending <:+ f.pending ∧ Journal.Drains f.pending j j') j := by
  unfold flush
  split
  · exact ⟨List.suffix_rfl, fun s hs => .inl hs⟩
  · intro w _
    refine ⟨List.drop_suffix _ _, fun s hs => ?_⟩
    rcases List.mem_append.mp hs with hs | hs
    · exact .inl hs
    · rw [List.mem_singleton.mp hs]
      exact .inr (List.take_prefix _ _).isInfix

theorem drains_release (f : Buffered) : f.release.Leads .journaled
    (fun _ j' => Journal.Drains f.pending j j') j :=
  Routine.Leads.bind (f.drains_flush.mono fun _ _ h => fun _ _ => h.2)

end Buffered

namespace Writer.Work

variable {w w' : Writer} {j j' : Journal} {now : Int}

/-- What work on the file of a writer leaves behind: the policy and what the reader was shown are as they
were, nothing is pending, and files took nothing but what was. -/
structure Emptied (w : Writer) (j : Journal) (w' : Writer) (j' : Journal) : Prop where
  policy : w'.policy = w.policy
  tail : w'.tail = w.tail
  pending : ∀ f, w'.file = some f → f.pending = []
  strokes : ∀ s ∈ j'.strokes, s ∈ j.strokes ∨ ∃ f, w.file = some f ∧ s.bytes <:+: f.pending

/-- Whatever comes of the closing, the writer is without a file. -/
theorem emptied_closeFile (w : Writer) (j : Journal) :
    closeFile.Leads .journaled (fun _ w' j' => Emptied w j w' j') w j := by
  refine Leads.bind (leads_get ?_)
  dsimp only
  split
  · rename_i hnone
    refine ⟨rfl, rfl, fun f hf => ?_, fun s hs => .inl hs⟩
    rw [hnone] at hf
    cases hf
  · rename_i f hf
    refine Leads.bind (leads_modify (Leads.bind (leads_ofRoutine (f.drains_flush.mono ?_))))
    rintro ⟨r, f₁⟩ j₁ ⟨hleft, hdrains⟩
    refine Leads.bind (leads_ofRoutine (f₁.drains_release.mono fun _ j₂ hdrains₂ => ?_))
    refine leads_ofExcept ⟨rfl, rfl, nofun, fun s hs => ?_⟩
    exact (hdrains.trans hdrains₂ hleft.isInfix s hs).imp id fun hs => ⟨f, hf, hs⟩

/-- A file that was opened has nothing pending. -/
theorem emptied_openFile (x : Path) (h : Emptied w j w' j') :
    (openFile x).Leads .journaled (fun _ w'' j'' => Emptied w j w'' j'') w' j' := by
  refine leads_openFile (Routine.journaled_openAppend x (fun e => h) fun handle => ?_)
  refine ⟨h.policy, h.tail, ?_, h.strokes⟩
  rintro f ⟨⟩
  rfl

/-- What follows where a period is over. -/
theorem emptied_crossing {rollover : Rollover}
    (hbefore : rollover.before = [] ∨ ∃ active target, w.policy.fixedFile = some active ∧
      rollover.before = [.rename active target true]) :
    Leads .journaled (do
      closeFile
      let moved ← ofRoutine (Action.executeAll rollover.before).run
      openFile rollover.activeFile
      ofExcept moved
      unless rollover.background.isEmpty do
        ofRoutine (Routine.request (.submit rollover.background)))
      (fun _ w' j' => Emptied w j w' j') w j := by
  refine Leads.bind ((emptied_closeFile w j).mono ?_)
  intro r w₁ j₁ h₁
  cases r with
  | error e => exact h₁
  | ok u =>
    have hmoved : Routine.Leads .journaled (Action.executeAll rollover.before).run
        (fun _ j' => j' = j₁) j₁ := by
      rcases hbefore with hnone | ⟨active, target, -, hmove⟩
      · rw [hnone]
        exact rfl
      · rw [hmove]
        exact Action.journaled_move active target fun _ => rfl
    refine Leads.bind (leads_ofRoutine (hmoved.mono ?_))
    rintro moved j₂ rfl
    refine Leads.bind ((emptied_openFile _ h₁).mono ?_)
    intro r w₂ j₃ h₂
    cases r with
    | error e => exact h₂
    | ok u =>
      refine Leads.bind (leads_ofExcept ?_)
      cases moved with
      | error e => exact h₂
      | ok u =>
        dsimp only
        by_cases hempty : rollover.background.isEmpty = true
        · rw [if_pos hempty]
          exact leads_pure h₂
        · rw [if_neg hempty]
          exact leads_ofRoutine fun _ _ => h₂

/-- **One look that failed.**  It was made, and it is not made again. -/
theorem emptied_roll (now : Int) (w : Writer) (j : Journal) :
    (roll now).Leads .journaled (fun r w' j' => ∀ e, r = .error e →
      Emptied { w with policy := w.policy.looked now } j w' j') w j := by
  refine Leads.bind (leads_get ?_)
  dsimp only
  by_cases hdue : w.policy.isDue now = true
  · rw [if_pos hdue]
    refine Leads.bind (leads_consult (fun hover written _ => ?_) fun hover => ?_)
    · -- a period is over
      have hcrossed : (w.policy.rollover now written).1.crossed = true := by
        rw [Policy.rollover_of_over hover]
      dsimp only
      rw [if_pos hcrossed]
      have hcrossing := emptied_crossing (w := { w with policy := w.policy.looked now }) (j := j)
        (w.policy.before_rollover now written)
      exact hcrossing.mono fun _ _ _ h _ _ => h
    · have hsame : w.policy.nameAt now = w.policy.lastName := bne_eq_false_iff_eq.mp hover
      rw [Policy.rollover_of_same hsame]
      dsimp only
      rw [if_neg Bool.false_ne_true]
      refine Leads.bind (leads_get ?_)
      dsimp only
      by_cases hpath : (w.policy.looked now).activeFile.components ≠ w.path.components
      · rw [if_pos hpath]
        refine Leads.bind ((emptied_closeFile _ j).mono ?_)
        intro r w₁ j₁ h₁
        cases r with
        | error e => exact fun _ _ => h₁
        | ok u => exact (emptied_openFile _ h₁).mono fun _ _ _ h _ _ => h
      · rw [if_neg hpath]
        exact nofun
  · rw [if_neg hdue]
    exact nofun

/-! ## The same period -/

/-- **One look in the period of the last one.**  Where nothing fails, it succeeds from whatever was left
behind. -/
theorem unfailing_roll_of_same (hsame : w.policy.nameAt now = w.policy.lastName) :
    (roll now).Leads .unfailing (fun r w' _ => r = .ok () ∧ w'.policy = w.policy.after now) w () := by
  refine Leads.bind (leads_get ?_)
  dsimp only
  by_cases hdue : w.policy.isDue now = true
  · have hafter : w.policy.looked now = w.policy.after now := (if_pos hdue).symm
    rw [if_pos hdue]
    refine Leads.bind (leads_consult (fun hover => ?_) fun _ => ?_)
    · exact absurd hsame (bne_iff_ne.mp hover)
    · rw [Policy.rollover_of_same hsame]
      dsimp only
      rw [if_neg Bool.false_ne_true]
      refine Leads.bind (leads_get ?_)
      dsimp only
      by_cases hpath : (w.policy.looked now).activeFile.components ≠ w.path.components
      · rw [if_pos hpath]
        refine Leads.bind ((unfailing_closeFile _).mono ?_)
        rintro r w₁ - ⟨rfl, rfl⟩
        exact unfailing_openFile _ fun f => ⟨rfl, hafter⟩
      · rw [if_neg hpath]
        exact ⟨rfl, hafter⟩
  · rw [if_neg hdue]
    exact ⟨rfl, (if_neg hdue).symm⟩

theorem unfailing_record_of_same (hsame : w.policy.nameAt now = w.policy.lastName) (bytes : Bytes) :
    (record now bytes).Leads .unfailing (fun r w' _ => r = .ok () ∧ w'.policy = w.policy.after now)
      w () := by
  refine Leads.bind ((unfailing_roll_of_same hsame).mono ?_)
  rintro r w₁ - ⟨rfl, hpolicy⟩
  refine Leads.bind ((unfailing_append bytes w₁).mono ?_)
  rintro r w₂ - ⟨rfl, hpolicy₂, -⟩
  exact leads_showRecord fun tail => ⟨rfl, hpolicy₂.trans hpolicy⟩

theorem unfailing_flush (w : Writer) :
    flush.Leads .unfailing (fun r w' _ => r = .ok () ∧ w'.policy = w.policy) w () := by
  refine Leads.bind (leads_get ?_)
  dsimp only
  split
  · exact ⟨rfl, rfl⟩
  · rename_i f _
    refine Leads.bind (leads_ofRoutine (f.unfailing_flush.mono ?_))
    rintro ⟨r, f⟩ - hr
    obtain rfl : r = .ok () := hr
    exact leads_keepFile ⟨rfl, rfl⟩

end Writer.Work

/-! ## Calls -/

namespace Policy

variable {p : Policy}

/-- A look in the period of the last one keeps the period. -/
theorem after_of_same {now : Int} (hsame : p.nameAt now = p.lastName) :
    (p.after now).lastName = p.lastName ∧ ∀ later, (p.after now).nameAt later = p.nameAt later := by
  unfold after
  split
  · exact ⟨hsame, fun _ => rfl⟩
  · exact ⟨rfl, fun _ => rfl⟩

end Policy

namespace Writer

variable {w w' : Writer} {c : Conditions} {world world' : World} {e : Error}

/-- **A call whose rollover failed is its rollover**, whatever its record is. -/
theorem run_write_failed (entry : Entry)
    (h : World.run c ((Work.roll entry.now.millis).run.run w) world = ((.error e, w'), world')) :
    World.run c (entry.write w) world = ((.error e, w'), world') ∧
      ∀ j, World.journal c (entry.write w) world j =
        World.journal c ((Work.roll entry.now.millis).run.run w) world j := by
  have hrecord : ∀ now bytes,
      World.run c ((Work.roll now).run.run w) world = ((.error e, w'), world') →
      World.run c ((Work.record now bytes).run.run w) world = ((.error e, w'), world') ∧
        ∀ j, World.journal c ((Work.record now bytes).run.run w) world j =
          World.journal c ((Work.roll now).run.run w) world j := by
    intro now bytes h
    refine ⟨?_, fun j => ?_⟩
    · show World.run c ((Work.roll now).run.run w >>= fun step => _) world = _
      rw [World.run_bind, h]
      rfl
    · show World.follow c _ ((Work.roll now).run.run w >>= fun step => _) world j = _
      rw [World.follow_bind, h]
      rfl
  cases entry with
  | line text now => exact hrecord now.millis _ h
  | raw bytes now => exact hrecord now.millis bytes h

/-- Calls in the period of the last look succeed where nothing fails. -/
theorem unfailing_performAll {deeds : List Deed}
    (hsame : ∀ entry, .write entry ∈ deeds → w.policy.nameAt entry.now.millis = w.policy.lastName) :
    (performAll deeds w).Leads .unfailing (fun r _ => r.1 = deeds.map fun _ => .ok ()) () := by
  induction deeds generalizing w with
  | nil => exact rfl
  | cons d rest ih =>
    have hrest : ∀ entry, .write entry ∈ rest →
        w.policy.nameAt entry.now.millis = w.policy.lastName :=
      fun entry hmem => hsame entry (List.mem_cons_of_mem _ hmem)
    have hone : (d.perform w).Leads .unfailing (fun r _ => r.1 = .ok () ∧
        ∀ entry, .write entry ∈ rest →
          r.2.policy.nameAt entry.now.millis = r.2.policy.lastName) () := by
      cases d with
      | flush =>
        refine Routine.Leads.mono (Work.unfailing_flush w) ?_
        rintro ⟨r, w₁⟩ - ⟨hr, hpolicy⟩
        refine ⟨hr, ?_⟩
        rw [hpolicy]
        exact hrest
      | write entry =>
        have hnow := hsame entry List.mem_cons_self
        obtain ⟨hlast, hnames⟩ := Policy.after_of_same hnow
        have hwrite : (entry.write w).Leads .unfailing (fun r _ =>
            r.1 = .ok () ∧ r.2.policy = w.policy.after entry.now.millis) () := by
          cases entry with
          | line text now => exact Work.unfailing_record_of_same hnow _
          | raw bytes now => exact Work.unfailing_record_of_same hnow bytes
        refine hwrite.mono ?_
        rintro ⟨r, w₁⟩ - ⟨hr, hpolicy⟩
        refine ⟨hr, fun later hmem => ?_⟩
        rw [hpolicy, hnames, hlast]
        exact hrest later hmem
    refine Routine.Leads.bind (hone.mono ?_)
    rintro ⟨r, w₁⟩ - ⟨hr, hsame₁⟩
    refine Routine.Leads.bind ((ih hsame₁).mono ?_)
    rintro ⟨results, w₂⟩ - hresults
    have hr : r = .ok () := hr
    have hresults : results = rest.map fun _ => .ok () := hresults
    rw [hr, hresults]
    exact rfl

/-- **A rollover that failed leaves no trace of the record.**  Let the rollover before a record fail, from
whatever state of a writer.  The failure is that of a file operation or of the move of a fixed active
file; the policy has looked, the reader was shown nothing, and nothing is pending.  In a call with any
record at that instant, the writer's files take nothing but what was pending before, and the call ends
just there: a run goes on from there alike, whatever the record was and whatever is asked later, so that
none of its bytes comes to a file.  And in whatever world the log goes on, calls in the same period
succeed as long as nothing fails. -/
theorem failed_roll_leaves_no_trace {now : Instant}
    (hfailed : World.run c ((Work.roll now.millis).run.run w) world = ((.error e, w'), world')) :
    ((∃ cause, e = .io cause) ∨ ∃ active target reason, w.policy.fixedFile = some active ∧
      e = .renameFailed active target reason) ∧
    w'.policy = w.policy.looked now.millis ∧ w'.tail = w.tail ∧
    (∀ f, w'.file = some f → f.pending = []) ∧
    (∀ entry : Entry, entry.now = now →
      (∀ s ∈ (World.journal c (entry.write w) world .blank).strokes,
        ∃ f, w.file = some f ∧ s.bytes <:+: f.pending) ∧
      ∀ {β : Type} (later : Except Error Unit × Writer → Routine β),
        World.run c (entry.write w >>= later) world = World.run c (later (.error e, w')) world') ∧
    ∀ (deeds : List Deed) (c' : Conditions) (world'' : World),
      (∀ entry, .write entry ∈ deeds →
        w.policy.nameAt entry.now.millis = w.policy.nameAt now.millis) →
      World.smooth c' (performAll deeds w') world'' = true →
        (World.run c' (performAll deeds w') world'').1.1 = deeds.map fun _ => .ok () := by
  have hblamed := World.anything_run_alone (c := c) (w := world) (Work.blamesFiles_roll now.millis w)
  have hleft := World.follow_run (c := c) (w := world) (Work.emptied_roll now.millis w .blank)
  rw [hfailed] at hblamed hleft
  obtain ⟨hpolicy, htail, hpending, hstrokes⟩ := hleft e rfl
  refine ⟨?_, hpolicy, htail, hpending, ?_, ?_⟩
  · cases hblamed.error e rfl with
    | io cause => exact .inl ⟨cause, rfl⟩
    | move hactive target reason => exact .inr ⟨_, target, reason, hactive, rfl⟩
  · rintro entry rfl
    obtain ⟨hend, hjournal⟩ := run_write_failed entry hfailed
    refine ⟨fun s hs => ?_, fun later => ?_⟩
    · rw [hjournal] at hs
      exact (hstrokes s hs).resolve_left List.not_mem_nil
    · rw [World.run_bind, hend]
  · intro deeds c' world'' hperiod hsmooth
    refine World.unfailing_run (unfailing_performAll fun entry hmem => ?_) hsmooth
    -- the policy has looked, so that the period of that look is the one to compare with
    rw [hpolicy]
    exact hperiod entry hmem

/-- A log with a fixed active file, by the hour. -/
def hourly : Policy :=
  ⟨⟨"app.log.%d\x7bHH\x7d", "app.log.".toList, "HH".toList, [.field (.hour .padded)], [], .utc, false⟩,
    .fixed 0, some ⟨"app.log"⟩, .none, "app.log.00", 0⟩

/-- Its file cannot be moved: a directory is in the way, which is not empty. -/
def blocked : World :=
  .ofFiles (.ofFiles [(⟨"app.log"⟩, some [111]), (⟨"app.log.00/a"⟩, some [])])

/-- A writer of the log that still has a byte to write out, and a reader. -/
def behind : Writer := ⟨hourly, ⟨"app.log"⟩, some ⟨.file 0, [120]⟩, some ⟨4, []⟩⟩

/-- The move at the end of the first hour fails.  What was pending is written out, the record of the call is
nowhere, and the next record goes to the file that is still there. -/
theorem failed_roll_leaves_no_trace_of_blocked_record : ∃ w' world',
    World.run (.calm .epoch) ((Work.roll 3600000).run.run behind) blocked =
      ((.error (.renameFailed ⟨"app.log"⟩ ⟨"app.log.00"⟩ (.io .isADirectory)), w'), world') ∧
    w'.tail = behind.tail ∧
    (∀ text bytes, World.run (.calm .epoch) ((Entry.line text ⟨3600, 0⟩).write behind) blocked =
      World.run (.calm .epoch) ((Entry.raw bytes ⟨3600, 0⟩).write behind) blocked) ∧
    World.smooth (.calm .epoch) (performAll [.write (.raw [98] ⟨3603, 0⟩)] w') world' = true ∧
    (World.run (.calm .epoch) (performAll [.write (.raw [98] ⟨3603, 0⟩)] w') world').1.1 = [.ok ()] ∧
    (World.run (.calm .epoch) (performAll [.write (.raw [98] ⟨3603, 0⟩)] w') world').2.files.bytesAt
      ⟨"app.log"⟩ = [111, 120, 98] := by
  have hrun : ∃ w' world',
      World.run (.calm .epoch) ((Work.roll 3600000).run.run behind) blocked =
        ((.error (.renameFailed ⟨"app.log"⟩ ⟨"app.log.00"⟩ (.io .isADirectory)), w'), world') ∧
      World.smooth (.calm .epoch) (performAll [.write (.raw [98] ⟨3603, 0⟩)] w') world' = true ∧
      (World.run (.calm .epoch) (performAll [.write (.raw [98] ⟨3603, 0⟩)] w') world').2.files.bytesAt
        ⟨"app.log"⟩ = [111, 120, 98] := ⟨_, _, rfl, by decide, by decide⟩
  obtain ⟨w', world', hrun, hsmooth, hbytes⟩ := hrun
  have hnow : (⟨3600, 0⟩ : Instant).millis = 3600000 := by decide
  rw [← hnow] at hrun
  obtain ⟨-, -, htail, -, hcall, hnext⟩ := failed_roll_leaves_no_trace hrun
  refine ⟨w', world', hrun, htail, fun text bytes => ?_, hsmooth, ?_, hbytes⟩
  · have hline := (hcall (.line text ⟨3600, 0⟩) rfl).2 Routine.done
    have hraw := (hcall (.raw bytes ⟨3600, 0⟩) rfl).2 Routine.done
    rw [Routine.bind_done] at hline hraw
    rw [hline, hraw]
  · refine hnext [.write (.raw [98] ⟨3603, 0⟩)] (.calm .epoch) world' (fun entry hmem => ?_) hsmooth
    rcases List.mem_singleton.mp hmem with ⟨⟩
    decide

end Writer

end LogRotation
