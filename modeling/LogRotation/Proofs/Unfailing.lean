/-
  Calls of a log where no operation fails.

  Nothing has to be known of the files for this, of those who are at work on them, or of the clock,
  which may go back: where every request is answered with a success, a call succeeds, and a log without
  a fixed active file is at the active file of its policy after it.

    * UNFAILING   the regime in which every answer tells of no failure;
    * AT HAND     a writer at the active file of its policy, and what keeps it there;
    * CALLS       a run of calls, and the log that it begins with.

  Main statement: `unfailing_history`.
-/
import LogRotation.Proofs.Reopening
import LogRotation.Proofs.Smoothness

namespace LogRotation

/-- A request may be answered with all that tells of no failure. -/
def Regime.unfailing : Regime Unit where
  step _ q k := ∀ r, q.succeeds r = true → k r ()
  mono h hk := fun r hr => hk r () (h r hr)

namespace World

variable {c : Conditions} {w : World}

theorem succeeds_perform {q : Request} (h : smoothPerform c w q = true) :
    q.succeeds (w.perform c q).1 = true := by
  cases q <;> first | exact h | rfl

/-- What a routine leads to for all answers that tell of no failure, it leads to in a smooth run. -/
theorem unfailing_run {α : Type} {r : Routine α} {Q : α → Unit → Prop}
    (h : r.Leads .unfailing Q ()) (hsmooth : smooth c r w = true) : Q (run c r w).1 () := by
  induction r generalizing w with
  | done a => exact h
  | ask q next ih =>
    obtain ⟨-, hrest⟩ := Bool.and_eq_true_iff.mp hsmooth
    obtain ⟨hperform, hnext⟩ := Bool.and_eq_true_iff.mp hrest
    exact ih _ (h _ (succeeds_perform hperform)) hnext

/-- A smooth run is smooth in its parts. -/
theorem smooth_bind {α β : Type} (c : Conditions) (r : Routine α) (f : α → Routine β) (w : World) :
    smooth c (r >>= f) w = (smooth c r w && smooth c (f (run c r w).1) (run c r w).2) := by
  induction r generalizing w with
  | done a => rfl
  | ask q next ih =>
    rw [Routine.ask_bind, smooth, smooth, ih, Bool.and_assoc, Bool.and_assoc]
    rfl

theorem smooth_attempt {ε α β : Type} {x : Routine.Attempt ε α} {f : α → Routine.Attempt ε β}
    (h : smooth c (x >>= f).run w = true) : smooth c x.run w = true ∧
      ∀ a, (run c x.run w).1 = .ok a → smooth c (f a).run (run c x.run w).2 = true := by
  have h : smooth c (x.run >>= ExceptT.bindCont f) w = true := h
  rw [smooth_bind, Bool.and_eq_true] at h
  refine ⟨h.1, fun a ha => ?_⟩
  have hrest := h.2
  rw [ha] at hrest
  exact hrest

theorem smooth_lift {ε α : Type} {r : Routine α}
    (h : smooth c (ExceptT.lift r : Routine.Attempt ε α).run w = true) : smooth c r w = true := by
  have h : smooth c (r >>= fun a => pure (Except.ok a)) w = true := h
  rw [smooth_bind, Bool.and_eq_true] at h
  exact h.1

end World

/-! ## Files -/

namespace Routine

theorem unfailing_makeDirectories (ds : List Path) :
    Leads .unfailing (makeDirectories ds).run (fun r _ => r = .ok ()) () :=
  -- a directory that cannot be made is there
  leads_makeDirectories (· = true) (fun _ _ _ hk r _ => hk r)
    (fun _ _ _ hk => hk) rfl nofun

theorem unfailing_makeParents (x : Path) :
    Leads .unfailing (makeParents x).run (fun r _ => r = .ok ()) () := by
  unfold makeParents
  split
  · exact unfailing_makeDirectories _
  · exact rfl

theorem unfailing_openAppend (x : Path) :
    Leads .unfailing (openAppend x).run (fun r _ => ∃ f, r = .ok f) () := by
  refine leads_attempt ((unfailing_makeParents x).mono ?_)
  rintro r - rfl
  refine leads_attempt fun r hr => ?_
  cases r with
  | error e => cases hr
  | ok h => exact ⟨_, rfl⟩

end Routine

/-! ## Buffers -/

namespace Buffered

theorem outcome_of_succeeds {h : Handle} {bytes : Bytes} {w : Written}
    (hw : (Request.write h bytes).succeeds w = true) : outcome w = .ok () := by
  have hnone : w.failure = none := Option.isNone_iff_eq_none.mp hw
  rw [outcome, hnone]

theorem unfailing_flush (f : Buffered) :
    f.flush.Leads .unfailing (fun r _ => r.1 = .ok ()) () := by
  unfold flush
  split
  · exact rfl
  · exact Routine.Leads.bind (f := fun w => _) fun w hw => outcome_of_succeeds hw

theorem unfailing_add (f : Buffered) (bytes : Bytes) :
    (f.add bytes).Leads .unfailing (fun r _ => r.1 = .ok ()) () := by
  have hput : ∀ f : Buffered, Routine.Leads .unfailing (if bytes.length < capacity
      then pure (.ok (), { f with pending := f.pending ++ bytes })
      else Routine.request (.write f.handle bytes) >>= fun w => pure (outcome w, f))
      (fun r _ => r.1 = .ok ()) () := by
    intro f
    split
    · exact rfl
    · exact Routine.Leads.bind (f := fun w => _) fun w hw => outcome_of_succeeds hw
  unfold add
  dsimp only
  by_cases hroom : capacity - f.pending.length < bytes.length
  · rw [if_pos hroom]
    refine Routine.Leads.bind (f.unfailing_flush.mono ?_)
    rintro ⟨r, f⟩ - hr
    obtain rfl : r = .ok () := hr
    exact hput f
  · rw [if_neg hroom]
    exact hput f

theorem unfailing_release (f : Buffered) : f.release.Leads .unfailing (fun _ _ => True) () :=
  Routine.Leads.bind (f.unfailing_flush.mono fun _ _ _ => fun _ _ => trivial)

end Buffered

/-! ## Work -/

/-- A writer at the active file of its policy. -/
def Writer.AtHand (w : Writer) : Prop := w.path = w.policy.activeFile

/-- What a call leaves behind where nothing fails. -/
structure Writer.Served (w : Writer) (now : Int) (r : Except Error Unit) (w' : Writer) : Prop where
  ok : r = .ok ()
  policy : w'.policy = w.policy.after now
  atHand : w'.AtHand

namespace Writer.Work

variable {w : Writer} {now : Int}

theorem unfailing_closeFile (w : Writer) : closeFile.Leads .unfailing
    (fun r w' _ => r = .ok () ∧ w' = { w with file := none }) w () := by
  refine Leads.bind (leads_get ?_)
  dsimp only
  split
  · rename_i hnone
    refine ⟨rfl, ?_⟩
    rw [← hnone]
  · rename_i f _
    refine Leads.bind (leads_modify (Leads.bind (leads_ofRoutine (f.unfailing_flush.mono ?_))))
    rintro ⟨r, f⟩ - hr
    obtain rfl : r = .ok () := hr
    exact Leads.bind (leads_ofRoutine (f.unfailing_release.mono fun _ _ _ => ⟨rfl, rfl⟩))

theorem unfailing_openFile (x : Path) {Q : Except Error Unit → Writer → Unit → Prop}
    (hQ : ∀ f, Q (.ok ()) { w with file := some f, path := x } ()) :
    (openFile x).Leads .unfailing Q w () := by
  refine leads_openFile ((Routine.unfailing_openAppend x).mono ?_)
  rintro r - ⟨f, rfl⟩
  exact hQ f

/-- What follows where a period is over. -/
theorem unfailing_crossing {written : Bool} (hfixed : w.policy.fixedFile = none)
    (hdue : w.policy.isDue now = true) (hover : w.policy.isOver now = true) :
    Leads .unfailing (do
      closeFile
      let moved ← ofRoutine (Action.executeAll (w.policy.rollover now written).1.before).run
      openFile (w.policy.rollover now written).1.activeFile
      ofExcept moved
      unless (w.policy.rollover now written).1.background.isEmpty do
        ofRoutine (Routine.request (.submit (w.policy.rollover now written).1.background)))
      (fun r w' _ => w.Served now r w') { w with policy := w.policy.looked now } () := by
  refine Leads.bind ((unfailing_closeFile _).mono ?_)
  rintro r w₁ - ⟨rfl, rfl⟩
  rw [Policy.rollover_of_over hover, hfixed]
  -- without a fixed active file, nothing is moved
  have hmoved : Leads .unfailing (ofRoutine (Action.executeAll []).run)
      (fun r w' _ => r = .ok (.ok ()) ∧ w' = { w with policy := w.policy.looked now, file := none })
      { w with policy := w.policy.looked now, file := none } () := ⟨rfl, rfl⟩
  refine Leads.bind (hmoved.mono ?_)
  rintro r w₂ - ⟨rfl, rfl⟩
  refine Leads.bind (unfailing_openFile _ fun f => ?_)
  have hserved : w.Served now (.ok ())
      { w with
        policy := w.policy.looked now
        file := some f
        path := (w.policy.looked now).activeFile } := ⟨rfl, (if_pos hdue).symm, rfl⟩
  refine Leads.bind (leads_ofExcept ?_)
  dsimp only
  generalize (if written = true then w.policy.archiving else []) = background
  by_cases hempty : background.isEmpty = true
  · rw [if_pos hempty]
    exact hserved
  · rw [if_neg hempty]
    exact leads_ofRoutine (Q := fun r w' _ => w.Served now r w') fun _ _ => hserved

/-- **One look.**  A writer at the active file is led to the active file. -/
theorem unfailing_roll (hfixed : w.policy.fixedFile = none) (h : w.AtHand) :
    (roll now).Leads .unfailing (fun r w' _ => w.Served now r w') w () := by
  refine Leads.bind (leads_get ?_)
  dsimp only
  by_cases hdue : w.policy.isDue now = true
  · rw [if_pos hdue]
    refine Leads.bind (leads_consult (fun hover written _ => ?_) fun hover => ?_)
    · have hcrossed : (w.policy.rollover now written).1.crossed = true := by
        rw [Policy.rollover_of_over hover]
      dsimp only
      rw [if_pos hcrossed]
      exact unfailing_crossing hfixed hdue hover
    · -- the name stays, and with it the active file
      have hsame : w.policy.nameAt now = w.policy.lastName := bne_eq_false_iff_eq.mp hover
      have hfile : (w.policy.looked now).activeFile = w.policy.activeFile :=
        congrArg w.policy.activeFileFor hsame
      have hpath : w.path = w.policy.activeFile := h
      rw [Policy.rollover_of_same hsame, hfile]
      dsimp only
      rw [if_neg Bool.false_ne_true]
      refine Leads.bind (leads_get ?_)
      dsimp only
      rw [if_neg (not_not.mpr (congrArg Path.components hpath.symm))]
      exact ⟨rfl, (if_pos hdue).symm, hpath.trans hfile.symm⟩
  · rw [if_neg hdue]
    exact ⟨rfl, (if_neg hdue).symm, h⟩

theorem unfailing_needFile (w : Writer) : needFile.Leads .unfailing
    (fun r w' _ => (∃ f, r = .ok f) ∧ w'.policy = w.policy ∧ w'.path = w.path) w () := by
  refine Leads.bind (leads_get ?_)
  dsimp only
  split
  · exact ⟨⟨_, rfl⟩, rfl, rfl⟩
  · refine Leads.bind (leads_get (Leads.bind (leads_ofAttempt ?_)))
    refine (Routine.unfailing_openAppend _).mono ?_
    rintro r - ⟨f, rfl⟩
    exact Leads.bind (leads_modify ⟨⟨f, rfl⟩, rfl, rfl⟩)

/-- Something is done with the writer's file, and work goes on from there. -/
theorem unfailing_withFile {work : Buffered → Routine (Except IoError Unit × Buffered)}
    {k : Except IoError Unit × Buffered → Work Unit} {Q : Except Error Unit → Writer → Unit → Prop}
    (hwork : ∀ f, (work f).Leads .unfailing (fun r _ => r.1 = .ok ()) ())
    (hk : ∀ f w', w'.policy = w.policy → w'.path = w.path → (k (.ok (), f)).Leads .unfailing Q w' ()) :
    Leads .unfailing (do k (← ofRoutine (work (← needFile)))) Q w () := by
  refine Leads.bind ((unfailing_needFile w).mono ?_)
  rintro r w₁ - ⟨⟨f, rfl⟩, hpolicy, hpath⟩
  refine Leads.bind (leads_ofRoutine ((hwork f).mono ?_))
  rintro ⟨r, f⟩ - hr
  obtain rfl : r = .ok () := hr
  exact hk f w₁ hpolicy hpath

theorem unfailing_append (bytes : Bytes) (w : Writer) : (append bytes).Leads .unfailing
    (fun r w' _ => r = .ok () ∧ w'.policy = w.policy ∧ w'.path = w.path) w () := by
  refine unfailing_withFile (fun f => f.unfailing_add bytes) fun f w₁ hpolicy hpath => ?_
  refine Leads.bind (leads_keepFile ?_)
  refine unfailing_withFile Buffered.unfailing_flush fun f₂ w₂ hpolicy₂ hpath₂ => ?_
  exact leads_keepFile ⟨rfl, hpolicy₂.trans hpolicy, hpath₂.trans hpath⟩

/-- **One call.** -/
theorem unfailing_record (hfixed : w.policy.fixedFile = none) (h : w.AtHand) (bytes : Bytes) :
    (record now bytes).Leads .unfailing (fun r w' _ => w.Served now r w') w () := by
  refine Leads.bind ((unfailing_roll hfixed h).mono ?_)
  rintro r w₁ - ⟨rfl, hpolicy, hathand⟩
  refine Leads.bind ((unfailing_append bytes w₁).mono ?_)
  rintro r w₂ - ⟨rfl, hpolicy₂, hpath₂⟩
  refine leads_showRecord fun tail => ⟨rfl, hpolicy₂.trans hpolicy, ?_⟩
  show w₂.path = w₂.policy.activeFile
  rw [hpath₂, hpolicy₂]
  exact hathand

end Writer.Work

/-! ## Calls -/

/-- The policy after records at some instants. -/
def Policy.afterAll (p : Policy) (instants : List Int) : Policy := instants.foldl after p

namespace Writer

variable {c : Conditions} {w : Writer} {world : World} {entries : List Entry}

theorem unfailing_write {e : Entry} (hfixed : w.policy.fixedFile = none) (h : w.AtHand) :
    (e.write w).Leads .unfailing (fun r _ => w.Served e.now.millis r.1 r.2) () := by
  cases e with
  | line text now => exact Work.unfailing_record hfixed h _
  | raw bytes now => exact Work.unfailing_record hfixed h bytes

/-- A call of a run that succeeded, after others: the writer is at the active file of a policy that has
seen all instants so far, and the record is the end of what the call sent to that file. -/
structure Acknowledged (p : Policy) (earlier : List Call) (k : Call) : Prop where
  ok : k.result = .ok ()
  policy : k.after.policy = p.afterAll (instants ((earlier ++ [k]).map Call.entry))
  atHand : k.after.AtHand
  sent : ∃ handle sent, k.tale.landing = some ⟨k.after.path, handle, sent⟩ ∧ k.entry.bytes p <:+ sent

theorem map_entry_calls (c : Conditions) (entries : List Entry) (w : Writer) (world : World) :
    (calls c entries w world).map Call.entry = entries := by
  induction entries generalizing w world with
  | nil => rfl
  | cons e rest ih => exact congrArg (e :: ·) (ih _ _)

/-- **Call after call.**  All succeed. -/
theorem unfailing_calls (hfixed : w.policy.fixedFile = none) (h : w.AtHand)
    (hsmooth : World.smooth c (writeAll entries w) world = true) :
    ∀ earlier k later, calls c entries w world = earlier ++ k :: later →
      Acknowledged w.policy earlier k := by
  induction entries generalizing w world with
  | nil =>
    intro earlier k later he
    cases earlier <;> cases he
  | cons e rest ih =>
    rw [writeAll, World.smooth_bind, Bool.and_eq_true] at hsmooth
    obtain ⟨hcall, hrest⟩ := hsmooth
    rw [World.smooth_bind, Bool.and_eq_true] at hrest
    obtain ⟨hok, hpolicy, hathand⟩ := World.unfailing_run (unfailing_write hfixed h) hcall
    obtain ⟨-, hlanded⟩ := rolled_call c e w world
    intro earlier k later he
    rw [calls] at he
    cases earlier with
    | nil =>
      obtain ⟨rfl, -⟩ := List.cons.inj he
      exact ⟨hok, hpolicy, hathand, hlanded hok⟩
    | cons b earlier =>
      obtain ⟨rfl, hsplit⟩ := List.cons.inj he
      have hfixed' := hfixed
      rw [← Policy.fixedFile_after w.policy e.now.millis, ← hpolicy] at hfixed'
      obtain ⟨hok', hpolicy', hathand', hsent'⟩ :=
        ih hfixed' hathand hrest.1 earlier k later hsplit
      rw [hpolicy] at hpolicy'
      rw [hpolicy, Entry.bytes_after] at hsent'
      exact ⟨hok', hpolicy', hathand', hsent'⟩

/-- Opening a log does not fail, and leaves the writer at the active file. -/
theorem unfailing_ofPolicy (p : Policy) : (ofPolicy p).run.Leads .unfailing
    (fun r _ => ∃ w, r = .ok w) () := by
  refine Routine.leads_attempt (Routine.leads_adapt ((Routine.unfailing_openAppend _).mono ?_))
  rintro r - ⟨f, rfl⟩
  exact ⟨_, rfl⟩

/-- **Where nothing fails, all calls succeed**, each at the active file of its policy. -/
theorem unfailing_history {p : Policy} {tail : Option LiveTail} {fs : FileSystem}
    (hfixed : p.fixedFile = none)
    (hsmooth : World.smooth c (session p tail entries).run (.ofFiles fs) = true) :
    ∃ ks, history c p tail entries fs = .ok ks ∧ ks.map Call.entry = entries ∧
      ∀ earlier k later, ks = earlier ++ k :: later → Acknowledged p earlier k := by
  obtain ⟨hopen, hrest⟩ := World.smooth_attempt hsmooth
  obtain ⟨w, hw⟩ := World.unfailing_run (unfailing_ofPolicy p) hopen
  obtain ⟨rfl, hpath⟩ := opened_ofPolicy hw
  have hcalls := World.smooth_lift (World.smooth_attempt (hrest w hw)).1
  have hhistory : history c w.policy tail entries fs = .ok (calls c entries { w with tail := tail }
      (World.run c (ofPolicy w.policy).run (.ofFiles fs)).2) := by
    rw [history, hw]
    rfl
  exact ⟨_, hhistory, map_entry_calls _ _ _ _,
    unfailing_calls (w := { w with tail := tail }) hfixed hpath hcalls⟩

end Writer

end LogRotation
