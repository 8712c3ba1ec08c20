/-
  What is to blame when a log fails.

  A configuration that is no good is refused before anything is asked of the world, and the error says
  so.  Once it is in use, only the files can be to blame: a call ends in a file operation that failed, or
  in a move that did not come about.  What fails in the background is told nobody.

    * ANYTHING  the regime in which a request may be answered with anything, so that it does not matter
                what fails and what others put or take away;
    * AMONG     a run among others, who do what they like to the files before each request;
    * BLAMED    what work may end in, and what it keeps: the fixed active file of its policy.

  Main statement: `errors_by_stage`.
-/
import LogRotation.Capture
import LogRotation.Proofs.Durability
import LogRotation.Proofs.Grammar

namespace LogRotation

/-! ## Whatever happens -/

/-- A request may be answered with anything. -/
def Regime.anything : Regime Unit where
  step _ _ k := ∀ r, k r ()
  mono h hk := fun r => hk r () (h r)

theorem Routine.leads_anything {α : Type} (r : Routine α) {Q : α → Unit → Prop} (hQ : ∀ a, Q a ()) :
    r.Leads .anything Q () := by
  induction r with
  | done a => exact hQ a
  | ask q next ih => exact fun r => ih r

namespace World

variable {α : Type} {c : Conditions}

/-- Runs a routine of the program, with the worker in between, among others: before each request they may
do anything to the files. -/
def runAmong (c : Conditions) (others : Nat → FileSystem → FileSystem) : Routine α → World → α × World
  | .done a, w => (a, w)
  | .ask q next, w =>
    let w := { w with files := others w.ticks w.files }
    let (r, w) := (turns c (c.turns w.ticks) w).perform c q
    runAmong c others (next r) w

/-- Holds of a world whose worker has nothing to do. -/
def Idle (w : World) : Prop := w.queue = [] ∧ w.begun = .done ()

theorem Idle.turns {w : World} (h : w.Idle) (n : Nat) : World.turns c n w = w := by
  induction n with
  | zero => rfl
  | succ n ih =>
    have hturn : turn c w = w := by
      rw [turn, h.2, h.1]
    rw [World.turns, hturn, ih]

theorem run_ask {q : Request} {next : q.Reply → Routine α} {w : World} (h : w.Idle) :
    run c (.ask q next) w = run c (next (w.perform c q).1) (w.perform c q).2 := by
  show run c (next ((turns c _ w).perform c q).1) ((turns c _ w).perform c q).2 = _
  rw [h.turns]

/-- Others who do nothing make no difference. -/
theorem runAmong_alone (r : Routine α) (w : World) :
    runAmong c (fun _ files => files) r w = run c r w := by
  induction r generalizing w with
  | done a => rfl
  | ask q next ih => exact ih _ _

/-- What a routine leads to for all answers, it leads to in every run among others. -/
theorem anything_run {others : Nat → FileSystem → FileSystem} {r : Routine α} {Q : α → Unit → Prop}
    {w : World} (h : r.Leads .anything Q ()) : Q (runAmong c others r w).1 () := by
  induction r generalizing w with
  | done a => exact h
  | ask q next ih => exact ih _ (h _)

/-- And so it does in every run without others. -/
theorem anything_run_alone {r : Routine α} {Q : α → Unit → Prop} {w : World}
    (h : r.Leads .anything Q ()) : Q (run c r w).1 () := by
  rw [← runAmong_alone]
  exact anything_run h

end World

/-! ## Configurations -/

/-- A template that is refused is the pattern's fault. -/
theorem Template.isConfigError_of_parse {text : String} {e : Error} (h : parse text = .error e) :
    e.isConfigError = true := by
  rcases parse_cases text with ⟨t, ht⟩ | ⟨ht, -⟩ | ⟨reason, ht⟩ <;> rw [ht] at h <;> cases h <;> rfl

theorem Config.isConfigError_of_pattern {config : Config} {e : Error} (h : config.pattern = .error e) :
    e.isConfigError = true := by
  unfold pattern at h
  split at h
  · cases h
    rfl
  · split at h
    · cases h
      rfl
    · cases h

theorem Config.isConfigError_of_validate {config : Config} {e : Error}
    (h : config.validate = .error e) : e.isConfigError = true := by
  unfold validate at h
  split at h
  · rename_i e' hpattern
    cases h
    exact isConfigError_of_pattern hpattern
  · split at h
    · split at h
      · cases h
        rfl
      · cases h
    · cases h

/-- **The configuration is to blame** where it cannot be put to use. -/
theorem Policy.isConfigError_of_activate {localTime : LocalTime} {start : Int} {config : Config} {e : Error}
    (h : activate localTime config start = .error e) : e.isConfigError = true := by
  simp only [activate, bind, Except.bind, pure, Except.pure] at h
  split at h
  · rename_i e' hpattern
    cases h
    exact Config.isConfigError_of_pattern hpattern
  · split at h
    · rename_i e' hvalidate
      cases h
      exact Config.isConfigError_of_validate hvalidate
    · split at h
      · rename_i e' hparse
        cases h
        exact Template.isConfigError_of_parse hparse
      · cases h

/-! ## Files -/

/-- The errors that files are to blame for, in a log with or without a fixed active file: an operation
failed, or the fixed active file was not moved. -/
inductive Error.OfFiles (fixed : Option Path) : Error → Prop
  | io (cause : IoError) : OfFiles fixed (.io cause)
  | move {active : Path} (h : fixed = some active) (target : Path) (reason : RenameFault) :
      OfFiles fixed (.renameFailed active target reason)

/-- The configuration is never to blame together with the files, and neither is a compression. -/
theorem Error.OfFiles.spares {fixed : Option Path} {e : Error} (h : e.OfFiles fixed) :
    e.isConfigError = false ∧ ∀ path reason, e ≠ .compressionFailed path reason := by
  cases h with
  | io cause => exact ⟨rfl, nofun⟩
  | move h target reason => exact ⟨rfl, nofun⟩

/-- A move that is mandatory fails as such, at whatever step. -/
theorem Action.anything_move (active target : Path) :
    Routine.Leads .anything (executeAll [.rename active target true]).run
      (fun r _ => ∀ e, r = .error e → ∃ reason, e = .renameFailed active target reason) () := by
  refine Routine.leads_attempt (Routine.leads_attempt (Routine.leads_lift fun there => ?_))
  cases there with
  | false => exact fun e he => by cases he; exact ⟨_, rfl⟩
  | true =>
    refine Routine.leads_attempt (Routine.leads_adapt (Routine.leads_anything _ fun made => ?_))
    cases made with
    | error cause => exact fun e he => by cases he; exact ⟨_, rfl⟩
    | ok u =>
      refine Routine.leads_attempt (Routine.leads_lift fun moved => ?_)
      cases moved with
      | error cause => exact fun e he => by cases he; exact ⟨_, rfl⟩
      | ok u => exact fun e he => nomatch he

namespace Writer.Work

variable {α β : Type} {w : Writer}

/-- What is left behind by work that only files are to blame for, if it fails. -/
structure Blamed (w : Writer) (r : Except Error α) (w' : Writer) : Prop where
  fixedFile : w'.policy.fixedFile = w.policy.fixedFile
  error : ∀ e, r = .error e → e.OfFiles w.policy.fixedFile

/-- Holds of work that, whatever is answered, fails with nothing but what files are to blame for. -/
def BlamesFiles (x : Work α) (w : Writer) : Prop :=
  x.Leads .anything (fun r w' _ => Blamed w r w') w ()

theorem BlamesFiles.bind {x : Work α} {f : α → Work β} (hx : x.BlamesFiles w)
    (hf : ∀ a w', w'.policy.fixedFile = w.policy.fixedFile → (f a).BlamesFiles w') :
    (x >>= f).BlamesFiles w := by
  refine Leads.bind (hx.mono ?_)
  rintro r w' - ⟨hfixed, herror⟩
  cases r with
  | error e => exact ⟨hfixed, fun e' he => by cases he; exact herror e rfl⟩
  | ok a =>
    refine (hf a w' hfixed).mono ?_
    rintro r w'' - ⟨hfixed', herror'⟩
    exact ⟨hfixed'.trans hfixed, fun e he => hfixed ▸ herror' e he⟩

theorem blamesFiles_pure (a : α) : (pure a : Work α).BlamesFiles w := leads_pure ⟨rfl, nofun⟩

theorem blamesFiles_get : (get : Work Writer).BlamesFiles w := leads_get ⟨rfl, nofun⟩

theorem blamesFiles_modify {f : Writer → Writer}
    (h : (f w).policy.fixedFile = w.policy.fixedFile) : (modify f : Work PUnit).BlamesFiles w :=
  leads_modify ⟨h, nofun⟩

theorem blamesFiles_ofRoutine (r : Routine α) : (ofRoutine r).BlamesFiles w :=
  leads_ofRoutine (r.leads_anything fun _ => ⟨rfl, nofun⟩)

/-- A failure of a file operation is told as such. -/
theorem blamesFiles_mapError (r : Except IoError α) : (ofExcept (r.mapError Error.io)).BlamesFiles w := by
  refine leads_ofExcept ⟨rfl, fun e he => ?_⟩
  cases r with
  | error cause =>
    cases he
    exact .io cause
  | ok a => cases he

theorem blamesFiles_ofAttempt (r : Routine.Attempt IoError α) : (ofAttempt r).BlamesFiles w :=
  (blamesFiles_ofRoutine _).bind fun r _ _ => blamesFiles_mapError r

theorem blamesFiles_closeFile (w : Writer) : closeFile.BlamesFiles w := by
  refine blamesFiles_get.bind fun a w _ => ?_
  cases a.file with
  | none => exact blamesFiles_pure _
  | some f =>
    refine (blamesFiles_modify rfl).bind fun _ w _ => ?_
    refine (blamesFiles_ofRoutine _).bind fun step w _ => ?_
    exact (blamesFiles_ofRoutine _).bind fun _ w _ => blamesFiles_mapError _

theorem blamesFiles_openFile (x : Path) (w : Writer) : (openFile x).BlamesFiles w :=
  (blamesFiles_ofAttempt _).bind fun _ _ _ => blamesFiles_modify rfl

/-- What follows where a period is over. -/
theorem blamesFiles_crossing {rollover : Rollover}
    (hbefore : rollover.before = [] ∨ ∃ active target, w.policy.fixedFile = some active ∧
      rollover.before = [.rename active target true]) :
    BlamesFiles (do
      closeFile
      let moved ← ofRoutine (Action.executeAll rollover.before).run
      openFile rollover.activeFile
      ofExcept moved
      unless rollover.background.isEmpty do
        ofRoutine (Routine.request (.submit rollover.background))) w := by
  have hsubmit : ∀ w', BlamesFiles (unless rollover.background.isEmpty do
      ofRoutine (Routine.request (.submit rollover.background)) : Work Unit) w' := by
    intro w'
    by_cases hempty : rollover.background.isEmpty = true
    · rw [if_pos hempty]
      exact blamesFiles_pure _
    · rw [if_neg hempty]
      exact blamesFiles_ofRoutine _
  refine (blamesFiles_closeFile w).bind fun _ w₁ hfixed₁ => ?_
  -- the moves are told of after the next file is opened
  have hmoved : Routine.Leads .anything (Action.executeAll rollover.before).run
      (fun r _ => ∀ e, r = .error e → e.OfFiles w₁.policy.fixedFile) () := by
    rcases hbefore with hnone | ⟨active, target, hactive, hmove⟩
    · rw [hnone]
      exact fun e he => nomatch he
    · rw [hmove]
      refine (Action.anything_move active target).mono fun r _ hr e he => ?_
      obtain ⟨reason, rfl⟩ := hr e he
      exact .move (hfixed₁.trans hactive) target reason
  refine Leads.bind (leads_ofRoutine (hmoved.mono fun moved _ herror => ?_))
  refine (blamesFiles_openFile _ w₁).bind fun _ w₂ hfixed₂ => ?_
  have htold : (ofExcept moved).BlamesFiles w₂ :=
    leads_ofExcept ⟨rfl, fun e he => hfixed₂ ▸ herror e he⟩
  exact htold.bind fun _ w₃ _ => hsubmit w₃

/-- **One look.** -/
theorem blamesFiles_roll (now : Int) (w : Writer) : (roll now).BlamesFiles w := by
  refine Leads.bind (leads_get ?_)
  dsimp only
  by_cases hdue : w.policy.isDue now = true
  · rw [if_pos hdue]
    have hlooked : ∀ written, BlamesFiles (do
        if (w.policy.rollover now written).1.crossed then
          closeFile
          let moved ← ofRoutine (Action.executeAll (w.policy.rollover now written).1.before).run
          openFile (w.policy.rollover now written).1.activeFile
          ofExcept moved
          unless (w.policy.rollover now written).1.background.isEmpty do
            ofRoutine (Routine.request (.submit (w.policy.rollover now written).1.background))
        else if (w.policy.rollover now written).1.activeFile.components ≠ (← get).path.components then
          closeFile
          openFile (w.policy.rollover now written).1.activeFile)
        { w with policy := w.policy.looked now } := by
      intro written
      by_cases hcrossed : (w.policy.rollover now written).1.crossed = true
      · rw [if_pos hcrossed]
        exact blamesFiles_crossing (w.policy.before_rollover now written)
      · rw [if_neg hcrossed]
        refine blamesFiles_get.bind fun a w₁ _ => ?_
        by_cases hpath : (w.policy.rollover now written).1.activeFile.components ≠ a.path.components
        · rw [if_pos hpath]
          exact (blamesFiles_closeFile _).bind fun _ w₂ _ => blamesFiles_openFile _ _
        · rw [if_neg hpath]
          exact blamesFiles_pure _
    refine Leads.bind (leads_consult (fun _ written => ?_) fun _ => ?_)
    · exact (hlooked written).mono fun _ _ _ h => ⟨h.fixedFile, h.error⟩
    · exact (hlooked false).mono fun _ _ _ h => ⟨h.fixedFile, h.error⟩
  · rw [if_neg hdue]
    exact ⟨rfl, nofun⟩

theorem blamesFiles_needFile (w : Writer) : needFile.BlamesFiles w := by
  refine blamesFiles_get.bind fun a w _ => ?_
  cases a.file with
  | some f => exact blamesFiles_pure _
  | none =>
    refine blamesFiles_get.bind fun _ w _ => ?_
    refine (blamesFiles_ofAttempt _).bind fun _ w _ => ?_
    exact (blamesFiles_modify rfl).bind fun _ _ _ => blamesFiles_pure _

theorem blamesFiles_keepFile (step : Except IoError Unit × Buffered) (w : Writer) :
    (keepFile step).BlamesFiles w :=
  (blamesFiles_modify rfl).bind fun _ _ _ => blamesFiles_mapError _

theorem blamesFiles_append (bytes : Bytes) (w : Writer) : (append bytes).BlamesFiles w := by
  refine (blamesFiles_needFile w).bind fun f w _ => ?_
  refine (blamesFiles_ofRoutine _).bind fun step w _ => ?_
  refine (blamesFiles_keepFile step w).bind fun _ w _ => ?_
  refine (blamesFiles_needFile w).bind fun f w _ => ?_
  exact (blamesFiles_ofRoutine _).bind fun step w _ => blamesFiles_keepFile step w

/-- **One record.** -/
theorem blamesFiles_record (now : Int) (bytes : Bytes) (w : Writer) : (record now bytes).BlamesFiles w := by
  refine (blamesFiles_roll now w).bind fun _ w _ => ?_
  refine (blamesFiles_append bytes w).bind fun _ w _ => ?_
  exact leads_showRecord fun _ => ⟨rfl, nofun⟩

theorem blamesFiles_flush (w : Writer) : flush.BlamesFiles w := by
  refine blamesFiles_get.bind fun a w _ => ?_
  cases a.file with
  | none => exact blamesFiles_pure _
  | some f => exact (blamesFiles_ofRoutine _).bind fun step w _ => blamesFiles_keepFile step w

end Writer.Work

/-! ## Logs -/

namespace Writer

/-- One thing that is asked of a log. -/
inductive Deed
  | write (e : Entry)
  | flush
  deriving DecidableEq, Repr

/-- Does what is asked. -/
def Deed.perform (w : Writer) : Deed → Routine (Except Error Unit × Writer)
  | write e => e.write w
  | flush => w.flush

/-- Does one thing after the other, whatever comes of each. -/
def performAll : List Deed → Writer → Routine (List (Except Error Unit) × Writer)
  | [], w => return ([], w)
  | d :: rest, w => do
    let (result, w) ← d.perform w
    let (results, w) ← performAll rest w
    return (result :: results, w)

/-- Puts a configuration to use and opens its log, does what is asked of it, and closes it.  Tells what
came of each, and of the closing. -/
def service (localTime : LocalTime) (config : Config) (start : Int) (tail : Option LiveTail)
    (deeds : List Deed) : Routine.Attempt Error (List (Except Error Unit) × Except Error Unit) := do
  let w ← ofConfig localTime config start
  let (results, w) ← ExceptT.lift (performAll deeds { w with tail := tail })
  let (closed, _) ← ExceptT.lift w.close
  return (results, closed)

variable {w : Writer}

theorem blamed_perform (d : Deed) (w : Writer) :
    (d.perform w).Leads .anything (fun r _ => Work.Blamed w r.1 r.2) () := by
  cases d with
  | flush => exact Work.blamesFiles_flush w
  | write e =>
    cases e with
    | line text now => exact Work.blamesFiles_record _ _ w
    | raw bytes now => exact Work.blamesFiles_record _ bytes w

/-- **Call after call.** -/
theorem blamed_performAll (deeds : List Deed) (w : Writer) :
    (performAll deeds w).Leads .anything (fun r _ =>
      r.2.policy.fixedFile = w.policy.fixedFile ∧ r.1.length = deeds.length ∧
        ∀ result ∈ r.1, ∀ e, result = .error e → e.OfFiles w.policy.fixedFile) () := by
  induction deeds generalizing w with
  | nil => exact ⟨rfl, rfl, nofun⟩
  | cons d rest ih =>
    refine Routine.Leads.bind ((blamed_perform d w).mono ?_)
    rintro ⟨result, w₁⟩ - ⟨hfixed, herror⟩
    have hfixed : w₁.policy.fixedFile = w.policy.fixedFile := hfixed
    refine Routine.Leads.bind ((ih w₁).mono ?_)
    rintro ⟨results, w₂⟩ - ⟨hfixed₂, hlength, hall⟩
    refine ⟨hfixed₂.trans hfixed, congrArg (· + 1) hlength, fun result' hmem => ?_⟩
    rcases List.mem_cons.mp hmem with rfl | hmem
    · exact herror
    · exact hfixed ▸ hall result' hmem

theorem blamed_close (w : Writer) :
    w.close.Leads .anything (fun r _ => ∀ e, r.1 = .error e → e.OfFiles w.policy.fixedFile) () := by
  refine Routine.Leads.bind (Routine.Leads.mono (Work.blamesFiles_closeFile w) ?_)
  rintro ⟨r, w'⟩ - ⟨-, herror⟩ u
  exact herror

/-- A policy opens its log unless a file operation fails. -/
theorem blamed_ofPolicy (p : Policy) : (ofPolicy p).run.Leads .anything (fun r _ =>
    (∃ cause, r = .error (.io cause)) ∨ ∃ w, r = .ok w ∧ w.policy = p) () := by
  refine Routine.leads_attempt (Routine.leads_adapt (Routine.leads_anything _ fun opened => ?_))
  cases opened with
  | error cause => exact .inl ⟨cause, rfl⟩
  | ok f => exact .inr ⟨_, rfl, rfl⟩

/-- What comes of a log that could be put to use: it cannot be opened, or all that is asked of it is
answered. -/
theorem blamed_service {localTime : LocalTime} {start : Int} {config : Config} {p : Policy}
    {tail : Option LiveTail} {deeds : List Deed} (hp : Policy.activate localTime config start = .ok p) :
    (service localTime config start tail deeds).run.Leads .anything (fun r _ =>
      (∃ cause, r = .error (.io cause)) ∨ ∃ results closed, r = .ok (results, closed) ∧
        results.length = deeds.length ∧
        ∀ result ∈ closed :: results, ∀ e, result = .error e → e.OfFiles config.activeFile) () := by
  have hfixed := (Policy.activate_ok hp).fixedFile
  have hopened : Routine.Leads .anything (ofConfig localTime config start).run (fun r _ =>
      (∃ cause, r = .error (.io cause)) ∨ ∃ w, r = .ok w ∧ w.policy = p) () := by
    rw [ofConfig, hp]
    exact Routine.leads_attempt (blamed_ofPolicy p)
  refine Routine.leads_attempt (hopened.mono ?_)
  rintro r - (⟨cause, rfl⟩ | ⟨w, rfl, rfl⟩)
  · exact .inl ⟨cause, rfl⟩
  refine Routine.leads_attempt (Routine.leads_lift
    ((blamed_performAll deeds { w with tail := tail }).mono ?_))
  rintro ⟨results, w₁⟩ - ⟨hfixed₁, hlength, hall⟩
  have hfixed₁ : w₁.policy.fixedFile = config.activeFile := hfixed₁.trans hfixed
  refine Routine.leads_attempt (Routine.leads_lift ((blamed_close w₁).mono ?_))
  rintro ⟨closed, w₂⟩ - hclosed
  refine .inr ⟨results, closed, rfl, hlength, fun result hmem => ?_⟩
  rcases List.mem_cons.mp hmem with rfl | hmem
  · exact hfixed₁ ▸ hclosed
  · exact hfixed ▸ hall result hmem

/-- **Each stage has its errors.**  Whatever fails, and whatever others do to the files before each
request: a configuration that cannot be put to use is itself to blame, and nothing in the world has
changed then, also where it was to be put to use at the present time.  One that is put to use is never to
blame again, and neither is a compression: the log cannot be opened, which is the failure of a file
operation, or each call and the closing is answered, and what it fails with is the failure of a file
operation or, with a fixed active file, a move of that file. -/
theorem errors_by_stage (localTime : LocalTime) (start : Int) (config : Config) (tail : Option LiveTail)
    (deeds : List Deed) (c : Conditions) (others : Nat → FileSystem → FileSystem) (world : World)
    (fs : FileSystem) :
    (∀ e, Policy.activate localTime config start = .error e → e.isConfigError = true ∧
      World.runAmong c others (service localTime config start tail deeds).run world = (.error e, world)) ∧
    (∀ e, Policy.activate localTime config (c.clock 0).millis = .error e →
      World.run c (openNow localTime config).run (.ofFiles fs) =
        (.error e, { World.ofFiles fs with ticks := 1 })) ∧
    ∀ p, Policy.activate localTime config start = .ok p →
      (∃ cause, (World.runAmong c others (service localTime config start tail deeds).run world).1 =
        .error (.io cause)) ∨
      ∃ results closed,
        (World.runAmong c others (service localTime config start tail deeds).run world).1 =
          .ok (results, closed) ∧ results.length = deeds.length ∧
        ∀ result ∈ closed :: results, ∀ e, result = .error e →
          (∃ cause, e = .io cause) ∨ ∃ active target reason,
            config.activeFile = some active ∧ e = .renameFailed active target reason := by
  refine ⟨fun e he => ⟨Policy.isConfigError_of_activate he, ?_⟩, fun e he => ?_, fun p hp => ?_⟩
  · rw [service, ofConfig, he]
    rfl
  · refine (World.run_ask (w := .ofFiles fs) ⟨rfl, rfl⟩).trans ?_
    show World.run c (ofConfig localTime config (c.clock 0).millis).run _ = _
    rw [ofConfig, he]
    rfl
  · rcases World.anything_run (blamed_service hp) with hfailed | ⟨results, closed, hok, hlength, hall⟩
    · exact .inl hfailed
    · refine .inr ⟨results, closed, hok, hlength, fun result hmem e he => ?_⟩
      cases hall result hmem e he with
      | io cause => exact .inl ⟨cause, rfl⟩
      | move hactive target reason => exact .inr ⟨_, target, reason, hactive, rfl⟩

/-- A pattern without a date is refused, and a log with a fixed active file is put to use, where every
request fails that can. -/
theorem errors_where_all_fails :
    let full : Conditions := ⟨fun _ _ => some ⟨.storageFull, 0⟩, fun _ => ⟨0, 0⟩, fun _ => 1⟩
    let refused : Config := ⟨some "app.log", none, .utc⟩
    let good : Config := ⟨some "app-%d{HH}.log", some ⟨"app.log"⟩, .utc⟩
    let deeds : List Deed := [.write (.raw [97] ⟨3600, 0⟩), .flush]
    (∃ e, Policy.activate (.fixed 0) refused 0 = .error e ∧ e.isConfigError = true ∧
      World.runAmong full (fun _ _ => .blank) (service (.fixed 0) refused 0 none deeds).run
        (.ofFiles .blank) = (.error e, .ofFiles .blank) ∧
      World.run full (openNow (.fixed 0) refused).run (.ofFiles .blank) =
        (.error e, { World.ofFiles .blank with ticks := 1 })) ∧
    ∃ p, Policy.activate (.fixed 0) good 0 = .ok p ∧
      ((∃ cause, (World.runAmong full (fun _ files => files) (service (.fixed 0) good 0 none deeds).run
          (.ofFiles .blank)).1 = .error (.io cause)) ∨
        ∃ results closed, (World.runAmong full (fun _ files => files)
          (service (.fixed 0) good 0 none deeds).run (.ofFiles .blank)).1 = .ok (results, closed) ∧ results.length = deeds.length ∧
          ∀ result ∈ closed :: results, ∀ e, result = .error e →
            (∃ cause, e = .io cause) ∨ ∃ active target reason,
              good.activeFile = some active ∧ e = .renameFailed active target reason) := by
  intro full refused good deeds
  obtain ⟨hrefused, hnow, -⟩ := errors_by_stage (.fixed 0) 0 refused none deeds full (fun _ _ => .blank)
    (.ofFiles .blank) .blank
  obtain ⟨-, -, hgood⟩ := errors_by_stage (.fixed 0) 0 good none deeds full (fun _ files => files)
    (.ofFiles .blank) .blank
  exact ⟨⟨_, rfl, (hrefused _ rfl).1, (hrefused _ rfl).2, hnow _ rfl⟩, _, rfl, hgood _ rfl⟩

end Writer

end LogRotation
