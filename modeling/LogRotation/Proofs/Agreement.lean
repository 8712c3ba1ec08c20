/-
  Checking, running and rendering agree.

  The three commands come to their configuration in the same way, by looks that ask no clock and open
  nothing for writing.  From there each goes its own way: a check puts the configuration to use and
  reports it, a run puts it to use and opens its log, and a rendering reads the pattern again by itself.

    * LOOKING     routines that only look, and what they leave as it is;
    * SHOWING     conditions under which the clock stands still;
    * NAMES       a policy that was put to use at one instant has the names of every other;
    * AGREEMENT   what a check that succeeds says of the other commands.

  Main statement: `check_agrees`.
-/
import LogRotation.Proofs.Blame
import LogRotation.Proofs.Instants
import LogRotation.Proofs.Verbs

namespace LogRotation

variable {S α β ε ε' : Type} {c : Conditions}

/-! ## Looking -/

/-- The regime of looks: nothing else may be asked, and anything may be answered. -/
def Regime.looking : Regime Unit where
  step _ q k := q.isLook = true ∧ ∀ r, k r ()
  mono h hk := ⟨h.1, fun r => hk r () (h.2 r)⟩

/-- Holds of a routine that only looks. -/
def Routine.Looks (r : Routine α) : Prop := r.Leads .looking (fun _ _ => True) ()

namespace Routine

theorem Looks.bind {r : Routine α} {f : α → Routine β} (hr : r.Looks) (hf : ∀ a, (f a).Looks) :
    (r >>= f).Looks := Leads.bind (hr.mono fun a _ _ => hf a)

theorem Looks.attempt {x : Attempt ε α} {f : α → Attempt ε β} (hx : Looks x.run)
    (hf : ∀ a, Looks (f a).run) : Looks (x >>= f).run := by
  refine leads_attempt (hx.mono fun r _ _ => ?_)
  cases r with
  | ok a => exact hf a
  | error e => trivial

theorem looks_done (a : α) : (done a).Looks := trivial

theorem looks_request {q : Request} (hq : q.isLook = true) : (request q).Looks :=
  ⟨hq, fun _ => trivial⟩

theorem Looks.lift {r : Routine α} (h : r.Looks) : Looks (ExceptT.lift r : Attempt ε α).run :=
  leads_lift h

theorem Looks.adapt {x : Attempt ε α} (h : Looks x.run) (f : ε → ε') : Looks (x.adapt f).run :=
  leads_adapt h

/-- Reading a text changes nothing. -/
theorem looks_readText (p : Path) : Looks (readText p).run := by
  refine Looks.attempt (looks_request rfl) fun h => ?_
  refine Looks.attempt ?_ fun bytes => ?_
  · exact Looks.bind (looks_request rfl) fun r => Looks.bind (looks_request rfl) fun _ => looks_done _
  · cases Bytes.text? bytes <;> exact looks_done _

theorem looks_load (p : Path) : Looks (Config.load p).run := by
  refine Looks.attempt (Looks.lift (looks_request rfl)) fun there => ?_
  cases there with
  | false => exact looks_done _
  | true =>
    dsimp only
    rw [if_pos rfl]
    cases ConfigFormat.ofPath? p with
    | none => exact looks_done _
    | some format =>
      exact Looks.attempt ((looks_readText p).adapt Error.io) fun text => looks_done _

theorem looks_firstPresent (ps : List Path) : (Config.firstPresent ps).Looks := by
  induction ps with
  | nil => exact looks_done _
  | cons p rest ih =>
    refine Looks.bind (looks_request rfl) fun there => ?_
    cases there with
    | true => exact looks_done _
    | false => exact ih

/-- **A configuration is come to by looking.** -/
theorem looks_resolve (o : CommandLine.PolicyOptions) (home : Path) : Looks (o.resolve home).run := by
  refine Looks.attempt ?_ fun config => looks_done _
  unfold CommandLine.PolicyOptions.base
  split
  · exact looks_load _
  · exact looks_done _
  · have hdiscover : (CommandLine.PolicyOptions.discover home).Looks := by
      refine Looks.bind (looks_firstPresent _) fun found => ?_
      cases found with
      | some p => exact looks_done _
      | none => exact looks_firstPresent _
    refine Looks.attempt (Looks.lift hdiscover) fun found => ?_
    cases found with
    | some p => exact looks_load p
    | none => exact looks_done _

/-- Looks open nothing for writing. -/
theorem Looks.told {r : Routine α} (h : r.Looks) (t : Tale) :
    r.Leads .told (fun _ t' => t'.opened = t.opened) t := by
  induction r generalizing t with
  | done a => exact rfl
  | ask q next ih =>
    intro r _
    refine (ih r (h.2 r) _).mono fun _ t' ht' => ht'.trans ?_
    have hlook := h.1
    cases q <;> first
      | exact absurd hlook Bool.false_ne_true
      | (show (if r = true then _ else t).opened = _; split <;> rfl)
      | rfl

end Routine

/-! ## Clocks that stand still -/

/-- The same conditions at one instant. -/
def Conditions.showing (c : Conditions) (t : Instant) : Conditions := { c with clock := fun _ => t }

namespace World

/-- **Looking takes no account of the clock.** -/
theorem run_looks {r : Routine α} (h : r.Looks) {w : World} (hidle : w.Idle) (t u : Instant) :
    run (c.showing t) r w = run (c.showing u) r w ∧ (run (c.showing t) r w).2.Idle := by
  induction r generalizing w with
  | done a => exact ⟨rfl, hidle⟩
  | ask q next ih =>
    have hsame : w.perform (c.showing t) q = w.perform (c.showing u) q := by
      have hlook := h.1
      cases q <;> first | exact absurd hlook Bool.false_ne_true | rfl
    have hkept : (w.perform (c.showing t) q).2.Idle := by
      have hlook := h.1
      cases q <;> first | exact absurd hlook Bool.false_ne_true | exact hidle
    rw [run_ask hidle, run_ask hidle, ← hsame]
    exact ih _ (h.2 _) hkept

/-- A run that may fail goes on only where it has not failed. -/
theorem run_attempt (x : Routine.Attempt ε α) (f : α → Routine.Attempt ε β) (w : World) :
    run c (x >>= f).run w = match (run c x.run w).1 with
      | .ok a => run c (f a).run (run c x.run w).2
      | .error e => (.error e, (run c x.run w).2) := by
  show run c (x.run >>= ExceptT.bindCont f) w = _
  rw [run_bind]
  cases (run c x.run w).1 <;> rfl

theorem run_attempt_ok {x : Routine.Attempt ε α} {a : α} {w : World} (h : (run c x.run w).1 = .ok a)
    (f : α → Routine.Attempt ε β) :
    run c (x >>= f).run w = run c (f a).run (run c x.run w).2 := by
  rw [run_attempt, h]

theorem run_attempt_error {x : Routine.Attempt ε α} {e : ε} {w : World}
    (h : (run c x.run w).1 = .error e) (f : α → Routine.Attempt ε β) :
    (run c (x >>= f).run w).1 = .error e := by
  rw [run_attempt, h]

theorem run_adapt {x : Routine.Attempt ε α} {r : Except ε α} {w : World} (h : (run c x.run w).1 = r)
    (f : ε → ε') : (run c (x.adapt f).run w).1 = r.mapError f := by
  rw [← h]
  show (run c (x.run >>= fun r => pure (r.mapError f)) w).1 = _
  rw [run_bind]
  rfl

/-- A clock that stands still shows its instant. -/
theorem run_clock (t : Instant) (w : World) :
    (run (c.showing t) (Routine.reply .clock : Routine.Attempt ε Instant).run w).1 = .ok t := rfl

theorem run_done (r : Except ε α) (w : World) :
    (run c (ExceptT.mk (Routine.done r) : Routine.Attempt ε α).run w).1 = r := rfl

end World

/-! ## Names -/

namespace Policy

variable {localTime : LocalTime} {start : Int} {config : Config} {p : Policy}

/-- **Another instant** puts a configuration to use as well, with another name at most. -/
theorem activate_at (h : activate localTime config start = .ok p) (now : Int) :
    activate localTime config now = .ok { p with lastName := p.nameAt now } := by
  obtain ⟨pattern, t, hpattern, hvalidate, ht, rfl⟩ := activate_inv h
  simp only [activate, hpattern, hvalidate, ht, bind, Except.bind, pure, Except.pure]
  rw [Template.detect_renderMillis _ localTime now start]
  rfl

/-- What looks leave behind differs in the last name, and in when to look next. -/
theorem afterAll_eq (p : Policy) (seen : List Int) :
    ∃ name next, p.afterAll seen = { p with lastName := name, nextCheck := next } := by
  induction seen generalizing p with
  | nil => exact ⟨p.lastName, p.nextCheck, rfl⟩
  | cons now rest ih =>
    obtain ⟨name, next, hrest⟩ := ih (p.after now)
    refine ⟨name, next, ?_⟩
    show (p.after now).afterAll rest = _
    rw [hrest]
    unfold after
    split <;> rfl

/-- Whatever a policy has seen, it goes to the file of the present name. -/
theorem activeFile_rollover (p : Policy) (seen : List Int) (now : Int) (written : Bool) :
    ((p.afterAll seen).rollover now written).1.activeFile = p.activeFileFor (p.nameAt now) := by
  obtain ⟨name, next, h⟩ := p.afterAll_eq seen
  rw [h]
  unfold rollover
  split <;> rfl

/-- **One name for all.**  Without a fixed active file, every policy of a configuration has the
compression of the present name and goes to its base. -/
theorem activeFile_of_derived_name {u : Int} {q : Policy} (hp : activate localTime config start = .ok p)
    (hnone : p.fixedFile = none) (hq : activate localTime config u = .ok q) (now : Int) :
    q.compression = .detect (p.nameAt now) ∧ ∀ seen written,
      ((q.afterAll seen).rollover now written).1.activeFile =
        ⟨(Compression.detect (p.nameAt now)).strip (p.nameAt now)⟩ := by
  have hsettled := (activate_ok hp).settled now
  rw [activate_at hp u] at hq
  cases hq
  refine ⟨hsettled, fun seen written => ?_⟩
  rw [activeFile_rollover]
  show p.fixedFile.getD ⟨p.compression.strip (p.nameAt now)⟩ = _
  rw [hnone, ← hsettled]
  rfl

end Policy

/-! ## Commands -/

/-- An instant begins with a digit of its year, so it is no option. -/
theorem CommandLine.Form.of_rfc3339 {text : String} {t : Instant}
    (h : Instant.ofRfc3339? text = some t) : Form.of text = .plain := by
  have hdigits := (Instant.ofRfc3339?_ok h).2
  refine of_plain ?_
  cases hchars : text.toList with
  | nil => nofun
  | cons c rest =>
    have hc : Text.isDigit c = true := hdigits c (by rw [hchars]; exact List.mem_cons_self)
    rintro _ ⟨⟩ rfl
    cases hc

namespace CommandLine.Command

open Routine (Looks looks_resolve)

variable {s : Surroundings} {k : Command} {config : Config} {p : Policy} {t : Instant} {w : World}

/-- The configuration that the options of a command come to. -/
def configuration (k : Command) (s : Surroundings) (c : Conditions) (w : World) : Except Error Config :=
  (World.run c (k.options.resolve s.home).run w).1

theorem run_check (k : Command) (s : Surroundings) (t : Instant) (w : World) :
    (World.run (c.showing t) (k.check s).run w).1 =
      (k.configuration s (c.showing t) w).bind fun config =>
        (Policy.activate s.localTime config t.millis).map Report.ofPolicy := by
  unfold check configuration
  cases hconfig : (World.run (c.showing t) (k.options.resolve s.home).run w).1 with
  | error e => exact World.run_attempt_error hconfig _
  | ok config =>
    rw [World.run_attempt_ok hconfig, World.run_attempt_ok (World.run_clock t _)]
    show _ = (Policy.activate s.localTime config t.millis).map Report.ofPolicy
    cases hp : Policy.activate s.localTime config t.millis with
    | error e => exact World.run_attempt_error (World.run_done _ _) _
    | ok p =>
      rw [World.run_attempt_ok (World.run_done _ _)]
      rfl

theorem run_render {pattern text : String} {template : Template}
    (hconfig : k.configuration s c w = .ok config) (hpattern : config.pattern = .ok pattern)
    (hparse : Template.parse pattern = .ok template) (hinstant : k.instant = some text)
    (htext : Instant.ofRfc3339? text = some t) :
    (World.run c (k.render s).run w).1 =
      .ok ⟨t, (template.withZone config.zone).render s.localTime t⟩ := by
  have hparsed : (do return (← Template.parse (← config.pattern)).withZone config.zone) =
      Except.ok (ε := Error) (template.withZone config.zone) := by
    rw [hpattern]
    show (do return (← Template.parse pattern).withZone config.zone) = _
    rw [hparse]
    rfl
  unfold render
  rw [World.run_attempt_ok (World.run_adapt hconfig _), hparsed,
    World.run_attempt_ok (World.run_adapt (World.run_done _ _) _), hinstant]
  dsimp only
  rw [htext]
  rfl

/-- What is opened on the way to a capture is the active file of its policy. -/
theorem told_openLog (k : Command) (s : Surroundings) : (k.openLog s).run.Leads .told (fun r t' =>
    match r with
    | .ok capture => capture.writer.path = capture.writer.policy.activeFile ∧
        t'.opened = [capture.writer.policy.activeFile]
    | .error _ => t'.opened = []) .blank := by
  refine Routine.leads_attempt (((looks_resolve k.options s.home).told .blank).mono ?_)
  intro r t₁ ht₁
  have ht₁ : t₁.opened = [] := ht₁
  cases r with
  | error e => exact ht₁
  | ok config =>
    refine Routine.leads_attempt (Routine.leads_attempt (Routine.leads_lift fun now _ => ?_))
    refine Routine.leads_attempt ?_
    cases Policy.activate s.localTime config now.millis with
    | error e => exact ht₁
    | ok p =>
      refine Routine.leads_attempt (Routine.leads_adapt ?_)
      refine Routine.told_openAppend _ (fun e => ht₁) fun handle => ?_
      refine ⟨rfl, ?_⟩
      show t₁.opened ++ _ = _
      rw [ht₁]
      rfl

theorem run_openLog (hconfig : k.configuration s (c.showing t) w = .ok config)
    (hp : Policy.activate s.localTime config t.millis = .ok p) :
    (∃ cause, (World.run (c.showing t) (k.openLog s).run w).1 = .error (.io cause)) ∨
      ∃ capture, (World.run (c.showing t) (k.openLog s).run w).1 = .ok capture ∧
        capture.writer.policy = p := by
  have hnow : ∀ w', ∃ w'', World.run (c.showing t) (Writer.openNow s.localTime config).run w' =
      World.run (c.showing t) (Writer.ofPolicy p).run w'' := by
    intro w'
    unfold Writer.openNow
    rw [World.run_attempt_ok (World.run_clock t _), Writer.ofConfig, hp,
      World.run_attempt_ok (World.run_done _ _)]
    exact ⟨_, rfl⟩
  unfold openLog
  rw [World.run_attempt_ok hconfig]
  obtain ⟨w', hw'⟩ := hnow (World.run (c.showing t) (k.options.resolve s.home).run w).2
  have hopened := World.anything_run_alone (c := c.showing t) (w := w') (Writer.blamed_ofPolicy p)
  rw [← hw'] at hopened
  rcases hopened with ⟨cause, he⟩ | ⟨writer, he, hpolicy⟩
  · exact .inl ⟨cause, World.run_attempt_error he _⟩
  · refine .inr ⟨.ofWriter writer k.raw, ?_, hpolicy⟩
    rw [World.run_attempt_ok he]
    rfl

/-! ## Agreement -/

/-- Holds of a command that does its work and prints something. -/
def Prints (k : Command) (s : Surroundings) (c : Conditions) (fs : FileSystem) (output : String) : Prop :=
  (World.run c (k.start s) (.ofFiles fs)).1 = .over (.success output)

/-- Holds of a command that comes to capturing with a policy, after opening its active file and no
other, or fails with a file operation and has opened none. -/
def Opens (k : Command) (s : Surroundings) (c : Conditions) (fs : FileSystem) (p : Policy) : Prop :=
  let progress := (World.run c (k.start s) (.ofFiles fs)).1
  let opened := (World.tale c (k.start s) (.ofFiles fs) .blank).opened
  (∃ capture, progress = .capturing capture ∧ capture.writer.policy = p ∧
    capture.writer.path = p.activeFile ∧ opened = [p.activeFile]) ∨
  ∃ cause, progress = .over (.failure (.error (.io cause))) ∧ opened = []

theorem opens_of_activate {fs : FileSystem} (hverb : k.verb = .run)
    (hconfig : k.configuration s (c.showing t) (.ofFiles fs) = .ok config)
    (hp : Policy.activate s.localTime config t.millis = .ok p) : k.Opens s (c.showing t) fs p := by
  have htold : (k.start s).Leads .told (fun r t' => match r with
      | .capturing capture => capture.writer.path = capture.writer.policy.activeFile ∧
          t'.opened = [capture.writer.policy.activeFile]
      | .over _ => t'.opened = []) .blank := by
    unfold start
    rw [hverb]
    refine Routine.Leads.bind ((told_openLog k s).mono ?_)
    intro r t' h
    cases r with
    | error e => exact h
    | ok capture => exact h
  have htold := World.told_run (c := c.showing t) (w := .ofFiles fs) htold
  have hprogress : (World.run (c.showing t) (k.start s) (.ofFiles fs)).1 =
      match (World.run (c.showing t) (k.openLog s).run (.ofFiles fs)).1 with
      | .ok capture => .capturing capture
      | .error e => .over (.failure (.error e)) := by
    unfold start
    rw [hverb]
    dsimp only
    rw [World.run_bind]
    cases (World.run (c.showing t) (k.openLog s).run (.ofFiles fs)).1 <;> rfl
  unfold Opens
  dsimp only
  rcases run_openLog hconfig hp with ⟨cause, he⟩ | ⟨capture, he, rfl⟩
  · rw [he] at hprogress
    rw [hprogress] at htold
    exact .inr ⟨cause, hprogress, htold⟩
  · rw [he] at hprogress
    rw [hprogress] at htold
    exact .inl ⟨capture, hprogress, rfl, htold⟩

/-- A check prints its report, if it comes to one. -/
theorem prints_check_iff {fs : FileSystem} {output : String} (hverb : k.verb = .check) :
    k.Prints s (c.showing t) fs output ↔ ∃ config p,
      k.configuration s (c.showing t) (.ofFiles fs) = .ok config ∧
      Policy.activate s.localTime config t.millis = .ok p ∧
      output = if k.json then (Report.ofPolicy p).json else (Report.ofPolicy p).text := by
  unfold Prints start
  rw [hverb]
  dsimp only
  rw [World.run_bind, run_check]
  constructor
  · intro h
    cases hconfig : k.configuration s (c.showing t) (.ofFiles fs) with
    | error e => rw [hconfig] at h; cases h
    | ok config =>
      rw [hconfig] at h
      dsimp only [Except.bind] at h
      cases hp : Policy.activate s.localTime config t.millis with
      | error e => rw [hp] at h; cases h
      | ok p =>
        rw [hp] at h
        cases h
        exact ⟨config, p, rfl, hp, rfl⟩
  · rintro ⟨config, p, hconfig, hp, rfl⟩
    rw [hconfig]
    dsimp only [Except.bind]
    rw [hp]
    rfl

/-- **The configuration does not hang on the time.** -/
theorem configuration_showing (k : Command) (s : Surroundings) (c : Conditions) (fs : FileSystem)
    (t u : Instant) : k.configuration s (c.showing t) (.ofFiles fs) =
      k.configuration s (c.showing u) (.ofFiles fs) := by
  unfold configuration
  rw [(World.run_looks (looks_resolve k.options s.home) ⟨rfl, rfl⟩ t u).1]

/-- What a command prints of a name: all of it for a program, and the name alone for a reader. -/
def rendered (k : Command) (r : Rendered) : String := if k.json then r.json else r.text

theorem prints_render {fs : FileSystem} {pattern text : String} {template : Template}
    (hverb : k.verb = .render) (hconfig : k.configuration s c (.ofFiles fs) = .ok config)
    (hpattern : config.pattern = .ok pattern) (hparse : Template.parse pattern = .ok template)
    (hinstant : k.instant = some text) (htext : Instant.ofRfc3339? text = some t) :
    k.Prints s c fs (k.rendered ⟨t, (template.withZone config.zone).render s.localTime t⟩) := by
  unfold Prints Command.start
  rw [hverb]
  dsimp only
  rw [World.run_bind, run_render hconfig hpattern hparse hinstant htext]
  rfl

/-- A rendering prints the name that a policy of the same configuration has. -/
theorem prints_nameAt {fs : FileSystem} {text : String} {start : Int} (hverb : k.verb = .render)
    (hconfig : k.configuration s c (.ofFiles fs) = .ok config)
    (hp : Policy.activate s.localTime config start = .ok p) (hinstant : k.instant = some text)
    (htext : Instant.ofRfc3339? text = some t) (hleap : t.nanos < 1000000000) :
    k.Prints s c fs (k.rendered ⟨t, p.nameAt t.millis⟩) := by
  obtain ⟨pattern, template, hpattern, -, hparse, rfl⟩ := Policy.activate_inv hp
  have hname : (template.withZone config.zone).render s.localTime t =
      (template.withZone config.zone).renderMillis s.localTime t.millis :=
    Template.render_eq_renderMillis _ _ hleap (Instant.ofRfc3339?_ok htext).1
  have hprints := prints_render hverb hconfig hpattern hparse hinstant htext
  rw [hname] at hprints
  exact hprints

/-- What a check that succeeds at an instant says of the other commands, with its policy and the
configuration that it came to. -/
structure Agreement (s : Surroundings) (c : Conditions) (fs : FileSystem) (arguments : List String)
    (k : Command) (t : Instant) (config : Config) (p : Policy) : Prop where
  /-- Another word in the place of `check` makes another command, with the same options. -/
  words : ∃ front back, arguments = front ++ "check" :: back ∧
    read s (front ++ "run" :: back) = .ok { k with verb := .run } ∧
    ∀ text t, Instant.ofRfc3339? text = some t →
      read s (front ++ "render" :: "--at" :: text :: back) =
        .ok { k with verb := .render, instant := some text }
  /-- The configuration can be put to use at any instant, with the same template, which tells the zone,
  and the same compression. -/
  kept : ∀ u, ∃ q, Policy.activate s.localTime config u = .ok q ∧ q.template = p.template ∧
    q.compression = p.compression
  /-- A run opens the active file of what it puts to use. -/
  opens : ∀ (r : Command) (u : Instant) q, r.verb = .run → r.options = k.options →
    Policy.activate s.localTime config u.millis = .ok q → r.Opens s (c.showing u) fs q
  /-- A rendering prints the current name. -/
  renders : ∀ (r : Command) text u, r.verb = .render → r.options = k.options → r.instant = some text →
    Instant.ofRfc3339? text = some t → t.nanos < 1000000000 →
    r.Prints s (c.showing u) fs
      (if r.json then (Rendered.mk t p.lastName).json else p.lastName ++ "\n")
  /-- Without a fixed active file, a rendering for a program tells the file and the compression of every
  policy of the configuration, whenever it was put to use and whatever it has seen. -/
  tells : (Report.ofPolicy p).fixed = false → ∀ (r : Command) text t', r.verb = .render →
    r.options = k.options → r.json = true → r.instant = some text →
    Instant.ofRfc3339? text = some t' → t'.nanos < 1000000000 → ∃ name base kind,
      (∀ u, r.Prints s (c.showing u) fs (Json.printObject [("at", .text t'.toRfc3339),
        ("rendered", .text name), ("base", .text base), ("compression", .text kind.name)] ++ "\n")) ∧
      ∀ u q, Policy.activate s.localTime config u = .ok q → q.compression = kind ∧
        ∀ seen written, ((q.afterAll seen).rollover t'.millis written).1.activeFile = ⟨base⟩

/-- The policy of daily files, put to use at the epoch. -/
def daily : Policy :=
  { template := .byDay, localTime := .fixed 0, fixedFile := none, compression := .none
    lastName := "app-1970-01-01.log", nextCheck := 0 }

theorem activate_daily : Policy.activate (.fixed 0) ⟨some "app-%d.log", none, .utc⟩ 0 = .ok daily := by rfl

/-- **Checking, running and rendering agree.**  Let a check succeed at an instant, whatever fails among
the looks.  Then it has reported a policy of the configuration that all the commands with its options
come to, and these do what the report says. -/
theorem check_agrees {arguments : List String} {fs : FileSystem} {output : String}
    (hread : read s arguments = .ok k) (hverb : k.verb = .check)
    (hcheck : k.Prints s (c.showing t) fs output) :
    ∃ config p, Policy.activate s.localTime config t.millis = .ok p ∧
      output = (if k.json then (Report.ofPolicy p).json else (Report.ofPolicy p).text) ∧
      Agreement s c fs arguments k t config p := by
  obtain ⟨config, p, hconfig, hp, houtput⟩ := (prints_check_iff hverb).mp hcheck
  have hsame : ∀ (r : Command) u, r.options = k.options →
      r.configuration s (c.showing u) (.ofFiles fs) = .ok config := by
    intro r u hr
    rw [configuration_showing r s c fs u t, configuration, hr]
    exact hconfig
  refine ⟨config, p, hp, houtput, ?_, ?_, ?_, ?_, ?_⟩
  · obtain ⟨front, back, harguments, hrun, hrender⟩ := read_check hread hverb
    exact ⟨front, back, harguments, hrun, fun text t htext => hrender text (Form.of_rfc3339 htext)⟩
  · intro u
    exact ⟨_, Policy.activate_at hp u, rfl, rfl⟩
  · intro r u q hr hoptions hq
    exact opens_of_activate hr (hsame r u hoptions) hq
  · intro r text u hr hoptions hinstant htext hleap
    have hprints := prints_nameAt hr (hsame r u hoptions) hp hinstant htext hleap
    rw [← (Policy.activate_ok hp).lastName] at hprints
    exact hprints
  · intro hfixed r text t' hr hoptions hjson hinstant htext hleap
    have hnone : p.fixedFile = none := Option.isNone_iff_eq_none.mp (Option.isSome_eq_false_iff.mp hfixed)
    refine ⟨p.nameAt t'.millis, _, .detect (p.nameAt t'.millis), fun u => ?_,
      fun u q hq => Policy.activeFile_of_derived_name hp hnone hq t'.millis⟩
    have hprints := prints_nameAt hr (hsame r u hoptions) hp hinstant htext hleap
    rw [rendered, if_pos hjson] at hprints
    exact hprints

theorem check_agrees_by_day :
    let s : Surroundings := ⟨none, ⟨"/home"⟩, .fixed 0⟩
    let arguments := ["check", "-p", "app-%d.log", "--utc"]
    let k : Command := ⟨.check, ⟨some "app-%d.log", none, true, none⟩, false, false, none⟩
    ∃ output, read s arguments = .ok k ∧ k.verb = .check ∧
      k.Prints s ((Conditions.calm .epoch).showing .epoch) .blank output ∧
      ∃ config p, Policy.activate (.fixed 0) config 0 = .ok p ∧
        output = (if k.json then (Report.ofPolicy p).json else (Report.ofPolicy p).text) ∧
        Agreement s (.calm .epoch) .blank arguments k .epoch config p := by
  intro s arguments k
  have hread : read s arguments = .ok k := by rfl
  have hconfig : k.configuration s ((Conditions.calm .epoch).showing .epoch) (.ofFiles .blank) =
      .ok ⟨some "app-%d.log", none, .utc⟩ := by rfl
  have hprints := (prints_check_iff rfl).mpr ⟨_, _, hconfig, activate_daily, rfl⟩
  have hagree := check_agrees hread rfl hprints
  exact ⟨_, hread, rfl, hprints, hagree⟩

/-- **A leap second** has a name of its own, which no policy has: a policy counts milliseconds, and
those of a leap second are those of the second after it. -/
theorem leap_second_disagrees :
    let s : Surroundings := ⟨none, ⟨"/home"⟩, .fixed 0⟩
    let o : PolicyOptions := ⟨some "app-%d.log", none, true, none⟩
    let c : Conditions := .calm .epoch
    let check : Command := ⟨.check, o, false, false, none⟩
    let render : Command := ⟨.render, o, true, false, some "1990-12-31T23:59:60Z"⟩
    read s ["check", "-p", "app-%d.log", "--utc"] = .ok check ∧
    read s ["--json", "render", "--at", "1990-12-31T23:59:60Z", "-p", "app-%d.log", "--utc"] =
      .ok render ∧
    ∃ t, Instant.ofRfc3339? "1990-12-31T23:59:60Z" = some t ∧
      (∃ p, check.Prints s (c.showing t) .blank (Report.ofPolicy p).text ∧
        p.lastName = "app-1991-01-01.log" ∧ p.fixedFile = none) ∧
      render.Prints s c .blank (Json.printObject [("at", .text t.toRfc3339),
        ("rendered", .text "app-1990-12-31.log"), ("base", .text "app-1990-12-31.log"),
        ("compression", .text "none")] ++ "\n") ∧
      ∃ q, Policy.activate (.fixed 0) ⟨some "app-%d.log", none, .utc⟩ 0 = .ok q ∧
        (q.rollover t.millis false).1.activeFile = ⟨"app-1991-01-01.log"⟩ := by
  have hmillis : Instant.millis ⟨662687999, 1000000000⟩ = 662688000000 := by rfl
  have hnext : daily.nameAt 662688000000 = "app-1991-01-01.log" := by rfl
  have hleap : daily.template.render (.fixed 0) ⟨662687999, 1000000000⟩ = "app-1990-12-31.log" := by rfl
  have hparse : Template.parse "app-%d.log" = .ok { daily.template with zone := .localTime } := by rfl
  have hjson : (Rendered.mk ⟨662687999, 1000000000⟩ "app-1990-12-31.log").json =
      Json.printObject [("at", .text (Instant.mk 662687999 1000000000).toRfc3339),
        ("rendered", .text "app-1990-12-31.log"), ("base", .text "app-1990-12-31.log"),
        ("compression", .text "none")] ++ "\n" := by rfl
  have htext : Instant.ofRfc3339? "1990-12-31T23:59:60Z" = some ⟨662687999, 1000000000⟩ := by rfl
  have hfile : (daily.rollover (Instant.millis ⟨662687999, 1000000000⟩) false).1.activeFile =
      ⟨"app-1991-01-01.log"⟩ := by rfl
  have hlater := Policy.activate_at activate_daily 662688000000
  rw [hnext, ← hmillis] at hlater
  intro s o c check render
  have hchecked : ∀ t, check.configuration s (c.showing t) (.ofFiles .blank) =
      .ok ⟨some "app-%d.log", none, .utc⟩ := fun _ => by rfl
  have hrendered : render.configuration s c (.ofFiles .blank) =
      .ok ⟨some "app-%d.log", none, .utc⟩ := by rfl
  have hchecks := (prints_check_iff rfl).mpr ⟨_, _, hchecked _, hlater, rfl⟩
  have hprints := prints_render rfl hrendered rfl hparse rfl htext
  refine ⟨by rfl, by rfl, _, htext, ⟨_, hchecks, rfl, rfl⟩, ?_, daily, activate_daily, hfile⟩
  rw [rendered, if_pos rfl] at hprints
  rw [← hjson, ← hleap]
  exact hprints

end CommandLine.Command

end LogRotation
