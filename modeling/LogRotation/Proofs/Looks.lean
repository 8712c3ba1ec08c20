/-
  Policies in use: what activation gives, and what one look at the clock changes.

    * ACTIVATION   `activate_ok` says all there is to know of a policy that was just put to use;
    * A LOOK       moves the name and the time of the next look, and nothing else
                   (`rollover_snd`), so that every later question about names is asked of the
                   policy that was activated;
    * ON FILES     `lookOn` is a look with the files that are there at that moment;
    * RUNS         `watch` looks when a look is due, `watchAll` looks each time;
    * EXAMPLES     templates of logs that results are shown by.
-/
import LogRotation.Proofs.Grammar
import LogRotation.Policy
import LogRotation.World

namespace LogRotation

/-! ## What is rendered -/

namespace DateFormat

theorem render_append (w : WallClock) (ps qs : List Part) :
    render w (ps ++ qs) = render w ps ++ render w qs := List.flatMap_append

theorem render_literals (w : WallClock) (text : List Char) :
    render w (text.map .literal) = text := by
  induction text with
  | nil => rfl
  | cons c text ih => exact congrArg (c :: ·) ih

end DateFormat

/-! ## Templates with a zone -/

namespace Template

@[simp] theorem parts_withZone (t : Template) (zone : Zone) :
    (t.withZone zone).parts = t.parts := by
  unfold withZone; split <;> rfl

@[simp] theorem dateFormat_withZone (t : Template) (zone : Zone) :
    (t.withZone zone).dateFormat = t.dateFormat := by
  unfold withZone; split <;> rfl

/-- A template that names no zone of its own takes the zone that it is given. -/
theorem zone_withZone {t : Template} (hpinned : t.zonePinned = false) (zone : Zone) :
    (t.withZone zone).zone = zone := by
  simp [withZone, hpinned]

/-- The zone of a template changes its clock, and nothing around it. -/
theorem renderChars_withZone (t : Template) (zone : Zone) (localTime : LocalTime) (instant : Instant) :
    (t.withZone zone).renderChars localTime instant = t.lead ++
      DateFormat.render (.ofInstant (t.withZone zone).zone localTime instant) t.parts ++ t.tail := by
  unfold withZone renderChars
  split <;> rfl

/-- The parts of a template are those of its date format. -/
theorem parse_dateFormat {text : String} {t : Template} (h : parse text = .ok t) :
    DateFormat.parse t.dateFormat = .ok t.parts := by
  obtain ⟨s, parts, hr, rfl⟩ := parse_eq_ok_iff.mp h
  exact hr.format_ok

end Template

namespace Policy

/-! ## Activation -/

/-- What putting a configuration to use takes, and what it gives. -/
theorem activate_inv {localTime : LocalTime} {start : Int} {config : Config} {p : Policy}
    (h : activate localTime config start = .ok p) : ∃ pattern t,
      config.pattern = .ok pattern ∧ config.validate = .ok () ∧ Template.parse pattern = .ok t ∧
      p = ⟨t.withZone config.zone, localTime, config.activeFile,
        .detect ((t.withZone config.zone).renderMillis localTime start),
        (t.withZone config.zone).renderMillis localTime start, 0⟩ := by
  simp only [activate, bind, Except.bind, pure, Except.pure] at h
  split at h
  · cases h
  · rename_i pattern hpattern
    split at h
    · cases h
    · rename_i hvalidate
      split at h
      · cases h
      · rename_i t ht
        cases h
        exact ⟨pattern, t, hpattern, hvalidate, ht, rfl⟩

/-- A policy that was just put to use: its template was read from a pattern, its compression is
that of the first name, and the first look is due at the start of 1970. -/
structure Activated (config : Config) (start : Int) (p : Policy) : Prop where
  template : ∃ pattern t, Template.parse pattern = .ok t ∧ p.template = t.withZone config.zone
  fixedFile : p.fixedFile = config.activeFile
  compression : p.compression = .detect p.lastName
  lastName : p.lastName = p.nameAt start
  nextCheck : p.nextCheck = 0

theorem activate_ok {localTime : LocalTime} {start : Int} {config : Config} {p : Policy}
    (h : activate localTime config start = .ok p) : Activated config start p := by
  obtain ⟨pattern, t, -, -, ht, rfl⟩ := activate_inv h
  exact ⟨⟨pattern, t, ht, rfl⟩, rfl, rfl, rfl, rfl⟩

theorem localTime_of_activate {localTime : LocalTime} {start : Int} {config : Config} {p : Policy}
    (h : activate localTime config start = .ok p) : p.localTime = localTime := by
  obtain ⟨pattern, t, -, -, -, rfl⟩ := activate_inv h
  rfl

/-- The date format of a policy in use is one that was accepted. -/
theorem Activated.parse_dateFormat {config : Config} {start : Int} {p : Policy}
    (h : Activated config start p) :
    DateFormat.parse p.template.dateFormat = .ok p.template.parts := by
  obtain ⟨pattern, t, ht, he⟩ := h.template
  rw [he, Template.dateFormat_withZone, Template.parts_withZone]
  exact Template.parse_dateFormat ht

/-! ## Looks -/

/-- The policy after a look at the clock. -/
def looked (p : Policy) (now : Int) : Policy :=
  { p with nextCheck := nextSecond now, lastName := p.nameAt now }

/-- **One look.**  Whether a period is over or not, the policy goes on from the present name. -/
theorem rollover_snd (p : Policy) (now : Int) (written : Bool) :
    (p.rollover now written).2 = p.looked now := by
  unfold rollover
  split <;> rfl

/-- What a look finds where no period is over: nothing to do. -/
theorem rollover_of_same {p : Policy} {now : Int} (h : p.nameAt now = p.lastName)
    (written : Bool) :
    p.rollover now written = (⟨false, (p.looked now).activeFile, [], []⟩, p.looked now) := by
  have hover : p.isOver now = false := by simp [isOver, h]
  unfold rollover
  rw [if_neg (by simp [hover])]
  rfl

/-- What a look wants done at once is nothing, or to move the fixed active file. -/
theorem before_rollover (p : Policy) (now : Int) (written : Bool) :
    (p.rollover now written).1.before = [] ∨ ∃ active target, p.fixedFile = some active ∧
      (p.rollover now written).1.before = [.rename active target true] := by
  unfold rollover
  split
  · cases hfixed : p.fixedFile with
    | none => exact .inl rfl
    | some active => exact .inr ⟨active, _, rfl, rfl⟩
  · exact .inl rfl

/-- A look at the clock with these files there. -/
def lookOn (p : Policy) (now : Int) (files : FileSystem) : Rollover × Policy :=
  (World.run (.calm .epoch) (p.consult now) (.ofFiles files)).1

theorem lookOn_eq (p : Policy) (now : Int) (files : FileSystem) :
    p.lookOn now files = p.rollover now (p.isOver now && files.present p.activeFile) := by
  unfold lookOn consult
  split
  · rename_i h
    rw [h]
    rfl
  · rename_i h
    have h : p.isOver now = false := by simpa using h
    rw [h]
    rfl

theorem lookOn_snd (p : Policy) (now : Int) (files : FileSystem) :
    (p.lookOn now files).2 = p.looked now := by
  rw [lookOn_eq, rollover_snd]

/-- Only the last look counts. -/
theorem looked_looked (p : Policy) (s t : Int) : (p.looked s).looked t = p.looked t := rfl

/-! ## Runs of looks -/

/-- A step of a watch: the instant, what a look led to if there was one, and the policy from then
on. -/
structure Watched where
  now : Int
  rollover : Option Rollover
  policy : Policy

/-- Looks at the clock when a look is due; each step has the files that are there. -/
def watch (p : Policy) : List (Int × FileSystem) → List Watched
  | [] => []
  | (now, files) :: rest =>
    if p.isDue now then
      ⟨now, some (p.lookOn now files).1, (p.lookOn now files).2⟩ ::
        watch (p.lookOn now files).2 rest
    else ⟨now, none, p⟩ :: watch p rest

/-- Looks at the clock at each step. -/
def watchAll (p : Policy) : List (Int × FileSystem) → List Watched
  | [] => []
  | (now, files) :: rest =>
    ⟨now, some (p.lookOn now files).1, (p.lookOn now files).2⟩ ::
      watchAll (p.lookOn now files).2 rest

end Policy

/-! ## Examples -/

namespace Template

/-- A log by the day, in universal time. -/
def byDay : Template :=
  ⟨"app-%d.log", "app-".toList, "yyyy-MM-dd".toList, [.field (.year .full), .literal '-',
    .field (.month .padded), .literal '-', .field (.day .padded)], ".log".toList, .utc, false⟩

/-- A log by the hour, in universal time. -/
def byHour : Template :=
  ⟨"app-%d{HH}.log", "app-".toList, "HH".toList, [.field (.hour .padded)], ".log".toList, .utc, false⟩

/-- A log by the hour that becomes archives, in universal time. -/
def archivedByHour : Template :=
  ⟨"app-%d{HH}.log.gz", "app-".toList, "HH".toList, [.field (.hour .padded)], ".log.gz".toList, .utc,
    false⟩

end Template

end LogRotation
