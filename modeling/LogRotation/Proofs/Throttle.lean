/-
  Looking at the clock once in a second is enough.

  1. **What a second hides** - no field but the milliseconds tells two instants of one second
     apart (`Field.write_sameSecond`), so a template whose format does not ask for them gives one
     name for the whole second (`Template.renderMillis_sameSecond`).  A format asks for them
     with the letter S outside quotes, and in no other way (`unquoted_of_millisecond`).

  2. **The invariant** - after a look, a policy has the name of that instant, and its next look is
     due in the second after it (`Policy.looked`).  A look that is not due would fall into that
     same second: it would find the same name and set the same time for the next look.

  3. **The runs** - `watch` looks when a look is due, `watchAll` looks each time.  `throttled_looks`
     compares them step by step: the policies are the same, and so is whatever a look led to.
-/
import LogRotation.FileSystem.Tree
import LogRotation.Proofs.Looks
import Mathlib.Data.List.Forall2

namespace LogRotation

/-! ## The letters that a format does not quote -/

namespace DateFormat

/-- The characters of a format that stand outside its quotes. -/
def unquoted (format : List Char) : List Char :=
  (symbols false format).1.filterMap fun
    | .plain c => some c
    | .quoted _ => none

theorem mem_unquoted {format : List Char} {c : Char} :
    c ∈ unquoted format ↔ Symbol.plain c ∈ (symbols false format).1 := by
  unfold unquoted
  rw [List.mem_filterMap]
  constructor
  · rintro ⟨s, hs, he⟩
    cases s with
    | plain d => exact Option.some.inj he ▸ hs
    | quoted d => nomatch he
  · intro h
    exact ⟨.plain c, h, rfl⟩

theorem run_mem_joinLetter {letter l : Char} {n : Nat} {rest : List Piece}
    (h : .run l n ∈ joinLetter letter rest) : l = letter ∨ ∃ m, .run l m ∈ rest := by
  unfold joinLetter at h
  split at h
  · rename_i k m rest
    split at h
    · -- the run is made longer by one
      rename_i hk
      rcases List.mem_cons.mp h with he | hm
      · exact Or.inl ((Piece.run.inj he).1.trans hk)
      · exact Or.inr ⟨n, List.mem_cons_of_mem _ hm⟩
    · rcases List.mem_cons.mp h with he | hm
      · exact Or.inl (Piece.run.inj he).1
      · exact Or.inr ⟨n, hm⟩
  · rcases List.mem_cons.mp h with he | hm
    · exact Or.inl (Piece.run.inj he).1
    · exact Or.inr ⟨n, hm⟩

/-- The letter of a run stands unquoted. -/
theorem plain_mem_of_run {l : Char} {read : List Symbol} :
    ∀ {n : Nat}, .run l n ∈ pieces read → .plain l ∈ read := by
  induction read with
  | nil => intro n h; nomatch h
  | cons s read ih =>
    intro n h
    cases s with
    | quoted c =>
      rcases List.mem_cons.mp h with he | hm
      · nomatch he
      · exact List.mem_cons_of_mem _ (ih hm)
    | plain c =>
      rw [pieces] at h
      split at h
      · -- a letter joins the run that follows it
        rcases run_mem_joinLetter h with rfl | ⟨m, hm⟩
        · exact List.mem_cons_self
        · exact List.mem_cons_of_mem _ (ih hm)
      · rcases List.mem_cons.mp h with he | hm
        · nomatch he
        · exact List.mem_cons_of_mem _ (ih hm)

/-- A field comes from a run of letters. -/
theorem run_mem_of_field {ps : List Piece} {f : Field} : ∀ {result : List Part},
    parts ps = .ok result → .field f ∈ result →
    ∃ l n, .run l n ∈ ps ∧ Field.ofRun? l n = some f := by
  induction ps with
  | nil =>
    intro result h hf
    cases h
    nomatch hf
  | cons p ps ih =>
    intro result h hf
    cases p with
    | literal c =>
      simp only [parts, bind, Except.bind, pure, Except.pure] at h
      split at h
      · nomatch h
      · rename_i rest hrest
        cases h
        rcases List.mem_cons.mp hf with he | hm
        · nomatch he
        · obtain ⟨l, n, hl, hn⟩ := ih hrest hm
          exact ⟨l, n, List.mem_cons_of_mem _ hl, hn⟩
    | run l n =>
      simp only [parts, bind, Except.bind, pure, Except.pure] at h
      split at h
      · nomatch h
      · rename_i g hg
        split at h
        · nomatch h
        · rename_i rest hrest
          cases h
          rcases List.mem_cons.mp hf with he | hm
          · refine ⟨l, n, List.mem_cons_self, ?_⟩
            rw [hg, Part.field.inj he]
          · obtain ⟨l', n', hl, hn⟩ := ih hrest hm
            exact ⟨l', n', List.mem_cons_of_mem _ hl, hn⟩

theorem letter_of_millisecond {l : Char} {n : Nat} (h : Field.ofRun? l n = some .millisecond) :
    l = 'S' := by
  unfold Field.ofRun? at h
  dsimp only at h
  split at h <;> grind

/-- Fields are asked for by unquoted letters. -/
theorem exists_unquoted_of_field {format : List Char} {result : List Part}
    (h : parse format = .ok result) {f : Field} (hf : .field f ∈ result) :
    ∃ l n, l ∈ unquoted format ∧ Field.ofRun? l n = some f := by
  simp only [parse, bind, Except.bind, pure, Except.pure] at h
  split at h
  · nomatch h
  · rename_i ps hps
    split at h
    · nomatch h
    · cases h
      obtain ⟨l, n, hl, hn⟩ := run_mem_of_field hps hf
      exact ⟨l, n, mem_unquoted.mpr (plain_mem_of_run hl), hn⟩

/-- A format that asks for milliseconds has an unquoted S. -/
theorem unquoted_of_millisecond {format : List Char} {result : List Part}
    (h : parse format = .ok result) (hf : .field .millisecond ∈ result) :
    'S' ∈ unquoted format := by
  obtain ⟨l, n, hl, hn⟩ := exists_unquoted_of_field h hf
  rwa [← letter_of_millisecond hn]

end DateFormat

/-! ## What a second hides -/

/-- `SameSecond v w` - two clocks that show the same but for the milliseconds, and no leap
second. -/
structure WallClock.SameSecond (v w : WallClock) : Prop where
  day : v.day = w.day
  second : v.second = w.second
  zone : v.zone = w.zone
  offset : v.offset = w.offset
  nanos_left : v.nanos < 1000000000
  nanos_right : w.nanos < 1000000000

theorem WallClock.SameSecond.secondOfMinute_eq {v w : WallClock} (h : SameSecond v w) :
    v.secondOfMinute = w.secondOfMinute := by
  unfold secondOfMinute
  rw [Nat.div_eq_of_lt h.nanos_left, Nat.div_eq_of_lt h.nanos_right, h.second]

/-- No field but the milliseconds tells two instants of one second apart. -/
theorem Field.write_sameSecond {v w : WallClock} (h : v.SameSecond w) {f : Field}
    (hf : f ≠ .millisecond) : f.write v = f.write w := by
  have hhour : v.hour = w.hour := by rw [WallClock.hour, h.second, WallClock.hour]
  cases f with
  | millisecond => exact absurd rfl hf
  | second style => rw [write, h.secondOfMinute_eq, write]
  | hour style => rw [write, hhour, write]
  | hourOfHalf style => rw [write, WallClock.hourOfHalf, hhour, write, WallClock.hourOfHalf]
  | minute style => rw [write, WallClock.minute, h.second, write, WallClock.minute]
  | halfDay => rw [write, hhour, write]
  | offset => rw [write, h.offset, write]
  | zoneName => rw [write, h.zone, h.offset, write]
  | era => rfl
  | year style | weekYear style | month style | monthName style | day style | dayOfYear style
  | weekdayName style | week style | weekday => simp only [write, h.day]

/-- A format tells two clocks apart by its fields alone. -/
theorem DateFormat.render_congr {v w : WallClock} {format : List Part}
    (h : ∀ f, .field f ∈ format → f.write v = f.write w) : render v format = render w format := by
  induction format with
  | nil => rfl
  | cons p rest ih =>
    have hp : p.write v = p.write w := by
      cases p with
      | literal c => rfl
      | field f => exact h f List.mem_cons_self
    show p.write v ++ render v rest = p.write w ++ render w rest
    rw [hp, ih fun f hf => h f (List.mem_cons_of_mem p hf)]

theorem DateFormat.render_sameSecond {v w : WallClock} (h : v.SameSecond w) {format : List Part}
    (hf : .field .millisecond ∉ format) : render v format = render w format := by
  refine render_congr fun f hmem => Field.write_sameSecond h ?_
  rintro rfl
  exact hf hmem

/-- The ends of what can be rendered lie on whole seconds. -/
theorem Instant.renderable_iff_of_second {m n : Int} (h : m / 1000 = n / 1000) :
    Renderable m ↔ Renderable n := by
  unfold Renderable firstMillis lastMillis
  omega

theorem Instant.nanos_ofMillis_lt (n : Int) : (ofMillis n).nanos < 1000000000 := by
  unfold ofMillis
  split
  · dsimp only
    omega
  · decide

theorem WallClock.sameSecond_ofMillis (zone : Zone) (localTime : LocalTime) {m n : Int}
    (h : m / 1000 = n / 1000) :
    SameSecond (ofInstant zone localTime (.ofMillis m)) (ofInstant zone localTime (.ofMillis n)) := by
  have hr := Instant.renderable_iff_of_second h
  have hs : (Instant.ofMillis m).seconds = (Instant.ofMillis n).seconds := by
    unfold Instant.ofMillis
    by_cases hm : Instant.Renderable m
    · rw [if_pos hm, if_pos (hr.mp hm)]
      exact h
    · rw [if_neg hm, if_neg fun hn => hm (hr.mpr hn)]
  refine ⟨?_, ?_, rfl, ?_, ?_, ?_⟩
  · simp only [ofInstant, hs]
  · simp only [ofInstant, hs]
  · simp only [ofInstant, hs]
  · exact Instant.nanos_ofMillis_lt m
  · exact Instant.nanos_ofMillis_lt n

/-- **A second has one name.** -/
theorem Template.renderMillis_sameSecond {t : Template} (ht : .field .millisecond ∉ t.parts)
    (localTime : LocalTime) {m n : Int} (h : m / 1000 = n / 1000) :
    t.renderMillis localTime m = t.renderMillis localTime n := by
  have hr := DateFormat.render_sameSecond (WallClock.sameSecond_ofMillis t.zone localTime h) ht
  rw [renderMillis, render, renderChars, hr]
  rfl

/-! ## The runs -/

namespace Policy

/-- `Idle r file` - a look that led to nothing, with the log at `file`. -/
def Idle (r : Rollover) (file : Path) : Prop :=
  r.crossed = false ∧ r.activeFile = file ∧ r.before = [] ∧ r.background = []

/-- `Agrees p a b` - a step of a watch and the step of looking each time: one policy, with the name
of the instant, and one rollover unless the look was left out and led to nothing. -/
structure Agrees (p : Policy) (a b : Watched) : Prop where
  now : a.now = b.now
  policy : a.policy = b.policy
  lastName : a.policy.lastName = p.nameAt a.now
  rollover : (∃ r, a.rollover = some r ∧ b.rollover = some r) ∨
    (a.rollover = none ∧ ∃ r, b.rollover = some r ∧ Idle r a.policy.activeFile)

/-- A look that is not due falls into the second of the last look. -/
theorem same_second_of_not_due {p : Policy} {last now : Int} (hle : last ≤ now)
    (h : (p.looked last).isDue now = false) : now / 1000 = last / 1000 := by
  have h : ¬ nextSecond last ≤ now := of_decide_eq_false h
  unfold nextSecond checkInterval at h
  omega

/-- **A look that is left out.**  It would have changed nothing and led to nothing. -/
theorem lookOn_of_same_second {p : Policy} (hp : .field .millisecond ∉ p.template.parts)
    {last now : Int} (h : now / 1000 = last / 1000) (files : FileSystem) :
    ∃ r, (p.looked last).lookOn now files = (r, p.looked last) ∧
      Idle r (p.looked last).activeFile := by
  have hname : p.nameAt now = p.nameAt last := Template.renderMillis_sameSecond hp _ h
  have hnext : nextSecond now = nextSecond last := by
    unfold nextSecond checkInterval
    omega
  have hlooked : p.looked now = p.looked last := by rw [looked, looked, hname, hnext]
  have hroll := rollover_of_same (p := p.looked last) hname
    ((p.looked last).isOver now && files.present (p.looked last).activeFile)
  rw [looked_looked, hlooked] at hroll
  exact ⟨_, by rw [lookOn_eq, hroll], rfl, rfl, rfl, rfl⟩

/-- **The simulation.**  From a look at `last` on, the two runs stay together. -/
theorem watch_agrees {p : Policy} (hp : .field .millisecond ∉ p.template.parts)
    (visits : List (Int × FileSystem)) : ∀ last : Int, (∀ v ∈ visits, last ≤ v.1) →
    (visits.map Prod.fst).Pairwise (· ≤ ·) →
    List.Forall₂ (Agrees p) ((p.looked last).watch visits) ((p.looked last).watchAll visits) := by
  induction visits with
  | nil => intro last _ _; exact .nil
  | cons v rest ih =>
    intro last hlast hsorted
    obtain ⟨now, files⟩ := v
    obtain ⟨hnow, hsorted⟩ := List.pairwise_cons.mp hsorted
    have hrest : ∀ v ∈ rest, now ≤ v.1 := fun v hv => hnow v.1 (List.mem_map_of_mem hv)
    rw [watch, watchAll]
    by_cases hdue : (p.looked last).isDue now = true
    · -- both look, and go on from this instant
      rw [if_pos hdue, lookOn_snd, looked_looked]
      exact .cons ⟨rfl, rfl, rfl, Or.inl ⟨_, rfl, rfl⟩⟩ (ih now hrest hsorted)
    · -- one look is left out, and both go on from the last instant
      have hdue : (p.looked last).isDue now = false := by simpa using hdue
      have hle : last ≤ now := hlast (now, files) List.mem_cons_self
      have hsame := same_second_of_not_due hle hdue
      obtain ⟨r, hlook, hidle⟩ := lookOn_of_same_second hp hsame files
      rw [if_neg (by simp [hdue]), hlook]
      refine .cons ⟨rfl, rfl, ?_, Or.inr ⟨rfl, r, rfl, hidle⟩⟩ (ih last ?_ hsorted)
      · exact Template.renderMillis_sameSecond hp _ hsame.symm
      · intro v hv
        exact hlast v (List.mem_cons_of_mem _ hv)

/-- **Looking once in a second is enough.**  Whatever files are there at each step, a policy whose
format asks for no milliseconds makes the same decisions whether it looks when a look is due or
each time: every look that is left out would have led to nothing. -/
theorem throttled_looks {localTime : LocalTime} {start : Int} {config : Config} {p : Policy}
    (hp : activate localTime config start = .ok p)
    (hS : 'S' ∉ DateFormat.unquoted p.template.dateFormat) (visits : List (Int × FileSystem))
    (hpos : ∀ v ∈ visits, 0 ≤ v.1) (hsorted : (visits.map Prod.fst).Pairwise (· ≤ ·)) :
    List.Forall₂ (Agrees p) (p.watch visits) (p.watchAll visits) := by
  have hact := activate_ok hp
  have hms : .field .millisecond ∉ p.template.parts := by
    intro hm
    exact hS (DateFormat.unquoted_of_millisecond hact.parse_dateFormat hm)
  cases visits with
  | nil => exact .nil
  | cons v rest =>
    obtain ⟨now, files⟩ := v
    obtain ⟨hnow, hsorted⟩ := List.pairwise_cons.mp hsorted
    -- the first look is due since it was set to the start of 1970
    have hdue : p.isDue now = true := by
      have := hpos (now, files) List.mem_cons_self
      simpa [isDue, hact.nextCheck] using this
    rw [watch, watchAll, if_pos hdue, lookOn_snd]
    refine .cons ⟨rfl, rfl, rfl, Or.inl ⟨_, rfl, rfl⟩⟩ (watch_agrees hms rest now ?_ hsorted)
    intro v hv
    exact hnow v.1 (List.mem_map_of_mem hv)

/-- A log by the minute: the second look is left out, the fourth crosses from one minute to the
next, and the last is past all that can be rendered. -/
theorem throttled_looks_by_minute : ∃ p,
    activate (.fixed 19800) ⟨some "a.%d\x7bHH-mm'S'\x7d.gz", none, .localTime⟩ (-1) = .ok p ∧
    List.Forall₂ (Agrees p)
      (p.watch [(0, .blank), (999, .blank), (59999, .blank), (60000, .blank),
        (9223372036854774999, .blank)])
      (p.watchAll [(0, .blank), (999, .blank), (59999, .blank), (60000, .blank),
        (9223372036854774999, .blank)]) := by
  have hp : activate (.fixed 19800) ⟨some "a.%d\x7bHH-mm'S'\x7d.gz", none, .localTime⟩ (-1) = .ok
      ⟨⟨"a.%d\x7bHH-mm'S'\x7d.gz", "a.".toList, "HH-mm'S'".toList,
        [.field (.hour .padded), .literal '-', .field (.minute .padded), .literal 'S'],
        ".gz".toList, .localTime, false⟩, .fixed 19800, none, .gzip, "a.05-29S.gz", 0⟩ := by rfl
  exact ⟨_, hp, throttled_looks hp (by decide) _ (by decide) (by decide)⟩

end Policy

end LogRotation
