/-
  What the name of a log says, token by token.

  1. **Values** - `Token.value` is what a token shows at a moment: a run of letters what the table of
     letters says, quoted text and other characters themselves.

  2. **The crux** - the parts of a format and its program both go token by token: the parts show the
     values of the tokens one after the other (`Tokens.render_parts`), and the program prints what the
     parts show (`Tokens.printed_program`).

  3. **The consequence** - `rendering_is_by_tokens`: a name is the text before the placeholder, the
     values of the tokens at the moment of local time, and the text behind the placeholder.
-/
import LogRotation.Proofs.Moments
import LogRotation.Proofs.Tokens
import LogRotation.Proofs.Throttle

namespace LogRotation

namespace DateFormat

/-! ## Values -/

/-- What a token shows at a moment, where the clock is `offset` seconds ahead. -/
def Token.value (m : Moment) (zone : Zone) (offset : Int) : Token → Option (List Char)
  | letters letter length => m.letters zone offset letter length
  | quoted text => some text
  | quote => some ['\x27']
  | other c => some [c]

/-! ## Parts by tokens -/

/-- An accepted format leaves no quoted section open, and its parts are those of its pieces. -/
theorem closed_of_parse {cs : List Char} {ps : List Part} (h : parse cs = .ok ps) :
    (symbols false cs).2 = false ∧ parts (pieces (symbols false cs).1) = .ok ps := by
  simp only [parse, bind, Except.bind, pure, Except.pure] at h
  split at h
  · cases h
  · rename_i qs hqs
    split at h
    · cases h
    · rename_i hclosed
      cases h
      exact ⟨by simpa using hclosed, hqs⟩

theorem parts_literals (text : List Char) {rest : List Piece} {ps : List Part}
    (h : parts (text.map .literal ++ rest) = .ok ps) :
    ∃ qs, parts rest = .ok qs ∧ ps = text.map .literal ++ qs := by
  induction text generalizing ps with
  | nil => exact ⟨ps, h, rfl⟩
  | cons c text ih =>
    rw [List.map_cons, List.cons_append, parts] at h
    cases hrest : parts (text.map .literal ++ rest) with
    | error fault =>
      rw [hrest] at h
      cases h
    | ok ps' =>
      rw [hrest] at h
      cases h
      obtain ⟨qs, hqs, rfl⟩ := ih hrest
      exact ⟨qs, hqs, rfl⟩

/-- The parts of a token. -/
inductive Token.Parts : Token → List Part → Prop
  | letters {letter : Char} {length : Nat} {f : Field} : Field.ofRun? letter length = some f →
      Token.Parts (.letters letter length) [.field f]
  | quoted (text : List Char) : Token.Parts (.quoted text) (text.map .literal)
  | quote : Token.Parts .quote [.literal '\x27']
  | other (c : Char) : Token.Parts (.other c) [.literal c]

/-- The parts of a token stand in front of those of the tokens behind it. -/
theorem parts_token {t : Token} {rest : List Piece} {ps : List Part}
    (h : parts (t.pieces ++ rest) = .ok ps) :
    ∃ ps₁ ps₂, t.Parts ps₁ ∧ parts rest = .ok ps₂ ∧ ps = ps₁ ++ ps₂ := by
  cases t with
  | letters letter length =>
    change parts (.run letter length :: rest) = .ok ps at h
    rw [parts] at h
    cases hfield : Field.ofRun? letter length with
    | none =>
      rw [hfield] at h
      cases h
    | some f =>
      rw [hfield] at h
      cases hrest : parts rest with
      | error fault =>
        rw [hrest] at h
        cases h
      | ok qs =>
        rw [hrest] at h
        cases h
        exact ⟨[.field f], qs, .letters hfield, rfl, rfl⟩
  | quoted text =>
    obtain ⟨qs, hqs, rfl⟩ := parts_literals text h
    exact ⟨_, qs, .quoted text, hqs, rfl⟩
  | quote =>
    obtain ⟨qs, hqs, rfl⟩ := parts_literals ['\x27'] h
    exact ⟨_, qs, .quote, hqs, rfl⟩
  | other c =>
    obtain ⟨qs, hqs, rfl⟩ := parts_literals [c] h
    exact ⟨_, qs, .other c, hqs, rfl⟩

/-- The parts of a token show its value. -/
theorem Token.Parts.render_eq {t : Token} {ps : List Part} (h : t.Parts ps) {w : WallClock}
    (hsecond : w.second < 86400) (hnanos : w.nanos < 1000000000) :
    t.value (.ofClock w) w.zone w.offset = some (render w ps) := by
  cases h with
  | @letters _ _ f hfield =>
    have hshow : render w [.field f] = f.write w := List.append_nil _
    rw [hshow]
    exact Moment.letters_eq_write w hfield hsecond hnanos
  | quoted text => exact congrArg some (render_literals w text).symm
  | quote => rfl
  | other c => rfl

/-- **The parts of a format show the values of its tokens.** -/
theorem render_parts {ts : List Token} {ps : List Part}
    (h : parts (ts.flatMap Token.pieces) = .ok ps) {w : WallClock} (hsecond : w.second < 86400)
    (hnanos : w.nanos < 1000000000) : ∃ texts : List (List Char),
    ts.map (Token.value (.ofClock w) w.zone w.offset) = texts.map some ∧
      render w ps = texts.flatten := by
  induction ts generalizing ps with
  | nil =>
    cases h
    exact ⟨[], rfl, rfl⟩
  | cons t ts ih =>
    obtain ⟨ps₁, ps₂, ht, hrest, rfl⟩ := parts_token h
    obtain ⟨texts, hvalues, hshown⟩ := ih hrest
    refine ⟨render w ps₁ :: texts, ?_, ?_⟩
    · rw [List.map_cons, List.map_cons, ht.render_eq hsecond hnanos, hvalues]
    · rw [render_append, hshown]
      rfl

end DateFormat

/-! ## Programs by tokens -/

namespace Strftime

open DateFormat (Token Tokens Part)

/-- The translation of a token prints what its parts show. -/
theorem printed_token {t : Token} {ps : List Part} (ht : t.WellFormed) (h : t.Parts ps) :
    ∃ program qs, ofToken t = .ok program ∧ Printed program qs ∧
      ∀ w, DateFormat.render w qs = DateFormat.render w ps := by
  cases h with
  | letters hfield =>
    obtain ⟨conversion, qs, hconversion, hprinted, hshown⟩ := printed_conversion ht.2 hfield
    refine ⟨conversion.toList, qs, ?_, hprinted, ?_⟩
    · simp only [ofToken, hconversion]
    · intro w
      rw [hshown]
      exact (List.append_nil _).symm
  | quoted text => exact ⟨_, _, rfl, printed_literals text, fun w => rfl⟩
  | quote => exact ⟨_, _, rfl, printed_literal '\x27', fun w => rfl⟩
  | other c => exact ⟨_, _, rfl, printed_literal c, fun w => rfl⟩

/-- **The program of a format prints what its parts show.** -/
theorem printed_program {cs : List Char} {ts : List Token} (h : Tokens cs ts) {ps : List Part}
    (hparts : DateFormat.parts (ts.flatMap Token.pieces) = .ok ps) :
    ∃ program qs, ofFormat cs = .ok program ∧ Printed program qs ∧
      ∀ w, DateFormat.render w qs = DateFormat.render w ps := by
  induction h generalizing ps with
  | nil =>
    cases hparts
    exact ⟨[], [], by rw [ofFormat]; rfl, Printed.nil, fun w => rfl⟩
  | cons ht hend _ ih =>
    obtain ⟨ps₁, ps₂, hps₁, hrest, rfl⟩ := DateFormat.parts_token hparts
    obtain ⟨program₁, qs₁, htoken, hprinted₁, hshown₁⟩ := printed_token ht hps₁
    obtain ⟨program₂, qs₂, hformat, hprinted₂, hshown₂⟩ := ih hrest
    refine ⟨program₁ ++ program₂, qs₁ ++ qs₂, ?_, hprinted₁.append hprinted₂, ?_⟩
    · rw [ofFormat_source ht hend, htoken, hformat]
      rfl
    · intro w
      rw [DateFormat.render_append, DateFormat.render_append, hshown₁, hshown₂]

end Strftime

/-! ## Names -/

namespace Template

open DateFormat (Token Tokens)

/-- The milliseconds that are shown for a count of milliseconds: one that no date is known of stands
for 0. -/
def shownMillis (millis : Int) : Int :=
  if -8334601228800000 ≤ millis ∧ millis ≤ 8210266876799999 then millis else 0

/-- How many seconds the zone of a template is ahead at a count of milliseconds. -/
def ahead (t : Template) (localTime : LocalTime) (millis : Int) : Int :=
  t.zone.ahead localTime (shownMillis millis / 1000)

/-- The milliseconds of local time that a template shows at a count of milliseconds. -/
def localMillis (t : Template) (localTime : LocalTime) (millis : Int) : Int :=
  shownMillis millis + 1000 * t.ahead localTime millis

theorem millis_ofMillis_eq (millis : Int) : (Instant.ofMillis millis).millis = shownMillis millis := by
  unfold shownMillis
  split
  · rename_i h
    exact Instant.millis_ofMillis h
  · rename_i h
    have hout : ¬ Instant.Renderable millis := h
    rw [Instant.ofMillis, if_neg hout]
    rfl

/-- The seconds of an instant are those of its milliseconds. -/
theorem seconds_ofMillis (millis : Int) : (Instant.ofMillis millis).seconds = shownMillis millis / 1000 := by
  have hnanos := Instant.nanos_ofMillis_lt millis
  rw [← millis_ofMillis_eq, Instant.millis]
  omega

theorem second_lt (zone : Zone) (localTime : LocalTime) (instant : Instant) :
    (WallClock.ofInstant zone localTime instant).second < 86400 := by
  rw [Moment.ofInstant_eq]
  dsimp only
  omega

@[simp] theorem lead_withZone (t : Template) (zone : Zone) : (t.withZone zone).lead = t.lead := by
  unfold withZone; split <;> rfl

@[simp] theorem tail_withZone (t : Template) (zone : Zone) : (t.withZone zone).tail = t.tail := by
  unfold withZone; split <;> rfl

/-- The wall clock of a template shows its moment. -/
theorem shown_clock (t : Template) (localTime : LocalTime) (millis : Int) :
    Moment.Shown (t.localMillis localTime millis)
      (.ofClock (.ofInstant t.zone localTime (.ofMillis millis))) := by
  have h := Moment.shown_ofClock t.zone localTime (Instant.nanos_ofMillis_lt millis)
  rwa [millis_ofMillis_eq, seconds_ofMillis] at h

/-- **Names mean what the format says.**  An accepted format is made of tokens in one way, and has a
program.  At each instant there is one moment on the calendar and the clock of the zone, and the name
is what the tokens show at that moment, between the texts around the placeholder; the program prints
just that. -/
theorem rendering_is_by_tokens {text : String} {t : Template} (h : parse text = .ok t) :
    ∃ ts program, Tokens t.dateFormat ts ∧ (∀ ts', Tokens t.dateFormat ts' → ts' = ts) ∧
      Strftime.ofFormat t.dateFormat = .ok program ∧
      ∀ (mode : Zone) (localTime : LocalTime) (millis : Int),
        ∃ (zone : Zone) (m : Moment) (texts : List (List Char)), zone = (t.withZone mode).zone ∧
        m.Shown ((t.withZone mode).localMillis localTime millis) ∧
        (∀ m', Moment.Shown ((t.withZone mode).localMillis localTime millis) m' → m' = m) ∧
        ts.map (Token.value m zone ((t.withZone mode).ahead localTime millis)) = texts.map some ∧
        ((t.withZone mode).renderMillis localTime millis).toList =
          t.lead ++ texts.flatten ++ t.tail ∧
        Strftime.print? (.ofInstant zone localTime (.ofMillis millis)) program =
          some texts.flatten := by
  -- the format leaves no section open, so it has tokens, and its parts are theirs
  obtain ⟨hclosed, hparts⟩ := DateFormat.closed_of_parse (parse_dateFormat h)
  obtain ⟨ts, hts⟩ := DateFormat.tokens_of_closed hclosed
  rw [hts.symbols_eq, hts.pieces_eq] at hparts
  obtain ⟨program, qs, hprogram, hprinted, hshown⟩ := Strftime.printed_program hts hparts
  refine ⟨ts, program, hts, fun ts' hts' => hts'.unique hts, hprogram, ?_⟩
  intro mode localTime millis
  have hmoment := shown_clock (t.withZone mode) localTime millis
  have hsecond := second_lt (t.withZone mode).zone localTime (.ofMillis millis)
  have hnanos := Instant.nanos_ofMillis_lt millis
  obtain ⟨texts, hvalues, hrender⟩ := DateFormat.render_parts hparts hsecond hnanos
  have hahead : (WallClock.ofInstant (t.withZone mode).zone localTime (.ofMillis millis)).offset =
      (t.withZone mode).ahead localTime millis := by
    rw [Moment.ofInstant_eq, ahead, seconds_ofMillis]
  rw [hahead] at hvalues
  refine ⟨_, _, texts, rfl, hmoment, fun m' hm' => hm'.unique hmoment, hvalues, ?_, ?_⟩
  · rw [← hrender, renderMillis, render, renderChars, String.toList_ofList, lead_withZone,
      tail_withZone, parts_withZone]
  · rw [Strftime.print?, hprinted.parts?_eq, Option.map_some, hshown, hrender]

/-- A format in which percent signs, digits, quotes and letters stand beside fields of every kind.  In
the zone of the host the last millisecond before year 0 may be one of the year before it. -/
theorem rendering_is_by_tokens_before_year_zero : ∃ t,
    parse "a%%-%d\x7bG%3yyyyyMMMd''D'd%''d'-uwwYY%z\x7d\x7blocal\x7d.gz" = .ok t ∧
    (∃ ts program, Tokens t.dateFormat ts ∧ (∀ ts', Tokens t.dateFormat ts' → ts' = ts) ∧
      Strftime.ofFormat t.dateFormat = .ok program ∧
      ∀ (mode : Zone) (localTime : LocalTime) (millis : Int),
        ∃ (zone : Zone) (m : Moment) (texts : List (List Char)), zone = (t.withZone mode).zone ∧
        m.Shown ((t.withZone mode).localMillis localTime millis) ∧
        (∀ m', Moment.Shown ((t.withZone mode).localMillis localTime millis) m' → m' = m) ∧
        ts.map (Token.value m zone ((t.withZone mode).ahead localTime millis)) = texts.map some ∧
        ((t.withZone mode).renderMillis localTime millis).toList =
          t.lead ++ texts.flatten ++ t.tail ∧
        Strftime.print? (.ofInstant zone localTime (.ofMillis millis)) program =
          some texts.flatten) ∧
    t.dateFormat = "G%3yyyyyMMMd''D'd%''d'-uwwYY%z".toList ∧
    t.renderMillis (.fixed (-19800)) (-62167219200001) = "a%-AD%3-0001Dec31'365d%'d-55299%-05:30.gz" := by
  have hparse : ∃ t,
      parse "a%%-%d\x7bG%3yyyyyMMMd''D'd%''d'-uwwYY%z\x7d\x7blocal\x7d.gz" = .ok t ∧
        t.dateFormat = "G%3yyyyyMMMd''D'd%''d'-uwwYY%z".toList ∧
        t.renderMillis (.fixed (-19800)) (-62167219200001) = "a%-AD%3-0001Dec31'365d%'d-55299%-05:30.gz" :=
    ⟨_, rfl, rfl, rfl⟩
  obtain ⟨t, ht, hformat, hname⟩ := hparse
  exact ⟨t, ht, rendering_is_by_tokens ht, hformat, hname⟩

end Template

end LogRotation
