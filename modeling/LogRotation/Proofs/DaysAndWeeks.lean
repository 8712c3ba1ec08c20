/-
  Names by the day, and names by the week.

  A format that shows nothing of the time of the day cuts time at midnights.  How long its periods are
  is then a question about the calendar: which days have the same text.

  1. **Days** - the number of a day within its year and the number of its weekday within its week tell
     it from all other days, as its date does (`dayOfYearText_injective`, `weekdayText_injective`).

  2. **The crux** - `week_eq_iff`: a week is known by its year and its number.  It belongs to the year
     of its Thursday, and no two Thursdays of a year that are seven days apart or more have one number;
     so nothing happens at a new year but that the numbers start again.

  3. **Names** - a name shows the day of its instant in its zone (`renderMillis_eq_iff`), and taking the
     ending of an archive off makes no two names one (`strip_renderMillis_eq_iff`).

  Main statements: `daily_names_by_day`, `weekly_names_by_week`.
-/
import LogRotation.Proofs.DatedFiles

namespace LogRotation

/-! ## Days of the calendar -/

namespace Calendar

/-- A day is known by its year and its number within that year. -/
theorem eq_of_dayOfYear {d e : Int} (hyear : yearOf d = yearOf e) (hday : dayOfYear d = dayOfYear e) :
    d = e := by
  have hd := yearStart_yearOf_le d
  have he := yearStart_yearOf_le e
  unfold dayOfYear at hday
  rw [hyear] at hday hd
  omega

/-- **A week is known by its year and its number.**  Weeks begin on Monday, and 1 January 1970 was a
Thursday. -/
theorem week_eq_iff {d e : Int} : Week.ofDay d = Week.ofDay e ↔ (d + 3) / 7 = (e + 3) / 7 := by
  constructor
  · intro h
    unfold Week.ofDay at h
    rw [Week.mk.injEq] at h
    rcases h with ⟨hyear, hnumber⟩
    -- the two Thursdays are in one year, and less than seven days apart
    have hd := yearStart_yearOf_le (thursdayOf d)
    have he := yearStart_yearOf_le (thursdayOf e)
    unfold dayOfYear at hnumber
    rw [hyear] at hnumber hd
    unfold thursdayOf at hd he hnumber
    omega
  · intro h
    have hthursday : thursdayOf d = thursdayOf e := by
      unfold thursdayOf
      rw [h]
    unfold Week.ofDay
    rw [hthursday]

/-- A day is known by its week and its weekday. -/
theorem eq_of_weekday {d e : Int} (hweek : (d + 3) / 7 = (e + 3) / 7) (hday : weekday d = weekday e) :
    d = e := by
  unfold weekday at hday
  omega

end Calendar

/-! ## Texts of days -/

open Calendar (Week weekday dayOfYear yearOf)

/-- The text of the number of a day within its year. -/
def dayOfYearText (day : Int) : List Char :=
  Text.year (yearOf day) ++ '-' :: Text.fixed 3 (dayOfYear day + 1)

/-- The text of the week of a day. -/
def weekText (day : Int) : List Char :=
  Text.year (Week.ofDay day).year ++ '-' :: Text.fixed 2 (Week.ofDay day).number

/-- The text of the number of a day within its week. -/
def weekdayText (day : Int) : List Char := weekText day ++ '-' :: Text.decimal (weekday day)

theorem dayOfYearText_injective : Function.Injective dayOfYearText := by
  intro d e h
  rcases List.append_inj' h rfl with ⟨hyear, hnumber⟩
  have hsmall : ∀ day, dayOfYear day + 1 < 10 ^ 3 := by
    intro day
    have := Moment.dayOfYear_lt day
    omega
  have hday := Text.fixed_inj (hsmall d) (hsmall e) (List.cons.inj hnumber).2
  exact Calendar.eq_of_dayOfYear (Text.year_injective hyear) (by omega)

/-- **Days have the text of one week just if they lie in one week.** -/
theorem weekText_eq_iff {d e : Int} : weekText d = weekText e ↔ (d + 3) / 7 = (e + 3) / 7 := by
  rw [← Calendar.week_eq_iff]
  constructor
  · intro h
    rcases List.append_inj' h rfl with ⟨hyear, hnumber⟩
    have hsmall : ∀ day, (Week.ofDay day).number < 10 ^ 2 := by
      intro day
      have := Moment.dayOfYear_lt (Calendar.thursdayOf day)
      show dayOfYear (Calendar.thursdayOf day) / 7 + 1 < 100
      omega
    have hnumber := Text.fixed_inj (hsmall d) (hsmall e) (List.cons.inj hnumber).2
    rw [Week.mk.injEq]
    exact ⟨Text.year_injective hyear, hnumber⟩
  · intro h
    unfold weekText
    rw [h]

theorem weekdayText_injective : Function.Injective weekdayText := by
  intro d e h
  have hlength : ∀ day, ('-' :: Text.decimal (weekday day)).length = 2 := by
    intro day
    have hdigit : weekday day < 10 := by
      have := Calendar.weekday_range day
      omega
    rw [Text.decimal, Nat.toDigits_of_lt_base hdigit]
    rfl
  rcases List.append_inj' h ((hlength d).trans (hlength e).symm) with ⟨hweek, hday⟩
  have hday : weekday d = weekday e := by
    rw [← Text.numberOf_decimal (weekday d), (List.cons.inj hday).2, Text.numberOf_decimal]
  exact Calendar.eq_of_weekday (weekText_eq_iff.mp hweek) hday

/-! ## Names -/

namespace DateFormat

/-- The format of a weekly name. -/
def weekly : List Char := "YYYY-ww".toList

/-- Formats that show a day: by its date, by its number within the year, or within the week. -/
def daily : List (List Char) := [Template.defaultFormat, "yyyy-DDD".toList, "YYYY-ww-u".toList]

/-- `Shows ps text` - on every clock, the parts of a format show the text of the day. -/
def Shows (ps : List Part) (text : Int → List Char) : Prop := ∀ w, render w ps = text w.day

theorem shows_dayOfYear {ps : List Part} (h : parse "yyyy-DDD".toList = .ok ps) :
    Shows ps dayOfYearText := by
  have hparts : parse "yyyy-DDD".toList =
      .ok [.field (.year .full), .literal '-', .field (.dayOfYear .padded)] := by rfl
  obtain rfl := Except.ok.inj (h.symm.trans hparts)
  exact fun _ => rfl

theorem shows_week {ps : List Part} (h : parse weekly = .ok ps) : Shows ps weekText := by
  have hparts : parse weekly =
      .ok [.field (.weekYear .full), .literal '-', .field (.week .padded)] := by rfl
  obtain rfl := Except.ok.inj (h.symm.trans hparts)
  exact fun _ => rfl

theorem shows_weekday {ps : List Part} (h : parse "YYYY-ww-u".toList = .ok ps) :
    Shows ps weekdayText := by
  have hparts : parse "YYYY-ww-u".toList = .ok [.field (.weekYear .full), .literal '-',
      .field (.week .padded), .literal '-', .field .weekday] := by rfl
  obtain rfl := Except.ok.inj (h.symm.trans hparts)
  intro w
  unfold weekdayText weekText
  rw [List.append_assoc, ← List.append_nil (Text.decimal (weekday w.day))]
  rfl

/-- A daily format shows a text that no two days have. -/
theorem exists_shows_of_daily {format : List Char} (hformat : format ∈ daily) {ps : List Part}
    (h : parse format = .ok ps) : ∃ text, Function.Injective text ∧ Shows ps text := by
  unfold daily at hformat
  simp only [List.mem_cons, List.not_mem_nil, or_false] at hformat
  rcases hformat with rfl | rfl | rfl
  · exact ⟨dayText, dayText_injective, fun w => render_default h⟩
  · exact ⟨dayOfYearText, dayOfYearText_injective, shows_dayOfYear h⟩
  · exact ⟨weekdayText, weekdayText_injective, shows_weekday h⟩

end DateFormat

namespace Template

variable {t : Template} {localTime : LocalTime} {text : Int → List Char} {s₁ s₂ : Int}

/-- A name shows the text of its day. -/
theorem renderMillis_of_shows (h : DateFormat.Shows t.parts text) {millis : Int}
    (hmillis : Instant.Renderable millis) : t.renderMillis localTime millis =
      String.ofList (t.lead ++ text (t.localDay localTime millis) ++ t.tail) := by
  rw [renderMillis, render, renderChars, h, day_ofMillis t localTime hmillis]

/-- **Names are the same just if the texts of their days are.** -/
theorem renderMillis_eq_iff (h : DateFormat.Shows t.parts text) (h₁ : Instant.Renderable s₁)
    (h₂ : Instant.Renderable s₂) : t.renderMillis localTime s₁ = t.renderMillis localTime s₂ ↔
      text (t.localDay localTime s₁) = text (t.localDay localTime s₂) := by
  rw [renderMillis_of_shows h h₁, renderMillis_of_shows h h₂, String.ofList_inj,
    List.append_left_inj, List.append_right_inj]

/-- **Names without the ending of an archive are the same just if the names are.**  All names of a
template ask for the kind of compression that its first one asks for. -/
theorem strip_renderMillis_eq_iff (t : Template) (localTime : LocalTime) (start : Int) {kind : Compression}
    (hkind : Compression.detect (t.renderMillis localTime start) = kind) :
    kind.strip (t.renderMillis localTime s₁) = kind.strip (t.renderMillis localTime s₂) ↔
      t.renderMillis localTime s₁ = t.renderMillis localTime s₂ := by
  have hstrip : ∀ s, kind.strip (t.renderMillis localTime s) ++ kind.suffix = t.renderMillis localTime s := by
    intro s
    refine Compression.strip_append_suffix kind _ ?_
    by_cases hnone : kind = .none
    · rw [hnone, Compression.endsIn, List.isSuffixOf_iff_suffix]
      exact List.nil_suffix
    · exact Compression.endsIn_of_detect ((t.detect_renderMillis localTime s start).trans hkind) hnone
  constructor
  · intro h
    rw [← hstrip s₁, h, hstrip]
  · intro h
    rw [h]

/-- **A daily name lasts from one midnight to the next.**  Let the format of a template be the date, the
number of the day within its year, or its week and its number within that.  In each zone, and however
far the host is ahead of universal time, two instants have one name just if they lie on one day there:
at each midnight the name changes, at no other time, and no name comes again. -/
theorem daily_names_by_day {text : String} (h : parse text = .ok t)
    (hformat : t.dateFormat ∈ DateFormat.daily) (mode : Zone) (localTime : LocalTime)
    (h₁ : Instant.Renderable s₁) (h₂ : Instant.Renderable s₂) :
    (t.withZone mode).renderMillis localTime s₁ = (t.withZone mode).renderMillis localTime s₂ ↔
      (s₁ + 1000 * (t.withZone mode).zone.ahead localTime (s₁ / 1000)) / 86400000 =
        (s₂ + 1000 * (t.withZone mode).zone.ahead localTime (s₂ / 1000)) / 86400000 := by
  obtain ⟨days, hdays, hshows⟩ := DateFormat.exists_shows_of_daily hformat (parse_dateFormat h)
  rw [← parts_withZone t mode] at hshows
  rw [renderMillis_eq_iff hshows h₁ h₂, hdays.eq_iff]
  rfl

/-- By the number of the day within its week, in the zone of a host that is behind universal time: the
last instant of a year before year 0, and the first of the year after it. -/
theorem daily_names_by_day_at_new_year : ∃ t, parse "%d{YYYY-ww-u}.log.gz" = .ok t ∧
    t.dateFormat ∈ DateFormat.daily ∧
    Instant.Renderable (-62167199400001) ∧ Instant.Renderable (-62167199400000) ∧
    ((t.withZone .localTime).renderMillis (.fixed (-19800)) (-62167199400001) =
        (t.withZone .localTime).renderMillis (.fixed (-19800)) (-62167199400000) ↔
      (-62167199400001 + 1000 * (-19800)) / 86400000 =
        ((-62167199400000 + 1000 * (-19800)) / 86400000 : Int)) ∧
    (t.withZone .localTime).renderMillis (.fixed (-19800)) (-62167199400001) = "-0001-52-5.log.gz" ∧
    (t.withZone .localTime).renderMillis (.fixed (-19800)) (-62167199400000) = "-0001-52-6.log.gz" := by
  have hparse : ∃ t, parse "%d{YYYY-ww-u}.log.gz" = .ok t ∧
      t.dateFormat = "YYYY-ww-u".toList ∧ (t.withZone .localTime).zone = .localTime ∧
      (t.withZone .localTime).renderMillis (.fixed (-19800)) (-62167199400001) = "-0001-52-5.log.gz" ∧
      (t.withZone .localTime).renderMillis (.fixed (-19800)) (-62167199400000) = "-0001-52-6.log.gz" :=
    ⟨_, rfl, rfl, rfl, rfl, rfl⟩
  obtain ⟨t, ht, hformat, hzone, hfirst, hsecond⟩ := hparse
  have hdaily : t.dateFormat ∈ DateFormat.daily := by
    rw [hformat]
    decide
  have h₁ : Instant.Renderable (-62167199400001) := by decide
  have h₂ : Instant.Renderable (-62167199400000) := by decide
  have hnames := daily_names_by_day ht hdaily .localTime (.fixed (-19800)) h₁ h₂
  rw [hzone] at hnames
  exact ⟨t, ht, hdaily, h₁, h₂, hnames, hfirst, hsecond⟩

/-- **A weekly name lasts from one Monday to the next.**  Where the format of a template is the week and
the year that it belongs to, two instants have one name just if their days lie in one week, which begins
on Monday in the zone of the template.  The same holds of the names without the ending of the archive
that they ask for, which are those of the files that are written to: no new year parts a week, and no
two weeks share a file. -/
theorem weekly_names_by_week {text : String} (h : parse text = .ok t)
    (hformat : t.dateFormat = DateFormat.weekly) (mode : Zone) (localTime : LocalTime)
    (h₁ : Instant.Renderable s₁) (h₂ : Instant.Renderable s₂) {d₁ d₂ : Int}
    (hd₁ : d₁ = (s₁ + 1000 * (t.withZone mode).zone.ahead localTime (s₁ / 1000)) / 86400000)
    (hd₂ : d₂ = (s₂ + 1000 * (t.withZone mode).zone.ahead localTime (s₂ / 1000)) / 86400000) :
    ((t.withZone mode).renderMillis localTime s₁ = (t.withZone mode).renderMillis localTime s₂ ↔
      (d₁ + 3) / 7 = (d₂ + 3) / 7) ∧
    ∀ start kind, Compression.detect ((t.withZone mode).renderMillis localTime start) = kind →
      (kind.strip ((t.withZone mode).renderMillis localTime s₁) =
          kind.strip ((t.withZone mode).renderMillis localTime s₂) ↔
        (d₁ + 3) / 7 = (d₂ + 3) / 7) := by
  have hparts := parse_dateFormat h
  rw [hformat] at hparts
  have hshows := DateFormat.shows_week hparts
  rw [← parts_withZone t mode] at hshows
  have hnames : (t.withZone mode).renderMillis localTime s₁ = (t.withZone mode).renderMillis localTime s₂ ↔
      (d₁ + 3) / 7 = (d₂ + 3) / 7 := by
    rw [renderMillis_eq_iff hshows h₁ h₂, weekText_eq_iff, hd₁, hd₂]
    rfl
  refine ⟨hnames, fun start kind hkind => ?_⟩
  rw [strip_renderMillis_eq_iff _ localTime start hkind, hnames]

/-- The last week of 2024 goes into 2025: its first and its last instant, and the instant after it. -/
theorem weekly_names_by_week_at_new_year : ∃ t, parse "app-%d{YYYY-ww}.log.zip" = .ok t ∧
    t.dateFormat = DateFormat.weekly ∧
    Instant.Renderable 1735516800000 ∧ Instant.Renderable 1736121599999 ∧
    Instant.Renderable 1736121600000 ∧
    ((t.withZone .utc).renderMillis (.fixed 0) 1735516800000 =
        (t.withZone .utc).renderMillis (.fixed 0) 1736121599999 ↔
      ((20087 + 3) / 7 : Int) = (20093 + 3) / 7) ∧
    (Compression.zip.strip ((t.withZone .utc).renderMillis (.fixed 0) 1736121599999) =
        Compression.zip.strip ((t.withZone .utc).renderMillis (.fixed 0) 1736121600000) ↔
      ((20093 + 3) / 7 : Int) = (20094 + 3) / 7) ∧
    (t.withZone .utc).renderMillis (.fixed 0) 1735516800000 = "app-2025-01.log.zip" ∧
    (t.withZone .utc).renderMillis (.fixed 0) 1736121600000 = "app-2025-02.log.zip" := by
  have hparse : ∃ t, parse "app-%d{YYYY-ww}.log.zip" = .ok t ∧
      t.dateFormat = DateFormat.weekly ∧ (t.withZone .utc).zone = .utc ∧
      Compression.detect ((t.withZone .utc).renderMillis (.fixed 0) 0) = .zip ∧
      (t.withZone .utc).renderMillis (.fixed 0) 1735516800000 = "app-2025-01.log.zip" ∧
      (t.withZone .utc).renderMillis (.fixed 0) 1736121600000 = "app-2025-02.log.zip" :=
    ⟨_, rfl, rfl, rfl, rfl, rfl, rfl⟩
  obtain ⟨t, ht, hformat, hzone, hkind, hfirst, hsecond⟩ := hparse
  have h₁ : Instant.Renderable 1735516800000 := by decide
  have h₂ : Instant.Renderable 1736121599999 := by decide
  have h₃ : Instant.Renderable 1736121600000 := by decide
  have hday : ∀ s d : Int, s / 86400000 = d →
      d = (s + 1000 * (t.withZone .utc).zone.ahead (.fixed 0) (s / 1000)) / 86400000 := by
    rintro s d rfl
    rw [hzone, Zone.ahead, Int.mul_zero, Int.add_zero]
  have hmonday := hday 1735516800000 20087 (by decide)
  have hsunday := hday 1736121599999 20093 (by decide)
  have hnext := hday 1736121600000 20094 (by decide)
  have hwithin := weekly_names_by_week ht hformat .utc (.fixed 0) h₁ h₂ hmonday hsunday
  have hacross := weekly_names_by_week ht hformat .utc (.fixed 0) h₂ h₃ hsunday hnext
  exact ⟨t, ht, hformat, h₁, h₂, h₃, hwithin.1, hacross.2 0 .zip hkind, hfirst, hsecond⟩

end Template

end LogRotation
