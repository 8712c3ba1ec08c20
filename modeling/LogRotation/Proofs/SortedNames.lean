/-
  Names that sort by time.

  1. **Columns** - where two lists first differ, one of them has the smaller entry, and nothing that
     follows matters (`Below`).  Numbers that are written in columns of fixed widths are below each other
     as texts if they are below each other as numbers (`columns_below`).

  2. **The calendar** - from one day to a later one, the first of year, month and day that differs has
     grown, and so it is with the day of the year, with the week, and with the time of the day.

  3. **Bytes** - digits and hyphens are single bytes, in the order of their characters (`bytes_below`),
     and the literal text around a date is the same in both names.

  Main statement: `names_sort_by_time`.
-/
import LogRotation.Proofs.DaysAndWeeks
import Mathlib.Data.List.Forall2

namespace LogRotation

/-! ## Columns -/

/-- `Below x y` - where two lists first differ, the first has the smaller entry. -/
inductive Below {α : Type} [LT α] : List α → List α → Prop
  | here {a b : α} (x y : List α) : a < b → Below (a :: x) (b :: y)
  | later (a : α) {x y : List α} : Below x y → Below (a :: x) (a :: y)

namespace Below

variable {α : Type} [LT α] {x y : List α}

theorem append_left (z : List α) (h : Below x y) : Below (z ++ x) (z ++ y) := by
  induction z with
  | nil => exact h
  | cons a z ih => exact .later a ih

/-- What follows the first difference does not matter. -/
theorem append_right (h : Below x y) (s t : List α) : Below (x ++ s) (y ++ t) := by
  induction h with
  | here x y hab => exact .here _ _ hab
  | later a _ ih => exact .later a ih

theorem lex (h : Below x y) : List.Lex (· < ·) x y := by
  induction h with
  | here x y hab => exact .rel hab
  | later a _ ih => exact .cons ih

theorem cons_iff {a b : α} : Below (a :: x) (b :: y) ↔ a < b ∨ a = b ∧ Below x y := by
  constructor
  · rintro (⟨x, y, hab⟩ | ⟨a, h⟩)
    · exact .inl hab
    · exact .inr ⟨rfl, h⟩
  · rintro (hab | ⟨rfl, h⟩)
    · exact .here x y hab
    · exact .later a h

theorem ne (hirrefl : ∀ a : α, ¬ a < a) (h : Below x y) : x ≠ y := by
  induction h with
  | here x y hab => exact fun he => hirrefl _ ((List.cons.inj he).1 ▸ hab)
  | later a _ ih => exact fun he => ih (List.cons.inj he).2

end Below

theorem Text.digit_lt_digit {m n : Nat} (h : m % 10 < n % 10) : digit m < digit n := by
  have hall : ∀ i < 10, ∀ j < 10, i < j → Char.ofNat (48 + i) < Char.ofNat (48 + j) := by decide
  exact hall _ (Nat.mod_lt m (by decide)) _ (Nat.mod_lt n (by decide)) h

/-- A smaller number is below in the same width. -/
theorem Text.fixed_below {width m n : Nat} (h : m < n) (hn : n < 10 ^ width) :
    Below (fixed width m) (fixed width n) := by
  induction width generalizing m n with
  | zero => exact absurd (Nat.lt_one_iff.mp hn) (by omega)
  | succ width ih =>
    rw [fixed_succ, fixed_succ]
    have hrest : n / 10 < 10 ^ width := by
      rw [Nat.pow_succ] at hn
      exact Nat.div_lt_of_lt_mul (by omega)
    by_cases hlead : m / 10 < n / 10
    · exact (ih hlead hrest).append_right _ _
    · -- all digits but the last are the same
      have hsame : m / 10 = n / 10 := by omega
      rw [hsame]
      exact (Below.here [] [] (digit_lt_digit (by omega))).append_left _

/-- Numbers in columns, each with as many digits as its column and a hyphen before it. -/
def columns (widths ns : List Nat) : List Char :=
  (widths.zip ns).flatMap fun (width, n) => '-' :: Text.fixed width n

/-- Numbers that are no longer than their columns. -/
def Fits (widths ns : List Nat) : Prop := List.Forall₂ (fun width n => n < 10 ^ width) widths ns

/-- **Columns have the order of their numbers.** -/
theorem columns_below {widths ms ns : List Nat} (hm : Fits widths ms) (hn : Fits widths ns)
    (h : Below ms ns) : Below (columns widths ms) (columns widths ns) := by
  induction h generalizing widths with
  | here x y hab =>
    cases hm with
    | cons _ _ =>
      cases hn with
      | cons hb _ => exact .later '-' ((Text.fixed_below hab hb).append_right _ _)
  | later a _ ih =>
    cases hm with
    | cons _ hm =>
      cases hn with
      | cons _ hn => exact .later '-' ((ih hm hn).append_left _)

/-! ## The calendar -/

open Calendar (Date Week yearOf dayOfYear thursdayOf)

namespace Calendar

/-- The numbers of a date. -/
def dateNumbers (day : Int) : List Nat :=
  [(yearOf day).toNat, (Date.ofDay day).month, (Date.ofDay day).day]

/-- The numbers of a day within its year. -/
def ordinalNumbers (day : Int) : List Nat := [(yearOf day).toNat, dayOfYear day + 1]

/-- The numbers of a week. -/
def weekNumbers (day : Int) : List Nat := [(Week.ofDay day).year.toNat, (Week.ofDay day).number]

/-- A later day has a later date. -/
theorem dateNumbers_below {d e : Int} (h : d < e) (hd : 0 ≤ yearOf d) :
    Below (dateNumbers d) (dateNumbers e) := by
  have hmono : StrictMono fun day => (Date.ofDay day).rank :=
    strictMono_int_of_lt_succ rank_lt_rank_next
  have hrank : (Date.ofDay d).rank < (Date.ofDay e).rank := hmono h
  have hyear : ∀ day, (Date.ofDay day).year = yearOf day := fun _ => rfl
  have hmonth := month_range d
  have hmonth' := month_range e
  have hday := Moment.day_lt d
  have hday' := Moment.day_lt e
  unfold Date.rank at hrank
  rw [hyear, hyear] at hrank
  simp only [dateNumbers, Below.cons_iff]
  omega

theorem yearOf_mono {d e : Int} (h : d ≤ e) : yearOf d ≤ yearOf e := by
  by_contra hnot
  have hlow := yearStart_yearOf_le d
  have hhigh := lt_yearStart_yearOf_succ e
  rcases Int.lt_or_eq_of_le (show yearOf e + 1 ≤ yearOf d by omega) with hlt | heq
  · have := yearStart_lt hlt
    omega
  · rw [heq] at hhigh
    omega

/-- Days of one year are counted on. -/
theorem dayOfYear_eq_add {d e : Int} (h : d ≤ e) (hyear : yearOf d = yearOf e) :
    dayOfYear e = dayOfYear d + (e - d).toNat := by
  have hlow := yearStart_yearOf_le d
  unfold dayOfYear
  rw [← hyear]
  omega

/-- A later day is further on in its year, or in a later year. -/
theorem ordinalNumbers_below {d e : Int} (h : d < e) (hd : 0 ≤ yearOf d) :
    Below (ordinalNumbers d) (ordinalNumbers e) := by
  have hmono := yearOf_mono (Int.le_of_lt h)
  have hcount := dayOfYear_eq_add (Int.le_of_lt h)
  simp only [ordinalNumbers, Below.cons_iff]
  omega

/-- A later day is in the same week or in a later one. -/
theorem weekNumbers_below {d e : Int} (h : d ≤ e) (hd : 0 ≤ (Week.ofDay d).year) :
    Below (weekNumbers d) (weekNumbers e) ∨ weekNumbers d = weekNumbers e := by
  have hthursday : thursdayOf d = thursdayOf e ∨ thursdayOf d + 7 ≤ thursdayOf e := by
    unfold thursdayOf
    omega
  rcases hthursday with hsame | hlater
  · refine .inr ?_
    unfold weekNumbers Week.ofDay
    rw [hsame]
  · -- seven days on in the year are one week on
    refine .inl ?_
    have hle : thursdayOf d ≤ thursdayOf e := by omega
    have hmono := yearOf_mono hle
    have hcount := dayOfYear_eq_add hle
    unfold Week.ofDay at hd
    dsimp only at hd
    simp only [weekNumbers, Week.ofDay, Below.cons_iff]
    omega

end Calendar

/-! ## Clocks -/

namespace WallClock

/-- A clock outside of leap seconds. -/
structure Regular (w : WallClock) : Prop where
  second : w.second < 86400
  nanos : w.nanos < 1000000000

/-- `Earlier v w` - one clock shows an earlier second than another. -/
def Earlier (v w : WallClock) : Prop := v.day < w.day ∨ v.day = w.day ∧ v.second < w.second

/-- The numbers of the time of the day. -/
def timeNumbers (w : WallClock) : List Nat := [w.hour, w.minute, w.secondOfMinute]

theorem timeNumbers_below {v w : WallClock} (hv : v.Regular) (hw : w.Regular)
    (h : v.second < w.second) : Below v.timeNumbers w.timeNumbers := by
  have := hv.nanos
  have := hw.nanos
  simp only [timeNumbers, hour, minute, secondOfMinute, Below.cons_iff]
  omega

/-- A later second has a later date, or a later time on the same one. -/
theorem dateTime_below {v w : WallClock} (hv : v.Regular) (hw : w.Regular) (h : v.Earlier w)
    (hyear : 0 ≤ yearOf v.day) : Below (Calendar.dateNumbers v.day ++ v.timeNumbers)
      (Calendar.dateNumbers w.day ++ w.timeNumbers) := by
  rcases h with hday | ⟨hday, hsecond⟩
  · exact (Calendar.dateNumbers_below hday hyear).append_right _ _
  · rw [hday]
    exact (timeNumbers_below hv hw hsecond).append_left _

theorem regular_ofMillis (zone : Zone) (localTime : LocalTime) (millis : Int) :
    (ofInstant zone localTime (.ofMillis millis)).Regular :=
  ⟨Template.second_lt zone localTime _, Instant.nanos_ofMillis_lt millis⟩

/-- An earlier second of universal time is an earlier second of a local time that is always as far
ahead. -/
theorem earlier_ofMillis (zone : Zone) (offset : Int) {s₁ s₂ : Int} (h₁ : Instant.Renderable s₁)
    (h₂ : Instant.Renderable s₂) (h : s₁ / 1000 < s₂ / 1000) :
    (ofInstant zone (.fixed offset) (.ofMillis s₁)).Earlier
      (ofInstant zone (.fixed offset) (.ofMillis s₂)) := by
  have hahead := zone.ahead_fixed offset (s₁ / 1000) (s₂ / 1000)
  rw [Instant.ofMillis, if_pos h₁, Instant.ofMillis, if_pos h₂, Moment.ofInstant_eq,
    Moment.ofInstant_eq]
  unfold Earlier
  dsimp only
  omega

end WallClock

/-! ## Formats -/

theorem Text.year_of_range {y : Int} (hlow : 0 ≤ y) (hhigh : y ≤ 9999) :
    Text.year y = Text.fixed 4 y.toNat := if_pos ⟨hlow, hhigh⟩

namespace DateFormat

/-- The format of names that go by the second. -/
def secondly : List Char := "yyyy-MM-dd-HH-mm-ss".toList

/-- `Sortable format year` - the formats whose dates sort, and the year that each of them shows. -/
inductive Sortable : List Char → (Int → Int) → Prop
  | second : Sortable secondly yearOf
  | date : Sortable "yyyy-MM-dd".toList yearOf
  | dayOfYear : Sortable "yyyy-DDD".toList yearOf
  | week : Sortable weekly fun day => (Week.ofDay day).year

/-- `Ruled format year widths numbers` - a format that shows numbers in columns, as long as its year has
four digits.  From an earlier second to a later one the numbers grow, or they stay the same if seconds
are not among them. -/
structure Ruled (format : List Char) (year : Int → Int) (widths : List Nat)
    (numbers : WallClock → List Nat) : Prop where
  shows : ∀ ps, parse format = .ok ps → ∀ w : WallClock, 0 ≤ year w.day → year w.day ≤ 9999 →
    '-' :: render w ps = columns widths (numbers w)
  fits : ∀ w : WallClock, w.Regular → year w.day ≤ 9999 → Fits widths (numbers w)
  grows : ∀ v w : WallClock, v.Regular → w.Regular → v.Earlier w → 0 ≤ year v.day →
    Below (numbers v) (numbers w) ∨ numbers v = numbers w ∧ format ≠ secondly

theorem fits_dateNumbers {day : Int} (h : yearOf day ≤ 9999) :
    Fits [4, 2, 2] (Calendar.dateNumbers day) := by
  have hmonth := Calendar.month_range day
  have hday := Moment.day_lt day
  refine .cons ?_ (.cons ?_ (.cons hday .nil))
  · show (yearOf day).toNat < 10000
    omega
  · show (Date.ofDay day).month < 100
    omega

theorem fits_timeNumbers {w : WallClock} (h : w.Regular) : Fits [2, 2, 2] w.timeNumbers := by
  have hsecond := h.second
  have hnanos := h.nanos
  refine .cons ?_ (.cons ?_ (.cons ?_ .nil))
  · show w.second / 3600 < 100
    omega
  · show w.second / 60 % 60 < 100
    omega
  · show w.second % 60 + w.nanos / 1000000000 < 100
    omega

/-- What is not earlier by the day shows the same day. -/
theorem below_or_same_day {v w : WallClock} (h : v.Earlier w) {numbers : Int → List Nat}
    (hgrows : v.day < w.day → Below (numbers v.day) (numbers w.day)) :
    Below (numbers v.day) (numbers w.day) ∨ numbers v.day = numbers w.day := by
  rcases h with hday | ⟨hday, -⟩
  · exact .inl (hgrows hday)
  · exact .inr (by rw [hday])

theorem ruled_second : Ruled secondly yearOf ([4, 2, 2] ++ [2, 2, 2])
    fun w => Calendar.dateNumbers w.day ++ w.timeNumbers where
  shows ps h w hlow hhigh := by
    have hparts : parse secondly = .ok [.field (.year .full), .literal '-', .field (.month .padded),
        .literal '-', .field (.day .padded), .literal '-', .field (.hour .padded), .literal '-',
        .field (.minute .padded), .literal '-', .field (.second .padded)] := by rfl
    obtain rfl := Except.ok.inj (h.symm.trans hparts)
    show '-' :: (Text.year (yearOf w.day) ++ _) = _
    rw [Text.year_of_range hlow hhigh]
    rfl
  fits w hw hhigh := List.rel_append (fits_dateNumbers hhigh) (fits_timeNumbers hw)
  grows v w hv hw h hlow := .inl (WallClock.dateTime_below hv hw h hlow)

theorem ruled_date : Ruled "yyyy-MM-dd".toList yearOf [4, 2, 2]
    fun w => Calendar.dateNumbers w.day where
  shows ps h w hlow hhigh := by
    have hdefault : parse Template.defaultFormat = .ok ps := h
    rw [render_default hdefault, dayText]
    show '-' :: (Text.year (yearOf w.day) ++ _ ++ _) = _
    rw [Text.year_of_range hlow hhigh, List.append_assoc]
    rfl
  fits _ _ hhigh := fits_dateNumbers hhigh
  grows v w _ _ h hlow := by
    refine (below_or_same_day h fun hday => Calendar.dateNumbers_below hday hlow).imp_right fun he => ?_
    exact ⟨he, by decide⟩

theorem ruled_dayOfYear : Ruled "yyyy-DDD".toList yearOf [4, 3]
    fun w => Calendar.ordinalNumbers w.day where
  shows ps h w hlow hhigh := by
    rw [shows_dayOfYear h, dayOfYearText, Text.year_of_range hlow hhigh]
    rfl
  fits w _ hhigh := by
    have hday := Moment.dayOfYear_lt w.day
    refine .cons ?_ (.cons ?_ .nil)
    · show (yearOf w.day).toNat < 10000
      omega
    · show dayOfYear w.day + 1 < 1000
      omega
  grows v w _ _ h hlow := by
    refine (below_or_same_day h fun hday => Calendar.ordinalNumbers_below hday hlow).imp_right
      fun he => ?_
    exact ⟨he, by decide⟩

theorem ruled_week : Ruled weekly (fun day => (Week.ofDay day).year) [4, 2]
    fun w => Calendar.weekNumbers w.day where
  shows ps h w hlow hhigh := by
    rw [shows_week h, weekText, Text.year_of_range hlow hhigh]
    rfl
  fits w _ hhigh := by
    have hday := Moment.dayOfYear_lt (thursdayOf w.day)
    refine .cons ?_ (.cons ?_ .nil)
    · show (Week.ofDay w.day).year.toNat < 10000
      omega
    · show dayOfYear (thursdayOf w.day) / 7 + 1 < 100
      omega
  grows v w _ _ h hlow := by
    have hday : v.day ≤ w.day := by
      unfold WallClock.Earlier at h
      omega
    refine (Calendar.weekNumbers_below hday hlow).imp_right fun he => ?_
    exact ⟨he, by decide⟩

theorem Sortable.exists_ruled {format : List Char} {year : Int → Int} (h : Sortable format year) :
    ∃ widths numbers, Ruled format year widths numbers := by
  cases h with
  | second => exact ⟨_, _, ruled_second⟩
  | date => exact ⟨_, _, ruled_date⟩
  | dayOfYear => exact ⟨_, _, ruled_dayOfYear⟩
  | week => exact ⟨_, _, ruled_week⟩

/-- No format that sorts shows milliseconds. -/
theorem Sortable.millisecond_not_mem {format : List Char} {year : Int → Int}
    (h : Sortable format year) {ps : List Part} (hparts : parse format = .ok ps) :
    .field .millisecond ∉ ps := by
  intro hmem
  have hS := unquoted_of_millisecond hparts hmem
  revert hS
  cases h <;> decide

end DateFormat

/-! ## Bytes -/

theorem Bytes.ofText_ofList (cs : List Char) :
    ofText (String.ofList cs) = cs.flatMap String.utf8EncodeChar := by
  show (String.ofList cs).toByteArray.data.toList = _
  rw [String.toByteArray_ofList, List.utf8Encode, List.data_toByteArray]

/-- A character of ASCII is one byte. -/
theorem encode_ascii {c : Char} (h : c.toNat < 128) :
    String.utf8EncodeChar c = [UInt8.ofNat c.toNat] := if_pos (Nat.le_of_lt_succ h)

theorem columns_ascii {widths ns : List Nat} {c : Char} (h : c ∈ columns widths ns) :
    c.toNat < 128 := by
  unfold columns at h
  obtain ⟨⟨width, n⟩, -, hc⟩ := List.mem_flatMap.mp h
  rcases List.mem_cons.mp hc with rfl | hc
  · decide
  · have hdigit := Text.isDigit_fixed c hc
    simp only [Char.isDigit, Bool.and_eq_true, decide_eq_true_eq] at hdigit
    have hlast : c.toNat ≤ 57 := UInt32.le_iff_toNat_le.mp hdigit.2
    omega

/-- **The bytes of texts of ASCII have the order of their characters.** -/
theorem bytes_below {x y : List Char} (h : Below x y) (hx : ∀ c ∈ x, c.toNat < 128)
    (hy : ∀ c ∈ y, c.toNat < 128) :
    Below (x.flatMap String.utf8EncodeChar) (y.flatMap String.utf8EncodeChar) := by
  induction h with
  | @here a b x y hab =>
    have ha := hx a List.mem_cons_self
    have hb := hy b List.mem_cons_self
    rw [List.flatMap_cons, List.flatMap_cons, encode_ascii ha, encode_ascii hb]
    refine .here _ _ ?_
    have hnat : a.toNat < b.toNat := hab
    rw [UInt8.lt_iff_toNat_lt, UInt8.toNat_ofNat', UInt8.toNat_ofNat']
    omega
  | later a _ ih =>
    rw [List.flatMap_cons, List.flatMap_cons]
    exact (ih (fun c hc => hx c (List.mem_cons_of_mem _ hc))
      fun c hc => hy c (List.mem_cons_of_mem _ hc)).append_left _

/-- Dates are columns without the hyphen in front. -/
theorem dates_below {widths ms ns : List Nat} {x y : List Char} (hx : '-' :: x = columns widths ms)
    (hy : '-' :: y = columns widths ns) (h : Below (columns widths ms) (columns widths ns)) :
    Below (x.flatMap String.utf8EncodeChar) (y.flatMap String.utf8EncodeChar) := by
  have hascii : ∀ {date ns}, '-' :: date = columns widths ns → ∀ c ∈ date, c.toNat < 128 :=
    fun hdate c hc => columns_ascii (hdate ▸ List.mem_cons_of_mem '-' hc)
  rw [← hx, ← hy, Below.cons_iff] at h
  rcases h with hhyphen | ⟨-, hdates⟩
  · exact absurd hhyphen (by decide)
  · exact bytes_below hdates (hascii hx) (hascii hy)

/-! ## Names -/

namespace Template

variable {t : Template} {offset : Int} {year : Int → Int}

/-- An earlier second has a name that is below, or the same one if the name shows no seconds. -/
theorem renderMillis_below (hparts : DateFormat.parse t.dateFormat = .ok t.parts)
    (hformat : DateFormat.Sortable t.dateFormat year) {s₁ s₂ : Int} (h₁ : Instant.Renderable s₁)
    (h₂ : Instant.Renderable s₂) (hlt : s₁ / 1000 < s₂ / 1000)
    (hyear₁ : 0 ≤ year (t.localDay (.fixed offset) s₁) ∧ year (t.localDay (.fixed offset) s₁) ≤ 9999)
    (hyear₂ : 0 ≤ year (t.localDay (.fixed offset) s₂) ∧ year (t.localDay (.fixed offset) s₂) ≤ 9999) :
    Below (Bytes.ofText (t.renderMillis (.fixed offset) s₁))
        (Bytes.ofText (t.renderMillis (.fixed offset) s₂)) ∨
      t.renderMillis (.fixed offset) s₁ = t.renderMillis (.fixed offset) s₂ ∧
        t.dateFormat ≠ DateFormat.secondly := by
  obtain ⟨widths, numbers, hruled⟩ := hformat.exists_ruled
  rw [← day_ofMillis t _ h₁] at hyear₁
  rw [← day_ofMillis t _ h₂] at hyear₂
  unfold renderMillis render renderChars
  have hearlier := WallClock.earlier_ofMillis t.zone offset h₁ h₂ hlt
  have hregular₁ := WallClock.regular_ofMillis t.zone (.fixed offset) s₁
  have hregular₂ := WallClock.regular_ofMillis t.zone (.fixed offset) s₂
  generalize WallClock.ofInstant t.zone (.fixed offset) (.ofMillis s₁) = v at *
  generalize WallClock.ofInstant t.zone (.fixed offset) (.ofMillis s₂) = w at *
  have hshows₁ := hruled.shows t.parts hparts v hyear₁.1 hyear₁.2
  have hshows₂ := hruled.shows t.parts hparts w hyear₂.1 hyear₂.2
  rcases hruled.grows v w hregular₁ hregular₂ hearlier hyear₁.1 with hbelow | ⟨hsame, hseconds⟩
  · refine .inl ?_
    have hcolumns := columns_below (hruled.fits v hregular₁ hyear₁.2)
      (hruled.fits w hregular₂ hyear₂.2) hbelow
    -- the literal text around the dates is the same
    have hdates := dates_below hshows₁ hshows₂ hcolumns
    simp only [Bytes.ofText_ofList, List.flatMap_append]
    exact (hdates.append_left _).append_right _ _
  · refine .inr ⟨?_, hseconds⟩
    rw [← hsame, ← hshows₁] at hshows₂
    rw [(List.cons.inj hshows₂).2]

/-- **Names sort by time.**  Let the format of a template be the date, the date with the time to the
second, the day within the year or the week, whatever the literal text around it is.  In each zone, and
however far the host is ahead of universal time, the later of two instants does not have the lower name
in the order of bytes, as long as the years that the names show have four digits.  With seconds in the
name, two instants have one name only if they lie in one second. -/
theorem names_sort_by_time {text : String} (h : parse text = .ok t)
    (hformat : DateFormat.Sortable t.dateFormat year) (mode : Zone) (offset : Int) {s₁ s₂ : Int}
    (h₁ : Instant.Renderable s₁) (h₂ : Instant.Renderable s₂) (hle : s₁ ≤ s₂) {d₁ d₂ : Int}
    (hd₁ : d₁ = (s₁ + 1000 * (t.withZone mode).zone.ahead (.fixed offset) (s₁ / 1000)) / 86400000)
    (hd₂ : d₂ = (s₂ + 1000 * (t.withZone mode).zone.ahead (.fixed offset) (s₂ / 1000)) / 86400000)
    (hyear₁ : 0 ≤ year d₁ ∧ year d₁ ≤ 9999) (hyear₂ : 0 ≤ year d₂ ∧ year d₂ ≤ 9999)
    {name₁ name₂ : String} (hname₁ : name₁ = (t.withZone mode).renderMillis (.fixed offset) s₁)
    (hname₂ : name₂ = (t.withZone mode).renderMillis (.fixed offset) s₂) :
    (name₁ = name₂ ∨ List.Lex (· < ·) (Bytes.ofText name₁) (Bytes.ofText name₂)) ∧
    (t.dateFormat = DateFormat.secondly → name₁ = name₂ → s₁ / 1000 = s₂ / 1000) := by
  have hparts : DateFormat.parse (t.withZone mode).dateFormat = .ok (t.withZone mode).parts := by
    rw [dateFormat_withZone, parts_withZone]
    exact parse_dateFormat h
  rw [← dateFormat_withZone t mode] at hformat
  rw [← dateFormat_withZone t mode]
  subst hd₁ hd₂ hname₁ hname₂
  rcases Int.lt_or_eq_of_le (Int.ediv_le_ediv (by decide) hle : s₁ / 1000 ≤ s₂ / 1000) with hlt | hsame
  · rcases renderMillis_below hparts hformat h₁ h₂ hlt hyear₁ hyear₂ with hbelow | ⟨hname, hseconds⟩
    · have hne := hbelow.ne UInt8.lt_irrefl
      exact ⟨.inr hbelow.lex, fun _ hname => absurd (congrArg Bytes.ofText hname) hne⟩
    · exact ⟨.inl hname, fun hformat => absurd hformat hseconds⟩
  · have hmillisecond := hformat.millisecond_not_mem hparts
    exact ⟨.inl (renderMillis_sameSecond hmillisecond _ hsame), fun _ _ => hsame⟩

/-- The last instant of a leap day and the first of the day after it, in the zone of a host that is
behind universal time. -/
theorem names_sort_by_time_at_leap_day : ∃ t, parse "ü-100%%-%d{yyyy-MM-dd-HH-mm-ss}.log" = .ok t ∧
    t.dateFormat = DateFormat.secondly ∧
    Instant.Renderable 1709270999999 ∧ Instant.Renderable 1709271000000 ∧
    yearOf 19782 = 2024 ∧ yearOf 19783 = 2024 ∧
    ("ü-100%-2024-02-29-23-59-59.log" = "ü-100%-2024-03-01-00-00-00.log" ∨
      List.Lex (· < ·) (Bytes.ofText "ü-100%-2024-02-29-23-59-59.log")
        (Bytes.ofText "ü-100%-2024-03-01-00-00-00.log")) ∧
    (t.dateFormat = DateFormat.secondly →
      "ü-100%-2024-02-29-23-59-59.log" = "ü-100%-2024-03-01-00-00-00.log" →
        (1709270999999 / 1000 : Int) = 1709271000000 / 1000) := by
  have hparse : ∃ t, parse "ü-100%%-%d{yyyy-MM-dd-HH-mm-ss}.log" = .ok t ∧
      t.dateFormat = DateFormat.secondly ∧ (t.withZone .localTime).zone = .localTime ∧
      (t.withZone .localTime).renderMillis (.fixed (-19800)) 1709270999999 =
        "ü-100%-2024-02-29-23-59-59.log" ∧
      (t.withZone .localTime).renderMillis (.fixed (-19800)) 1709271000000 =
        "ü-100%-2024-03-01-00-00-00.log" :=
    ⟨_, rfl, rfl, rfl, rfl, rfl⟩
  obtain ⟨t, ht, hsecondly, hzone, hname₁, hname₂⟩ := hparse
  have h₁ : Instant.Renderable 1709270999999 := by decide
  have h₂ : Instant.Renderable 1709271000000 := by decide
  have hformat : DateFormat.Sortable t.dateFormat yearOf := hsecondly ▸ .second
  have hd₁ : 19782 = (1709270999999 +
      1000 * (t.withZone .localTime).zone.ahead (.fixed (-19800)) (1709270999999 / 1000)) / 86400000 := by
    rw [hzone]
    decide
  have hd₂ : 19783 = (1709271000000 +
      1000 * (t.withZone .localTime).zone.ahead (.fixed (-19800)) (1709271000000 / 1000)) / 86400000 := by
    rw [hzone]
    decide
  have hyear₁ : yearOf 19782 = 2024 := by rfl
  have hyear₂ : yearOf 19783 = 2024 := by rfl
  have hnames := names_sort_by_time ht hformat .localTime (-19800) h₁ h₂ (by decide) hd₁ hd₂
    (by decide) (by decide) hname₁.symm hname₂.symm
  exact ⟨t, ht, hsecondly, h₁, h₂, hyear₁, hyear₂, hnames⟩

end Template

end LogRotation
