/-
  The instants that a text can name.

  A text of RFC 3339 has four digits for its year, so the instant that it names can be rendered; it is at
  most a leap second ahead of the count of its seconds.  Outside leap seconds, an instant and its count of
  milliseconds have the same names.

    * DIGITS    what is read off a text is as small as its digits let it be;
    * BOUNDS    the instant of a text;
    * NAMES     two clocks that differ in less than a millisecond.

  Main statements: `renderable_of_rfc3339`, `render_eq_renderMillis`.
-/
import LogRotation.Instant.Rfc3339
import LogRotation.Proofs.DatedFiles

namespace LogRotation

/-! ## Digits -/

theorem Text.numberOf_lt {ds : List Char} (h : ∀ c ∈ ds, isDigit c = true) :
    numberOf ds < 10 ^ ds.length := by
  induction ds using List.reverseRecOn with
  | nil => exact Nat.one_pos
  | append_singleton ds c ih =>
    have hrest := ih fun d hd => h d (List.mem_append_left _ hd)
    have hc : digitValue c < 10 := by
      have hdigit := h c (List.mem_append_right _ List.mem_cons_self)
      simp only [isDigit, Bool.and_eq_true, decide_eq_true_eq] at hdigit
      unfold digitValue
      omega
    rw [numberOf_concat, List.length_append, List.length_singleton, Nat.pow_succ]
    omega

namespace Instant

theorem digits?_ok {count n : Nat} {cs rest : List Char} (h : digits? count cs = some (n, rest)) :
    n < 10 ^ count ∧ ∀ c ∈ cs.take count, Text.isDigit c = true := by
  unfold digits? at h
  dsimp only at h
  split at h
  · rename_i hds
    obtain ⟨hlength, hall⟩ := hds
    cases h
    have hdigits := List.all_eq_true.mp hall
    refine ⟨?_, hdigits⟩
    have hlt := Text.numberOf_lt hdigits
    rwa [hlength] at hlt
  · cases h

theorem fraction?_lt {cs rest : List Char} {n : Nat} (h : fraction? cs = some (n, rest)) :
    n < 1000000000 := by
  unfold fraction? at h
  split at h
  · rename_i more
    dsimp only at h
    split at h
    · cases h
    · cases h
      -- at most nine digits count
      have hdigits : ∀ c ∈ (more.takeWhile Text.isDigit).take 9, Text.isDigit c = true :=
        fun c hc => List.all_eq_true.mp List.all_takeWhile c (List.mem_of_mem_take hc)
      have hlength : ((more.takeWhile Text.isDigit).take 9).length ≤ 9 := List.length_take_le _ _
      have hlt := Text.numberOf_lt hdigits
      calc _ < 10 ^ ((more.takeWhile Text.isDigit).take 9).length *
            10 ^ (9 - ((more.takeWhile Text.isDigit).take 9).length) :=
          Nat.mul_lt_mul_of_pos_right hlt (Nat.pow_pos (by decide))
        _ = 1000000000 := by rw [← Nat.pow_add, Nat.add_sub_cancel' hlength]
  · cases h
    decide

theorem offset?_bound {cs rest : List Char} {n : Int} (h : offset? cs = some (n, rest)) :
    -1440 < n ∧ n < 1440 := by
  have hsigned : ∀ (sign : Int) (more : List Char), sign = 1 ∨ sign = -1 →
      ((digits? 2 more).bind fun hours => (mark? [':'] hours.2).bind fun left =>
        (digits? 2 left).bind fun minutes => if hours.1 < 24 ∧ minutes.1 < 60
          then some (sign * (60 * hours.1 + minutes.1 : Nat), minutes.2) else none) = some (n, rest) →
      -1440 < n ∧ n < 1440 := by
    intro sign more hsign h
    simp only [Option.bind_eq_some_iff] at h
    obtain ⟨hours, -, left, -, minutes, -, h⟩ := h
    split at h
    · cases h
      rcases hsign with rfl | rfl <;> omega
    · cases h
  cases cs with
  | nil => cases h
  | cons c more =>
    unfold offset? at h
    dsimp only at h
    by_cases hz : c = 'Z' ∨ c = 'z'
    · rw [if_pos hz] at h
      cases h
      decide
    · rw [if_neg hz] at h
      split at h
      · exact hsigned 1 more (.inl rfl) h
      · split at h
        · exact hsigned (-1) more (.inr rfl) h
        · cases h

theorem date?_ok {cs rest : List Char} {date : Calendar.Date} (h : date? cs = some (date, rest)) :
    0 ≤ date.year ∧ date.year < 10000 ∧ date.isValid = true ∧
      ∀ c ∈ cs.take 4, Text.isDigit c = true := by
  unfold date? at h
  simp only [Option.bind_eq_bind, Option.bind_eq_some_iff] at h
  obtain ⟨⟨year, rest₁⟩, hyear, h⟩ := h
  obtain ⟨rest₂, -, ⟨month, rest₃⟩, -, rest₄, -, ⟨day, rest₅⟩, -, h⟩ := h
  obtain ⟨hlt, hdigits⟩ := digits?_ok hyear
  dsimp only at h
  split at h
  · rename_i hvalid
    cases h
    exact ⟨Int.natCast_nonneg _, Int.ofNat_lt.mpr hlt, hvalid, hdigits⟩
  · cases h

theorem time?_ok {cs rest : List Char} {second nanos : Nat}
    (h : time? cs = some ((second, nanos), rest)) : second < 86400 ∧ nanos < 2000000000 := by
  unfold time? at h
  simp only [Option.bind_eq_bind, Option.bind_eq_some_iff] at h
  obtain ⟨⟨hour, rest₁⟩, -, rest₂, -, ⟨minute, rest₃⟩, -, rest₄, -, ⟨s, rest₅⟩, -, ⟨n, rest₆⟩, hn, h⟩ := h
  have hlt := fraction?_lt hn
  dsimp only at h
  split at h
  · rename_i hrange
    split at h
    · cases h
      omega
    · cases h
      omega
  · cases h

/-- The day of a date of four digits. -/
theorem toDay_bound {date : Calendar.Date} (hlow : 0 ≤ date.year) (hhigh : date.year < 10000)
    (hvalid : date.isValid = true) : -800000 < date.toDay ∧ date.toDay < 3000000 := by
  have hmonths : ∀ leap, ∀ k < 12,
      ((Calendar.monthLengths leap).take k).foldl (· + ·) 0 < 400 := by decide
  have hdays : ∀ leap, ∀ k < 12, (Calendar.monthLengths leap).getD k 0 < 40 := by decide
  unfold Calendar.Date.isValid at hvalid
  simp only [Bool.and_eq_true, decide_eq_true_eq] at hvalid
  obtain ⟨⟨⟨hmonth, hmonth'⟩, hday⟩, hday'⟩ := hvalid
  have hfirst := hmonths (Calendar.isLeap date.year) (date.month - 1) (by omega)
  have hlast := hdays (Calendar.isLeap date.year) (date.month - 1) (by omega)
  unfold Calendar.Date.toDay Calendar.yearStart
  dsimp only
  omega

/-- **What a text names** can be rendered, and is read off a text that begins with a digit. -/
theorem ofRfc3339?_ok {text : String} {t : Instant} (h : ofRfc3339? text = some t) :
    Renderable t.millis ∧ ∀ c ∈ text.toList.take 4, Text.isDigit c = true := by
  unfold ofRfc3339? at h
  simp only [Option.bind_eq_bind, Option.bind_eq_some_iff] at h
  obtain ⟨⟨date, rest₁⟩, hdate, rest₂, -, ⟨⟨second, nanos⟩, rest₃⟩, htime, ⟨offset, rest₄⟩, hoffset, h⟩ := h
  obtain ⟨hlow, hhigh, hvalid, hdigits⟩ := date?_ok hdate
  have hday := toDay_bound hlow hhigh hvalid
  have htime := time?_ok htime
  have hoffset := offset?_bound hoffset
  dsimp only at h
  split at h
  · cases h
    refine ⟨?_, hdigits⟩
    unfold Renderable millis firstMillis lastMillis
    dsimp only
    omega
  · cases h

end Instant

/-! ## Names -/

/-- **An instant and its milliseconds have one name**, outside leap seconds. -/
theorem Template.render_eq_renderMillis (t : Template) (localTime : LocalTime) {i : Instant}
    (hnanos : i.nanos < 1000000000) (h : Instant.Renderable i.millis) :
    t.render localTime i = t.renderMillis localTime i.millis := by
  have hmillis : Instant.ofMillis i.millis = ⟨i.seconds, i.nanos / 1000000 * 1000000⟩ := by
    rw [Instant.ofMillis, if_pos h, Instant.millis, Instant.mk.injEq]
    omega
  have hsecond : WallClock.SameSecond (.ofInstant t.zone localTime i)
      (.ofInstant t.zone localTime (.ofMillis i.millis)) := by
    rw [hmillis]
    refine ⟨rfl, rfl, rfl, rfl, hnanos, ?_⟩
    show i.nanos / 1000000 * 1000000 < 1000000000
    omega
  have hpart : (WallClock.ofInstant t.zone localTime i).millisecond =
      (WallClock.ofInstant t.zone localTime (.ofMillis i.millis)).millisecond := by
    rw [hmillis]
    show i.nanos % 1000000000 / 1000000 = i.nanos / 1000000 * 1000000 % 1000000000 / 1000000
    omega
  have hparts : DateFormat.render (.ofInstant t.zone localTime i) t.parts =
      DateFormat.render (.ofInstant t.zone localTime (.ofMillis i.millis)) t.parts := by
    refine DateFormat.render_congr fun f _ => ?_
    by_cases hf : f = .millisecond
    · rw [hf, Field.write, hpart, Field.write]
    · exact Field.write_sameSecond hsecond hf
  rw [render, renderChars, hparts]
  rfl

end LogRotation
