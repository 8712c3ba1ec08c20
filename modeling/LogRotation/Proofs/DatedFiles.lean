/-
  The date on a line, and the date of the file that it is in.

  A line is stamped with the day that a clock shows at its instant.  Its file was chosen at the last
  look, and looks never go back: the file has the latest day of all instants so far.  So the two dates
  agree just as long as the clock has not gone back over midnight, and does not stand still in a leap
  second.

  1. **Dates** - a day has one text, and no other day has it (`dayText_injective`).

  2. **Names** - where the placeholder has no format of its own, the name of a file is that text
     between two others, of which the ending of an archive is taken off (`baseOf_nameAt`).

  3. **Looks** - after some instants, the last look was in the latest second (`afterAll_eq_looked`).

  Main statement: `line_in_file_of_latest_day`.
-/
import LogRotation.Proofs.ArchiveNames
import LogRotation.Proofs.JumpingClocks
import LogRotation.Proofs.Rendering
import LogRotation.Proofs.Unfailing
import Mathlib.Order.Monotone.Basic

namespace LogRotation

/-! ## Numbers that are read again -/

namespace Text

theorem digitValue_digit (n : Nat) : digitValue (digit n) = n % 10 := by
  have hall : ∀ m < 10, digitValue (Char.ofNat (48 + m)) = m := by decide
  exact hall _ (Nat.mod_lt n (by decide))

theorem numberOf_concat (cs : List Char) (c : Char) :
    numberOf (cs ++ [c]) = 10 * numberOf cs + digitValue c := by
  rw [numberOf, List.foldl_append]
  rfl

theorem numberOf_fixed {width n : Nat} (h : n < 10 ^ width) : numberOf (fixed width n) = n := by
  induction width generalizing n with
  | zero =>
    obtain rfl : n = 0 := Nat.lt_one_iff.mp h
    rfl
  | succ width ih =>
    have hrest : n / 10 < 10 ^ width := by
      rw [Nat.pow_succ] at h
      exact Nat.div_lt_of_lt_mul (by omega)
    rw [fixed_succ, numberOf_concat, ih hrest, digitValue_digit]
    omega

theorem numberOf_decimal (n : Nat) : numberOf (decimal n) = n := by
  induction n using Nat.strongRecOn with
  | ind n ih =>
    unfold decimal at ih ⊢
    by_cases hn : n < 10
    · rw [Nat.toDigits_of_lt_base hn, Moment.digitChar_eq_digit hn]
      rw [show numberOf [digit n] = 10 * 0 + digitValue (digit n) from rfl, digitValue_digit]
      omega
    · have hmod : n % 10 < 10 := Nat.mod_lt n (by decide)
      rw [Nat.toDigits_of_base_le (by decide) (Nat.le_of_not_lt hn), numberOf_concat,
        ih (n / 10) (by omega), Moment.digitChar_eq_digit hmod, digitValue_digit]
      omega

theorem numberOf_atLeast (width n : Nat) : numberOf (atLeast width n) = n := by
  unfold atLeast
  split
  · rename_i h
    exact numberOf_fixed h
  · exact numberOf_decimal n

theorem fixed_inj {width m n : Nat} (hm : m < 10 ^ width) (hn : n < 10 ^ width)
    (h : fixed width m = fixed width n) : m = n := by
  rw [← numberOf_fixed hm, h, numberOf_fixed hn]

/-- A year with a sign is not one of four digits. -/
theorem fixed_ne_signed {width n : Nat} {negative : Prop} [Decidable negative] {rest : List Char} :
    fixed width n ≠ (if negative then '-' else '+') :: rest := by
  intro h
  have hdigit : (if negative then '-' else '+').isDigit = true := by
    have hmem : (if negative then '-' else '+') ∈ fixed width n := by
      rw [h]
      exact List.mem_cons_self
    exact isDigit_fixed _ hmem
  split at hdigit <;> exact absurd hdigit (by decide)

theorem year_injective : Function.Injective year := by
  intro y z h
  unfold year at h
  by_cases hy : 0 ≤ y ∧ y ≤ 9999 <;> by_cases hz : 0 ≤ z ∧ z ≤ 9999
  · rw [if_pos hy, if_pos hz] at h
    have := @fixed_inj 4 _ _ (by omega) (by omega) h
    omega
  · rw [if_pos hy, if_neg hz] at h
    exact absurd h fixed_ne_signed
  · rw [if_neg hy, if_pos hz] at h
    exact absurd h.symm fixed_ne_signed
  · rw [if_neg hy, if_neg hz] at h
    obtain ⟨hsign, hrest⟩ := List.cons.inj h
    have habs : y.natAbs = z.natAbs := by
      rw [← numberOf_atLeast 4 y.natAbs, hrest, numberOf_atLeast]
    -- neither is small, so the signs tell them apart
    by_cases hneg : y < 0 <;> by_cases hneg' : z < 0
    · omega
    · rw [if_pos hneg, if_neg hneg'] at hsign
      exact absurd hsign (by decide)
    · rw [if_neg hneg, if_pos hneg'] at hsign
      exact absurd hsign (by decide)
    · omega

end Text

/-! ## Dates -/

namespace Calendar

/-- Later dates have larger ranks. -/
def Date.rank (d : Date) : Int := (d.year * 12 + d.month) * 100 + d.day

theorem rank_lt_rank_next (day : Int) : (Date.ofDay day).rank < (Date.ofDay (day + 1)).rank := by
  have hday := Moment.day_lt day
  have hvalid := Date.isValid_iff.mp (isValid_ofDay day)
  rw [ofDay_succ]
  unfold Date.next Date.rank
  split
  · dsimp only
    omega
  · split
    · dsimp only
      omega
    · dsimp only
      omega

theorem ofDay_injective : Function.Injective Date.ofDay := by
  -- days have the order of their dates
  have hmono : StrictMono fun day => (Date.ofDay day).rank :=
    strictMono_int_of_lt_succ rank_lt_rank_next
  intro day other h
  exact hmono.injective (congrArg Date.rank h)

end Calendar

open Calendar (Date)

/-- The text of the date of a day. -/
def dayText (day : Int) : List Char :=
  Text.year (Date.ofDay day).year ++ '-' :: Text.fixed 2 (Date.ofDay day).month ++
    '-' :: Text.fixed 2 (Date.ofDay day).day

/-- **A text is the date of one day.** -/
theorem dayText_injective : Function.Injective dayText := by
  intro d e h
  have hlength : ∀ m n : Nat, ('-' :: Text.fixed 2 m).length = ('-' :: Text.fixed 2 n).length :=
    fun _ _ => rfl
  obtain ⟨hrest, hday⟩ := List.append_inj' h (hlength _ _)
  obtain ⟨hyear, hmonth⟩ := List.append_inj' hrest (hlength _ _)
  have hsmall : ∀ day, (Date.ofDay day).month < 10 ^ 2 := by
    intro day
    have := (Calendar.month_range day).2
    omega
  have hmonth := Text.fixed_inj (hsmall d) (hsmall e) (List.cons.inj hmonth).2
  have hday := Text.fixed_inj (Moment.day_lt d) (Moment.day_lt e) (List.cons.inj hday).2
  refine Calendar.ofDay_injective ?_
  rw [Calendar.Date.mk.injEq]
  exact ⟨Text.year_injective hyear, hmonth, hday⟩

/-! ## Names -/

/-- The text of a time of the day, to the second. -/
def clockText (w : WallClock) : List Char :=
  Text.fixed 2 w.hour ++ ':' :: Text.fixed 2 w.minute ++ ':' :: Text.fixed 2 w.secondOfMinute

/-- A stamp is a date and a time. -/
theorem Writer.stamp_eq (w : WallClock) : stamp w = dayText w.day ++ ' ' :: clockText w := by
  unfold stamp dayText clockText
  simp only [List.append_assoc, List.cons_append]

theorem DateFormat.render_default {w : WallClock} {ps : List Part}
    (h : parse Template.defaultFormat = .ok ps) : render w ps = dayText w.day := by
  have hparts : parse Template.defaultFormat = .ok [.field (.year .full), .literal '-',
      .field (.month .padded), .literal '-', .field (.day .padded)] := by rfl
  obtain rfl := Except.ok.inj (h.symm.trans hparts)
  unfold dayText
  rw [List.append_assoc]
  rfl

/-- An ending that does not reach into a foreign word is one of the text after it. -/
theorem Ending.suffix_of_foreign {e before word after : List Char} (h : Ending e)
    (hword : Foreign word) (hs : e <:+ before ++ word ++ after) : e <:+ after := by
  rcases List.suffix_or_suffix_of_suffix hs (List.suffix_append _ _) with hs' | ⟨e', rfl⟩
  · exact hs'
  · rcases List.eq_nil_or_concat' e' with rfl | ⟨l, c, rfl⟩
    · exact List.suffix_rfl
    · obtain ⟨t, ht⟩ := hs
      rw [← List.append_assoc] at ht
      have hne : l ++ [c] ≠ [] := List.append_ne_nil_of_right_ne_nil l (List.cons_ne_nil c [])
      exact absurd ⟨t, List.append_cancel_right ht⟩ (h.of_append.not_suffix_of_foreign hne hword before)

theorem Compression.ending_suffix (kind : Compression) : Ending kind.suffix.toList := by
  cases kind with
  | none => exact .inl List.nil_prefix
  | gzip => exact .inl (List.prefix_refl _)
  | zip => exact .inr (List.prefix_refl _)

theorem Compression.strip_of_append {kind : Compression} {stem name : String}
    (h : stem ++ kind.suffix = name) : kind.strip name = stem := by
  have hends : endsIn kind.suffix name = true := by
    rw [endsIn, List.isSuffixOf_iff_suffix, ← h, String.toList_append]
    exact List.suffix_append _ _
  rw [strip, if_pos hends, ← h, String.toList_append, List.length_append, Nat.add_sub_cancel,
    List.take_left, String.ofList_toList]

namespace Template

/-- The day of a count of milliseconds in the zone of a template. -/
def localDay (t : Template) (localTime : LocalTime) (millis : Int) : Int :=
  (millis + 1000 * t.zone.ahead localTime (millis / 1000)) / 86400000

/-- A clock shows the day of the whole seconds of its instant. -/
theorem day_ofInstant (t : Template) (localTime : LocalTime) (instant : Instant) :
    (WallClock.ofInstant t.zone localTime instant).day = t.localDay localTime (1000 * instant.seconds) := by
  have hseconds : 1000 * instant.seconds / 1000 = instant.seconds := by omega
  rw [Moment.ofInstant_eq, localDay, hseconds]
  dsimp only
  omega

/-- The rest of a second does not change the day. -/
theorem localDay_seconds (t : Template) (localTime : LocalTime) (millis : Int) :
    t.localDay localTime (1000 * (millis / 1000)) = t.localDay localTime millis := by
  have hseconds : 1000 * (millis / 1000) / 1000 = millis / 1000 := by omega
  rw [localDay, localDay, hseconds]
  omega

theorem day_ofMillis (t : Template) (localTime : LocalTime) {millis : Int}
    (hmillis : Instant.Renderable millis) :
    (WallClock.ofInstant t.zone localTime (.ofMillis millis)).day = t.localDay localTime millis := by
  rw [day_ofInstant, Instant.ofMillis, if_pos hmillis, localDay_seconds]

/-- Where local time is always as far ahead, days come in the order of their instants. -/
theorem localDay_le_localDay (t : Template) (offset : Int) {now last : Int} (h : now / 1000 ≤ last / 1000) :
    t.localDay (.fixed offset) now ≤ t.localDay (.fixed offset) last := by
  rw [localDay, localDay, t.zone.ahead_fixed offset (now / 1000) (last / 1000)]
  omega

end Template

namespace Policy

variable {p : Policy}

/-- The day of an instant in the zone of a policy. -/
def dayAt (p : Policy) (now : Int) : Int := p.template.localDay p.localTime now

/-- The day that a clock shows in the zone of a policy.  A leap second is on the day that it ends. -/
def dayShown (p : Policy) (now : Instant) : Int := p.dayAt (1000 * now.seconds)

/-- Outside leap seconds, a clock shows the day of its milliseconds. -/
theorem dayShown_eq_dayAt (p : Policy) {now : Instant} (h : now.nanos < 1000000000) :
    p.dayShown now = p.dayAt now.millis := by
  have hseconds : now.millis / 1000 = now.seconds := by
    unfold Instant.millis
    omega
  rw [dayAt, ← Template.localDay_seconds, hseconds]
  rfl

/-- The file of a day, where the placeholder has no format of its own. -/
def fileOn (p : Policy) (day : Int) : Path :=
  ⟨String.ofList (p.template.lead ++ dayText day) ++ p.compression.strip (String.ofList p.template.tail)⟩

/-- A policy whose names are made of dates. -/
structure Daily (p : Policy) : Prop where
  settled : p.Settled
  parts : DateFormat.parse Template.defaultFormat = .ok p.template.parts

theorem Activated.daily {config : Config} {start : Int} (h : Activated config start p)
    (hformat : p.template.dateFormat = Template.defaultFormat) : p.Daily :=
  ⟨h.settled, hformat ▸ h.parse_dateFormat⟩

/-- The name at an instant has the date of its day. -/
theorem nameAt_of_daily (h : p.Daily) {now : Int} (hnow : Instant.Renderable now) :
    p.nameAt now = String.ofList (p.template.lead ++ dayText (p.dayAt now) ++ p.template.tail) := by
  rw [nameAt, Template.renderMillis, Template.render, Template.renderChars,
    DateFormat.render_default h.parts, Template.day_ofMillis _ _ hnow]
  rfl

theorem foreign_dayText (day : Int) : ∃ before word, dayText day = before ++ word ∧ Foreign word :=
  ⟨_, _, List.append_cons _ _ _, Text.foreign_fixed_succ 1 _⟩

theorem endsIn_nameAt (h : p.Settled) (now : Int) :
    Compression.endsIn p.compression.suffix (p.nameAt now) = true := by
  by_cases hkind : p.compression = .none
  · rw [hkind, Compression.endsIn, List.isSuffixOf_iff_suffix]
    exact List.nil_suffix
  · exact Compression.endsIn_of_detect (h now).symm hkind

/-- **The file of an instant is that of its day.** -/
theorem baseOf_nameAt (h : p.Daily) {now : Int} (hnow : Instant.Renderable now) :
    p.baseOf (p.nameAt now) = p.fileOn (p.dayAt now) := by
  have hname := nameAt_of_daily h hnow
  obtain ⟨before, word, hday, hword⟩ := foreign_dayText (p.dayAt now)
  -- the ending is one of the text after the date
  have htail : Compression.endsIn p.compression.suffix (String.ofList p.template.tail) = true := by
    have hends := endsIn_nameAt h.settled now
    rw [Compression.endsIn, List.isSuffixOf_iff_suffix] at hends ⊢
    rw [hname, hday, String.toList_ofList, ← List.append_assoc] at hends
    rw [String.toList_ofList]
    exact p.compression.ending_suffix.suffix_of_foreign hword hends
  have hstrip := Compression.strip_append_suffix _ _ htail
  rw [baseOf, fileOn, Path.mk.injEq]
  refine Compression.strip_of_append ?_
  rw [String.append_assoc, hstrip, ← String.ofList_append, hname]

/-! ## Looks -/

/-- **The last look was in the latest second.**  The policy after some instants is what a look at one of
the latest of them leaves behind. -/
theorem afterAll_eq_looked (hnext : p.nextCheck = 0) {instants : List Int} (hne : instants ≠ [])
    (hpos : ∀ now ∈ instants, 0 ≤ now) : ∃ last ∈ instants,
      (∀ now ∈ instants, now / 1000 ≤ last / 1000) ∧ p.afterAll instants = p.looked last := by
  induction instants using List.reverseRecOn with
  | nil => exact absurd rfl hne
  | append_singleton earlier now ih =>
    rw [afterAll, List.foldl_append]
    rcases List.eq_nil_or_concat' earlier with rfl | hearlier
    · -- the first look is due at the start of 1970
      have hdue : p.isDue now = true := decide_eq_true (hnext ▸ hpos now List.mem_cons_self)
      refine ⟨now, List.mem_cons_self, ?_, if_pos hdue⟩
      intro x hx
      rw [List.mem_singleton.mp hx]
    · obtain ⟨last, hlast, hlatest, hafter⟩ := ih (by obtain ⟨l, b, rfl⟩ := hearlier; simp)
        fun x hx => hpos x (List.mem_append_left _ hx)
      rw [afterAll] at hafter
      rw [hafter, List.foldl_cons, List.foldl_nil]
      by_cases hdue : (p.looked last).isDue now = true
      · -- a look at an instant of a later second
        have hlater : last / 1000 < now / 1000 := second_lt_of_nextSecond_le (of_decide_eq_true hdue)
        refine ⟨now, List.mem_append_right _ List.mem_cons_self, ?_, ?_⟩
        · intro x hx
          rcases List.mem_append.mp hx with hx | hx
          · exact Int.le_of_lt (Int.lt_of_le_of_lt (hlatest x hx) hlater)
          · rw [List.mem_singleton.mp hx]
        · rw [after, if_pos hdue, looked_looked]
      · refine ⟨last, List.mem_append_left _ hlast, ?_, if_neg hdue⟩
        intro x hx
        rcases List.mem_append.mp hx with hx | hx
        · exact hlatest x hx
        · rw [List.mem_singleton.mp hx]
          have hnot : ¬ nextSecond last ≤ now := fun hle => hdue (decide_eq_true hle)
          unfold nextSecond checkInterval at hnot
          omega

/-- Seconds in their order have days in their order. -/
theorem dayAt_le_dayAt {offset : Int} (hlocal : p.localTime = .fixed offset) {now last : Int}
    (h : now / 1000 ≤ last / 1000) : p.dayAt now ≤ p.dayAt last := by
  rw [dayAt, dayAt, hlocal]
  exact Template.localDay_le_localDay _ _ h

/-- A clock does not show a later day than that of its milliseconds. -/
theorem dayShown_le_dayAt {offset : Int} (hlocal : p.localTime = .fixed offset) (now : Instant) :
    p.dayShown now ≤ p.dayAt now.millis := by
  refine dayAt_le_dayAt hlocal ?_
  unfold Instant.millis
  omega

/-- **After looks at instants in any order, the active file is that of the latest day.** -/
theorem activeFile_afterAll (hdaily : p.Daily) {offset : Int} (hlocal : p.localTime = .fixed offset)
    (hfixed : p.fixedFile = none) (hnext : p.nextCheck = 0) {instants : List Int} (hne : instants ≠ [])
    (hinstants : ∀ now ∈ instants, 0 ≤ now ∧ Instant.Renderable now) : ∃ last ∈ instants,
      (p.afterAll instants).activeFile = p.fileOn (p.dayAt last) ∧
        ∀ now ∈ instants, p.dayAt now ≤ p.dayAt last := by
  -- the last look was in the latest second, and so on the latest day
  obtain ⟨last, hlast, hlatest, hpolicy⟩ :=
    afterAll_eq_looked hnext hne fun now hnow => (hinstants now hnow).1
  refine ⟨last, hlast, ?_, fun now hnow => dayAt_le_dayAt hlocal (hlatest now hnow)⟩
  rw [hpolicy, ← baseOf_nameAt hdaily (hinstants last hlast).2]
  exact activeFile_of_derived (p := p.looked last) hfixed

end Policy

/-! ## Lines -/

namespace Writer

/-- After some calls, the active file is that of the latest day among theirs. -/
theorem activeFile_afterCalls {p : Policy} (hdaily : p.Daily) {offset : Int}
    (hlocal : p.localTime = .fixed offset) (hfixed : p.fixedFile = none) (hnext : p.nextCheck = 0)
    {ks : List Call} (hne : ks ≠ [])
    (hgood : ∀ k ∈ ks, 0 ≤ k.entry.now.millis ∧ Instant.Renderable k.entry.now.millis) :
    ∃ latest, (p.afterAll (instants (ks.map Call.entry))).activeFile = p.fileOn latest ∧
      IsGreatest {day | ∃ b ∈ ks, day = p.dayAt b.entry.now.millis} latest := by
  have hseen : ∀ now, now ∈ instants (ks.map Call.entry) ↔ ∃ b ∈ ks, b.entry.now.millis = now := by
    intro now
    rw [instants, List.map_map, List.mem_map]
    rfl
  have hne' : instants (ks.map Call.entry) ≠ [] := by
    rw [instants, List.map_map]
    exact mt List.map_eq_nil_iff.mp hne
  obtain ⟨last, hlast, hfile, hlatest⟩ :=
    Policy.activeFile_afterAll hdaily hlocal hfixed hnext hne' fun now hnow => by
      obtain ⟨b, hb, rfl⟩ := (hseen now).mp hnow
      exact hgood b hb
  obtain ⟨b, hb, rfl⟩ := (hseen last).mp hlast
  refine ⟨_, hfile, ⟨b, hb, rfl⟩, ?_⟩
  rintro day ⟨b', hb', rfl⟩
  exact hlatest _ ((hseen _).mpr ⟨b', hb', rfl⟩)

/-- The record of a line begins with the date that a clock shows. -/
theorem bytes_line (p : Policy) (text : String) (now : Instant) : (Entry.line text now).bytes p =
    Bytes.ofText (String.ofList ('[' :: dayText (p.dayShown now) ++
      ' ' :: clockText (.ofInstant p.template.zone p.localTime now) ++ [']', ' ']) ++ text ++ "\n") := by
  show lineRecord p text now = _
  rw [lineRecord, stamp_eq, Template.day_ofInstant]
  rfl

/-- **A line is in the file of the latest day so far.**  Let a log without a fixed active file be opened
on a placeholder without a format of its own, where local time is always as far ahead, and let calls
follow at instants since 1970 in any order, where no operation fails.  Then all calls succeed, and each
record is put at the end of the file of the latest day that was seen by then.  A line begins with the date
that a clock shows in the zone of the file names, which is that of its own day save in a leap second; it is
the date in the name of its file, just if no call up to it was on a later day. -/
theorem line_in_file_of_latest_day {offset start : Int} {config : Config} {p : Policy}
    (hp : Policy.activate (.fixed offset) config start = .ok p) (hderived : config.activeFile = none)
    (hformat : p.template.dateFormat = Template.defaultFormat) (tail : Option LiveTail)
    (entries : List Entry) (fs : FileSystem) (c : Conditions)
    (hinstants : ∀ e ∈ entries, 0 ≤ e.now.millis ∧ Instant.Renderable e.now.millis)
    (smooth : World.smooth c (session p tail entries).run (.ofFiles fs) = true) :
    ∃ ks, history c p tail entries fs = .ok ks ∧ ks.map Call.entry = entries ∧
      ∀ earlier k later, ks = earlier ++ k :: later → Acknowledged p earlier k ∧
        ∃ latest, k.after.path = p.fileOn latest ∧
          IsGreatest {day | ∃ b ∈ earlier ++ [k], day = p.dayAt b.entry.now.millis} latest ∧
          ∀ text now, k.entry = .line text now →
            k.entry.bytes p = Bytes.ofText (String.ofList ('[' :: dayText (p.dayShown now) ++
              ' ' :: clockText (.ofInstant p.template.zone p.localTime now) ++ [']', ' ']) ++
              text ++ "\n") ∧
            (now.nanos < 1000000000 → p.dayShown now = p.dayAt now.millis) ∧
            (dayText (p.dayShown now) = dayText latest ↔
              ∀ b ∈ earlier ++ [k], p.dayAt b.entry.now.millis ≤ p.dayShown now) := by
  have hact := Policy.activate_ok hp
  have hdaily := hact.daily hformat
  have hlocal : p.localTime = .fixed offset := Policy.localTime_of_activate hp
  have hfixed : p.fixedFile = none := hact.fixedFile.trans hderived
  obtain ⟨ks, hks, hentries, hcalls⟩ := unfailing_history hfixed smooth
  refine ⟨ks, hks, hentries, ?_⟩
  intro earlier k later he
  have hacked := hcalls earlier k later he
  have hmem : ∀ b ∈ earlier ++ [k], b.entry ∈ entries := by
    intro b hb
    rw [← hentries, he, List.append_cons]
    exact List.mem_map_of_mem (List.mem_append_left _ hb)
  have hk : k ∈ earlier ++ [k] := List.mem_append_right _ List.mem_cons_self
  obtain ⟨latest, hfile, hgreatest⟩ := activeFile_afterCalls hdaily hlocal hfixed hact.nextCheck
    (List.ne_nil_of_mem hk) fun b hb => hinstants _ (hmem b hb)
  refine ⟨hacked, latest, ?_, hgreatest, ?_⟩
  · have hathand : k.after.path = k.after.policy.activeFile := hacked.atHand
    rw [hathand, hacked.policy, hfile]
  · intro text now hentry
    refine ⟨?_, p.dayShown_eq_dayAt, ?_⟩
    · rw [hentry]
      exact bytes_line p text now
    · rw [dayText_injective.eq_iff]
      constructor
      · intro hsame b hb
        rw [hsame]
        exact hgreatest.2 ⟨b, hb, rfl⟩
      · intro hall
        have hnow : k.entry.now = now := by rw [hentry]; rfl
        have hshown : p.dayShown now ≤ latest :=
          Int.le_trans (hnow ▸ Policy.dayShown_le_dayAt hlocal _) (hgreatest.2 ⟨k, hk, rfl⟩)
        obtain ⟨b, hb, hlatest⟩ := hgreatest.1
        exact Int.le_antisymm hshown (hlatest ▸ hall b hb)

/-- Two lines, between which the clock goes back over midnight. -/
def overMidnight : List Entry := [.line "a" ⟨86400, 0⟩, .line "b" ⟨86399, 999000000⟩]

/-- A log by the day whose clock goes back over midnight: both lines are in the file of the later day. -/
theorem line_in_file_of_latest_day_over_midnight : ∃ p,
    Policy.activate (.fixed 0) ⟨some "app-%d.log", none, .utc⟩ 86400000 = .ok p ∧
    World.smooth (.calm .epoch) (session p none overMidnight).run (.ofFiles .blank) = true ∧
    ∃ ks, history (.calm .epoch) p none overMidnight .blank = .ok ks ∧
      ks.map Call.entry = overMidnight ∧
      ∀ earlier k later, ks = earlier ++ k :: later → Acknowledged p earlier k ∧
        ∃ latest, k.after.path = p.fileOn latest ∧
          ∀ b ∈ earlier ++ [k], p.dayAt b.entry.now.millis ≤ latest := by
  have hp : Policy.activate (.fixed 0) ⟨some "app-%d.log", none, .utc⟩ 86400000 = .ok
      ⟨.byDay, .fixed 0, none, .none, "app-1970-01-02.log", 0⟩ := by rfl
  refine ⟨_, hp, by decide, ?_⟩
  obtain ⟨ks, hks, hentries, hall⟩ := line_in_file_of_latest_day hp rfl rfl none overMidnight .blank
    (.calm .epoch) (by decide) (by decide)
  refine ⟨ks, hks, hentries, fun earlier k later he => ?_⟩
  obtain ⟨hacked, latest, hpath, hgreatest, -⟩ := hall earlier k later he
  exact ⟨hacked, latest, hpath, fun b hb => hgreatest.2 ⟨b, hb, rfl⟩⟩

/-- **A line need not be in the file of its own date.**  After the line of one day comes one of the last
millisecond of the day before: nothing fails, and it is put into the file of the first. -/
theorem line_in_file_of_later_day : ∃ p ks,
    Policy.activate (.fixed 0) ⟨some "app-%d.log", none, .utc⟩ 86400000 = .ok p ∧
    World.smooth (.calm .epoch) (session p none overMidnight).run (.ofFiles .blank) = true ∧
    history (.calm .epoch) p none overMidnight .blank = .ok ks ∧
    ks.map (fun k => (k.result.isOk, k.after.path.text)) =
      [(true, "app-1970-01-02.log"), (true, "app-1970-01-02.log")] ∧
    (World.run (.calm .epoch) (session p none overMidnight).run (.ofFiles .blank)).2.files.bytesAt
        ⟨"app-1970-01-02.log"⟩ =
      Bytes.ofText "[1970-01-02 00:00:00] a\n[1970-01-01 23:59:59] b\n" ∧
    ¬ ∀ k ∈ ks, k.after.path = p.fileOn (p.dayAt k.entry.now.millis) := by
  have hp : Policy.activate (.fixed 0) ⟨some "app-%d.log", none, .utc⟩ 86400000 = .ok
      ⟨.byDay, .fixed 0, none, .none, "app-1970-01-02.log", 0⟩ := by rfl
  refine ⟨_, _, hp, by decide, rfl, rfl, by decide, ?_⟩
  intro hall
  have hlast := hall _ (List.mem_cons_of_mem _ List.mem_cons_self)
  exact absurd hlast (by decide)

end Writer

end LogRotation
