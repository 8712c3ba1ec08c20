/-
  Local time is universal time, shifted.

    * CLOCKS     a clock that is some time ahead shows what the clock of universal time shows that much
                 later, save where it is asked for its zone (`sameTime_shifted`);
    * NAMES      a format asks for the zone with the letters z and Z outside quotes, and in no other way;
                 without them, a name in local time is one in universal time (`renderMillis_shifted`);
    * POLICIES   a look at the clock goes by names alone, so two policies that have the same names at
                 their instants come to the same decision (`lookOn_congr`).

  Main statement: `local_time_is_shifted`.
-/
import LogRotation.Proofs.Throttle

namespace LogRotation

/-! ## Clocks -/

/-- `SameTime v w` - two clocks that show the same, but for the zone. -/
structure WallClock.SameTime (v w : WallClock) : Prop where
  day : v.day = w.day
  second : v.second = w.second
  nanos : v.nanos = w.nanos

/-- The instant at which universal time shows what local time shows at an instant. -/
def LocalTime.shift (localTime : LocalTime) (millis : Int) : Int :=
  millis + 1000 * localTime.ahead (millis / 1000)

theorem LocalTime.shift_fixed (minutes millis : Int) :
    (fixed (60 * minutes)).shift millis = millis + 60000 * minutes := by
  show millis + 1000 * (60 * minutes) = _
  omega

/-- **The crux.**  What a clock is ahead is carried over to the same day and the same second of it, before
1970 as well. -/
theorem WallClock.sameTime_shifted (localTime : LocalTime) {millis : Int} (h : Instant.Renderable millis)
    (hshifted : Instant.Renderable (localTime.shift millis)) :
    SameTime (ofInstant .localTime localTime (.ofMillis millis))
      (ofInstant .utc localTime (.ofMillis (localTime.shift millis))) := by
  have hseconds : localTime.shift millis / 1000 = millis / 1000 + localTime.ahead (millis / 1000) := by
    unfold LocalTime.shift
    omega
  have hmillis : localTime.shift millis % 1000 = millis % 1000 := by
    unfold LocalTime.shift
    omega
  rw [Instant.ofMillis, if_pos h, Instant.ofMillis, if_pos hshifted]
  refine ⟨?_, ?_, ?_⟩
  · simp only [ofInstant, Zone.ahead, hseconds, Int.add_zero]
  · simp only [ofInstant, Zone.ahead, hseconds, Int.add_zero]
  · simp only [ofInstant, hmillis]

/-! ## Names -/

/-- No field looks at the zone but its offset and its name. -/
theorem Field.write_sameTime {v w : WallClock} (h : v.SameTime w) {f : Field} (hoffset : f ≠ .offset)
    (hname : f ≠ .zoneName) : f.write v = f.write w := by
  obtain ⟨day, second, nanos, zone, ahead⟩ := v
  obtain ⟨day', second', nanos', zone', ahead'⟩ := w
  obtain ⟨rfl, rfl, rfl⟩ := h
  cases f with
  | offset => exact absurd rfl hoffset
  | zoneName => exact absurd rfl hname
  | _ => rfl

theorem DateFormat.letter_of_zone {l : Char} {n : Nat} {f : Field} (h : Field.ofRun? l n = some f)
    (hf : f = .offset ∨ f = .zoneName) : l = 'Z' ∨ l = 'z' := by
  unfold Field.ofRun? at h
  dsimp only at h
  split at h <;> grind

namespace Template

variable {t : Template} {localTime : LocalTime}

/-- The parts of a format without the letters of the zone. -/
theorem field_ne_zone {text : String} (h : parse text = .ok t)
    (hz : 'z' ∉ DateFormat.unquoted t.dateFormat) (hZ : 'Z' ∉ DateFormat.unquoted t.dateFormat)
    {f : Field} (hf : .field f ∈ t.parts) : f ≠ .offset ∧ f ≠ .zoneName := by
  rw [← not_or]
  intro hzone
  obtain ⟨l, n, hl, hn⟩ := DateFormat.exists_unquoted_of_field (parse_dateFormat h) hf
  rcases DateFormat.letter_of_zone hn hzone with rfl | rfl
  · exact hZ hl
  · exact hz hl

/-- **A name in local time is one in universal time.** -/
theorem renderMillis_shifted {text : String} (h : parse text = .ok t)
    (hz : 'z' ∉ DateFormat.unquoted t.dateFormat) (hZ : 'Z' ∉ DateFormat.unquoted t.dateFormat)
    (hpinned : t.zonePinned = false) {millis : Int} (hmillis : Instant.Renderable millis)
    (hshifted : Instant.Renderable (localTime.shift millis)) :
    (t.withZone .localTime).renderMillis localTime millis =
      (t.withZone .utc).renderMillis localTime (localTime.shift millis) := by
  have htime := WallClock.sameTime_shifted localTime hmillis hshifted
  have hparts := DateFormat.render_congr fun f hf =>
    have hzone := field_ne_zone h hz hZ hf
    Field.write_sameTime htime hzone.1 hzone.2
  rw [renderMillis, render, renderChars_withZone, zone_withZone hpinned, hparts, renderMillis,
    render, renderChars_withZone, zone_withZone hpinned]

end Template

/-! ## Policies -/

namespace Policy

/-- `Parallel p q` - two policies that differ in the zone of their names alone, and whose last names are
the same. -/
structure Parallel (p q : Policy) : Prop where
  fixedFile : p.fixedFile = q.fixedFile
  compression : p.compression = q.compression
  lastName : p.lastName = q.lastName

/-- What a look at the clock leads to. -/
theorem lookOn_fst (p : Policy) (now : Int) (files : FileSystem) : (p.lookOn now files).1 =
    if p.isOver now then
      ⟨true, p.activeFileFor (p.nameAt now),
        match p.fixedFile with
        | some active => [.rename active (p.baseOf p.lastName) true]
        | none => [],
        if files.present p.activeFile then p.archiving else []⟩
    else ⟨false, p.activeFileFor (p.nameAt now), [], []⟩ := by
  rw [lookOn_eq, rollover]
  cases p.isOver now <;> rfl

/-- **A look goes by names alone.** -/
theorem lookOn_congr {p q : Policy} (h : p.Parallel q) {now now' : Int}
    (hname : p.nameAt now = q.nameAt now') (files : FileSystem) :
    (p.lookOn now files).1 = (q.lookOn now' files).1 := by
  have hbase : p.baseOf = q.baseOf := by
    funext name
    rw [baseOf, baseOf, h.compression]
  have hactive : p.activeFileFor = q.activeFileFor := by
    funext name
    rw [activeFileFor, activeFileFor, h.fixedFile, hbase]
  rw [lookOn_fst, lookOn_fst, isOver, isOver, activeFile, activeFile, archiving, archiving, hname,
    hactive, hbase, h.fixedFile, h.compression, h.lastName]

/-- A valid configuration with a pattern that can be read is put to use. -/
theorem exists_activate (localTime : LocalTime) (start : Int) {config : Config} {pattern : String}
    {t : Template} (hpattern : config.pattern = .ok pattern) (hvalid : config.validate = .ok ())
    (ht : Template.parse pattern = .ok t) : ∃ p, activate localTime config start = .ok p := by
  simp only [activate, hpattern, hvalid, ht, bind, Except.bind, pure, Except.pure]
  exact ⟨_, rfl⟩

/-- The names of a policy are those of its template in the zone that is configured. -/
theorem nameAt_of_activate {localTime : LocalTime} {start : Int} {config : Config} {pattern : String}
    {t : Template} (hpattern : config.pattern = .ok pattern) (ht : Template.parse pattern = .ok t) {p : Policy}
    (h : activate localTime config start = .ok p) (now : Int) :
    p.nameAt now = (t.withZone config.zone).renderMillis localTime now := by
  obtain ⟨pattern', t', hpattern', -, ht', rfl⟩ := activate_inv h
  obtain rfl : pattern = pattern' := Except.ok.inj (hpattern.symm.trans hpattern')
  obtain rfl : t = t' := Except.ok.inj (ht.symm.trans ht')
  rfl

/-- **Local time is universal time, shifted.**  Let a template name no zone of its own, and its format
not ask for one.  Its names in local time are its names in universal time as much later as local time is
ahead at that instant, by a fixed offset or not, as long as there are dates for both.  So a policy that is
put to use in local time and looks at the clock does just what the one in universal time does at the
shifted instants. -/
theorem local_time_is_shifted {text : String} {t : Template} (h : Template.parse text = .ok t)
    (hz : 'z' ∉ DateFormat.unquoted t.dateFormat) (hZ : 'Z' ∉ DateFormat.unquoted t.dateFormat)
    (hpinned : t.zonePinned = false) (localTime : LocalTime) :
    (∀ now, Instant.Renderable now → Instant.Renderable (localTime.shift now) →
      (t.withZone .localTime).renderMillis localTime now =
        (t.withZone .utc).renderMillis localTime (localTime.shift now)) ∧
    ∀ (config : Config) (start now : Int) (p : Policy), config.pattern = .ok text →
      Instant.Renderable start → Instant.Renderable (localTime.shift start) →
      Instant.Renderable now → Instant.Renderable (localTime.shift now) →
      activate localTime (config.withZone .localTime) start = .ok p →
      ∃ q, activate localTime (config.withZone .utc) (localTime.shift start) = .ok q ∧
        ∀ files, (p.lookOn now files).1 = (q.lookOn (localTime.shift now) files).1 := by
  have hnames : ∀ now, Instant.Renderable now → Instant.Renderable (localTime.shift now) →
      (t.withZone .localTime).renderMillis localTime now =
        (t.withZone .utc).renderMillis localTime (localTime.shift now) :=
    fun _ hnow hshifted => Template.renderMillis_shifted h hz hZ hpinned hnow hshifted
  refine ⟨hnames, ?_⟩
  intro config start now p hpattern hstart hstart' hnow hnow' hp
  obtain ⟨-, -, -, hvalid, -, -⟩ := activate_inv hp
  have hpattern' : ∀ zone, (config.withZone zone).pattern = .ok text := fun _ => hpattern
  obtain ⟨q, hq⟩ := exists_activate localTime (localTime.shift start) (hpattern' .utc) hvalid h
  have hlocal : ∀ s, p.nameAt s = (t.withZone .localTime).renderMillis localTime s :=
    nameAt_of_activate (hpattern' _) h hp
  have hutc : ∀ s, q.nameAt s = (t.withZone .utc).renderMillis localTime s :=
    nameAt_of_activate (hpattern' _) h hq
  have hname : ∀ s, Instant.Renderable s → Instant.Renderable (localTime.shift s) →
      p.nameAt s = q.nameAt (localTime.shift s) := by
    intro s hs hs'
    rw [hlocal, hutc, hnames s hs hs']
  have hpact := activate_ok hp
  have hqact := activate_ok hq
  have hlast : p.lastName = q.lastName := by
    rw [hpact.lastName, hqact.lastName, hname start hstart hstart']
  have hparallel : p.Parallel q := by
    refine ⟨hpact.fixedFile.trans hqact.fixedFile.symm, ?_, hlast⟩
    rw [hpact.compression, hqact.compression, hlast]
  exact ⟨q, hq, lookOn_congr hparallel (hname now hnow hnow')⟩

/-- A host in the west, at the last millisecond before 1970: it is still the day before there, in the week
that belongs to the year to come.  The letter that is quoted asks for no zone. -/
theorem local_time_is_shifted_before_1970 : ∃ t p,
    Template.parse "a.%d\x7bYYYY-ww-u hh.SSS a'z'\x7d.gz" = .ok t ∧
    ('z' ∉ DateFormat.unquoted t.dateFormat ∧ 'Z' ∉ DateFormat.unquoted t.dateFormat ∧
      t.zonePinned = false) ∧
    (Instant.Renderable (-1) ∧ Instant.Renderable (-1 + 60000 * -330) ∧
      Instant.Renderable 19800000 ∧ Instant.Renderable (19800000 + 60000 * -330)) ∧
    activate (.fixed (60 * -330))
      ((Config.ofPattern "a.%d\x7bYYYY-ww-u hh.SSS a'z'\x7d.gz").withZone .localTime) (-1) = .ok p ∧
    (t.withZone .localTime).renderMillis (.fixed (60 * -330)) (-1) =
      (t.withZone .utc).renderMillis (.fixed (60 * -330)) (-1 + 60000 * -330) ∧
    (t.withZone .localTime).renderMillis (.fixed (60 * -330)) (-1) = "a.1970-01-3 06.999 PMz.gz" ∧
    ∃ q, activate (.fixed (60 * -330))
        ((Config.ofPattern "a.%d\x7bYYYY-ww-u hh.SSS a'z'\x7d.gz").withZone .utc) (-1 + 60000 * -330) =
          .ok q ∧
      ∀ files, (p.lookOn 19800000 files).1 = (q.lookOn (19800000 + 60000 * -330) files).1 := by
  have hparse : ∃ t, Template.parse "a.%d\x7bYYYY-ww-u hh.SSS a'z'\x7d.gz" = .ok t ∧
      t.dateFormat = "YYYY-ww-u hh.SSS a'z'".toList ∧ t.zonePinned = false ∧
      (t.withZone .localTime).renderMillis (.fixed (60 * -330)) (-1) = "a.1970-01-3 06.999 PMz.gz" :=
    ⟨_, rfl, rfl, rfl, rfl⟩
  obtain ⟨t, ht, hformat, hpinned, hshown⟩ := hparse
  have hz : 'z' ∉ DateFormat.unquoted t.dateFormat := by
    rw [hformat]
    decide
  have hZ : 'Z' ∉ DateFormat.unquoted t.dateFormat := by
    rw [hformat]
    decide
  have hstart : Instant.Renderable (-1) ∧ Instant.Renderable (-1 + 60000 * -330) := by decide
  have hnow : Instant.Renderable 19800000 ∧ Instant.Renderable (19800000 + 60000 * -330) := by decide
  have hpattern : (Config.ofPattern "a.%d\x7bYYYY-ww-u hh.SSS a'z'\x7d.gz").pattern =
      .ok "a.%d\x7bYYYY-ww-u hh.SSS a'z'\x7d.gz" := by rfl
  obtain ⟨p, hp⟩ := exists_activate (.fixed (60 * -330)) (-1)
    (show ((Config.ofPattern "a.%d\x7bYYYY-ww-u hh.SSS a'z'\x7d.gz").withZone .localTime).pattern = _
      from hpattern) rfl ht
  obtain ⟨hnames, hpolicies⟩ := local_time_is_shifted ht hz hZ hpinned (.fixed (60 * -330))
  simp only [LocalTime.shift_fixed] at hnames hpolicies
  exact ⟨t, p, ht, ⟨hz, hZ, hpinned⟩, ⟨hstart.1, hstart.2, hnow.1, hnow.2⟩, hp,
    hnames (-1) hstart.1 hstart.2, hshown,
    hpolicies _ (-1) 19800000 p hpattern hstart.1 hstart.2 hnow.1 hnow.2 hp⟩

end Policy

end LogRotation
