/-
  What a capture hands to its log.

  A stream comes in pieces, and its lines are those of the whole: it does not matter where one piece ends
  and the next begins.

    * CUT       bytes cut after each newline, told by what the lines are and not by how they are found;
    * COPY      a capture from its first piece to its end asks for the records of those lines, in order;
    * RAW       each line is a record, and nothing is lost;
    * LEGIBLE   a line that is no text ends the capture: only the lines before it are recorded.

  Main statements: `copy_raw`, `copy_lines`.
-/
import LogRotation.Capture
import LogRotation.Proofs.Journals

namespace LogRotation

variable {line bytes : Bytes} {lines : List Bytes}

/-! ## Lines -/

/-- Holds of a line that ends in its only newline. -/
def Whole (line : Bytes) : Prop := ∃ text, newline ∉ text ∧ line = text ++ [newline]

/-- `Cut bytes lines` - the lines make up the bytes; each but the last ends in its only newline, and the
last is not empty and has no newline before its end. -/
structure Cut (bytes : Bytes) (lines : List Bytes) : Prop where
  flatten : lines.flatten = bytes
  ends : ∀ line ∈ lines.dropLast, Whole line
  last : ∀ line ∈ lines.getLast?, line ≠ [] ∧ newline ∉ line.dropLast

/-- The lines of a stream that is over. -/
def linesOf (bytes : Bytes) : List Bytes :=
  if (cutLines bytes).2.isEmpty then (cutLines bytes).1 else (cutLines bytes).1 ++ [(cutLines bytes).2]

theorem Whole.last (h : Whole line) : line ≠ [] ∧ newline ∉ line.dropLast := by
  obtain ⟨text, htext, rfl⟩ := h
  refine ⟨by simp, ?_⟩
  rw [List.dropLast_concat]
  exact htext

/-- What cutting has found so far makes up the bytes so far. -/
theorem cutInto_spec (lines : List Bytes) {line : Bytes} (bytes : Bytes) (hline : newline ∉ line) :
    (cutInto lines line bytes).1.flatten ++ (cutInto lines line bytes).2 =
        lines.reverse.flatten ++ line.reverse ++ bytes ∧
      (∀ l ∈ (cutInto lines line bytes).1, l ∈ lines ∨ Whole l) ∧
      newline ∉ (cutInto lines line bytes).2 := by
  induction bytes generalizing lines line with
  | nil =>
    refine ⟨(List.append_nil _).symm, fun l hl => .inl (List.mem_reverse.mp hl), ?_⟩
    exact fun h => hline (List.mem_reverse.mp h)
  | cons b rest ih =>
    unfold cutInto
    by_cases hb : b = newline
    · -- a line ends
      rw [if_pos hb]
      obtain ⟨hflatten, hwhole, hlast⟩ := ih ((b :: line).reverse :: lines) List.not_mem_nil
      refine ⟨?_, fun l hl => ?_, hlast⟩
      · rw [hflatten]
        simp
      · rcases hwhole l hl with hmem | hwhole
        · rcases List.mem_cons.mp hmem with rfl | hmem
          · refine .inr ⟨line.reverse, fun h => hline (List.mem_reverse.mp h), ?_⟩
            rw [List.reverse_cons, hb]
          · exact .inl hmem
        · exact .inr hwhole
    · rw [if_neg hb]
      have hline' : newline ∉ b :: line := by
        intro h
        rcases List.mem_cons.mp h with h | h
        · exact hb h.symm
        · exact hline h
      obtain ⟨hflatten, hwhole, hlast⟩ := ih lines hline'
      refine ⟨?_, hwhole, hlast⟩
      rw [hflatten]
      simp

theorem not_mem_cutLines (bytes : Bytes) : newline ∉ (cutLines bytes).2 :=
  (cutInto_spec [] bytes List.not_mem_nil).2.2

/-- **The lines of a stream are its cut.** -/
theorem cut_linesOf (bytes : Bytes) : Cut bytes (linesOf bytes) := by
  obtain ⟨hflatten, hwhole, hlast⟩ := cutInto_spec [] bytes List.not_mem_nil
  have hflatten : (cutLines bytes).1.flatten ++ (cutLines bytes).2 = bytes := hflatten
  have hwhole : ∀ l ∈ (cutLines bytes).1, Whole l := fun l hl => (hwhole l hl).resolve_left nofun
  unfold linesOf
  by_cases hempty : (cutLines bytes).2.isEmpty = true
  · rw [if_pos hempty]
    refine ⟨?_, fun l hl => hwhole l (List.dropLast_subset _ hl), fun l hl => ?_⟩
    · rw [List.isEmpty_iff.mp hempty, List.append_nil] at hflatten
      exact hflatten
    · exact (hwhole l (List.mem_of_getLast? hl)).last
  · rw [if_neg hempty]
    refine ⟨?_, ?_, ?_⟩
    · rw [List.flatten_concat]
      exact hflatten
    · rw [List.dropLast_concat]
      exact hwhole
    · rw [List.getLast?_concat]
      rintro l ⟨⟩
      refine ⟨fun h => hempty (List.isEmpty_iff.mpr h), fun h => ?_⟩
      exact hlast (List.dropLast_subset _ h)

/-- No line is empty. -/
theorem Cut.ne_nil (h : Cut bytes lines) (hline : line ∈ lines) : line ≠ [] := by
  cases hlast : lines.getLast? with
  | none =>
    rw [List.getLast?_eq_none_iff.mp hlast] at hline
    cases hline
  | some l =>
    rw [← List.dropLast_append_getLast? l hlast] at hline
    rcases List.mem_append.mp hline with hmem | hmem
    · exact (h.ends line hmem).last.1
    · rw [List.mem_singleton.mp hmem]
      exact (h.last l hlast).1

/-! ### Pieces -/

theorem cutInto_append (lines : List Bytes) (line a b : Bytes) :
    cutInto lines line (a ++ b) =
      cutInto (cutInto lines line a).1.reverse (cutInto lines line a).2.reverse b := by
  induction a generalizing lines line with
  | nil =>
    show _ = cutInto lines.reverse.reverse line.reverse.reverse b
    rw [List.reverse_reverse, List.reverse_reverse]
    rfl
  | cons x rest ih =>
    rw [List.cons_append, cutInto, cutInto]
    by_cases hx : x = newline
    · rw [if_pos hx, if_pos hx]
      exact ih _ _
    · rw [if_neg hx, if_neg hx]
      exact ih _ _

/-- The lines that were found come first. -/
theorem cutInto_lines (lines : List Bytes) (line bytes : Bytes) :
    cutInto lines line bytes =
      (lines.reverse ++ (cutInto [] line bytes).1, (cutInto [] line bytes).2) := by
  induction bytes generalizing lines line with
  | nil => simp [cutInto]
  | cons b rest ih =>
    rw [cutInto, cutInto]
    by_cases hb : b = newline
    · rw [if_pos hb, if_pos hb, ih, ih [(b :: line).reverse]]
      simp
    · rw [if_neg hb, if_neg hb]
      exact ih _ _

/-- Bytes without a newline only make the line longer. -/
theorem cutInto_bare (lines : List Bytes) (line : Bytes) {a : Bytes} (ha : newline ∉ a) (b : Bytes) :
    cutInto lines line (a ++ b) = cutInto lines (a.reverse ++ line) b := by
  induction a generalizing line with
  | nil => rfl
  | cons x rest ih =>
    have hx : x ≠ newline := fun h => ha (h ▸ List.mem_cons_self)
    rw [List.cons_append, cutInto, if_neg hx, ih _ fun h => ha (List.mem_cons_of_mem _ h)]
    simp

/-- **Where a piece ends makes no difference**: the line that was begun goes on with the next piece. -/
theorem cutLines_append (a b : Bytes) :
    cutLines (a ++ b) = ((cutLines a).1 ++ (cutLines ((cutLines a).2 ++ b)).1,
      (cutLines ((cutLines a).2 ++ b)).2) := by
  have hbegun : cutLines ((cutLines a).2 ++ b) = cutInto [] (cutLines a).2.reverse b := by
    rw [cutLines, cutInto_bare [] [] (not_mem_cutLines a) b, List.append_nil]
  rw [hbegun, cutLines, cutInto_append, cutInto_lines, List.reverse_reverse]
  rfl

/-! ### The only cut -/

theorem cutLines_bare (h : newline ∉ bytes) : cutLines bytes = ([], bytes) := by
  have he := cutInto_bare [] [] h []
  rw [List.append_nil] at he
  rw [cutLines, he, List.append_nil, cutInto, List.reverse_reverse]
  rfl

theorem Whole.cutLines_eq (h : Whole line) : cutLines line = ([line], []) := by
  obtain ⟨text, htext, rfl⟩ := h
  rw [cutLines_append, cutLines_bare htext, List.nil_append, cutLines,
    cutInto_bare [] [] htext [newline]]
  simp [cutInto]

/-- A whole line comes off the front. -/
theorem Whole.linesOf_append (h : Whole line) (bytes : Bytes) :
    linesOf (line ++ bytes) = line :: linesOf bytes := by
  unfold linesOf
  rw [cutLines_append, h.cutLines_eq]
  dsimp only [List.nil_append]
  split <;> rfl

/-- **A stream has one cut**, and these are its lines. -/
theorem cut_iff : Cut bytes lines ↔ lines = linesOf bytes := by
  constructor
  · intro h
    induction lines generalizing bytes with
    | nil => rw [← h.flatten]; rfl
    | cons line rest ih =>
      cases rest with
      | nil =>
        -- the last line has an end or none
        obtain ⟨hne, hbody⟩ := h.last line rfl
        rw [← h.flatten, List.flatten_cons]
        by_cases hend : line.getLast hne = newline
        · have hwhole : Whole line := ⟨line.dropLast, hbody, by rw [← hend, List.dropLast_concat_getLast]⟩
          rw [hwhole.linesOf_append]
          rfl
        · have hbare : newline ∉ line := by
            rw [← List.dropLast_concat_getLast hne, List.mem_append, List.mem_singleton]
            exact fun hmem => hmem.elim hbody fun heq => hend heq.symm
          rw [List.flatten_nil, List.append_nil, linesOf, cutLines_bare hbare]
          exact (if_neg fun hempty => hne (List.isEmpty_iff.mp hempty)).symm
      | cons next rest =>
        have hwhole : Whole line := h.ends line List.mem_cons_self
        have hrest : Cut (next :: rest).flatten (next :: rest) :=
          ⟨rfl, fun l hl => h.ends l (List.mem_cons_of_mem _ hl), h.last⟩
        rw [← h.flatten, List.flatten_cons, hwhole.linesOf_append, ← ih hrest]
  · rintro rfl
    exact cut_linesOf bytes

/-! ## Captures -/

namespace Capture

open Writer (recordEach Entry)

theorem record_unfinished (c : Capture) (u line : Bytes) :
    record { c with unfinished := u } line = (fun c' => { c' with unfinished := u }) <$> record c line := by
  obtain ⟨w, raw, unfinished, stopped⟩ := c
  unfold record
  cases stopped with
  | true => rfl
  | false =>
    cases raw with
    | true => simp
    | false =>
      cases lineText? line with
      | none => rfl
      | some text => simp

/-- What is begun does not matter for whole lines. -/
theorem recordAll_unfinished (c : Capture) (u : Bytes) (lines : List Bytes) :
    recordAll { c with unfinished := u } lines =
      (fun c' => { c' with unfinished := u }) <$> recordAll c lines := by
  induction lines generalizing c with
  | nil => rfl
  | cons line rest ih =>
    simp only [recordAll]
    rw [record_unfinished]
    simp [ih]

theorem recordAll_append (c : Capture) (lines more : List Bytes) :
    recordAll c (lines ++ more) = recordAll c lines >>= fun c => recordAll c more := by
  induction lines generalizing c with
  | nil => rfl
  | cons line rest ih => simp [recordAll, ih]

/-- **Piece after piece**, whole lines are recorded and the rest is kept. -/
theorem feedAll_eq (c : Capture) (pieces : List Bytes) (hc : newline ∉ c.unfinished) :
    feedAll c pieces =
      (fun c' => { c' with unfinished := (cutLines (c.unfinished ++ pieces.flatten)).2 }) <$>
        recordAll c (cutLines (c.unfinished ++ pieces.flatten)).1 := by
  induction pieces generalizing c with
  | nil =>
    have hnone : cutLines (c.unfinished ++ [].flatten) = ([], c.unfinished) := by
      rw [cutLines, cutInto_bare [] [] hc, List.append_nil, List.flatten_nil, cutInto,
        List.reverse_reverse]
      rfl
    rw [hnone]
    rfl
  | cons piece rest ih =>
    have hfeed : feed c piece =
        (fun c' => { c' with unfinished := (cutLines (c.unfinished ++ piece)).2 }) <$>
          recordAll c (cutLines (c.unfinished ++ piece)).1 := recordAll_unfinished c _ _
    rw [List.flatten_cons, ← List.append_assoc, cutLines_append, recordAll_append, feedAll, hfeed]
    simp only [map_bind, bind_map_left]
    refine congrArg (Bind.bind (recordAll c (cutLines (c.unfinished ++ piece)).1))
      (funext fun c' => ?_)
    rw [ih _ (not_mem_cutLines _), recordAll_unfinished, Functor.map_map]

/-- A capture of a stream from its first piece to its end. -/
def copy (w : Writer) (raw : Bool) (pieces : List Bytes) : Routine Writer := do
  (← (ofWriter w raw).feedAll pieces).finish

/-- **A capture records the lines of the whole stream.** -/
theorem copy_eq (w : Writer) (raw : Bool) (pieces : List Bytes) :
    copy w raw pieces = writer <$> recordAll (ofWriter w raw) (linesOf pieces.flatten) := by
  have hnone : newline ∉ (ofWriter w raw).unfinished := List.not_mem_nil
  rw [copy, feedAll_eq _ pieces hnone]
  show _ = writer <$> recordAll _ (linesOf _)
  simp only [bind_map_left, linesOf, finish, ofWriter, List.nil_append]
  by_cases hempty : (cutLines pieces.flatten).2.isEmpty = true
  · simp only [hempty, if_true]
    rfl
  · -- the last line has no end
    simp only [hempty, Bool.false_eq_true, if_false, recordAll_append, map_bind]
    refine congrArg (Bind.bind (recordAll _ _)) (funext fun c' => ?_)
    show writer <$> record { c' with unfinished := [] } _ = writer <$> recordAll c' [_]
    rw [record_unfinished, Functor.map_map]
    show _ = writer <$> (record c' _ >>= pure)
    rw [bind_pure]

/-! ### Raw captures -/

theorem writer_recordAll_raw (w : Writer) (lines : List Bytes) :
    writer <$> recordAll (ofWriter w true) lines = Prod.snd <$> recordEach Entry.raw lines w := by
  induction lines generalizing w with
  | nil => rfl
  | cons line rest ih =>
    have hrecord : record (ofWriter w true) line = Routine.request .clock >>= fun now =>
        (fun r => ofWriter r.2 true) <$> (Entry.raw line now).write w := rfl
    rw [recordAll, recordEach, hrecord]
    simp only [bind_assoc, map_bind, bind_map_left, ih]
    rfl

/-- **A raw capture loses nothing and splits no line.**  However a stream is cut into pieces, its lines,
which are its cut after each newline, are handed to the log as they are.  If the log held nothing back
before, and no call fails: each line is one stroke of a file that was opened, in order, and together the
strokes are the stream. -/
theorem raw_lossless (w : Writer) (pieces : List Bytes) :
    (∀ lines, Cut pieces.flatten lines ↔ lines = linesOf pieces.flatten) ∧
    copy w true pieces = Prod.snd <$> recordEach Entry.raw (linesOf pieces.flatten) w ∧
    ∀ (c : Conditions) (world : World) (j : Journal), Writer.Work.Clear w j →
      (∀ result ∈ (World.run c (recordEach Entry.raw (linesOf pieces.flatten) w) world).1.1,
        result = .ok ()) →
      ∃ strokes, (World.journal c (copy w true pieces) world j).strokes = j.strokes ++ strokes ∧
        strokes.map Stroke.bytes = linesOf pieces.flatten ∧
        (∀ s ∈ strokes, s.path.isSome = true) ∧ strokes.flatMap Stroke.bytes = pieces.flatten := by
  have hcopy : copy w true pieces = Prod.snd <$> recordEach Entry.raw (linesOf pieces.flatten) w := by
    rw [copy_eq, writer_recordAll_raw]
  refine ⟨fun lines => cut_iff, hcopy, fun c world j hclear hall => ?_⟩
  have hcut := cut_linesOf pieces.flatten
  obtain ⟨times, htimes, hadds⟩ :=
    World.follow_run (w := world)
      (Writer.journaled_recordEach Entry.raw hclear fun line hline now p => hcut.ne_nil hline) hall
  have hrecords : List.zipWith (fun line now => (Entry.raw line now).bytes w.policy)
      (linesOf pieces.flatten) times = linesOf pieces.flatten := by
    show List.zipWith (Function.curry Prod.fst) _ _ = _
    rw [← List.map_zip_eq_zipWith]
    exact List.map_fst_zip (Nat.le_of_eq htimes.symm)
  rw [hrecords] at hadds
  obtain ⟨strokes, hstrokes, hbytes, hpaths⟩ := hadds.strokes
  refine ⟨strokes, ?_, hbytes, hpaths, ?_⟩
  · rw [hcopy, World.journal, World.follow_map]
    exact hstrokes
  · rw [List.flatMap_def, hbytes, hcut.flatten]

/-- A capture by the hour: a line that comes in two pieces, and one without an end and in no encoding,
are written in different hours, and so to different files. -/
theorem raw_lossless_over_hours : ∃ p, Policy.activate (.fixed 0) ⟨some "%d{HH}", none, .utc⟩ 0 = .ok p ∧
    let c : Conditions := ⟨fun _ _ => none, fun n => if n = 0 then ⟨0, 0⟩ else ⟨3600, 0⟩, fun _ => 0⟩
    let journal := World.journal c (copy ⟨p, ⟨"00"⟩, none, none⟩ true [[97], [10, 255, 98]])
      (.ofFiles .blank) .blank
    (∃ strokes, journal.strokes = [] ++ strokes ∧ strokes.map Stroke.bytes = [[97, 10], [255, 98]] ∧
      (∀ s ∈ strokes, s.path.isSome = true) ∧ strokes.flatMap Stroke.bytes = [97, 10, 255, 98]) ∧
    journal.strokes.map Stroke.path = [some ⟨"00"⟩, some ⟨"01"⟩] := by
  have hp : Policy.activate (.fixed 0) ⟨some "%d{HH}", none, .utc⟩ 0 = .ok
      ⟨⟨"%d{HH}", [], "HH".toList, [.field (.hour .padded)], [], .utc, false⟩, .fixed 0, none, .none, "00",
        0⟩ := by rfl
  refine ⟨_, hp, ?_, by rfl⟩
  obtain ⟨-, -, hwritten⟩ := raw_lossless ⟨_, ⟨"00"⟩, none, none⟩ [[97], [10, 255, 98]]
  exact hwritten _ (.ofFiles .blank) .blank nofun (by decide)

/-! ### Captures by the line -/

/-- The texts of the lines before the first that is no text. -/
def legible (lines : List Bytes) : List String :=
  (lines.takeWhile fun line => (lineText? line).isSome).filterMap lineText?

theorem legible_cons (line : Bytes) (rest : List Bytes) :
    legible (line :: rest) = match lineText? line with
      | none => []
      | some text => text :: legible rest := by
  unfold legible
  cases hline : lineText? line with
  | none => simp [hline]
  | some text => simp [hline]

/-- A capture that was stopped records nothing more. -/
theorem recordAll_stopped (c : Capture) (hc : c.stopped = true) (lines : List Bytes) :
    recordAll c lines = pure c := by
  induction lines with
  | nil => rfl
  | cons line rest ih => rw [recordAll, record, if_pos hc, pure_bind, ih]

theorem writer_recordAll_lines (w : Writer) (lines : List Bytes) :
    writer <$> recordAll (ofWriter w false) lines =
      Prod.snd <$> recordEach Entry.line (legible lines) w := by
  induction lines generalizing w with
  | nil => rfl
  | cons line rest ih =>
    rw [recordAll, legible_cons]
    cases hline : lineText? line with
    | none =>
      have hrecord : record (ofWriter w false) line = pure { ofWriter w false with stopped := true } := by
        rw [record, hline]
        rfl
      rw [hrecord, pure_bind, recordAll_stopped _ rfl]
      rfl
    | some text =>
      have hrecord : record (ofWriter w false) line = Routine.request .clock >>= fun now =>
          (fun r => ofWriter r.2 false) <$> (Entry.line text now).write w := by
        rw [record, hline]
        rfl
      rw [hrecord]
      simp only [recordEach, bind_assoc, map_bind, bind_map_left, ih]
      rfl

/-- A record holds its stamp at least. -/
theorem lineRecord_ne_nil (p : Policy) (text : String) (now : Instant) :
    Writer.lineRecord p text now ≠ [] := by
  intro h
  have hsize := congrArg List.length h
  simp [Writer.lineRecord, Bytes.ofText] at hsize

/-- **A capture by the line ends at the first line that is no text.**  However a stream is cut into
pieces: the lines before that one, without their ends, are handed to the log, and nothing after them.  If
the log held nothing back before, and no call fails: each of them is one stroke, behind the stamp of the
time that the clock showed for it. -/
theorem lines_until_illegible (w : Writer) (pieces : List Bytes) :
    copy w false pieces = Prod.snd <$> recordEach Entry.line (legible (linesOf pieces.flatten)) w ∧
    ∀ (c : Conditions) (world : World) (j : Journal), Writer.Work.Clear w j →
      (∀ result ∈ (World.run c (recordEach Entry.line (legible (linesOf pieces.flatten)) w) world).1.1,
        result = .ok ()) →
      ∃ times strokes, times.length = (legible (linesOf pieces.flatten)).length ∧
        (World.journal c (copy w false pieces) world j).shown = j.shown ++ times ∧
        (World.journal c (copy w false pieces) world j).strokes = j.strokes ++ strokes ∧
        strokes.map Stroke.bytes =
          List.zipWith (Writer.lineRecord w.policy) (legible (linesOf pieces.flatten)) times ∧
        ∀ s ∈ strokes, s.path.isSome = true := by
  have hcopy : copy w false pieces =
      Prod.snd <$> recordEach Entry.line (legible (linesOf pieces.flatten)) w := by
    rw [copy_eq, writer_recordAll_lines]
  refine ⟨hcopy, fun c world j hclear hall => ?_⟩
  obtain ⟨times, htimes, hadds⟩ :=
    World.follow_run (w := world) (Writer.journaled_recordEach Entry.line hclear
      fun text _ now p => lineRecord_ne_nil p text now) hall
  obtain ⟨strokes, hstrokes, hbytes, hpaths⟩ := hadds.strokes
  rw [hcopy, World.journal, World.follow_map]
  exact ⟨times, strokes, htimes, hadds.shown, hstrokes, hbytes, hpaths⟩

/-- A log for all of an era, and a stream of which the second line is no text. -/
theorem lines_until_illegible_second : ∃ p,
    Policy.activate (.fixed 0) ⟨some "cap.%d{G}", none, .utc⟩ 0 = .ok p ∧
    let journal := World.journal (.calm .epoch)
      (copy ⟨p, ⟨"cap.AD"⟩, none, none⟩ false [[97, 13], [10, 255, 10, 98]]) (.ofFiles .blank) .blank
    ∃ times strokes, times.length = 1 ∧ journal.shown = [] ++ times ∧ journal.strokes = [] ++ strokes ∧
      strokes.map Stroke.bytes = List.zipWith (Writer.lineRecord p) ["a"] times ∧
      ∀ s ∈ strokes, s.path.isSome = true := by
  have hp : Policy.activate (.fixed 0) ⟨some "cap.%d{G}", none, .utc⟩ 0 = .ok
      ⟨⟨"cap.%d{G}", "cap.".toList, "G".toList, [.field .era], [], .utc, false⟩, .fixed 0, none, .none,
        "cap.AD", 0⟩ := by rfl
  refine ⟨_, hp, ?_⟩
  obtain ⟨-, hwritten⟩ :=
    lines_until_illegible ⟨_, ⟨"cap.AD"⟩, none, none⟩ [[97, 13], [10, 255, 10, 98]]
  exact hwritten (.calm .epoch) (.ofFiles .blank) .blank nofun (by decide)

/-- A line that is text and comes after one that is none is not recorded, though no write fails. -/
theorem legible_line_lost : ∃ p, Policy.activate (.fixed 0) ⟨some "cap.%d{G}", none, .utc⟩ 0 = .ok p ∧
    let w : Writer := ⟨p, ⟨"cap.AD"⟩, none, none⟩
    let input : Bytes := [255, 10, 104, 10]
    (linesOf input).filterMap lineText? = ["h"] ∧
    (∀ result ∈ (World.run (.calm .epoch) (recordEach Entry.line (legible (linesOf input)) w)
      (.ofFiles .blank)).1.1, result = .ok ()) ∧
    ¬ ∃ times : List Instant, times.length = 1 ∧
      (World.journal (.calm .epoch) (copy w false [input]) (.ofFiles .blank) .blank).strokes.map
        Stroke.bytes = List.zipWith (Writer.lineRecord p) ["h"] times := by
  have hp : Policy.activate (.fixed 0) ⟨some "cap.%d{G}", none, .utc⟩ 0 = .ok
      ⟨⟨"cap.%d{G}", "cap.".toList, "G".toList, [.field .era], [], .utc, false⟩, .fixed 0, none, .none,
        "cap.AD", 0⟩ := by rfl
  refine ⟨_, hp, by decide, by decide, ?_⟩
  rintro ⟨times, hlength, hstrokes⟩
  -- there is no stroke where there should be one
  have hcount := congrArg List.length hstrokes
  rw [List.length_map, List.length_zipWith, hlength] at hcount
  exact absurd hcount (by decide)

end Capture

end LogRotation
