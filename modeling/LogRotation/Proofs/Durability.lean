/-
  No acknowledged record is lost, whatever fails.

  A session puts a policy to use, writes records at any instants, and closes the log.  Directories
  may not be made, files not be opened, moved, read or taken away, and archives not be written; only
  what the session itself writes to its open file is written.  The worker may be as far behind as it
  likes.  Whatever happens, the slots of the session's periods hold the acknowledged records and
  nothing else, in the order in which they were written.

  Main statement: `session_keeps_acknowledged`.
-/
import LogRotation.FileSystem.Tree
import LogRotation.Proofs.Rollovers

namespace LogRotation

namespace Writer

/-! ## Sessions -/

/-- One call that asks for a record. -/
inductive Entry
  | line (text : String) (now : Instant)
  | raw (bytes : Bytes) (now : Instant)
  deriving DecidableEq, Repr

/-- The instant of a call. -/
def Entry.now : Entry → Instant
  | line _ now | raw _ now => now

/-- The bytes of the record that a call asks for. -/
def Entry.bytes (p : Policy) : Entry → Bytes
  | line text now => lineRecord p text now
  | raw bytes _ => bytes

/-- Makes a call. -/
def Entry.write (w : Writer) : Entry → Routine (Except Error Unit × Writer)
  | line text now => w.writeLine text now
  | raw bytes now => w.writeRaw bytes now

/-- The instants of calls, as a policy counts them. -/
def instants (entries : List Entry) : List Int := entries.map fun e => e.now.millis

/-- Makes calls one after the other, whatever comes of each. -/
def writeAll : List Entry → Writer → Routine (List (Except Error Unit) × Writer)
  | [], w => return ([], w)
  | e :: rest, w => do
    let (result, w) ← e.write w
    let (results, w) ← writeAll rest w
    return (result :: results, w)

/-- Opens a log, makes calls, and closes the log. -/
def session (p : Policy) (tail : Option LiveTail) (entries : List Entry) :
    Routine.Attempt Error (List (Except Error Unit)) := do
  let w ← ofPolicy p
  let (results, w) ← ExceptT.lift (writeAll entries { w with tail := tail })
  let _ ← ExceptT.lift w.close
  return results

/-- The bytes of the records whose calls succeeded. -/
def acknowledged (p : Policy) (entries : List Entry) (results : List (Except Error Unit)) : Bytes :=
  (entries.zip results).flatMap fun (e, result) =>
    match result with
    | .ok () => e.bytes p
    | .error _ => []

/-! ## Sessions keep books -/

variable {p : Policy} {w : Writer} {g : Page}

theorem Entry.bytes_after (e : Entry) (p : Policy) (now : Int) :
    e.bytes (p.after now) = e.bytes p := by
  unfold Policy.after
  split <;> cases e <;> rfl

theorem acknowledged_after (p : Policy) (now : Int) (entries : List Entry)
    (results : List (Except Error Unit)) :
    acknowledged (p.after now) entries results = acknowledged p entries results := by
  simp only [acknowledged, Entry.bytes_after]

theorem acknowledged_cons (p : Policy) (e : Entry) (entries : List Entry)
    (result : Except Error Unit) (results : List (Except Error Unit)) :
    acknowledged p (e :: entries) (result :: results) =
      (match result with | .ok () => e.bytes p | .error _ => []) ++
        acknowledged p entries results := rfl

/-- One call. -/
theorem meets_write {e : Entry} {rest : List Int} {Q : Except Error Unit × Writer → Page → Prop}
    (h : Work.On p (e.now.millis :: rest) w g)
    (herror : ∀ cause w' g', Work.On (p.after e.now.millis) rest w' g' → g'.acked = g.acked →
      Q (.error cause, w') g')
    (hok : ∀ w' g', Work.On (p.after e.now.millis) rest w' g' → g'.acked = g.acked ++ e.bytes p →
      Q (.ok (), w') g') : (e.write w).Meets Q g := by
  cases e with
  | line text now =>
    show (Work.record now.millis (lineRecord w.policy text now)).Meets (fun r w g => Q (r, w) g) w g
    rw [h.policy]
    exact Work.meets_record h herror hok
  | raw bytes now =>
    show (Work.record now.millis bytes).Meets (fun r w g => Q (r, w) g) w g
    exact Work.meets_record h herror hok

/-- **Call after call.**  What the calls acknowledge is added to the books, in their order. -/
theorem meets_writeAll {entries : List Entry} {Q : List (Except Error Unit) × Writer → Page → Prop}
    (h : Work.On p (instants entries) w g)
    (hQ : ∀ results w' g' q, results.length = entries.length → Work.On q [] w' g' →
      g'.acked = g.acked ++ acknowledged p entries results → Q (results, w') g') :
    (writeAll entries w).Meets Q g := by
  induction entries generalizing p w g Q with
  | nil => exact hQ [] w g p rfl h (List.append_nil _).symm
  | cons e rest ih =>
    refine Routine.Leads.bind (meets_write h ?_ ?_)
    · -- the call failed, and nothing was added
      intro cause w₁ g₁ h₁ hacked
      refine Routine.Leads.bind (ih h₁ ?_)
      intro results w' g' q hlength h' hacked'
      refine hQ _ w' g' q (congrArg (· + 1) hlength) h' ?_
      rw [hacked', hacked, acknowledged_after, acknowledged_cons, List.nil_append]
    · -- the call succeeded, and its record was added
      intro w₁ g₁ h₁ hacked
      refine Routine.Leads.bind (ih h₁ ?_)
      intro results w' g' q hlength h' hacked'
      refine hQ _ w' g' q (congrArg (· + 1) hlength) h' ?_
      rw [hacked', hacked, acknowledged_after, acknowledged_cons, List.append_assoc]

/-- Closing leaves the books as they are. -/
theorem meets_close {instants : List Int} {Q : Except Error Unit × Writer → Page → Prop}
    (h : Work.On p instants w g) (hQ : ∀ r, Q r g) : w.close.Meets Q g := by
  have hclosed : Work.closeFile.Meets (fun r w g => Q (r, w) g) w g :=
    Work.meets_closeFile h.linked (hQ _)
  exact Routine.Leads.bind hclosed

/-- A session adds to the books what it acknowledges. -/
theorem meets_session {tail : Option LiveTail} {entries : List Entry}
    (hplaced : p.Placed (instants entries) g) (hactive : p.activeFile = g.current.file)
    (hacked : g.acked = []) :
    Routine.Meets (session p tail entries).run (fun r g' => ∀ results, r = .ok results →
      results.length = entries.length ∧ g'.acked = acknowledged p entries results) g := by
  have hopened : ∀ id, Work.On p (instants entries)
      { policy := p, path := p.activeFile, file := some ⟨.file id, []⟩, tail := tail }
      { g with handle := some id } := by
    intro id
    refine ⟨rfl, hplaced, hactive, ?_⟩
    rintro f ⟨⟩
    exact ⟨id, rfl, rfl⟩
  -- the log is opened
  refine Routine.leads_attempt (Routine.leads_attempt (Routine.leads_adapt ?_))
  rw [hactive]
  refine Routine.meets_openCurrent (fun e => nofun) fun id => ?_
  -- the calls are made
  refine Routine.leads_attempt (Routine.leads_lift ?_)
  refine meets_writeAll (hactive ▸ hopened id) ?_
  intro results w' g' q hlength hon hadded
  -- the log is closed
  refine Routine.leads_attempt (Routine.leads_lift (meets_close hon fun r => ?_))
  rintro results' ⟨⟩
  refine ⟨hlength, ?_⟩
  rw [hadded]
  exact congrArg (· ++ _) hacked

end Writer

/-! ## The first page -/

namespace Page

variable {g : Page} {fs : FileSystem}

/-- Before anything is written, the books are in order if no path is a file. -/
theorem books_first (apart : g.paths.Pairwise (Path.Apart fs.here))
    (hvacant : ∀ x ∈ g.paths, fs.Vacant x) (hsealed : g.sealed = []) (hhandle : g.handle = none)
    (hacked : g.acked = []) : g.Books fs := by
  have hopen : ∀ s ∈ g.targets ++ g.current :: g.later, ∀ x ∈ s.paths, fs.Vacant x :=
    fun s hs x hx => hvacant x (mem_paths (mem_slots_of_open hs) hx)
  have htidy : fs.Tidy g.paths := by
    refine ⟨?_, ?_, ?_⟩
    · intro x hx id hid
      exact absurd hid (hvacant x hx).not_file
    · intro x hx y hy id hid
      exact absurd hid (hvacant x hx).not_file
    · intro x hx hfull
      rcases hvacant x hx with h | h <;> rw [h] at hfull <;> cases hfull
  refine ⟨apart, htidy, ?_, ?_, ?_, ?_⟩
  · intro s hs x hx
    exact hopen s (mem_open_of_coming hs) x hx
  · intro x hx
    exact hopen _ current_mem_open x (mem_paths_of_archive hx)
  · rw [hhandle]
    exact nofun
  · refine ⟨[], ?_, ?_⟩
    · rw [hsealed]
      rfl
    · rw [hacked, FileSystem.bytesAt_of_vacant (hvacant _ current_mem_paths)]
      rfl

/-- Books in order say that the slots hold what was acknowledged. -/
theorem Books.gather_slots (h : g.Books fs) : Slot.gather fs g.slots = some g.acked := by
  obtain ⟨kept, hkept, hacked⟩ := h.balance
  have htargets : Slot.gather fs g.targets = some [] :=
    Slot.gather_of_vacant fun s hs => h.vacant s (List.mem_append_left _ hs)
  have hlater : Slot.gather fs g.later = some [] :=
    Slot.gather_of_vacant fun s hs => h.vacant s (List.mem_append_right _ hs)
  rw [slots, Slot.gather_append, Slot.gather_append, Slot.gather, hkept, htargets, hlater,
    Slot.content?_of_unarchived h.unarchived]
  simp [hacked]

end Page

/-- The page of a log that is opened: all slots of its periods are still to come. -/
theorem Policy.exists_page (p : Policy) (instants : List Int) :
    ∃ g : Page, g.slots = p.slots instants ∧ p.Placed instants g ∧ p.activeFile = g.current.file ∧
      g.sealed = [] ∧ g.handle = none ∧ g.acked = [] := by
  cases hfixed : p.fixedFile with
  | none =>
    obtain ⟨more, hperiods⟩ := p.exists_periods instants
    refine ⟨⟨[], [], p.slotOf p.lastName, more.map p.slotOf, none, []⟩, ?_, ?_, ?_, rfl, rfl, rfl⟩
    · simp [Page.slots, slots, hfixed, hperiods]
    · rw [Placed, hfixed, hperiods]
      exact ⟨rfl, List.suffix_rfl⟩
    · exact activeFile_of_derived hfixed
  | some active =>
    refine ⟨⟨[], (p.periods instants).map p.slotOf, ⟨active, none⟩, [], none, []⟩, ?_, ?_, ?_, rfl,
      rfl, rfl⟩
    · simp [Page.slots, slots, hfixed]
    · rw [Placed, hfixed]
      exact ⟨rfl, rfl, List.suffix_rfl⟩
    · exact activeFile_of_fixed hfixed

/-! ## Durability -/

namespace Writer

/-- **No acknowledged record is lost, duplicated or reordered.**  Let the paths of a session's slots
be apart, and none of them a file at the start.  Whatever fails but the session's own writes, and
however the worker and the writer follow on each other: once the log is closed, what the slots hold,
one after the other, is what was acknowledged. -/
theorem session_keeps_acknowledged {p : Policy} {tail : Option LiveTail} {entries : List Entry}
    {fs : FileSystem} {c : Conditions} (results : List (Except Error Unit))
    (apart : ((p.slots (instants entries)).flatMap Slot.paths).Pairwise (Path.Apart fs.here))
    (vacant : ∀ x ∈ (p.slots (instants entries)).flatMap Slot.paths, fs.Vacant x)
    (spared : World.Spared c (session p tail entries).run (.ofFiles fs))
    (opened : (World.run c (session p tail entries).run (.ofFiles fs)).1 = .ok results) :
    results.length = entries.length ∧
      Slot.gather (World.run c (session p tail entries).run (.ofFiles fs)).2.files
        (p.slots (instants entries)) = some (acknowledged p entries results) := by
  obtain ⟨g, hslots, hplaced, hactive, hsealed, hhandle, hacked⟩ := p.exists_page (instants entries)
  have hpaths : g.paths = (p.slots (instants entries)).flatMap Slot.paths :=
    congrArg (List.flatMap Slot.paths) hslots
  have hbooks : g.Books fs :=
    Page.books_first (hpaths ▸ apart) (hpaths ▸ vacant) hsealed hhandle hacked
  have hstart : World.Holds g (.ofFiles fs) := ⟨hbooks, nofun, .inl rfl⟩
  obtain ⟨g', hend, hslots', hQ⟩ :=
    World.holds_run hstart (meets_session hplaced hactive hacked) spared
  obtain ⟨hlength, hadded⟩ := hQ results opened
  refine ⟨hlength, ?_⟩
  rw [← hadded, ← hslots, ← hslots']
  exact hend.books.gather_slots

/-- A log by the hour in a fixed file, where the first move fails: the record of that call is not
acknowledged, and what was in the file by then goes to the archive of the next hour. -/
theorem session_keeps_acknowledged_by_hour : ∃ p,
    Policy.activate (.fixed 0) ⟨some "%d{HH}.gz", some ⟨"log"⟩, .utc⟩ 0 = .ok p ∧
    Slot.gather (World.run
      ⟨fun _ q => if q = .rename ⟨"log"⟩ ⟨"00"⟩ then some ⟨.busy, 0⟩ else none, fun _ => .epoch,
        (· % 3)⟩
      (session p none
        [.raw [1] ⟨0, 0⟩, .raw [2] ⟨3600, 0⟩, .raw [3] ⟨3600, 0⟩, .raw [4] ⟨7200, 0⟩]).run
      (.ofFiles .blank)).2.files (p.slots [0, 3600000, 3600000, 7200000]) = some [1, 3, 4] := by
  have hp : Policy.activate (.fixed 0) ⟨some "%d{HH}.gz", some ⟨"log"⟩, .utc⟩ 0 = .ok
      ⟨⟨"%d{HH}.gz", [], "HH".toList, [.field (.hour .padded)], ".gz".toList, .utc, false⟩, .fixed 0,
        some ⟨"log"⟩, .gzip, "00.gz", 0⟩ := by rfl
  refine ⟨_, hp, ?_⟩
  have hspared : ∀ (_ : Nat) (q : Request), q.isWrite = true →
      (if q = .rename ⟨"log"⟩ ⟨"00"⟩ then some (Fault.mk .busy 0) else none) = none := by
    intro _ q hq
    refine if_neg ?_
    rintro rfl
    cases hq
  exact (session_keeps_acknowledged
    [.ok (), .error (.renameFailed ⟨"log"⟩ ⟨"00"⟩ (.io .busy)), .ok (), .ok ()]
    (by decide) (by decide) (World.spared_of_fault hspared _ _) (by rfl)).2

end Writer

end LogRotation
