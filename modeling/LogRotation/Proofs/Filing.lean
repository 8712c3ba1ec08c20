/-
  Every record ends up in the file or archive of its own period.

  Where nothing fails, all is known of a log once it is closed: each period that was left is at the
  place that it is to stay at, with what was there before and its own records after it, and so is the
  last one in the active file.  The worker may come at any moment, as it makes no difference.

    1. **Calls** - `chronicled_writeAll` goes through the volumes of a run, call by call;
    2. **Closing** - the worker is waited for, and all that was left is settled;
    3. **The start** - the chronicle of a log that is opened, with what is found at its paths.

  Main statement: `records_in_own_period`.
-/
import LogRotation.Proofs.Undisturbed

namespace LogRotation

/-! ## Calls -/

namespace Policy

theorem activeFileFor_after (p : Policy) (now : Int) :
    (p.after now).activeFileFor = p.activeFileFor := by
  unfold after
  split <;> rfl

theorem compression_after (p : Policy) (now : Int) :
    (p.after now).compression = p.compression := by
  unfold after
  split <;> rfl

/-- What a period leaves behind. -/
def deposit (p : Policy) (volume : String × Bytes) : Deposit := ⟨p.slotOf volume.1, volume.2⟩

theorem deposit_after (p : Policy) (now : Int) : (p.after now).deposit = p.deposit := by
  unfold deposit
  rw [slotOf_after]

end Policy

namespace Writer

variable {b : Scene} {p : Policy} {w : Writer} {g : Chronicle} {entries : List Entry}
variable {tail : Option LiveTail}

/-- One call. -/
theorem chronicled_write {e : Entry} {rest : List Int}
    {Q : Except Error Unit × Writer → Chronicle → Prop} (h : Work.At p (e.now.millis :: rest) w g)
    (hready : (p.isDue e.now.millis && p.isOver e.now.millis) = true →
      p.compression.archive? ≠ none → (p.deposit (p.lastName, g.content)).Ready)
    (hcross : (p.isDue e.now.millis && p.isOver e.now.millis) = true → ∀ w' g',
      Work.At (p.after e.now.millis) rest w' g' →
      g'.deposits = g.deposits ++ [p.deposit (p.lastName, g.content)] →
      g'.content = p.fresh b.start (p.nameAt e.now.millis) ++ e.bytes p → Q (.ok (), w') g')
    (hstay : (p.isDue e.now.millis && p.isOver e.now.millis) = false → ∀ w' g',
      Work.At (p.after e.now.millis) rest w' g' → g'.deposits = g.deposits →
      g'.content = g.content ++ e.bytes p → Q (.ok (), w') g') :
    (e.write w).Chronicled b Q g := by
  cases e with
  | line text now =>
    show (Work.record now.millis (lineRecord w.policy text now)).Chronicled b
      (fun r w g => Q (r, w) g) w g
    rw [h.policy]
    exact Work.chronicled_record h hready hcross hstay
  | raw bytes now =>
    show (Work.record now.millis bytes).Chronicled b (fun r w g => Q (r, w) g) w g
    exact Work.chronicled_record h hready hcross hstay

/-- A log after its calls: it has left one deposit for each volume but the last, which is in the active
file. -/
structure Filed (p : Policy) (volumes : List (String × Bytes)) (left : List Deposit) (w : Writer)
    (g : Chronicle) : Prop where
  opened : ∃ id, w.file = some ⟨.file id, []⟩ ∧ g.file = some id
  whole : p.compression.archive? ≠ none → g.whole = []
  split : ∃ before last, volumes = before ++ [(last, g.content)] ∧
    g.deposits = left ++ before.map p.deposit ∧ g.current.file = p.activeFileFor last

/-- **Call after call.**  All succeed, and the log is left as its volumes say. -/
theorem chronicled_writeAll {Q : List (Except Error Unit) × Writer → Chronicle → Prop}
    (h : Work.At p (instants entries) w g)
    (hready : p.compression.archive? ≠ none →
      ∀ v ∈ (p.volumes b.start g.content entries).dropLast, (p.deposit v).Ready)
    (hQ : ∀ w' g', Filed p (p.volumes b.start g.content entries) g.deposits w' g' →
      Q (entries.map fun _ => .ok (), w') g') : (writeAll entries w).Chronicled b Q g := by
  induction entries generalizing p w g Q with
  | nil =>
    refine hQ w g ⟨h.file, h.whole, [], p.lastName, rfl, (List.append_nil _).symm, ?_⟩
    exact h.laid.activeFile.symm
  | cons e rest ih =>
    -- what is known of the rest of the calls is known of all
    have hrest : ∀ w₁ g₁ (before : List (String × Bytes)),
        Work.At (p.after e.now.millis) (instants rest) w₁ g₁ →
        p.volumes b.start g.content (e :: rest) =
          before ++ (p.after e.now.millis).volumes b.start g₁.content rest →
        g₁.deposits = g.deposits ++ before.map p.deposit →
        (writeAll rest w₁).Chronicled b (fun r g => Q (.ok () :: r.1, r.2) g) g₁ := by
      intro w₁ g₁ before h₁ hvolumes hdeposits
      refine ih h₁ ?_ ?_
      · rw [Policy.compression_after, Policy.deposit_after]
        intro hnot v hv
        refine hready hnot v ?_
        rw [hvolumes, List.dropLast_append_of_ne_nil (Policy.volumes_ne_nil _ _ _ _)]
        exact List.mem_append_right _ hv
      · rintro w' g' ⟨hopened, hwhole, more, last, hsplit, hmore, hlast⟩
        rw [Policy.compression_after] at hwhole
        rw [Policy.deposit_after] at hmore
        rw [Policy.activeFileFor_after] at hlast
        refine hQ w' g' ⟨hopened, hwhole, before ++ more, last, ?_, ?_, hlast⟩
        · rw [hvolumes, hsplit, List.append_assoc]
        · rw [hmore, hdeposits, List.map_append, List.append_assoc]
    refine Routine.Leads.bind (chronicled_write h ?_ ?_ ?_)
    · intro hcross hnot
      refine hready hnot _ ?_
      rw [Policy.volumes, if_pos hcross, List.dropLast_cons_of_ne_nil (Policy.volumes_ne_nil _ _ _ _)]
      exact List.mem_cons_self
    · intro hcross w₁ g₁ h₁ hdeposits hcontent
      refine Routine.Leads.bind (hrest w₁ g₁ [(p.lastName, g.content)] h₁ ?_ hdeposits)
      rw [Policy.volumes, if_pos hcross, hcontent]
      rfl
    · intro hstay w₁ g₁ h₁ hdeposits hcontent
      refine Routine.Leads.bind
        (hrest w₁ g₁ [] h₁ ?_ (hdeposits.trans (List.append_nil _).symm))
      rw [Policy.volumes, if_neg (Bool.eq_false_iff.mp hstay), hcontent]
      rfl

/-! ## Closing -/

/-- Closing waits for the worker. -/
theorem chronicled_close {id : Nat} {Q : Except Error Unit × Writer → Chronicle → Prop}
    (hfile : w.file = some ⟨.file id, []⟩)
    (hQ : ∀ w', Q (.ok (), w') { g with settled := g.settled ++ g.handed, handed := [] }) :
    w.close.Chronicled b Q g := by
  have hclosed : Work.closeFile.Chronicled b (fun r w g =>
      Q (r, w) { g with settled := g.settled ++ g.handed, handed := [] }) w g :=
    Work.chronicled_closeFile hfile (hQ _)
  exact Routine.Leads.bind hclosed

/-- Opens a log, makes calls and closes the log.  Tells what came of each call, and of the closing. -/
def lifetime (p : Policy) (tail : Option LiveTail) (entries : List Entry) :
    Routine.Attempt Error (List (Except Error Unit) × Except Error Unit) := do
  let w ← ofPolicy p
  let (results, w) ← ExceptT.lift (writeAll entries { w with tail := tail })
  let (closed, _) ← ExceptT.lift w.close
  return (results, closed)

/-- A log that is closed: what it left is settled or whole. -/
structure Closed (p : Policy) (volumes : List (String × Bytes)) (g : Chronicle) : Prop where
  handed : g.handed = []
  opened : g.file ≠ none
  whole : p.compression.archive? ≠ none → g.whole = []
  split : ∃ before last, volumes = before ++ [(last, g.content)] ∧
    g.deposits = before.map p.deposit ∧ g.current.file = p.activeFileFor last

/-- **From the opening to the closing.**  All calls succeed, and the log is left as its volumes say. -/
theorem chronicled_lifetime (hlaid : p.Laid (instants entries) g) (hdeposits : g.deposits = [])
    (hready : p.compression.archive? ≠ none →
      ∀ v ∈ (p.volumes b.start g.content entries).dropLast, (p.deposit v).Ready) :
    Routine.Chronicled b (lifetime p tail entries).run (fun r g' =>
      r = .ok (entries.map fun _ => .ok (), .ok ()) ∧
        Closed p (p.volumes b.start g.content entries) g') g := by
  have hactive := hlaid.activeFile
  have hwhole : g.whole = [] := (List.append_eq_nil_iff.mp (List.append_eq_nil_iff.mp hdeposits).2).2
  -- the log is opened
  refine Routine.leads_attempt (Routine.leads_attempt (Routine.leads_adapt ?_))
  refine Routine.chronicled_openCurrent hactive fun id => ?_
  -- the calls are made
  refine Routine.leads_attempt (Routine.leads_lift ?_)
  refine chronicled_writeAll (p := p) (g := { g with file := some id })
    ⟨⟨rfl, rfl, ⟨id, rfl, rfl⟩, hlaid.congr rfl rfl rfl⟩, fun _ => hwhole⟩ hready ?_
  rintro w' g' ⟨⟨last, hlast, hid⟩, hwhole', hsplit⟩
  -- the log is closed
  refine Routine.leads_attempt (Routine.leads_lift (chronicled_close hlast fun w'' => ?_))
  refine ⟨rfl, rfl, ?_, hwhole', ?_⟩
  · show g'.file ≠ none
    rw [hid]
    exact Option.some_ne_none _
  · obtain ⟨before, name, hvolumes, hleft, hcurrent⟩ := hsplit
    refine ⟨before, name, hvolumes, ?_, hcurrent⟩
    have hnone : Chronicle.deposits { g with file := some id } = [] := hdeposits
    rw [hnone, List.nil_append] at hleft
    rw [← hleft]
    simp [Chronicle.deposits]

end Writer

/-! ## The start -/

/-- The chronicle of a log that is opened: all its places are still to come. -/
theorem Policy.exists_chronicle (p : Policy) (instants : List Int) (fs : FileSystem) :
    ∃ g : Chronicle, g.slots = p.places (p.periods instants) ∧ p.Laid instants g ∧
      g.deposits = [] ∧ g.file = none ∧ g.content = fs.bytesAt p.activeFile := by
  obtain ⟨more, hperiods⟩ := p.exists_periods instants
  cases hfixed : p.fixedFile with
  | none =>
    obtain ⟨t, later, hplaces, -⟩ := exists_places hfixed p.lastName more
    refine ⟨⟨[], [], [], [], t, later, none, _⟩, ?_, ?_, rfl, rfl, rfl⟩
    · rw [hperiods, hplaces]
      rfl
    · rw [Laid, hfixed, hperiods, hplaces]
      exact ⟨rfl, rfl⟩
  | some active =>
    refine ⟨⟨[], [], [], (p.periods instants).dropLast.map p.slotOf, ⟨active, none⟩, [], none, _⟩, ?_,
      ?_, rfl, rfl, rfl⟩
    · have hopen : ∀ name, p.activeFileFor name = active := by
        intro name
        rw [activeFileFor, hfixed]
        rfl
      simp [Chronicle.slots, Chronicle.deposits, Chronicle.coming, places, hopen, hperiods,
        List.getLast?_cons]
    · rw [Laid, hfixed]
      exact ⟨rfl, rfl, rfl⟩

namespace Chronicle

variable {b : Scene} {g : Chronicle} {fs : FileSystem} {others : List Path}

/-- Before anything is left, a chronicle tells of the files that are there. -/
theorem keeps_start (apart : (g.paths ++ others).Pairwise (Path.Apart fs.here))
    (tidy : fs.Tidy (g.paths ++ others)) (rooted : fs.Rooted) (hdeposits : g.deposits = [])
    (hfile : g.file = none) (hcontent : g.content = fs.bytesAt g.current.file) :
    World.Keeps ⟨fs, others⟩ g (.ofFiles fs) := by
  obtain ⟨hsettled, hrest⟩ := List.append_eq_nil_iff.mp hdeposits
  obtain ⟨hhanded, hwhole⟩ := List.append_eq_nil_iff.mp hrest
  refine ⟨[], [], rfl, .inl ⟨rfl, ⟨⟨⟨apart, tidy, rooted, ?_, ?_, ?_⟩, ?_, hcontent.symm, ?_⟩, hhanded, ?_, ?_⟩⟩⟩
  · rw [hsettled]
    exact fun d hd => absurd hd List.not_mem_nil
  · rw [hwhole]
    exact fun d hd => absurd hd List.not_mem_nil
  · exact fun x _ => .refl fs x
  · rw [hfile]
    exact fun id hid => absurd hid.symm (Option.some_ne_none id)
  · exact fun s _ => rfl
  · exact fun d hd => absurd hd List.not_mem_nil
  · exact fun d hd => absurd hd List.not_mem_nil

end Chronicle

/-! ## The end -/

namespace Writer

variable {b : Scene} {p : Policy} {g : Chronicle} {world : World} {volumes : List (String × Bytes)}

/-- What a closed log left is settled, whether the worker was handed it or not. -/
theorem Closed.settled (h : Closed p volumes g) (hkeeps : World.Keeps b g world) :
    ∀ v ∈ volumes.dropLast, (p.slotOf v.1).Settled v.2 world.files := by
  have htells := hkeeps.tells
  obtain ⟨before, last, hvolumes, hdeposits, -⟩ := h.split
  intro v hv
  rw [hvolumes, List.dropLast_concat] at hv
  have hmem : p.deposit v ∈ g.deposits := by
    rw [hdeposits]
    exact List.mem_map_of_mem hv
  rw [Chronicle.deposits, h.handed, List.nil_append] at hmem
  rcases List.mem_append.mp hmem with hsettled | hwhole
  · exact htells.settled _ hsettled
  · -- what was not handed over has no archive
    refine (htells.whole _ hwhole).settled (Option.map_eq_none_iff.mpr ?_)
    by_contra hnot
    rw [h.whole hnot] at hwhole
    cases hwhole

/-- The last period of a closed log is in the active file. -/
theorem Closed.last (h : Closed p volumes g) (hkeeps : World.Keeps b g world) :
    ∀ v ∈ volumes.getLast?, Slot.Settled ⟨p.activeFileFor v.1, none⟩ v.2 world.files := by
  have htells := hkeeps.tells
  obtain ⟨before, last, hvolumes, -, hcurrent⟩ := h.split
  obtain ⟨id, hid⟩ := Option.ne_none_iff_exists'.mp h.opened
  obtain ⟨-, hnode⟩ := htells.there id hid
  have hbytes := htells.bytes
  rw [FileSystem.bytesAt_of_file hnode] at hbytes
  intro v hv
  rw [hvolumes, List.getLast?_concat] at hv
  cases hv
  rw [hcurrent] at hnode
  exact ⟨id, hnode, hbytes⟩

/-- **Every record ends up in the file or archive of its own period.**  Let a log be opened on a format
that asks for no milliseconds, and let calls follow at instants that do not go back.  Let no name come
back after it was left, let the paths of the log be apart, and let nothing fail: every request succeeds,
and what is to go into an archive fits in.  Then, however the worker and the writer follow on each other,
all calls succeed; once the log is closed, each period that was left is at its place, in its archive
alone if there is one, and the last one is in the active file; and each holds what was there when it
began, and after that the records of its own name, in the order of their calls.  Other paths, such as the
archive of the last period, are left alone. -/
theorem records_in_own_period {localTime : LocalTime} {start : Int} {config : Config} {p : Policy}
    (tail : Option LiveTail) (entries : List Entry) (others : List Path) (fs : FileSystem)
    (c : Conditions) (hp : Policy.activate localTime config start = .ok p)
    (hS : 'S' ∉ DateFormat.unquoted p.template.dateFormat)
    (hpos : ∀ now ∈ instants entries, 0 ≤ now) (hsorted : (instants entries).Pairwise (· ≤ ·))
    (once : (p.visited (instants entries)).Nodup)
    (apart : ((p.places (p.visited (instants entries))).flatMap Slot.paths ++ others).Pairwise
      (Path.Apart fs.here))
    (tidy : fs.Tidy ((p.places (p.visited (instants entries))).flatMap Slot.paths ++ others))
    (rooted : fs.Rooted)
    (fits : ∀ format ∈ p.compression.archive?, ∀ name ∈ (p.visited (instants entries)).dropLast,
      (Action.archiveParts format (p.baseOf name)).2
        (p.share fs (fs.bytesAt p.activeFile) entries name) ≠ none)
    (quiet : c.Quiet) (smooth : World.smooth c (lifetime p tail entries).run (.ofFiles fs) = true) :
    let world := World.run c (lifetime p tail entries).run (.ofFiles fs)
    world.1 = .ok (entries.map fun _ => .ok (), .ok ()) ∧
      (∀ name ∈ (p.visited (instants entries)).dropLast, (p.slotOf name).Settled
        (p.share fs (fs.bytesAt p.activeFile) entries name) world.2.files) ∧
      (∀ name ∈ (p.visited (instants entries)).getLast?, Slot.Settled ⟨p.activeFileFor name, none⟩
        (p.share fs (fs.bytesAt p.activeFile) entries name) world.2.files) ∧
      ∀ x ∈ others, FileSystem.SameAt fs world.2.files x := by
  have hsteady := (Policy.activate_ok hp).steady hS hpos hsorted
  rw [← hsteady.periods_eq] at once apart tidy fits ⊢
  obtain ⟨g, hslots, hlaid, hdeposits, hfile, hcontent⟩ := p.exists_chronicle (instants entries) fs
  have hpaths : g.paths = (p.places (p.periods (instants entries))).flatMap Slot.paths :=
    congrArg (List.flatMap Slot.paths) hslots
  rw [← hpaths] at apart tidy
  have hvolumes : p.volumes fs (fs.bytesAt p.activeFile) entries = _ := hsteady.volumes_eq fs once
  have hready : p.compression.archive? ≠ none →
      ∀ v ∈ (p.volumes fs (fs.bytesAt p.activeFile) entries).dropLast, (p.deposit v).Ready := by
    intro hnot v hv
    obtain ⟨format, hformat⟩ := Option.ne_none_iff_exists'.mp hnot
    rw [hvolumes, ← List.map_dropLast] at hv
    obtain ⟨name, hname, rfl⟩ := List.mem_map.mp hv
    obtain ⟨more, hmore⟩ := Option.ne_none_iff_exists'.mp (fits format hformat name hname)
    refine ⟨format, ⟨name⟩, more, ?_, hmore⟩
    rw [Policy.deposit, Policy.slotOf, hformat]
    rfl
  rw [← hcontent] at hready hvolumes ⊢
  have hstart := Chronicle.keeps_start apart tidy rooted hdeposits hfile
    (hcontent.trans (congrArg fs.bytesAt hlaid.activeFile))
  obtain ⟨g', hend, hresult, hclosed⟩ := World.keeps_run quiet hstart
    (chronicled_lifetime (b := ⟨fs, others⟩) hlaid hdeposits hready) smooth
  rw [hvolumes] at hclosed
  refine ⟨hresult, ?_, ?_, hend.tells.others⟩
  · intro name hname
    refine hclosed.settled hend (name, _) ?_
    rw [← List.map_dropLast]
    exact List.mem_map_of_mem hname
  · intro name hname
    refine hclosed.last hend (name, _) ?_
    rw [List.getLast?_map, Option.mem_def.mp hname]
    rfl

/-- A log by the hour in a fixed file that held a byte before: the byte and the first record are in the
archive of the first hour, and the record of the last hour is in the fixed file, with no archive. -/
theorem records_in_own_period_by_hour : ∃ p,
    Policy.activate (.fixed 0) ⟨some "%d{HH}.gz", some ⟨"log"⟩, .utc⟩ 0 = .ok p ∧
    let world := World.run ⟨fun _ _ => none, fun _ => .epoch, (· % 3)⟩
      (lifetime p none
        [.raw [1] ⟨0, 0⟩, .raw [2] ⟨3600, 0⟩, .raw [3] ⟨3600, 5⟩, .raw [4] ⟨7200, 0⟩]).run
      (.ofFiles (FileSystem.blank.put ⟨"log"⟩ (some [9])))
    world.1 = .ok ([.ok (), .ok (), .ok (), .ok ()], .ok ()) ∧
      (p.slotOf "00.gz").Settled [9, 1] world.2.files ∧
      (p.slotOf "01.gz").Settled [2, 3] world.2.files ∧
      Slot.Settled ⟨⟨"log"⟩, none⟩ [4] world.2.files ∧
      ∀ x ∈ [⟨"02"⟩, ⟨"02.gz"⟩], world.2.files.nodeAt x = none := by
  have hp : Policy.activate (.fixed 0) ⟨some "%d{HH}.gz", some ⟨"log"⟩, .utc⟩ 0 = .ok
      ⟨⟨"%d{HH}.gz", [], "HH".toList, [.field (.hour .padded)], ".gz".toList, .utc, false⟩, .fixed 0,
        some ⟨"log"⟩, .gzip, "00.gz", 0⟩ := by rfl
  refine ⟨_, hp, ?_⟩
  obtain ⟨hresult, hleft, hlast, hothers⟩ := records_in_own_period none
    [.raw [1] ⟨0, 0⟩, .raw [2] ⟨3600, 0⟩, .raw [3] ⟨3600, 5⟩, .raw [4] ⟨7200, 0⟩] [⟨"02"⟩, ⟨"02.gz"⟩]
    (FileSystem.blank.put ⟨"log"⟩ (some [9])) ⟨fun _ _ => none, fun _ => .epoch, (· % 3)⟩ hp
    (by decide) (by decide) (by decide) (by decide) (by decide) (by decide)
    (FileSystem.rooted_of_nodes (by decide)) (by decide) (fun _ _ => rfl) (by rfl)
  refine ⟨hresult, hleft "00.gz" (by decide), hleft "01.gz" (by decide), hlast "02.gz" (by decide), ?_⟩
  intro x hx
  have hnone : ∀ x ∈ [(⟨"02"⟩ : Path), ⟨"02.gz"⟩],
      (FileSystem.blank.put ⟨"log"⟩ (some [9])).nodeAt x = none := by decide
  rw [(hothers x hx).node, hnone x hx]

end Writer

end LogRotation
