/-
  What a writer does to its files when nothing fails, told by the chronicle.

  Every request of a writer succeeds, so that each of its works goes one way: from a chronicle to one
  chronicle.  From the requests follows what opening, writing and closing lead to, and from these what
  a call leads to, with its rollover.

    * REQUESTS   one statement for each request of a writer;
    * FILES      making directories, opening a file at its end, writing through an empty buffer;
    * AT         a writer at the file of the present period;
    * CALLS      a call leaves the slot of a period that is over, or stays, and adds its record.

  Main statement: `chronicled_record`.
-/
import LogRotation.Proofs.Shifts
import LogRotation.Proofs.Volumes
import LogRotation.Proofs.Work

namespace LogRotation

/-! ## Requests of a writer -/

namespace Chronicle

variable {b : Scene} {g : Chronicle} {t : Slot} {x d : Path} {id : Nat} {rest : List Slot}

/-- Looking leads nowhere else. -/
theorem step_look {q : Request} {k : q.Reply → Chronicle → Prop} (hq : q.isLook = true)
    (hk : ∀ r, q.succeeds r = true → k r g) : g.Step b q k := by
  rw [step_file (Request.isFile_of_isLook hq)]
  intro fs htells hok
  have hserve : fs.Answers true q (fs.serve q).1 (fs.serve q).2 := .inl rfl
  refine ⟨g, ?_, hk _ hok⟩
  rw [hserve.unchanged hq]
  exact .refl htells

/-- The current file is found once it was opened. -/
theorem step_present {k : Bool → Chronicle → Prop} (hid : g.file = some id) (hk : k true g) :
    g.Step b (.present g.current.file) k := by
  intro fs htells _
  obtain ⟨hnamed, hnode⟩ := htells.there id hid
  have hpresent : (fs.serve (.present g.current.file)).1 = true := hnamed.present hnode
  rw [hpresent]
  exact ⟨g, .refl htells, hk⟩

theorem step_makeDirectory {k : Except IoError Unit → Chronicle → Prop} (ht : t ∈ g.coming)
    (hx : x ∈ t.paths) (hd : d ∈ x.above) (hk : ∀ r, k r g) : g.Step b (.makeDirectory d) k := by
  intro fs htells _
  rcases fs.served_makeDirectory d with hsame | ⟨fs', hmake, hserve⟩
  · refine ⟨g, ?_, hk _⟩
    rw [hsame]
    exact .refl htells
  · rw [hserve]
    exact ⟨g, moves_makeDirectory htells ht hx hd hmake, hk _⟩

/-- Opening at the end leads to the chronicle that it is known to lead to. -/
theorem step_openWrite {k : Except IoError Handle → Chronicle → Prop} {turned : Nat → Chronicle}
    (hopen : ∀ fs, g.Tells b fs → ∀ handle fs', fs.openWrite x true = .ok (handle, fs') →
      ∃ id, handle = .file id ∧ g.Moves b fs (turned id) fs')
    (hk : ∀ id, k (.ok (.file id)) (turned id)) : g.Step b (.openWrite x true) k := by
  intro fs htells hok
  obtain ⟨handle, fs', hsuccess, hserve⟩ := FileSystem.served_openWrite hok
  obtain ⟨id, rfl, hmoves⟩ := hopen fs htells handle fs' hsuccess
  rw [hserve]
  exact ⟨turned id, hmoves, hk id⟩

theorem step_write {k : Written → Chronicle → Prop} (hid : g.file = some id) (bytes : Bytes)
    (hk : k ⟨bytes.length, none⟩ { g with content := g.content ++ bytes }) :
    g.Step b (.write (.file id) bytes) k := by
  intro fs htells _
  exact ⟨_, moves_append htells hid bytes, hk⟩

theorem step_rename {k : Except IoError Unit → Chronicle → Prop} (hid : g.file = some id)
    (htargets : g.targets = t :: rest) (hlater : g.later = [])
    (hk : k (.ok ()) { g with
      whole := g.whole ++ [⟨t, g.content⟩], targets := rest, file := none, content := [] }) :
    g.Step b (.rename g.current.file t.file) k := by
  intro fs htells hok
  obtain ⟨fs', hrename, hserve⟩ := FileSystem.served_rename hok
  rw [hserve]
  exact ⟨_, moves_rename htells hid htargets hlater hrename, hk⟩

end Chronicle

/-! ## Files -/

namespace Routine

variable {α : Type} {b : Scene} {g : Chronicle} {t : Slot} {x : Path} {id : Nat}

/-- Holds of a program that, from a chronicle on, ends at a chronicle where something holds of its
result, as long as its requests succeed. -/
abbrev Chronicled (b : Scene) (r : Routine α) (Q : α → Chronicle → Prop) (g : Chronicle) : Prop :=
  r.Leads (Chronicle.regime b) Q g

/-- A program that asks one request. -/
theorem chronicled_request {q : Request} {Q : q.Reply → Chronicle → Prop} (h : g.Step b q Q) :
    (request q).Chronicled b Q g := h

theorem chronicled_reply {ε : Type} {q : Request} {Q : Except ε q.Reply → Chronicle → Prop}
    (h : g.Step b q fun r g => Q (.ok r) g) :
    Chronicled b (reply q : Attempt ε q.Reply).run Q g := leads_lift h

/-- Where there is nothing to do, nothing is done. -/
theorem chronicled_nothing {Q : Except Error Unit → Chronicle → Prop} (hQ : Q (.ok ()) g) :
    (Action.executeAll []).run.Chronicled b Q g := hQ

theorem chronicled_makeDirectories {ds : List Path} {Q : Except IoError Unit → Chronicle → Prop}
    (ht : t ∈ g.coming) (hx : x ∈ t.paths) (hds : ∀ d ∈ ds, d ∈ x.above) (hQ : Q (.ok ()) g) :
    (makeDirectories ds).run.Chronicled b Q g :=
  -- a directory that cannot be made is there
  leads_makeDirectories (· = true)
    (fun d hd _ hk => Chronicle.step_makeDirectory ht hx (hds d hd) hk)
    (fun d _ _ hk => Chronicle.step_look (q := .isDirectory d) rfl hk) hQ nofun

theorem chronicled_makeParents {Q : Except IoError Unit → Chronicle → Prop} (ht : t ∈ g.coming)
    (hx : x ∈ t.paths) (hQ : Q (.ok ()) g) : (makeParents x).run.Chronicled b Q g := by
  unfold makeParents
  split
  · rename_i parent hparent
    have habove : ∀ d ∈ parent.ancestors, d ∈ x.above := by
      intro d hd
      rw [Path.above, hparent]
      exact hd
    exact chronicled_makeDirectories ht hx habove hQ
  · exact hQ

/-- Opening a file at its end, after making the directories above it. -/
theorem chronicled_openAppend {turned : Nat → Chronicle} {Q : Except IoError Buffered → Chronicle → Prop}
    (ht : t ∈ g.coming)
    (hopen : ∀ fs, g.Tells b fs → ∀ handle fs', fs.openWrite t.file true = .ok (handle, fs') →
      ∃ id, handle = .file id ∧ g.Moves b fs (turned id) fs')
    (hQ : ∀ id, Q (.ok ⟨.file id, []⟩) (turned id)) : (openAppend t.file).run.Chronicled b Q g := by
  refine leads_attempt (chronicled_makeParents ht t.file_mem_paths ?_)
  refine leads_attempt (chronicled_request (q := .openWrite t.file true) ?_)
  exact Chronicle.step_openWrite hopen hQ

/-- The current file is opened. -/
theorem chronicled_openCurrent {Q : Except IoError Buffered → Chronicle → Prop}
    (hx : x = g.current.file) (hQ : ∀ id, Q (.ok ⟨.file id, []⟩) { g with file := some id }) :
    (openAppend x).run.Chronicled b Q g := by
  subst hx
  refine chronicled_openAppend Chronicle.current_mem_coming ?_ hQ
  intro fs htells handle fs' hopen
  exact Chronicle.moves_open htells hopen

/-- Bytes are added to an empty buffer: they are pending in it, or written already. -/
theorem chronicled_add (hid : g.file = some id) (bytes : Bytes)
    {Q : Except IoError Unit × Buffered → Chronicle → Prop}
    (hpending : Q (.ok (), ⟨.file id, bytes⟩) g)
    (hwritten : Q (.ok (), ⟨.file id, []⟩) { g with content := g.content ++ bytes }) :
    (Buffered.add ⟨.file id, []⟩ bytes).Chronicled b Q g := by
  have hempty : Buffered.flush ⟨.file id, []⟩ = done (.ok (), ⟨.file id, []⟩) := rfl
  simp only [Buffered.add, hempty, pure_eq, done_bind, ite_self]
  split
  · -- they fit into the buffer
    exact hpending
  · -- they are as many as the buffer takes, and pass it by
    exact Leads.bind (chronicled_request (Chronicle.step_write hid bytes hwritten))

theorem chronicled_flush (hid : g.file = some id) (bytes : Bytes)
    {Q : Except IoError Unit × Buffered → Chronicle → Prop}
    (hwritten : Q (.ok (), ⟨.file id, []⟩) { g with content := g.content ++ bytes }) :
    (Buffered.flush ⟨.file id, bytes⟩).Chronicled b Q g := by
  unfold Buffered.flush
  split
  · rename_i hempty
    have hnil : bytes = [] := List.isEmpty_iff.mp hempty
    subst hnil
    rw [List.append_nil] at hwritten
    exact hwritten
  · refine Leads.bind (chronicled_request (Chronicle.step_write hid bytes ?_))
    show Q (.ok (), ⟨.file id, bytes.drop bytes.length⟩) _
    rw [List.drop_length]
    exact hwritten

end Routine

/-! ## Work -/

namespace Policy

variable {p : Policy} {now : Int} {g : Chronicle}

/-- Where a log is after it went through periods: at the slots of those that it left, and at the active
file of the last one. -/
def places (p : Policy) (names : List String) : List Slot :=
  names.dropLast.map p.slotOf ++ names.getLast?.toList.map fun name => ⟨p.activeFileFor name, none⟩

theorem places_cons (p : Policy) (name : String) {names : List String} (h : names ≠ []) :
    p.places (name :: names) = p.slotOf name :: p.places names := by
  rw [places, List.dropLast_cons_of_ne_nil h, List.getLast?_cons_of_ne_nil h]
  rfl

/-- Without a fixed active file, a log is at the file of its first period first. -/
theorem exists_places (h : p.fixedFile = none) (name : String) (names : List String) :
    ∃ t later, p.places (name :: names) = t :: later ∧ t.file = p.activeFileFor name := by
  by_cases hnil : names = []
  · rw [hnil]
    exact ⟨_, [], rfl, rfl⟩
  · refine ⟨p.slotOf name, p.places names, p.places_cons name hnil, ?_⟩
    rw [activeFileFor, h]
    rfl

theorem places_after (p : Policy) (now : Int) : (p.after now).places = p.places := by
  unfold after
  split <;> rfl

/-- The slots for the periods to come: those that are to be current or, with a fixed active file, those
that it is to be moved to. -/
def Laid (p : Policy) (instants : List Int) (g : Chronicle) : Prop :=
  match p.fixedFile with
  | none => g.targets = [] ∧ g.current :: g.later = p.places (p.periods instants)
  | some active => g.current = ⟨active, none⟩ ∧ g.later = [] ∧
      g.targets = (p.periods instants).dropLast.map p.slotOf

/-- The current slot is that of the active file. -/
theorem Laid.activeFile {instants : List Int} (h : p.Laid instants g) :
    p.activeFile = g.current.file := by
  unfold Laid at h
  split at h
  · rename_i hfixed
    obtain ⟨more, hperiods⟩ := p.exists_periods instants
    obtain ⟨t, later, hplaces, hfile⟩ := exists_places hfixed p.lastName more
    rw [hperiods, hplaces] at h
    rw [(List.cons.inj h.2).1, hfile]
    rfl
  · rename_i active hfixed
    rw [activeFile_of_fixed hfixed, h.1]

theorem Laid.congr {g' : Chronicle} {instants : List Int} (h : p.Laid instants g)
    (htargets : g'.targets = g.targets) (hcurrent : g'.current = g.current)
    (hlater : g'.later = g.later) : p.Laid instants g' := by
  unfold Laid at h ⊢
  rw [htargets, hcurrent, hlater]
  exact h

/-- A call that stays in its period leaves the slots where they are. -/
theorem Laid.stay {rest : List Int} (h : p.Laid (now :: rest) g)
    (hstay : (p.isDue now && p.isOver now) = false) : (p.after now).Laid rest g := by
  have hperiods : p.periods (now :: rest) = (p.after now).periods rest := by
    rw [periods, hstay]
    rfl
  unfold Laid at h ⊢
  rw [fixedFile_after, slotOf_after, places_after, ← hperiods]
  exact h

end Policy

namespace Writer.Work

variable {α : Type} {b : Scene} {p : Policy} {w : Writer} {g : Chronicle} {now : Int}
variable {instants rest : List Int} {id : Nat}

/-- Holds of work that, from a writer and a chronicle on, ends with a writer and at a chronicle where
something holds of its result, as long as its requests succeed. -/
abbrev Chronicled (b : Scene) (x : Work α) (Q : Except Error α → Writer → Chronicle → Prop)
    (w : Writer) (g : Chronicle) : Prop :=
  x.Leads (Chronicle.regime b) Q w g

/-- A writer at the file of the present period, with nothing pending. -/
structure Opened (p : Policy) (instants : List Int) (w : Writer) (g : Chronicle) : Prop where
  policy : w.policy = p
  path : w.path = p.activeFile
  file : ∃ id, w.file = some ⟨.file id, []⟩ ∧ g.file = some id
  laid : p.Laid instants g

/-- A writer between two calls: what has an archive was handed to the worker. -/
structure At (p : Policy) (instants : List Int) (w : Writer) (g : Chronicle) : Prop
    extends Opened p instants w g where
  whole : p.compression.archive? ≠ none → g.whole = []

theorem chronicled_closeFile {Q : Except Error Unit → Writer → Chronicle → Prop}
    (hfile : w.file = some ⟨.file id, []⟩) (hQ : Q (.ok ()) { w with file := none } g) :
    closeFile.Chronicled b Q w g := by
  refine Leads.bind (leads_get ?_)
  dsimp only
  rw [hfile]
  refine Leads.bind (leads_modify (Leads.bind (leads_ofRoutine ?_)))
  refine Leads.bind (leads_ofRoutine ?_)
  exact Routine.chronicled_request (Chronicle.step_look (q := .close _) rfl fun _ _ => hQ)

/-- Bytes are added to the current file. -/
theorem chronicled_append {Q : Except Error Unit → Writer → Chronicle → Prop} (bytes : Bytes)
    (hfile : w.file = some ⟨.file id, []⟩) (hid : g.file = some id)
    (hQ : Q (.ok ()) w { g with content := g.content ++ bytes }) :
    (append bytes).Chronicled b Q w g := by
  have hsame : { w with file := some ⟨.file id, []⟩ } = w := by rw [← hfile]
  rw [← hsame] at hQ
  refine Leads.bind (Leads.bind (leads_get ?_))
  dsimp only
  rw [hfile]
  refine leads_pure (Leads.bind (leads_ofRoutine (Routine.chronicled_add hid bytes ?_ ?_)))
  · -- the bytes are pending, and are written when the buffer is flushed
    refine Leads.bind (leads_keepFile (Leads.bind (Leads.bind (leads_get ?_))))
    refine leads_pure (Leads.bind (leads_ofRoutine (Routine.chronicled_flush hid bytes ?_)))
    exact leads_keepFile hQ
  · -- the bytes were written, and nothing is left for the flush
    refine Leads.bind (leads_keepFile (Leads.bind (Leads.bind (leads_get ?_))))
    refine leads_pure (Leads.bind (leads_ofRoutine (Routine.chronicled_flush
      (g := { g with content := g.content ++ bytes }) hid [] ?_)))
    refine leads_keepFile ?_
    rw [List.append_nil]
    exact hQ

/-! ## Rollovers -/

/-- Moving the current file to the slot of the period that is over. -/
theorem chronicled_moves {active : Path} {t : Slot} {more : List Slot}
    {Q : Except Error Unit → Chronicle → Prop} (hid : g.file = some id)
    (hcurrent : g.current = ⟨active, none⟩) (hlater : g.later = []) (htargets : g.targets = t :: more)
    (hQ : Q (.ok ()) { g with
      whole := g.whole ++ [⟨t, g.content⟩], targets := more, file := none, content := [] }) :
    (Action.executeAll [.rename active t.file true]).run.Chronicled b Q g := by
  have hfile : active = g.current.file := by rw [hcurrent]
  have ht : t ∈ g.coming := by
    rw [Chronicle.coming, htargets]
    simp
  rw [hfile]
  refine Routine.leads_attempt (Routine.leads_attempt (Routine.chronicled_reply ?_))
  refine Chronicle.step_present hid ?_
  refine Routine.leads_attempt (Routine.leads_adapt ?_)
  refine Routine.chronicled_makeParents ht t.file_mem_paths ?_
  refine Routine.leads_attempt (Routine.leads_lift (Routine.chronicled_request
    (q := .rename g.current.file t.file) ?_))
  exact Chronicle.step_rename hid htargets hlater hQ

/-- What has been left with an archive to be made is handed to the worker. -/
theorem chronicled_submit {Q : Except Error Unit → Writer → Chronicle → Prop} {d : Deposit}
    {whole : List Deposit} (hwhole : g.whole = whole ++ [d])
    (hnone : d.slot.archive ≠ none → whole = []) (hready : d.slot.archive ≠ none → d.Ready)
    (hQ : ∀ g', g'.deposits = g.deposits → g'.targets = g.targets → g'.current = g.current →
      g'.later = g.later → g'.file = g.file → g'.content = g.content →
      (d.slot.archive ≠ none → g'.whole = []) → Q (.ok ()) w g') :
    Chronicled b (unless d.slot.archiving.isEmpty do
      ofRoutine (Routine.request (.submit d.slot.archiving))) Q w g := by
  by_cases harchive : d.slot.archive = none
  · have hempty : d.slot.archiving.isEmpty = true := by
      unfold Slot.archiving
      rw [harchive]
      rfl
    rw [if_pos hempty]
    exact hQ g rfl rfl rfl rfl rfl rfl fun hnot => absurd harchive hnot
  · have hone : g.whole = [d] := by rw [hwhole, hnone harchive, List.nil_append]
    obtain ⟨a, ha⟩ := World.archiving_of_ready (hready harchive)
    have hempty : ¬ d.slot.archiving.isEmpty = true := by
      rw [ha]
      exact Bool.false_ne_true
    rw [if_neg hempty]
    refine leads_ofRoutine ⟨?_, ?_, hQ _ ?_ rfl rfl rfl rfl rfl fun _ => rfl⟩
    · rw [hone, List.flatMap_singleton]
    · intro e he
      rw [hone] at he
      rw [List.mem_singleton.mp he]
      exact hready harchive
    · simp [Chronicle.deposits]

/-- The file of the next slot is opened, and the current one is left with what it holds. -/
theorem chronicled_openNext {t : Slot} {later : List Slot} {x : Path}
    {Q : Except Error Unit → Writer → Chronicle → Prop} (hid : g.file = some id)
    (htargets : g.targets = []) (hlater : g.later = t :: later) (hx : x = t.file)
    (hQ : ∀ new, Q (.ok ()) { w with file := some ⟨.file new, []⟩, path := x }
      { g with
        whole := g.whole ++ [⟨g.current, g.content⟩]
        current := t, later := later, file := some new, content := b.start.bytesAt t.file }) :
    (openFile x).Chronicled b Q w g := by
  subst hx
  have ht : t ∈ g.later := by
    rw [hlater]
    exact List.mem_cons_self
  refine leads_openFile (Routine.chronicled_openAppend (Chronicle.later_mem_coming ht) ?_ hQ)
  intro fs htells handle fs' hopen
  exact Chronicle.moves_turn htells hid htargets hlater hopen

/-- The file of the next period is opened, after the file of the last one was moved if it must be. -/
theorem chronicled_arrive {k : Work Unit} {Q : Except Error Unit → Writer → Chronicle → Prop}
    (hdue : p.isDue now = true) (hover : p.isOver now = true) (hlaid : p.Laid (now :: rest) g)
    (hid : g.file = some id) (hpolicy : w.policy = p.looked now)
    (hk : ∀ w' g', Opened (p.looked now) rest w' g' →
      g'.whole = g.whole ++ [⟨p.slotOf p.lastName, g.content⟩] →
      g'.deposits = g.deposits ++ [⟨p.slotOf p.lastName, g.content⟩] →
      g'.content = p.fresh b.start (p.nameAt now) → k.Chronicled b Q w' g') :
    Chronicled b (do
      let moved ← ofRoutine (Action.executeAll (p.rollover now true).1.before).run
      openFile (p.looked now).activeFile
      ofExcept moved
      k) Q w g := by
  refine Leads.bind (leads_ofRoutine ?_)
  cases hfixed : p.fixedFile with
  | none =>
    have hbefore : (p.rollover now true).1.before = [] := by
      rw [Policy.rollover_of_over hover, hfixed]
    obtain ⟨more, hperiods⟩ := (p.looked now).exists_periods rest
    obtain ⟨t, later, hplaces, hfile⟩ := Policy.exists_places hfixed (p.looked now).lastName more
    have hactive : (p.looked now).activeFile = t.file := hfile.symm
    rw [Policy.Laid, hfixed, Policy.periods_of_over hdue hover, hperiods,
      p.places_cons _ (List.cons_ne_nil _ _), hplaces] at hlaid
    obtain ⟨htargets, hslots⟩ := hlaid
    obtain ⟨hcurrent, hlater⟩ := List.cons.inj hslots
    rw [hbefore]
    refine Routine.chronicled_nothing ?_
    refine Leads.bind (chronicled_openNext hid htargets hlater hactive fun new => ?_)
    refine Leads.bind (leads_ofExcept (hk _ _ ⟨hpolicy, rfl, ⟨new, rfl, rfl⟩, ?_⟩ ?_ ?_ ?_))
    · rw [Policy.Laid, show (p.looked now).fixedFile = none from hfixed, hperiods]
      exact ⟨htargets, hplaces.symm⟩
    · rw [hcurrent]
    · rw [hcurrent]
      simp [Chronicle.deposits]
    · have hname : (p.looked now).lastName = p.nameAt now := rfl
      rw [hfile, hname, Policy.fresh_of_derived hfixed]
  | some active =>
    have hbefore : (p.rollover now true).1.before =
        [.rename active (p.slotOf p.lastName).file true] := by
      rw [Policy.rollover_of_over hover, hfixed]
      rfl
    have hactive : (p.looked now).activeFile = active := Policy.activeFile_of_fixed hfixed
    obtain ⟨more, hperiods⟩ := (p.looked now).exists_periods rest
    rw [Policy.Laid, hfixed, Policy.periods_of_over hdue hover, hperiods,
      List.dropLast_cons_of_ne_nil (List.cons_ne_nil _ _), List.map_cons] at hlaid
    obtain ⟨hcurrent, hlater, htargets⟩ := hlaid
    have hfile : (p.looked now).activeFile = g.current.file := by rw [hactive, hcurrent]
    rw [hbefore]
    refine chronicled_moves hid hcurrent hlater htargets ?_
    refine Leads.bind (leads_openFile (Routine.chronicled_openCurrent hfile fun new => ?_))
    refine Leads.bind (leads_ofExcept (hk _ _ ⟨hpolicy, rfl, ⟨new, rfl, rfl⟩, ?_⟩ rfl ?_ ?_))
    · rw [Policy.Laid, show (p.looked now).fixedFile = some active from hfixed, hperiods]
      exact ⟨hcurrent, hlater, rfl⟩
    · simp [Chronicle.deposits]
    · exact (Policy.fresh_of_fixed hfixed b.start _).symm

/-- **A rollover.**  The slot of the period that is over is left with what the current file holds, and
the next period begins with what was at its file, or with nothing in a fixed active file. -/
theorem chronicled_crossing {Q : Except Error Unit → Writer → Chronicle → Prop}
    (hdue : p.isDue now = true) (hover : p.isOver now = true) (h : At p (now :: rest) w g)
    (hready : p.compression.archive? ≠ none → Deposit.Ready ⟨p.slotOf p.lastName, g.content⟩)
    (hQ : ∀ w' g', At (p.looked now) rest w' g' →
      g'.deposits = g.deposits ++ [⟨p.slotOf p.lastName, g.content⟩] →
      g'.content = p.fresh b.start (p.nameAt now) → Q (.ok ()) w' g') :
    Chronicled b (do
      closeFile
      let moved ← ofRoutine (Action.executeAll (p.rollover now true).1.before).run
      openFile (p.rollover now true).1.activeFile
      ofExcept moved
      unless (p.rollover now true).1.background.isEmpty do
        ofRoutine (Routine.request (.submit (p.rollover now true).1.background))) Q
      { w with policy := p.looked now } g := by
  obtain ⟨id, hfile, hid⟩ := h.file
  have harchive : (p.slotOf p.lastName).archive ≠ none → p.compression.archive? ≠ none := by
    intro hnot hnone
    exact hnot (by rw [Policy.slotOf, hnone]; rfl)
  have hactive : (p.rollover now true).1.activeFile = (p.looked now).activeFile := by
    rw [Policy.rollover_of_over hover]
  have hbackground : (p.rollover now true).1.background = (p.slotOf p.lastName).archiving := by
    rw [Policy.rollover_of_over hover, if_pos rfl, p.archiving_eq]
  rw [hactive, hbackground]
  refine Leads.bind (chronicled_closeFile hfile ?_)
  refine chronicled_arrive hdue hover h.laid hid rfl ?_
  -- the next file is open, and the deposit is handed to the worker
  intro w₁ g₁ h₁ hwhole hdeposits hcontent
  refine chronicled_submit (d := ⟨p.slotOf p.lastName, g.content⟩) hwhole ?_ ?_ ?_
  · intro hnot
    exact h.whole (harchive hnot)
  · intro hnot
    exact hready (harchive hnot)
  · intro g' hdeposits' htargets' hcurrent' hlater' hid' hcontent' hwhole'
    obtain ⟨new, hnew, hid₁⟩ := h₁.file
    refine hQ w₁ g' ⟨⟨h₁.policy, h₁.path, ⟨new, hnew, hid'.trans hid₁⟩,
      h₁.laid.congr htargets' hcurrent' hlater'⟩, ?_⟩ (hdeposits'.trans hdeposits)
      (hcontent'.trans hcontent)
    intro hnot
    refine hwhole' fun hnone => hnot ?_
    exact Option.map_eq_none_iff.mp hnone

/-- A look finds the file of a period that is over. -/
theorem chronicled_consult {Q : Except Error Rollover → Writer → Chronicle → Prop}
    (h : At p instants w g)
    (hover : p.isOver now = true → Q (.ok (p.rollover now true).1) { w with policy := p.looked now } g)
    (hsame : p.isOver now = false → Q (.ok (p.rollover now false).1) { w with policy := p.looked now } g) :
    (consult now).Chronicled b Q w g := by
  obtain ⟨id, -, hid⟩ := h.file
  refine leads_consult ?_ ?_ <;> rw [h.policy]
  · intro hcrossed
    rw [h.laid.activeFile]
    exact Chronicle.step_present
      (k := fun written g => Q (.ok (p.rollover now written).1) { w with policy := p.looked now } g)
      hid (hover hcrossed)
  · exact hsame

/-- Before a record the policy looks, if it is due, and what it finds is followed. -/
theorem chronicled_roll {Q : Except Error Unit → Writer → Chronicle → Prop}
    (h : At p (now :: rest) w g)
    (hready : (p.isDue now && p.isOver now) = true → p.compression.archive? ≠ none →
      Deposit.Ready ⟨p.slotOf p.lastName, g.content⟩)
    (hcross : (p.isDue now && p.isOver now) = true → ∀ w' g', At (p.after now) rest w' g' →
      g'.deposits = g.deposits ++ [⟨p.slotOf p.lastName, g.content⟩] →
      g'.content = p.fresh b.start (p.nameAt now) → Q (.ok ()) w' g')
    (hstay : (p.isDue now && p.isOver now) = false → ∀ w', At (p.after now) rest w' g →
      Q (.ok ()) w' g) : (roll now).Chronicled b Q w g := by
  refine Leads.bind (leads_get ?_)
  dsimp only
  rw [h.policy]
  split
  · -- a look is due
    rename_i hdue
    have hafter : p.after now = p.looked now := if_pos hdue
    rw [hafter] at hcross
    refine Leads.bind (chronicled_consult h (fun hover => ?_) fun hover => ?_)
    · -- a period is over
      have hboth : (p.isDue now && p.isOver now) = true := by rw [hdue, hover]; rfl
      have hcrossed : (p.rollover now true).1.crossed = true := by
        rw [Policy.rollover_of_over hover]
      dsimp only
      rw [if_pos hcrossed]
      exact chronicled_crossing hdue hover h (hready hboth) (hcross hboth)
    · -- no period is over, and the file is the active one
      have hboth : (p.isDue now && p.isOver now) = false := by rw [hdue, hover]; rfl
      have hsame : p.nameAt now = p.lastName := bne_eq_false_iff_eq.mp hover
      have hfile : (p.looked now).activeFile = p.activeFile := by
        show p.activeFileFor (p.nameAt now) = p.activeFileFor p.lastName
        rw [hsame]
      have hlaid := h.laid.stay hboth
      rw [Policy.rollover_of_same hsame, hfile]
      dsimp only
      rw [if_neg Bool.false_ne_true]
      refine Leads.bind (leads_get ?_)
      dsimp only
      rw [if_neg (by rw [h.path]; exact fun hnot => hnot rfl)]
      rw [hafter] at hstay hlaid
      exact hstay hboth _ ⟨⟨rfl, h.path.trans hfile.symm, h.file, hlaid⟩, h.whole⟩
  · rename_i hdue
    have hboth : (p.isDue now && p.isOver now) = false := by
      rw [Bool.eq_false_iff.mpr hdue]
      rfl
    have hlaid := h.laid.stay hboth
    have hafter : p.after now = p := if_neg hdue
    rw [hafter] at hlaid hstay
    exact hstay hboth w ⟨⟨h.policy, h.path, h.file, hlaid⟩, h.whole⟩

/-- **One record.**  It is added to the current file, which after a rollover is that of the next
period. -/
theorem chronicled_record {bytes : Bytes} {Q : Except Error Unit → Writer → Chronicle → Prop}
    (h : At p (now :: rest) w g)
    (hready : (p.isDue now && p.isOver now) = true → p.compression.archive? ≠ none →
      Deposit.Ready ⟨p.slotOf p.lastName, g.content⟩)
    (hcross : (p.isDue now && p.isOver now) = true → ∀ w' g', At (p.after now) rest w' g' →
      g'.deposits = g.deposits ++ [⟨p.slotOf p.lastName, g.content⟩] →
      g'.content = p.fresh b.start (p.nameAt now) ++ bytes → Q (.ok ()) w' g')
    (hstay : (p.isDue now && p.isOver now) = false → ∀ w' g', At (p.after now) rest w' g' →
      g'.deposits = g.deposits → g'.content = g.content ++ bytes → Q (.ok ()) w' g') :
    (record now bytes).Chronicled b Q w g := by
  -- what was written after the rollover is at the end of the current file
  have hwritten : ∀ w₁ g₁, At (p.after now) rest w₁ g₁ →
      (∀ w' g', At (p.after now) rest w' g' → g'.deposits = g₁.deposits →
        g'.content = g₁.content ++ bytes → Q (.ok ()) w' g') →
      Chronicled b (do append bytes; showRecord (Bytes.text? bytes)) Q w₁ g₁ := by
    intro w₁ g₁ h₁ hQ
    obtain ⟨id, hfile, hid⟩ := h₁.file
    refine Leads.bind (chronicled_append bytes hfile hid ?_)
    refine leads_showRecord fun tail => ?_
    exact hQ _ _ ⟨⟨h₁.policy, h₁.path, ⟨id, hfile, hid⟩, h₁.laid.congr rfl rfl rfl⟩, h₁.whole⟩ rfl rfl
  refine Leads.bind (chronicled_roll h hready ?_ ?_)
  · intro hboth w₁ g₁ h₁ hdeposits hcontent
    refine hwritten w₁ g₁ h₁ fun w' g' h' hdeposits' hcontent' => ?_
    refine hcross hboth w' g' h' (hdeposits'.trans hdeposits) ?_
    rw [hcontent', hcontent]
  · intro hboth w₁ h₁
    exact hwritten w₁ g h₁ (hstay hboth)

end Writer.Work

end LogRotation
