/-
  The first record of a log is filed by the time at which it is written.

  A policy that was just put to use looks at the clock with the first record, whatever the time is, as
  long as that is not before 1970: only then the start of 1970, from which on it is due, lies ahead.  So a
  first record from 1970 on finds the policy at the period of its own time, and what is to be done for
  the period in which the log was opened is done before it; an earlier one is taken for a record of the
  time at which the log was opened.

    * READY    a writer that holds nothing back, with its file open;
    * TURNED   what the look before a record leads to, whatever fails;
    * FILED    what a call leads to: its record is in the file to which the look has led.

  Main statement: `first_record_filed`.
-/
import LogRotation.Proofs.Transcripts

namespace LogRotation

variable {c : Conditions}

namespace Writer.Work

variable {waits : Bool} {w : Writer} {s : Stage} {h : Handle}

/-- Holds of a writer that holds nothing back, and whose file was opened at its path and is still there. -/
structure Ready (waits : Bool) (w : Writer) (s : Stage) (h : Handle) : Prop where
  file : w.file = some ⟨h, []⟩
  opened : ⟨.openWrite w.path true, .ok h⟩ ∈ s.asked
  there : s.Alone waits → s.files.OpenAt w.path h

/-- A record that is appended is taken by the file at the path of the writer. -/
theorem staged_append (hready : Ready waits w s h) (bytes : Bytes) :
    (append bytes).Leads (.staged waits) (fun r w' s' => r = .ok () → w'.policy = w.policy ∧
      w'.path = w.path ∧ s.Quietly s' ∧ s'.Took waits w.path h bytes) w s := by
  refine Leads.bind (Leads.bind (leads_get ?_))
  dsimp only
  rw [hready.file]
  refine leads_pure (Leads.bind (leads_ofRoutine ((Buffered.staged_add hready.there bytes).mono ?_)))
  rintro ⟨r, f⟩ s₁ ⟨hquiet, hadded⟩
  refine Leads.bind (leads_keepFile ?_)
  cases r with
  | error e => exact nofun
  | ok u =>
    -- the same file is flushed
    refine Leads.bind (Leads.bind (leads_get ?_))
    refine leads_pure (Leads.bind (leads_ofRoutine ?_))
    rcases hadded rfl with ⟨hf, rfl⟩ | ⟨hf, htook⟩
    · have hf : f = ⟨h, bytes⟩ := hf
      rw [hf]
      refine (Buffered.staged_flush hready.there bytes).mono ?_
      rintro ⟨r, f'⟩ s₂ ⟨hquiet, htook⟩
      refine leads_keepFile fun hok => ⟨rfl, rfl, hquiet, htook ?_⟩
      cases r with
      | error e => cases hok
      | ok u => rfl
    · have hf : f = ⟨h, []⟩ := hf
      rw [hf]
      refine (Buffered.leads_idle h).mono ?_
      rintro r s₂ ⟨rfl, rfl⟩
      exact leads_keepFile fun _ => ⟨rfl, rfl, hquiet, htook⟩

/-! ## Rolling over -/

/-- A file in which nothing is pending is closed, and that is all. -/
theorem staged_closeFile (hfile : w.file = some ⟨h, []⟩) : closeFile.Leads (.staged waits)
    (fun _ w' s' => w' = { w with file := none } ∧ s.Quietly s') w s := by
  refine Leads.bind (leads_get ?_)
  dsimp only
  rw [hfile]
  refine Leads.bind (leads_modify (Leads.bind (leads_ofRoutine ((Buffered.leads_idle h).mono ?_))))
  rintro r s₁ ⟨rfl, rfl⟩
  refine Leads.bind (leads_ofRoutine ?_)
  rw [Buffered.release, Buffered.flush_of_empty rfl]
  intro r files _ _
  exact ⟨rfl, s₁.quietly_ask files (q := .close h) rfl r⟩

/-- A file that is opened makes a writer ready. -/
theorem staged_openFile (x : Path) : (openFile x).Leads (.staged waits) (fun r w' s' => s.Quietly s' ∧
    (r = .ok () → w'.policy = w.policy ∧ w'.path = x ∧ ∃ h, Ready waits w' s' h)) w s := by
  refine leads_openFile ((Routine.staged_openAppend x s).mono ?_)
  rintro r s' ⟨hquiet, hopened⟩
  cases r with
  | error e => exact ⟨hquiet, nofun⟩
  | ok f =>
    obtain ⟨hempty, hasked, hthere⟩ := hopened f rfl
    refine ⟨hquiet, fun _ => ⟨rfl, rfl, f.handle, ?_, hasked, hthere⟩⟩
    rw [← hempty]

/-- Holds of what was asked when the period of a policy was brought to its end: its file was looked for, a
fixed active file was moved to its name, and what becomes of a file that was found was handed to the
background. -/
def Concluded (p : Policy) (asked : List Exchange) : Prop :=
  ∃ written more, asked = ⟨.present p.activeFile, written⟩ :: more ∧
    (∀ active, p.fixedFile = some active → ⟨.rename active (p.baseOf p.lastName), .ok ()⟩ ∈ more) ∧
    handedOver more = if written = true ∧ p.archiving ≠ [] then [p.archiving] else []

/-- Behind what was asked there is room for more that hands nothing over. -/
theorem Concluded.append {p : Policy} {asked more : List Exchange} (h : Concluded p asked)
    (hmore : handedOver more = []) : Concluded p (asked ++ more) := by
  obtain ⟨written, rest, rfl, hgranted, hhanded⟩ := h
  refine ⟨written, rest ++ more, rfl, fun active hactive =>
    List.mem_append_left _ (hgranted active hactive), ?_⟩
  rw [handedOver_append, hmore, List.append_nil, hhanded]

/-- What a rollover asks for concludes the period, behind the look for its file. -/
theorem concluded_of_rollover {p : Policy} {now : Int} {written : Bool} {new : List Exchange}
    (hover : p.isOver now = true)
    (hgranted : ∀ active target, (p.rollover now written).1.before = [.rename active target true] →
      ⟨.rename active target, .ok ()⟩ ∈ new)
    (hhanded : handedOver new = if (p.rollover now written).1.background = [] then []
      else [(p.rollover now written).1.background]) :
    Concluded p (⟨.present p.activeFile, written⟩ :: new) := by
  rw [Policy.rollover_of_over hover] at hgranted hhanded
  dsimp only at hgranted hhanded
  refine ⟨written, new, rfl, fun active hactive => hgranted _ _ ?_, ?_⟩
  · rw [hactive]
  · rw [hhanded]
    cases written with
    | false => rfl
    | true => by_cases hnone : p.archiving = [] <;> simp [hnone]

/-- Holds of what was asked where a policy was told of an instant: if its period is found to be over, the
period was concluded, and else nothing was handed over. -/
def Attended (p : Policy) (now : Int) (asked : List Exchange) : Prop :=
  if p.isDue now = true ∧ p.isOver now = true then Concluded p asked else handedOver asked = []

theorem Attended.append {p : Policy} {now : Int} {asked more : List Exchange} (h : Attended p now asked)
    (hmore : handedOver more = []) : Attended p now (asked ++ more) := by
  unfold Attended at h ⊢
  split
  · rename_i hcross
    rw [if_pos hcross] at h
    exact h.append hmore
  · rename_i hcross
    rw [if_neg hcross] at h
    rw [handedOver_append, h, hmore]
    rfl

/-- What a look leads to that leads to no failure. -/
structure Turned (waits : Bool) (w : Writer) (now : Int) (s : Stage) (w' : Writer) (s' : Stage) : Prop where
  policy : w'.policy = w.policy.after now
  path : w'.path = w'.policy.activeFile
  ready : ∃ h, Ready waits w' s' h
  asked : ∃ new, s'.asked = s.asked ++ new ∧ Attended w.policy now new

/-- What stands before the opening of a new file: nothing, or a move that is granted. -/
theorem staged_moves {before : List Action}
    (hbefore : before = [] ∨ ∃ active target, before = [.rename active target true]) (s : Stage) :
    Routine.Leads (.staged waits) (Action.executeAll before).run (fun r s' =>
      ∃ new, s'.asked = s.asked ++ new ∧ handedOver new = [] ∧ (r = .ok () →
        ∀ active target, before = [.rename active target true] → ⟨.rename active target, .ok ()⟩ ∈ new)) s := by
  rcases hbefore with rfl | ⟨active, target, rfl⟩
  · exact ⟨[], (List.append_nil _).symm, rfl, fun _ _ _ => nofun⟩
  · refine (Action.staged_move active target s).mono ?_
    rintro r s' ⟨new, hnew, hnone, hgranted⟩
    refine ⟨new, hnew, hnone, ?_⟩
    rintro hok _ _ ⟨⟩
    exact hgranted hok

/-- Actions that are handed to the background are all that is handed over, and the file stays open. -/
theorem staged_submit (hready : Ready waits w s h) (actions : List Action) :
    Leads (.staged waits) (unless actions.isEmpty do ofRoutine (Routine.request (.submit actions)))
      (fun _ w' s' => w' = w ∧ Ready waits w s' h ∧ ∃ new, s'.asked = s.asked ++ new ∧
        handedOver new = if actions = [] then [] else [actions]) w s := by
  cases actions with
  | nil => exact ⟨rfl, hready, [], (List.append_nil _).symm, rfl⟩
  | cons a rest =>
    refine leads_ofRoutine fun u files _ hleft => ⟨rfl, ?_, [⟨.submit (a :: rest), u⟩], rfl, rfl⟩
    refine ⟨hready.file, List.mem_append_left _ hready.opened, fun hended => ?_⟩
    have halone : s.Alone waits := hended.before rfl
    -- handing something over changes no file
    have hfiles : files = s.files := hleft halone nofun
    rw [hfiles]
    exact hready.there halone

/-- What follows where a period is over. -/
theorem staged_crossing (hfile : w.file = some ⟨h, []⟩) (rollover : Rollover)
    (hbefore : rollover.before = [] ∨ ∃ active target, rollover.before = [.rename active target true]) :
    Leads (.staged waits) (do
      closeFile
      let moved ← ofRoutine (Action.executeAll rollover.before).run
      openFile rollover.activeFile
      ofExcept moved
      unless rollover.background.isEmpty do
        ofRoutine (Routine.request (.submit rollover.background)))
      (fun r w' s' => r = .ok () → w'.policy = w.policy ∧ w'.path = rollover.activeFile ∧
        (∃ h, Ready waits w' s' h) ∧ ∃ new, s'.asked = s.asked ++ new ∧
          (∀ active target, rollover.before = [.rename active target true] →
            ⟨.rename active target, .ok ()⟩ ∈ new) ∧
          handedOver new = if rollover.background = [] then [] else [rollover.background]) w s := by
  refine Leads.bind ((staged_closeFile hfile).mono ?_)
  rintro r w₁ s₁ ⟨rfl, closed, hclosed, hnone₁⟩
  cases r with
  | error e => exact nofun
  | ok u =>
    refine Leads.bind (leads_ofRoutine ((staged_moves hbefore s₁).mono ?_))
    rintro moved s₂ ⟨new, hnew, hnone₂, hgranted⟩
    refine Leads.bind ((staged_openFile _).mono ?_)
    rintro r w₂ s₃ ⟨⟨opened, hopened, hnone₃⟩, hready⟩
    cases r with
    | error e => exact nofun
    | ok u =>
      obtain ⟨hpolicy, hpath, handle, hready⟩ := hready rfl
      refine Leads.bind (leads_ofExcept ?_)
      cases moved with
      | error e => exact nofun
      | ok u =>
        refine (staged_submit hready rollover.background).mono ?_
        rintro r w₃ s₄ ⟨rfl, hready, handed, hhanded, hgiven⟩ -
        refine ⟨hpolicy, hpath, ⟨handle, hready⟩, closed ++ new ++ opened ++ handed, ?_, ?_, ?_⟩
        · simp only [hhanded, hopened, hnew, hclosed, List.append_assoc]
        · intro active target hmove
          have hmem := hgranted rfl active target hmove
          simp only [List.mem_append]
          exact .inl (.inl (.inr hmem))
        · -- until the end nothing was handed over
          simp only [handedOver_append, hnone₁, hnone₂, hnone₃, List.nil_append, hgiven]

/-- **One look.**  Before a record, a writer that is ready goes to the file of the policy, and has done
by then what the look asked for. -/
theorem staged_roll (hready : Ready waits w s h) (hpath : w.path = w.policy.activeFile) (now : Int) :
    (roll now).Leads (.staged waits) (fun r w' s' => r = .ok () → Turned waits w now s w' s') w s := by
  refine Leads.bind (leads_get ?_)
  dsimp only
  by_cases hdue : w.policy.isDue now = true
  · rw [if_pos hdue]
    have hafter : w.policy.looked now = w.policy.after now := (if_pos hdue).symm
    refine Leads.bind (leads_consult (fun hover written files _ _ => ?_) fun hover => ?_)
    · -- a period is over
      have hrollover := Policy.rollover_of_over hover written
      have hcrossed : (w.policy.rollover now written).1.crossed = true := by rw [hrollover]
      have hmove := (w.policy.before_rollover now written).imp_right fun ⟨active, target, _, hmove⟩ =>
        Exists.intro active (Exists.intro target hmove)
      dsimp only
      rw [if_pos hcrossed]
      refine (staged_crossing (w := { w with policy := w.policy.looked now }) hready.file
        (w.policy.rollover now written).1 hmove).mono ?_
      intro r w' s' hfiled hok
      obtain ⟨hpolicy, hpath', hready', new, hnew, hgranted, hhanded⟩ := hfiled hok
      have hpolicy : w'.policy = w.policy.looked now := hpolicy
      rw [hrollover] at hpath'
      refine ⟨hpolicy.trans hafter, hpath'.trans (congrArg Policy.activeFile hpolicy.symm), hready',
        ⟨.present w.policy.activeFile, written⟩ :: new, ?_, ?_⟩
      · rw [hnew, List.append_assoc]
        rfl
      · rw [Attended, if_pos ⟨hdue, hover⟩]
        exact concluded_of_rollover hover hgranted hhanded
    · -- the file of the policy stays the same
      have hsame : w.policy.nameAt now = w.policy.lastName := bne_eq_false_iff_eq.mp hover
      have hactive : (w.policy.looked now).activeFile = w.policy.activeFile :=
        congrArg w.policy.activeFileFor hsame
      rw [Policy.rollover_of_same hsame]
      dsimp only
      rw [if_neg Bool.false_ne_true]
      refine Leads.bind (leads_get ?_)
      dsimp only
      rw [hactive, hpath, if_neg (not_not_intro rfl)]
      refine fun _ => ⟨hafter, hactive.symm, ⟨h, hready.file, hpath ▸ hready.opened,
        hpath ▸ hready.there⟩, [], (List.append_nil _).symm, ?_⟩
      rw [Attended, if_neg]
      · rfl
      · rintro ⟨-, hover'⟩
        rw [hover] at hover'
        cases hover'
  · -- no look takes place
    rw [if_neg hdue]
    refine fun _ => ⟨(if_neg hdue).symm, hpath, ⟨h, hready⟩, [], (List.append_nil _).symm, ?_⟩
    rw [Attended, if_neg fun hcross => hdue hcross.1]
    rfl

/-- What a call leads to that leads to no failure. -/
structure Filed (waits : Bool) (p : Policy) (now : Int) (bytes : Bytes) (s : Stage) (w' : Writer)
    (s' : Stage) : Prop where
  policy : w'.policy = p.after now
  path : w'.path = w'.policy.activeFile
  taken : ∃ h, ⟨.openWrite w'.path true, .ok h⟩ ∈ s'.asked ∧ s'.Took waits w'.path h bytes
  asked : ∃ new, s'.asked = s.asked ++ new ∧ Attended p now new

/-- **One call.**  Its record is taken by the file to which the look before it has led. -/
theorem staged_record (hready : Ready waits w s h) (hpath : w.path = w.policy.activeFile) (now : Int)
    (bytes : Bytes) : (record now bytes).Leads (.staged waits)
      (fun r w' s' => r = .ok () → Filed waits w.policy now bytes s w' s') w s := by
  refine Leads.bind ((staged_roll hready hpath now).mono ?_)
  intro r w₁ s₁ hrolled
  cases r with
  | error e => exact nofun
  | ok u =>
    obtain ⟨hpolicy₁, hpath₁, ⟨handle, hready₁⟩, new, hnew, hasked⟩ := hrolled rfl
    refine Leads.bind ((staged_append hready₁ bytes).mono ?_)
    intro r w₂ s₂ happended
    cases r with
    | error e => exact nofun
    | ok u =>
      obtain ⟨hpolicy₂, hpath₂, hquiet, htook⟩ := happended rfl
      refine leads_showRecord fun tail _ => ⟨hpolicy₂.trans hpolicy₁, ?_, ⟨handle, ?_, ?_⟩, ?_⟩
      · show w₂.path = w₂.policy.activeFile
        rw [hpath₂, hpolicy₂, hpath₁]
      · show ⟨.openWrite w₂.path true, .ok handle⟩ ∈ s₂.asked
        rw [hpath₂]
        exact hquiet.mem hready₁.opened
      · show s₂.Took waits w₂.path handle bytes
        rw [hpath₂]
        exact htook
      · obtain ⟨more, hmore, hnone⟩ := hquiet
        refine ⟨new ++ more, ?_, hasked.append hnone⟩
        rw [hmore, hnew, List.append_assoc]

end Writer.Work

/-! ## First records -/

namespace Writer

open Work (Ready Concluded Filed)

variable {p : Policy} {fs : FileSystem} {tail : Option LiveTail} {e : Entry} {w w' : Writer}
variable {world world' : World}

theorem staged_ofPolicy (waits : Bool) (p : Policy) (s : Stage) :
    (ofPolicy p).run.Leads (.staged waits) (fun r s' => s.Quietly s' ∧ ∀ w, r = .ok w →
      w.policy = p ∧ w.path = p.activeFile ∧ ∃ h, Ready waits w s' h) s := by
  refine Routine.leads_attempt (Routine.leads_adapt ((Routine.staged_openAppend _ s).mono ?_))
  rintro r s' ⟨hquiet, hopened⟩
  cases r with
  | error e =>
    refine ⟨hquiet, fun w hw => ?_⟩
    cases hw
  | ok f =>
    obtain ⟨hempty, hasked, hthere⟩ := hopened f rfl
    refine ⟨hquiet, ?_⟩
    rintro w ⟨⟩
    refine ⟨rfl, rfl, f.handle, ?_, hasked, hthere⟩
    rw [← hempty]

theorem staged_call {waits : Bool} {s : Stage} {h : Handle} (hready : Ready waits w s h)
    (hpath : w.path = w.policy.activeFile) (e : Entry) : (e.write w).Leads (.staged waits)
      (fun r s' => r.1 = .ok () → Filed waits w.policy e.now.millis (e.bytes w.policy) s r.2 s') s := by
  cases e with
  | line text now => exact Work.staged_record hready hpath now.millis (lineRecord w.policy text now)
  | raw bytes now => exact Work.staged_record hready hpath now.millis bytes

/-- What a run of the first call leaves behind, after the run that opened the log, in which nothing was
handed over. -/
theorem filed_first (waits : Bool) (hwaits : waits = true → ∀ n, c.turns n = 0)
    (hopen : World.run c (ofPolicy p).run (.ofFiles fs) = (.ok w, world))
    (hwrite : World.run c (e.write { w with tail := tail }) world = ((.ok (), w'), world')) :
    handedOver (World.transcript c (ofPolicy p).run (.ofFiles fs)) = [] ∧
    Filed waits p e.now.millis (e.bytes p)
      ⟨world.files, World.transcript c (ofPolicy p).run (.ofFiles fs)⟩ w'
      ⟨world'.files, World.transcript c (ofPolicy p).run (.ofFiles fs) ++
        World.transcript c (e.write { w with tail := tail }) world⟩ := by
  obtain ⟨hopened, hidle⟩ := World.leads_run_staged (w := .ofFiles fs) hwaits (fun _ => ⟨rfl, rfl⟩)
    (staged_ofPolicy waits p ⟨fs, []⟩)
  rw [List.nil_append, hopen] at hopened hidle
  obtain ⟨⟨new, hnew, hnone⟩, hopened⟩ := hopened
  rw [List.nil_append] at hnew
  obtain ⟨rfl, hpath, h, hready⟩ := hopened w rfl
  have hready : Ready waits { w with tail := tail }
      ⟨world.files, World.transcript c (ofPolicy w.policy).run (.ofFiles fs)⟩ h :=
    ⟨hready.file, hready.opened, hready.there⟩
  have hfiled := (World.leads_run_staged (c := c) hwaits hidle (staged_call hready hpath e)).1
  rw [hwrite] at hfiled
  rw [← hnew] at hnone
  exact ⟨hnone, hfiled rfl⟩

/-- The time by which the first record of a log is filed: its own, but the time at which the log was opened
where its own is before 1970. -/
def filingTime (opened now : Int) : Int := if 0 ≤ now then now else opened

/-- **The first record.**  Let a log be opened at one time, and its first record be written at another,
without a failure, whatever the worker does and whatever else fails:

  * the policy has gone on to the name of the time by which the record is filed;
  * the record was written to a file that was opened at the path for that name, and it stands at the end of
    what is there, where the worker waits or is handed nothing;
  * if the name of that time is another than that of the time at which the log was opened, then what is to
    be done for that one was done: a fixed active file was moved to it, and the archive is handed to the
    background just if the file was found.  Else nothing is handed over. -/
theorem first_record_filed {localTime : LocalTime} {start : Int} {config : Config}
    (hp : Policy.activate localTime config start = .ok p)
    (hopen : World.run c (ofPolicy p).run (.ofFiles fs) = (.ok w, world))
    (hwrite : World.run c (e.write { w with tail := tail }) world = ((.ok (), w'), world')) :
    w'.policy.lastName = p.nameAt (filingTime start e.now.millis) ∧
    w'.path = p.activeFileFor (p.nameAt (filingTime start e.now.millis)) ∧
    (∃ h, ⟨.openWrite w'.path true, .ok h⟩ ∈ World.transcript c (ofPolicy p).run (.ofFiles fs) ++
        World.transcript c (e.write { w with tail := tail }) world ∧
      (e.bytes p ≠ [] → ∃ a : Written, a.failure = none ∧ ⟨.write h (e.bytes p), a⟩ ∈
        World.transcript c (ofPolicy p).run (.ofFiles fs) ++
          World.transcript c (e.write { w with tail := tail }) world)) ∧
    ((∀ n, c.turns n = 0) ∨ handedOver (World.transcript c (e.write { w with tail := tail }) world) = [] →
      e.bytes p <:+ world'.files.bytesAt w'.path) ∧
    (p.nameAt (filingTime start e.now.millis) ≠ p.nameAt start →
      Concluded p (World.transcript c (e.write { w with tail := tail }) world)) ∧
    (p.nameAt (filingTime start e.now.millis) = p.nameAt start →
      handedOver (World.transcript c (e.write { w with tail := tail }) world) = []) := by
  have hactivated := Policy.activate_ok hp
  have hdue : p.isDue e.now.millis = true ↔ 0 ≤ e.now.millis := by
    rw [Policy.isDue, hactivated.nextCheck]
    exact decide_eq_true_iff
  have hname : (p.after e.now.millis).lastName = p.nameAt (filingTime start e.now.millis) := by
    unfold Policy.after filingTime
    by_cases hnow : 0 ≤ e.now.millis
    · rw [if_pos (hdue.mpr hnow), if_pos hnow]
      rfl
    · rw [if_neg fun h => hnow (hdue.mp h), if_neg hnow]
      exact hactivated.lastName
  have hactive : (p.after e.now.millis).activeFile = p.activeFileFor (p.after e.now.millis).lastName := by
    unfold Policy.after
    split <;> rfl
  -- a look takes place and finds another name just if the record is filed by another one
  have hcross : (p.isDue e.now.millis = true ∧ p.isOver e.now.millis = true) ↔
      p.nameAt (filingTime start e.now.millis) ≠ p.nameAt start := by
    rw [hdue, Policy.isOver, bne_iff_ne, hactivated.lastName]
    unfold filingTime
    by_cases hnow : 0 ≤ e.now.millis
    · rw [if_pos hnow]
      exact ⟨fun h => h.2, fun h => ⟨hnow, h⟩⟩
    · rw [if_neg hnow]
      exact ⟨fun h => absurd h.1 hnow, fun h => absurd rfl h⟩
  obtain ⟨hquiet, hfiled⟩ := filed_first false (fun h => absurd h Bool.false_ne_true) hopen hwrite
  obtain ⟨h, hopened, htook, hthere⟩ := hfiled.taken
  obtain ⟨new, hnew, hasked⟩ := hfiled.asked
  rw [← List.append_cancel_left hnew, Work.Attended] at hasked
  refine ⟨?_, ?_, ⟨h, hopened, htook⟩, fun halone => ?_, fun hne => ?_, fun he => ?_⟩
  · rw [hfiled.policy, hname]
  · rw [hfiled.path, hfiled.policy, hactive, hname]
  · rcases halone with hwaits | hnone
    · obtain ⟨h', -, -, hthere⟩ := (filed_first true (fun _ => hwaits) hopen hwrite).2.taken
      exact hthere (.inl rfl)
    · refine hthere (.inr ?_)
      rw [handedOver_append, hquiet, hnone]
      rfl
  · rwa [if_pos (hcross.mpr hne)] at hasked
  · rwa [if_neg fun h => hcross.mp h he] at hasked

/-- A log with a fixed active file that is opened in one hour, and has its first record in an earlier one:
the file is moved to the name of the later hour, and the record is in a new file. -/
theorem first_record_filed_of_earlier_hour : ∃ p w world w' world',
    Policy.activate (.fixed 0) ⟨some "app-%d{HH}.log", some ⟨"app.log"⟩, .utc⟩ 7200000 = .ok p ∧
    World.run (.calm .epoch) (ofPolicy p).run (.ofFiles .blank) = (.ok w, world) ∧
    World.run (.calm .epoch) ((Entry.raw [97] ⟨3600, 0⟩).write { w with tail := none }) world =
      ((.ok (), w'), world') ∧
    w'.policy.lastName = "app-01.log" ∧ w'.path = ⟨"app.log"⟩ ∧
    [97] <:+ world'.files.bytesAt ⟨"app.log"⟩ ∧ world'.files.present ⟨"app-02.log"⟩ = true ∧
    Concluded p
      (World.transcript (.calm .epoch) ((Entry.raw [97] ⟨3600, 0⟩).write { w with tail := none }) world) := by
  have hp : Policy.activate (.fixed 0) ⟨some "app-%d{HH}.log", some ⟨"app.log"⟩, .utc⟩ 7200000 = .ok
      ⟨.byHour, .fixed 0, some ⟨"app.log"⟩, .none, "app-02.log", 0⟩ := by rfl
  obtain ⟨w, world, w', world', hopen, hwrite, hmoved⟩ : ∃ w world w' world',
      World.run (.calm .epoch) (ofPolicy
        ⟨.byHour, .fixed 0, some ⟨"app.log"⟩, .none, "app-02.log", 0⟩).run (.ofFiles .blank) = (.ok w, world) ∧
      World.run (.calm .epoch) ((Entry.raw [97] ⟨3600, 0⟩).write { w with tail := none }) world =
        ((.ok (), w'), world') ∧
      world'.files.present ⟨"app-02.log"⟩ = true := ⟨_, _, _, _, rfl, rfl, by decide⟩
  obtain ⟨hname, hpath, -, hrecord, hconcluded, -⟩ := first_record_filed hp hopen hwrite
  have hpath : w'.path = ⟨"app.log"⟩ := hpath
  rw [hpath] at hrecord
  exact ⟨_, w, world, w', world', hp, hopen, hwrite, hname, hpath, hrecord (.inl fun _ => rfl), hmoved,
    hconcluded (by decide)⟩

/-- A first record before 1970 is taken for one of the time at which the log was opened. -/
theorem first_record_before_1970 : ∃ p w world w' world',
    Policy.activate (.fixed 0) ⟨some "app-%d.log", none, .utc⟩ 0 = .ok p ∧
    World.run (.calm .epoch) (ofPolicy p).run (.ofFiles .blank) = (.ok w, world) ∧
    World.run (.calm .epoch) ((Entry.raw [97] ⟨-1, 999000000⟩).write w) world = ((.ok (), w'), world') ∧
    (Entry.raw [97] ⟨-1, 999000000⟩).now.millis = -1 ∧ p.nameAt (-1) = "app-1969-12-31.log" ∧
    w'.policy.lastName = "app-1970-01-01.log" ∧ world'.files.bytesAt ⟨"app-1970-01-01.log"⟩ = [97] ∧
    world'.files.present ⟨"app-1969-12-31.log"⟩ = false := by
  have hp : Policy.activate (.fixed 0) ⟨some "app-%d.log", none, .utc⟩ 0 = .ok
      ⟨.byDay, .fixed 0, none, .none, "app-1970-01-01.log", 0⟩ := by rfl
  exact ⟨_, _, _, _, _, hp, rfl, rfl, rfl, rfl, rfl, by decide, by decide⟩

end Writer

end LogRotation
