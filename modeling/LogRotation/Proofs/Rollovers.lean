/-
  A writer keeps the books of its log, from one rollover to the next.

  A writer may lag behind its policy.  Where a file could not be opened or moved, the records of
  later periods still go to the file of an earlier one, until a look finds that and goes on.

    * ON         a writer whose file is the current one, at any distance behind its policy;
    * CROSSING   what follows when a period is over, for derived names and for a fixed active file;
    * RECORD     a call either adds all bytes of its record to the books, or none.

  Main statement: `meets_record`.
-/
import LogRotation.Proofs.Bookkeeping
import LogRotation.Proofs.Periods

namespace LogRotation

/-- Where a list ends in one that does not begin with its head, that one is in its rest. -/
theorem exists_of_suffix_cons {α : Type} {a c : α} {l rest : List α} (h : a :: l <:+ c :: rest) :
    (a = c ∧ l = rest) ∨ ∃ skipped, rest = skipped ++ a :: l := by
  rcases List.suffix_cons_iff.mp h with he | ⟨skipped, hskipped⟩
  · exact .inl ⟨(List.cons.inj he).1, (List.cons.inj he).2⟩
  · exact .inr ⟨skipped, hskipped.symm⟩

namespace Writer.Work

variable {w : Writer} {g : Page}

/-! ## Rollovers -/

/-- A writer that keeps the books of the periods to come, at any distance behind its policy. -/
structure On (p : Policy) (instants : List Int) (w : Writer) (g : Page) : Prop where
  policy : w.policy = p
  placed : p.Placed instants g
  path : w.path = g.current.file
  linked : Linked w g

theorem On.closed {p : Policy} {instants : List Int} (h : On p instants w g) :
    On p instants { w with file := none } g :=
  ⟨h.policy, h.placed, h.path, nofun⟩

theorem meets_consult {now : Int} {Q : Except Error Rollover → Writer → Page → Prop}
    (hQ : ∀ written, Q (.ok (w.policy.rollover now written).1)
      { w with policy := w.policy.looked now } g) : (consult now).Meets Q w g :=
  leads_consult (fun _ => Page.step_look (q := .present _) rfl hQ) fun _ => hQ false

/-- Moving the current file to a target. -/
theorem meets_moves {active : Path} {t : Slot} {skipped rest : List Slot}
    {Q : Except Error Unit → Page → Prop} (hcurrent : g.current = ⟨active, none⟩)
    (htargets : g.targets = skipped ++ t :: rest) (herror : ∀ e, Q (.error e) g)
    (hok : Q (.ok ())
      { g with sealed := g.sealed ++ skipped ++ [t], targets := rest, handle := none }) :
    Routine.Meets (Action.executeAll [.rename active t.file true]).run Q g := by
  have ht : t ∈ g.targets ++ g.current :: g.later := by
    rw [htargets]
    simp
  refine Routine.leads_attempt (Routine.leads_attempt (Routine.meets_reply ?_))
  refine Page.step_look (q := .present _) rfl fun there => ?_
  cases there with
  | false => exact herror _
  | true =>
    refine Routine.leads_attempt (Routine.leads_adapt ?_)
    refine Routine.meets_makeParents ht t.file_mem_paths fun r => ?_
    cases r with
    | error e => exact herror _
    | ok u =>
      refine Routine.leads_attempt (Routine.leads_lift ?_)
      have hfile : active = g.current.file := by rw [hcurrent]
      rw [hfile]
      refine Page.step_rename htargets (fun e => herror _) ?_
      exact hok

variable {p : Policy} {instants : List Int}

/-- Without a fixed active file, the file of the present period is opened, and what was current
before is sealed. -/
theorem meets_openDerived {skipped : List Slot} {more : List String}
    {Q : Except Error Unit → Writer → Page → Prop} (hfixed : p.fixedFile = none)
    (h : On p instants w g) (hperiods : p.periods instants = p.lastName :: more)
    (hlater : g.later = skipped ++ p.slotOf p.lastName :: more.map p.slotOf)
    (herror : ∀ e, Q (.error e) w g)
    (hok : ∀ w' g', On p instants w' g' → g'.acked = g.acked →
      (∀ s ∈ g.current :: skipped, s ∈ g'.sealed) → Q (.ok ()) w' g') :
    (openFile p.activeFile).Meets Q w g := by
  have htargets : g.targets = [] := by
    have hplaced := h.placed
    rw [Policy.Placed, hfixed] at hplaced
    exact hplaced.1
  rw [Policy.activeFile_of_derived hfixed]
  refine leads_openFile ?_
  refine Routine.meets_openLater htargets hlater (fun e => herror _) fun id => ?_
  refine hok _ _ ⟨h.policy, ?_, rfl, ?_⟩ rfl fun s hs => List.mem_append_right _ hs
  · rw [Policy.Placed, hfixed, hperiods]
    exact ⟨rfl, List.suffix_rfl⟩
  · rintro f ⟨⟩
    exact ⟨id, rfl, rfl⟩

/-- A fixed active file is opened again, as the current file that it is. -/
theorem meets_openFixed {active : Path} {Q : Except Error Unit → Writer → Page → Prop}
    (hfixed : p.fixedFile = some active) (h : On p instants w g) (herror : ∀ e, Q (.error e) w g)
    (hok : ∀ w' g', On p instants w' g' → g'.acked = g.acked → g'.sealed = g.sealed →
      Q (.ok ()) w' g') :
    (openFile p.activeFile).Meets Q w g := by
  have hplaced := h.placed
  rw [Policy.Placed, hfixed] at hplaced
  have hfile : p.activeFile = g.current.file := by
    rw [Policy.activeFile_of_fixed hfixed, hplaced.1]
  rw [hfile]
  refine leads_openFile ?_
  refine Routine.meets_openCurrent (fun e => herror _) fun id => ?_
  refine hok _ _ ⟨h.policy, ?_, rfl, ?_⟩ rfl rfl
  · rw [Policy.Placed, hfixed]
    exact hplaced
  · rintro f ⟨⟩
    exact ⟨id, rfl, rfl⟩

/-- A record in the same period: the active file is opened if that was missed. -/
theorem meets_reopen {Q : Except Error Unit → Writer → Page → Prop} (h : On p instants w g)
    (hQ : ∀ r w' g', On p instants w' g' → g'.acked = g.acked → Q r w' g') :
    Meets (if p.activeFile.components ≠ w.path.components then do
        closeFile
        openFile p.activeFile
      else pure ()) Q w g := by
  split
  · rename_i hdiffers
    refine Leads.bind (meets_closeFile h.linked ?_)
    have hclosed := h.closed
    have herror : ∀ e, Q (.error e) { w with file := none } g := fun e => hQ _ _ _ hclosed rfl
    cases hfixed : p.fixedFile with
    | some active =>
      refine meets_openFixed hfixed hclosed herror ?_
      intro w' g' hon hacked _
      exact hQ _ _ _ hon hacked
    | none =>
      obtain ⟨more, hperiods⟩ := p.exists_periods instants
      have hplaced := h.placed
      rw [Policy.Placed, hfixed, hperiods, List.map_cons] at hplaced
      rcases exists_of_suffix_cons hplaced.2 with ⟨hcurrent, -⟩ | ⟨skipped, hlater⟩
      · -- the writer is not behind, so that its file is the active one
        refine absurd ?_ hdiffers
        rw [h.path, ← hcurrent, Policy.activeFile_of_derived hfixed]
      · refine meets_openDerived hfixed hclosed hperiods hlater herror ?_
        intro w' g' hon hacked _
        exact hQ _ _ _ hon hacked
  · exact hQ _ _ _ h rfl

theorem meets_submit {actions : List Action} {Q : Except Error Unit → Writer → Page → Prop}
    (hactions : ∀ a ∈ actions, ∃ s ∈ g.sealed, a ∈ s.archiving) (hQ : Q (.ok ()) w g) :
    Meets (unless actions.isEmpty do ofRoutine (Routine.request (.submit actions))) Q w g := by
  split
  · exact hQ
  · exact leads_ofRoutine ⟨hactions, hQ⟩

/-- The slots for the period that is over and for the next one, without a fixed active file. -/
theorem later_of_over {now : Int} {rest : List Int} (hfixed : p.fixedFile = none)
    (hdue : p.isDue now = true) (hover : p.isOver now = true) (hplaced : p.Placed (now :: rest) g) :
    ∃ skipped more, (p.looked now).periods rest = (p.looked now).lastName :: more ∧
      g.later = skipped ++ p.slotOf (p.looked now).lastName :: more.map p.slotOf ∧
      p.slotOf p.lastName ∈ g.current :: skipped := by
  obtain ⟨more, hperiods⟩ := (p.looked now).exists_periods rest
  rw [Policy.Placed, hfixed, Policy.periods_of_over hdue hover, hperiods, List.map_cons,
    List.map_cons] at hplaced
  rcases exists_of_suffix_cons hplaced.2 with ⟨hcurrent, hlater⟩ | ⟨skipped, hlater⟩
  · -- the slot of the period that is over is current
    refine ⟨[], more, hperiods, hlater.symm, ?_⟩
    rw [hcurrent]
    exact List.mem_cons_self
  · -- the writer is behind, and passes over the slot of the period that is over
    refine ⟨skipped ++ [p.slotOf p.lastName], more, hperiods, ?_, ?_⟩
    · rw [hlater, List.append_assoc]
      rfl
    · exact List.mem_cons_of_mem _ (List.mem_append_right _ List.mem_cons_self)

/-- What comes after a look that found a period over: the old file is closed, what must be done at
once is done, the new file is opened, and the rest is handed to the background. -/
theorem meets_crossing {now : Int} {rest : List Int} {written : Bool}
    {Q : Except Error Unit → Writer → Page → Prop} (hdue : p.isDue now = true)
    (hover : p.isOver now = true) (hplaced : p.Placed (now :: rest) g)
    (h : On (p.looked now) rest w g)
    (hQ : ∀ r w' g', On (p.looked now) rest w' g' → g'.acked = g.acked → Q r w' g') :
    Meets (do
      closeFile
      let moved ← ofRoutine (Action.executeAll (p.rollover now written).1.before).run
      openFile (p.rollover now written).1.activeFile
      ofExcept moved
      unless (p.rollover now written).1.background.isEmpty do
        ofRoutine (Routine.request (.submit (p.rollover now written).1.background))) Q w g := by
  have hclosed := h.closed
  -- the background makes the archive of the period that is over, if anything
  have hsubmit : ∀ w' g', On (p.looked now) rest w' g' → g'.acked = g.acked →
      p.slotOf p.lastName ∈ g'.sealed →
      Meets (unless (p.rollover now written).1.background.isEmpty do
        ofRoutine (Routine.request (.submit (p.rollover now written).1.background))) Q w' g' := by
    intro w' g' hon hacked hsealed
    refine meets_submit ?_ (hQ _ _ _ hon hacked)
    intro a ha
    refine ⟨_, hsealed, ?_⟩
    rw [Policy.rollover_of_over hover] at ha
    dsimp only at ha
    split at ha
    · rw [← Policy.archiving_eq]
      exact ha
    · cases ha
  refine Leads.bind (meets_closeFile h.linked (Leads.bind (leads_ofRoutine ?_)))
  have hactive : (p.rollover now written).1.activeFile = (p.looked now).activeFile := by
    rw [Policy.rollover_of_over hover]
  rw [hactive]
  have herror : ∀ e, Q (.error e) { w with file := none } g := fun e => hQ _ _ _ hclosed rfl
  cases hfixed : p.fixedFile with
  | none =>
    obtain ⟨skipped, more, hperiods, hlater, hmem⟩ := later_of_over hfixed hdue hover hplaced
    have hbefore : (p.rollover now written).1.before = [] := by
      rw [Policy.rollover_of_over hover, hfixed]
    rw [hbefore]
    refine Leads.bind
      (meets_openDerived (p := p.looked now) hfixed hclosed hperiods hlater herror ?_)
    intro w' g' hon hacked hsealed
    exact Leads.bind (leads_ofExcept (hsubmit w' g' hon hacked (hsealed _ hmem)))
  | some active =>
    have hbefore : (p.rollover now written).1.before =
        [.rename active (p.slotOf p.lastName).file true] := by
      rw [Policy.rollover_of_over hover, hfixed]
      rfl
    rw [Policy.Placed, hfixed, Policy.periods_of_over hdue hover, List.map_cons] at hplaced
    obtain ⟨hcurrent, hlater, skipped, htargets⟩ := hplaced
    rw [hbefore]
    refine meets_moves hcurrent htargets.symm (fun e => ?_) ?_
    · -- the move failed: the records stay in the active file
      refine Leads.bind (meets_openFixed (p := p.looked now) hfixed hclosed herror ?_)
      intro w' g' hon hacked _
      exact Leads.bind (leads_ofExcept (hQ _ _ _ hon hacked))
    · -- the move succeeded: the records are in the slot of the period that is over
      have hmoved : On (p.looked now) rest { w with file := none }
          { g with
            sealed := g.sealed ++ skipped ++ [p.slotOf p.lastName]
            targets := ((p.looked now).periods rest).map p.slotOf
            handle := none } := by
        refine ⟨hclosed.policy, ?_, hclosed.path, nofun⟩
        rw [Policy.Placed, show (p.looked now).fixedFile = some active from hfixed]
        exact ⟨hcurrent, hlater, List.suffix_rfl⟩
      refine Leads.bind (meets_openFixed (p := p.looked now) hfixed hmoved
        (fun e => hQ _ _ _ hmoved rfl) ?_)
      intro w' g' hon hacked hsealed
      refine Leads.bind (leads_ofExcept (hsubmit w' g' hon hacked ?_))
      rw [hsealed]
      exact List.mem_append_right _ List.mem_cons_self

/-- Before a record the policy looks, if it is due, and what it finds is followed. -/
theorem meets_roll {now : Int} {rest : List Int} {Q : Except Error Unit → Writer → Page → Prop}
    (h : On p (now :: rest) w g)
    (hQ : ∀ r w' g', On (p.after now) rest w' g' → g'.acked = g.acked → Q r w' g') :
    (roll now).Meets Q w g := by
  refine Leads.bind (leads_get ?_)
  dsimp only
  rw [h.policy]
  split
  · -- a look is due
    rename_i hdue
    refine Leads.bind (meets_consult fun written => ?_)
    have hafter : p.after now = p.looked now := if_pos hdue
    have hon : On (p.looked now) rest { w with policy := w.policy.looked now } g :=
      ⟨by rw [h.policy], hafter ▸ h.placed.after, h.path, h.linked⟩
    rw [hafter] at hQ
    rw [h.policy] at hon ⊢
    cases hover : p.isOver now with
    | true =>
      have hcrossed : (p.rollover now written).1.crossed = true := by
        rw [Policy.rollover_of_over hover]
      dsimp only
      rw [if_pos hcrossed]
      exact meets_crossing hdue hover h.placed hon hQ
    | false =>
      have hsame : p.nameAt now = p.lastName := bne_eq_false_iff_eq.mp hover
      rw [Policy.rollover_of_same hsame]
      dsimp only
      rw [if_neg Bool.false_ne_true]
      exact Leads.bind (leads_get (meets_reopen hon hQ))
  · rename_i hdue
    have hafter : p.after now = p := if_neg hdue
    have hplaced := h.placed.after
    rw [hafter] at hplaced hQ
    exact hQ _ _ _ ⟨h.policy, hplaced, h.path, h.linked⟩ rfl

/-! ## Records -/

/-- **One record.**  It is acknowledged after its bytes were added, and where it is not, none
was. -/
theorem meets_record {now : Int} {rest : List Int} {bytes : Bytes}
    {Q : Except Error Unit → Writer → Page → Prop} (h : On p (now :: rest) w g)
    (herror : ∀ e w' g', On (p.after now) rest w' g' → g'.acked = g.acked → Q (.error e) w' g')
    (hok : ∀ w' g', On (p.after now) rest w' g' → g'.acked = g.acked ++ bytes → Q (.ok ()) w' g') :
    (record now bytes).Meets Q w g := by
  refine Leads.bind (meets_roll h ?_)
  intro r w₁ g₁ h₁ hacked
  cases r with
  | error e => exact herror e _ _ h₁ hacked
  | ok u =>
    have hfailed : ∀ e, Q (.error e) w₁ g₁ := fun e => herror e _ _ h₁ hacked
    refine Leads.bind (meets_append h₁.linked h₁.path bytes hfailed fun id => ?_)
    refine leads_showRecord fun tail => hok _ _ ⟨h₁.policy, h₁.placed, h₁.path, ?_⟩ ?_
    · rintro f ⟨⟩
      exact ⟨id, rfl, rfl⟩
    · exact congrArg (· ++ bytes) hacked

end Writer.Work

end LogRotation
