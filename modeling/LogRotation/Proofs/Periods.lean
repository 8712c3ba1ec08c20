/-
  The periods of a run, and the slots that they stand for.

  The policy alone decides which periods there are: its looks depend on the instants of the records,
  and not on any file.  So the slots of a whole run are known before it, and a writer goes through
  them in order.

    * PERIODS   the names that a policy goes through, in the order of their first use;
    * SLOTS     the slots of these names and, if there is one, the fixed active file;
    * PLACED    which slots of a page are left for the periods to come.
-/
import LogRotation.Proofs.Looks
import LogRotation.Proofs.Pages

namespace LogRotation

/-! ## Periods -/

namespace Policy

variable {p : Policy} {now : Int}

/-- The policy after a record at an instant, whatever became of the record. -/
def after (p : Policy) (now : Int) : Policy := if p.isDue now then p.looked now else p

/-- The names of the periods that a policy goes through at these instants, in the order of their
first use. -/
def periods (p : Policy) : List Int → List String
  | [] => [p.lastName]
  | now :: rest =>
    if p.isDue now && p.isOver now then p.lastName :: (p.after now).periods rest
    else (p.after now).periods rest

/-- The slot of a period. -/
def slotOf (p : Policy) (name : String) : Slot :=
  ⟨p.baseOf name, p.compression.archive?.map fun format => (format, ⟨name⟩)⟩

/-- The slots that records go through at these instants: those of the periods and, if there is one,
the fixed active file. -/
def slots (p : Policy) (instants : List Int) : List Slot :=
  (p.periods instants).map p.slotOf ++ p.fixedFile.toList.map fun active => ⟨active, none⟩

theorem slotOf_after (p : Policy) (now : Int) : (p.after now).slotOf = p.slotOf := by
  unfold after
  split <;> rfl

theorem fixedFile_after (p : Policy) (now : Int) : (p.after now).fixedFile = p.fixedFile := by
  unfold after
  split <;> rfl

/-- A name changes only where a period is over. -/
theorem lastName_after (h : (p.isDue now && p.isOver now) = false) :
    (p.after now).lastName = p.lastName := by
  unfold after
  split
  · rename_i hdue
    rw [hdue, Bool.true_and] at h
    exact bne_eq_false_iff_eq.mp h
  · rfl

/-- The first period is the one that the policy rendered last. -/
theorem exists_periods (p : Policy) (instants : List Int) :
    ∃ rest, p.periods instants = p.lastName :: rest := by
  induction instants generalizing p with
  | nil => exact ⟨[], rfl⟩
  | cons now rest ih =>
    unfold periods
    split
    · exact ⟨_, rfl⟩
    · rename_i hsame
      obtain ⟨more, hmore⟩ := ih (p.after now)
      refine ⟨more, ?_⟩
      rw [hmore, lastName_after (Bool.eq_false_iff.mpr hsame)]

theorem lastName_mem_periods (p : Policy) (instants : List Int) :
    p.lastName ∈ p.periods instants := by
  obtain ⟨more, hmore⟩ := p.exists_periods instants
  rw [hmore]
  exact List.mem_cons_self

/-- The periods after a record are periods of the whole run. -/
theorem mem_periods_of_after {name : String} {rest : List Int}
    (h : name ∈ (p.after now).periods rest) : name ∈ p.periods (now :: rest) := by
  rw [periods]
  split
  · exact List.mem_cons_of_mem _ h
  · exact h

/-- What a look finds where a period is over. -/
theorem rollover_of_over (h : p.isOver now = true) (written : Bool) :
    (p.rollover now written).1 = ⟨true, (p.looked now).activeFile,
      match p.fixedFile with
        | some active => [.rename active (p.baseOf p.lastName) true]
        | none => [],
      if written then p.archiving else []⟩ := by
  unfold rollover
  rw [if_pos h]
  rfl

theorem periods_of_over (hdue : p.isDue now = true) (hover : p.isOver now = true)
    (rest : List Int) :
    p.periods (now :: rest) = p.lastName :: (p.looked now).periods rest := by
  rw [periods, hdue, hover, after, hdue]
  rfl

theorem archiving_eq (p : Policy) : p.archiving = (p.slotOf p.lastName).archiving := by
  unfold archiving Slot.archiving slotOf
  cases p.compression <;> rfl

/-- The slots for the periods to come: those that are to be current or, with a fixed active file,
those that it is to be moved to. -/
def Placed (p : Policy) (instants : List Int) (g : Page) : Prop :=
  match p.fixedFile with
  | none => g.targets = [] ∧ (p.periods instants).map p.slotOf <:+ g.current :: g.later
  | some active => g.current = ⟨active, none⟩ ∧ g.later = [] ∧
      (p.periods instants).map p.slotOf <:+ g.targets

/-- A record leaves the slots for the later periods where they are. -/
theorem Placed.after {rest : List Int} {g : Page} (h : p.Placed (now :: rest) g) :
    (p.after now).Placed rest g := by
  have hsuffix : ((p.after now).periods rest).map p.slotOf <:+
      (p.periods (now :: rest)).map p.slotOf := by
    rw [periods]
    split
    · exact List.suffix_cons _ _
    · exact List.suffix_rfl
  unfold Placed at h ⊢
  rw [fixedFile_after, slotOf_after]
  split
  · rename_i hnone
    rw [hnone] at h
    exact ⟨h.1, hsuffix.trans h.2⟩
  · rename_i active hactive
    rw [hactive] at h
    exact ⟨h.1, h.2.1, hsuffix.trans h.2.2⟩

theorem activeFile_of_derived (h : p.fixedFile = none) :
    p.activeFile = (p.slotOf p.lastName).file := by
  rw [activeFile, activeFileFor, h]
  rfl

theorem activeFile_of_fixed {active : Path} (h : p.fixedFile = some active) :
    p.activeFile = active := by
  rw [activeFile, activeFileFor, h]
  rfl

end Policy

end LogRotation
