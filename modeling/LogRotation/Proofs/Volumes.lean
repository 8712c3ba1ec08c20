/-
  The periods of a run, told by the names of its records, and what each of them holds.

  A policy looks once in a second, and yet it puts each record into the period of its own instant: a
  look that was left out would have found the name that the policy has.  So the periods are the names
  of the instants, each for as long as it stays the same, and where no name comes back, what a period
  holds is all that was written at instants of its name.

    * STEADY    a policy, and instants at which it has the right name even where it does not look;
    * VISITED   the names of the instants, without repetitions;
    * VOLUMES   what each period holds, told call by call, and told by the instants.

  Main statements: `Steady.periods_eq`, `Steady.volumes_eq`.
-/
import LogRotation.Proofs.Durability
import LogRotation.Proofs.Throttle
import Mathlib.Data.List.Destutter

namespace LogRotation

open Writer (Entry instants)

namespace Policy

variable {p : Policy} {now least : Int} {rest : List Int}

/-! ## Steady policies -/

theorem nameAt_after (p : Policy) (now : Int) : (p.after now).nameAt = p.nameAt := by
  unfold after
  split <;> rfl

theorem parts_after (p : Policy) (now : Int) :
    (p.after now).template.parts = p.template.parts := by
  unfold after
  split <;> rfl

/-- Holds of a policy and of instants that follow on each other: from some instant on, the policy has
the name of every instant at which it does not look. -/
structure Steady (p : Policy) (least : Int) (instants : List Int) : Prop where
  unlooked : ∀ now, least ≤ now → p.isDue now = false → p.nameAt now = p.lastName
  bySecond : .field .millisecond ∉ p.template.parts
  since : ∀ now ∈ instants, least ≤ now
  sorted : instants.Pairwise (· ≤ ·)

/-- A policy that was just put to use is steady from the start of 1970 on, when its first look is
due. -/
theorem Activated.steady {config : Config} {start : Int} {instants : List Int}
    (h : Activated config start p) (hS : 'S' ∉ DateFormat.unquoted p.template.dateFormat)
    (hpos : ∀ now ∈ instants, 0 ≤ now) (hsorted : instants.Pairwise (· ≤ ·)) :
    p.Steady 0 instants := by
  refine ⟨?_, ?_, hpos, hsorted⟩
  · intro now hnow hdue
    have hnot : ¬ p.nextCheck ≤ now := of_decide_eq_false hdue
    rw [h.nextCheck] at hnot
    exact absurd hnow hnot
  · intro hms
    exact hS (DateFormat.unquoted_of_millisecond h.parse_dateFormat hms)

/-- A call leaves a policy steady. -/
theorem Steady.after (h : p.Steady least (now :: rest)) : (p.after now).Steady now rest := by
  have hle := h.since now List.mem_cons_self
  obtain ⟨hsince, hsorted⟩ := List.pairwise_cons.mp h.sorted
  refine ⟨?_, parts_after p now ▸ h.bySecond, hsince, hsorted⟩
  intro later hlater hdue
  unfold Policy.after at hdue ⊢
  split at hdue <;> rename_i hlook
  · -- the next look is not due in the second of this one
    rw [if_pos hlook]
    have hsecond := same_second_of_not_due hlater hdue
    exact Template.renderMillis_sameSecond h.bySecond _ hsecond
  · rw [if_neg hlook]
    exact h.unlooked later (Int.le_trans hle hlater) hdue

/-- A call leaves a steady policy with the name of its instant. -/
theorem Steady.lastName_after (h : p.Steady least (now :: rest)) :
    (p.after now).lastName = p.nameAt now := by
  unfold Policy.after
  split
  · rfl
  · rename_i hdue
    have hle := h.since now List.mem_cons_self
    exact (h.unlooked now hle (Bool.eq_false_iff.mpr hdue)).symm

/-- A steady policy leaves a period wherever the name is another one. -/
theorem Steady.leaves_iff (h : p.Steady least (now :: rest)) :
    (p.isDue now && p.isOver now) = true ↔ p.lastName ≠ p.nameAt now := by
  rw [Bool.and_eq_true, isOver, bne_iff_ne]
  constructor
  · intro hboth
    exact hboth.2.symm
  · intro hne
    refine ⟨?_, hne.symm⟩
    by_contra hdue
    have hle := h.since now List.mem_cons_self
    exact hne (h.unlooked now hle (Bool.eq_false_iff.mpr hdue)).symm

/-! ## Visited periods -/

/-- The names of the periods that are visited at these instants, in their order. -/
def visited (p : Policy) (instants : List Int) : List String :=
  (p.lastName :: instants.map p.nameAt).destutter (· ≠ ·)

/-- **Periods are visited by name.** -/
theorem Steady.periods_eq {instants : List Int} (h : p.Steady least instants) :
    p.periods instants = p.visited instants := by
  induction instants generalizing p least with
  | nil => rfl
  | cons now rest ih =>
    have hrest := ih h.after
    rw [visited, h.lastName_after, nameAt_after] at hrest
    rw [visited, List.map_cons, List.destutter_cons', List.destutter'_cons, periods, hrest]
    by_cases hleaves : p.lastName ≠ p.nameAt now
    · rw [if_pos hleaves, if_pos (h.leaves_iff.mpr hleaves)]
      rfl
    · rw [if_neg hleaves, if_neg fun hboth => hleaves (h.leaves_iff.mp hboth), not_not.mp hleaves]
      rfl

/-- The name of each instant is that of a period. -/
theorem Steady.nameAt_mem_periods {instants : List Int} (h : p.Steady least instants) :
    ∀ now ∈ instants, p.nameAt now ∈ p.periods instants := by
  induction instants generalizing p least with
  | nil => exact fun now hnot => absurd hnot List.not_mem_nil
  | cons first rest ih =>
    intro now hnow
    rcases List.mem_cons.mp hnow with rfl | hrest
    · rw [← h.lastName_after]
      exact mem_periods_of_after ((p.after now).lastName_mem_periods rest)
    · have hmem := ih h.after now hrest
      rw [nameAt_after] at hmem
      exact mem_periods_of_after hmem

/-! ## Volumes -/

/-- What a new period begins with: what was at its file, or nothing in a fixed active file. -/
def fresh (p : Policy) (start : FileSystem) (name : String) : Bytes :=
  match p.fixedFile with
  | none => start.bytesAt (p.baseOf name)
  | some _ => []

theorem fresh_of_derived (h : p.fixedFile = none) (start : FileSystem) (name : String) :
    p.fresh start name = start.bytesAt (p.activeFileFor name) := by
  rw [fresh, activeFileFor, h]
  rfl

theorem fresh_of_fixed {active : Path} (h : p.fixedFile = some active) (start : FileSystem)
    (name : String) : p.fresh start name = [] := by
  rw [fresh, h]

theorem fresh_after (p : Policy) (now : Int) : (p.after now).fresh = p.fresh := by
  unfold after
  split <;> rfl

/-- The name and the content of each period, for a policy whose present period holds something
already. -/
def volumes (p : Policy) (start : FileSystem) (held : Bytes) : List Entry → List (String × Bytes)
  | [] => [(p.lastName, held)]
  | e :: rest =>
    if p.isDue e.now.millis && p.isOver e.now.millis then
      (p.lastName, held) :: (p.after e.now.millis).volumes start
        (p.fresh start (p.nameAt e.now.millis) ++ e.bytes p) rest
    else (p.after e.now.millis).volumes start (held ++ e.bytes p) rest

theorem volumes_ne_nil (p : Policy) (start : FileSystem) (held : Bytes) (entries : List Entry) :
    p.volumes start held entries ≠ [] := by
  induction entries generalizing p held with
  | nil => exact List.cons_ne_nil _ _
  | cons e rest ih =>
    rw [volumes]
    split
    · exact List.cons_ne_nil _ _
    · exact ih _ _

/-- The records that were written at instants of a name, in the order of their calls. -/
def records (p : Policy) (entries : List Entry) (name : String) : Bytes :=
  (entries.filter fun e => p.nameAt e.now.millis = name).flatMap (Entry.bytes p)

theorem records_after (p : Policy) (now : Int) : (p.after now).records = p.records := by
  funext entries name
  have hbytes : Entry.bytes (p.after now) = Entry.bytes p := by
    funext e
    exact e.bytes_after p now
  rw [records, records, nameAt_after, hbytes]

theorem records_cons_self (p : Policy) (e : Entry) (rest : List Entry) :
    p.records (e :: rest) (p.nameAt e.now.millis) =
      e.bytes p ++ p.records rest (p.nameAt e.now.millis) := by
  rw [records, List.filter_cons_of_pos (by simp), List.flatMap_cons]
  rfl

theorem records_cons_of_ne {e : Entry} {name : String} (hne : p.nameAt e.now.millis ≠ name)
    (rest : List Entry) : p.records (e :: rest) name = p.records rest name := by
  rw [records, List.filter_cons_of_neg (by simpa using hne)]
  rfl

/-- Nothing is written at instants of a name that no instant has. -/
theorem records_eq_nil {entries : List Entry} {name : String}
    (h : ∀ e ∈ entries, p.nameAt e.now.millis ≠ name) : p.records entries name = [] := by
  have hnone : (entries.filter fun e => decide (p.nameAt e.now.millis = name)) = [] := by
    refine List.filter_eq_nil_iff.mpr ?_
    intro e he
    simpa using h e he
  rw [records, hnone, List.flatMap_nil]

/-- What a period holds, where no name comes back: what was there when it began, and all records of
its name. -/
def share (p : Policy) (start : FileSystem) (held : Bytes) (entries : List Entry)
    (name : String) : Bytes :=
  (if name = p.lastName then held else p.fresh start name) ++ p.records entries name

/-- A record after which its period goes on is one of its share. -/
theorem share_of_staying {e : Entry} (hsame : p.lastName = p.nameAt e.now.millis)
    (hname : (p.after e.now.millis).lastName = p.nameAt e.now.millis) (start : FileSystem)
    (held : Bytes) (rest : List Entry) (name : String) :
    (p.after e.now.millis).share start (held ++ e.bytes p) rest name =
      p.share start held (e :: rest) name := by
  rw [share, share, hname, fresh_after, records_after, hsame]
  by_cases he : name = p.nameAt e.now.millis
  · rw [if_pos he, if_pos he, he, records_cons_self, List.append_assoc]
  · rw [if_neg he, if_neg he, records_cons_of_ne (Ne.symm he)]

/-- A record with which a new period begins is the first of its share. -/
theorem share_of_leaving {e : Entry} {name : String} (hother : name ≠ p.lastName)
    (hname : (p.after e.now.millis).lastName = p.nameAt e.now.millis) (start : FileSystem)
    (held : Bytes) (rest : List Entry) :
    (p.after e.now.millis).share start (p.fresh start (p.nameAt e.now.millis) ++ e.bytes p) rest name =
      p.share start held (e :: rest) name := by
  rw [share, share, hname, fresh_after, records_after, if_neg hother]
  by_cases he : name = p.nameAt e.now.millis
  · rw [if_pos he, he, records_cons_self, List.append_assoc]
  · rw [if_neg he, records_cons_of_ne (Ne.symm he)]

/-- The share of a period that is left does not grow, if its name does not come back. -/
theorem Steady.share_of_left {e : Entry} {rest : List Entry}
    (h : p.Steady least (instants (e :: rest))) (hne : p.lastName ≠ p.nameAt e.now.millis)
    (hnot : p.lastName ∉ (p.after e.now.millis).periods (instants rest)) (start : FileSystem)
    (held : Bytes) : p.share start held (e :: rest) p.lastName = held := by
  have hgone : ∀ other ∈ rest, p.nameAt other.now.millis ≠ p.lastName := by
    intro other hother he
    have hstep : (p.after e.now.millis).Steady e.now.millis (instants rest) := Steady.after h
    have hin := hstep.nameAt_mem_periods _ (List.mem_map_of_mem hother)
    rw [nameAt_after, he] at hin
    exact hnot hin
  rw [share, if_pos rfl, records_cons_of_ne hne.symm, records_eq_nil hgone, List.append_nil]

/-- **Each record is in the period of its own instant.** -/
theorem Steady.volumes_eq (start : FileSystem) {held : Bytes} {entries : List Entry}
    (h : p.Steady least (instants entries)) (hnodup : (p.periods (instants entries)).Nodup) :
    p.volumes start held entries = (p.periods (instants entries)).map fun name =>
      (name, p.share start held entries name) := by
  induction entries generalizing p least held with
  | nil =>
    show [(p.lastName, held)] = [(p.lastName, p.share start held [] p.lastName)]
    rw [share, if_pos rfl, records_eq_nil (by simp), List.append_nil]
  | cons e rest ih =>
    have hstep : (p.after e.now.millis).Steady e.now.millis (instants rest) := Steady.after h
    have hname : (p.after e.now.millis).lastName = p.nameAt e.now.millis := Steady.lastName_after h
    have hperiods : p.periods (instants (e :: rest)) =
        if p.isDue e.now.millis && p.isOver e.now.millis then
          p.lastName :: (p.after e.now.millis).periods (instants rest)
        else (p.after e.now.millis).periods (instants rest) := rfl
    rw [hperiods] at hnodup ⊢
    rw [volumes]
    by_cases hleaves : (p.isDue e.now.millis && p.isOver e.now.millis) = true
    · -- the period is left with what it holds
      have hne : p.lastName ≠ p.nameAt e.now.millis := (Steady.leaves_iff h).mp hleaves
      rw [if_pos hleaves] at hnodup ⊢
      obtain ⟨hnot, hnodup⟩ := List.nodup_cons.mp hnodup
      rw [if_pos hleaves, List.map_cons, h.share_of_left hne hnot, ih hstep hnodup]
      refine congrArg (_ :: ·) (List.map_congr_left fun name hin => congrArg (name, ·) ?_)
      have hother : name ≠ p.lastName := by
        rintro rfl
        exact hnot hin
      exact share_of_leaving hother hname start held rest
    · -- the period goes on with one record more
      have hsame : p.lastName = p.nameAt e.now.millis :=
        not_not.mp fun hne => hleaves ((Steady.leaves_iff h).mpr hne)
      rw [if_neg hleaves] at hnodup ⊢
      rw [if_neg hleaves, ih hstep hnodup]
      refine List.map_congr_left fun name _ => congrArg (name, ·) ?_
      exact share_of_staying hsame hname start held rest name

end Policy

end LogRotation
