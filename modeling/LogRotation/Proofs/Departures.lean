/-
  The history of a policy that looks again and again, at any instants.

  A look is told by two names, that of its own instant and that of the instant before, and by one
  question to the files.  The name of the instant before is all that a policy remembers, so the history
  of its looks is told by the list of the instants alone: backward jumps and looks that find nothing
  make no exception.

    * LAWFUL       what a look says and does, for the name that came before it;
    * DEPARTURES   the runs of equal names that were left, each with the files of that moment: what is
                   to be done in a whole history is what is to be done about each of them, once.

  Main statement: `history_of_looks`.
-/
import LogRotation.FileSystem.Tree
import LogRotation.Proofs.Looks
import Mathlib.Data.List.Destutter

namespace LogRotation.Policy

variable {p : Policy} {now : Int} {files : FileSystem}

/-! ## One look -/

/-- What must be done at once about a name that is left: a fixed active file is moved to the name, less
the ending of an archive. -/
def moving (p : Policy) (name : String) : List Action :=
  match p.fixedFile with
  | none => []
  | some active => [.rename active ⟨p.compression.strip name⟩ true]

/-- What may be done later about a name that is left: what is at the name, less the ending of an
archive, becomes that archive if there is one to be made and the file of the name was `there`. -/
def packing (p : Policy) (name : String) (there : Bool) : List Action :=
  match p.compression.archive? with
  | none => []
  | some format => if there then [.compress format ⟨p.compression.strip name⟩ ⟨name⟩ true] else []

/-- `Lawful p last now files r q` - a look at an instant, after the name `last` and with these files
there, led to `r` and left the policy `q`. -/
structure Lawful (p : Policy) (last : String) (now : Int) (files : FileSystem) (r : Rollover)
    (q : Policy) : Prop where
  lastName : q.lastName = p.nameAt now
  crossed : r.crossed = true ↔ p.nameAt now ≠ last
  idle : r.crossed = false → r.before = [] ∧ r.background = []
  before : r.crossed = true → r.before = p.moving last
  /-- The question is to the fixed active file or, without one, to the base of the last name. -/
  background : r.crossed = true → r.background =
    p.packing last (files.present (p.fixedFile.getD ⟨p.compression.strip last⟩))
  activeFile : r.activeFile = p.fixedFile.getD ⟨p.compression.strip (p.nameAt now)⟩
  agrees : r.activeFile = q.activeFile

/-- What is lawful does not hang on the looks before. -/
theorem Lawful.of_looked {last : String} {before : Int} {r : Rollover} {q : Policy}
    (h : (p.looked before).Lawful last now files r q) : p.Lawful last now files r q :=
  ⟨h.lastName, h.crossed, h.idle, h.before, h.background, h.activeFile, h.agrees⟩

/-- A look is lawful for the name that the policy remembers. -/
theorem lawful_lookOn (p : Policy) (now : Int) (files : FileSystem) :
    Lawful p p.lastName now files (p.lookOn now files).1 (p.lookOn now files).2 := by
  rw [lookOn_eq]
  by_cases hover : p.isOver now = true
  · -- a period is over
    have hne : p.nameAt now ≠ p.lastName := bne_iff_ne.mp hover
    have hmoves : (p.rollover now (p.isOver now && files.present p.activeFile)).1.before =
        p.moving p.lastName := by
      rw [rollover, if_pos hover, moving]
      cases p.fixedFile <;> rfl
    have hpacks : (p.rollover now (p.isOver now && files.present p.activeFile)).1.background =
        p.packing p.lastName (files.present p.activeFile) := by
      rw [rollover, if_pos hover, hover, Bool.true_and, archiving, packing]
      cases p.compression.archive? with
      | none => exact ite_self _
      | some format => rfl
    have hcrossed : (p.rollover now (p.isOver now && files.present p.activeFile)).1.crossed = true := by
      rw [rollover, if_pos hover]
    have hactive : (p.rollover now (p.isOver now && files.present p.activeFile)).1.activeFile =
        (p.looked now).activeFile := by
      rw [rollover, if_pos hover]
      rfl
    refine ⟨?_, ?_, ?_, fun _ => hmoves, fun _ => hpacks, hactive, ?_⟩
    · rw [rollover_snd]
      rfl
    · exact ⟨fun _ => hne, fun _ => hcrossed⟩
    · intro hnot
      rw [hcrossed] at hnot
      cases hnot
    · rw [rollover_snd, hactive]
  · -- the name is the same, and nothing is to be done
    have hsame : p.nameAt now = p.lastName := bne_eq_false_iff_eq.mp (Bool.eq_false_iff.mpr hover)
    rw [rollover_of_same hsame]
    refine ⟨rfl, ?_, fun _ => ⟨rfl, rfl⟩, nofun, nofun, rfl, rfl⟩
    exact ⟨nofun, fun hne => absurd hsame hne⟩

/-! ## All looks -/

theorem length_watchAll (p : Policy) (visits : List (Int × FileSystem)) :
    (p.watchAll visits).length = visits.length := by
  induction visits generalizing p with
  | nil => rfl
  | cons v rest ih => exact congrArg (· + 1) (ih _)

/-- **Look after look.**  Each is lawful for the name of the instant before it. -/
theorem lawful_watchAll {start : Int} (hlast : p.lastName = p.nameAt start)
    (visits : List (Int × FileSystem)) (i : Nat) (hi : visits[i]? = some (now, files)) :
    ∃ last step r, (start :: visits.map Prod.fst)[i]? = some last ∧
      (p.watchAll visits)[i]? = some step ∧ step.rollover = some r ∧
      Lawful p (p.nameAt last) now files r step.policy := by
  induction visits generalizing p start i with
  | nil => cases hi
  | cons v rest ih =>
    cases i with
    | zero =>
      cases hi
      refine ⟨start, _, _, rfl, rfl, rfl, ?_⟩
      rw [← hlast]
      exact lawful_lookOn p now files
    | succ i =>
      -- the policy remembers this instant, and nothing else has changed
      obtain ⟨last, step, r, hbefore, hstep, hr, hlawful⟩ := ih (p := p.looked v.1) rfl i hi
      refine ⟨last, step, r, hbefore, ?_, hr, hlawful.of_looked⟩
      rw [watchAll, lookOn_snd]
      exact hstep

/-! ## Departures -/

/-- The names that are left in a run of looks, each with the files that are there then. -/
def departures (p : Policy) : List (Int × FileSystem) → List (String × FileSystem)
  | [] => []
  | (now, files) :: rest =>
    if p.nameAt now ≠ p.lastName then (p.lastName, files) :: (p.looked now).departures rest
    else (p.looked now).departures rest

/-- One departure for each run of equal names, but for the last run, which is not left. -/
theorem map_fst_departures (p : Policy) (visits : List (Int × FileSystem)) :
    (p.departures visits).map Prod.fst =
      ((p.lastName :: visits.map fun v => p.nameAt v.1).destutter (· ≠ ·)).dropLast := by
  induction visits generalizing p with
  | nil => rfl
  | cons v rest ih =>
    have hrest := ih (p.looked v.1)
    rw [List.destutter_cons'] at hrest
    rw [departures, List.map_cons, List.destutter_cons', List.destutter'_cons]
    by_cases hne : p.nameAt v.1 ≠ p.lastName
    · rw [if_pos hne, if_pos (Ne.symm hne),
        List.dropLast_cons_of_ne_nil (List.destutter'_ne_nil _ _), List.map_cons, hrest]
      rfl
    · have hsame : p.lastName = p.nameAt v.1 := (not_not.mp hne).symm
      rw [if_neg hne, if_neg (not_not.mpr hsame), hrest, hsame]
      rfl

/-- A look that finds no other name asks for nothing, and one that does is a departure. -/
theorem departures_cons (p : Policy) (now : Int) (files : FileSystem)
    (rest : List (Int × FileSystem)) {f : Rollover → List Action} {g : String × FileSystem → List Action}
    (hidle : p.nameAt now = p.lastName → f (p.lookOn now files).1 = [])
    (hleft : p.nameAt now ≠ p.lastName → f (p.lookOn now files).1 = g (p.lastName, files)) :
    f (p.lookOn now files).1 ++ ((p.looked now).departures rest).flatMap g =
      (p.departures ((now, files) :: rest)).flatMap g := by
  rw [departures]
  by_cases hne : p.nameAt now ≠ p.lastName
  · rw [if_pos hne, hleft hne, List.flatMap_cons]
  · rw [if_neg hne, hidle (not_not.mp hne), List.nil_append]

/-- What a look led to, if there was one. -/
def Watched.asked (f : Rollover → List Action) (step : Watched) : List Action :=
  (step.rollover.map f).getD []

/-- **Departure after departure.**  What the looks of a run ask for is what is to be done about each
name that was left. -/
theorem flatMap_watchAll (p : Policy) (visits : List (Int × FileSystem)) :
    ((p.watchAll visits).flatMap (Watched.asked Rollover.before) =
      (p.departures visits).flatMap fun d => p.moving d.1) ∧
    ((p.watchAll visits).flatMap (Watched.asked Rollover.background) =
      (p.departures visits).flatMap fun d =>
        p.packing d.1 (d.2.present (p.fixedFile.getD ⟨p.compression.strip d.1⟩))) := by
  induction visits generalizing p with
  | nil => exact ⟨rfl, rfl⟩
  | cons v rest ih =>
    obtain ⟨now, files⟩ := v
    obtain ⟨hmoves, hpacks⟩ := ih (p.looked now)
    have hlawful := lawful_lookOn p now files
    have hidle : p.nameAt now = p.lastName → (p.lookOn now files).1.crossed = false := by
      intro hsame
      exact Bool.eq_false_iff.mpr fun hcrossed => hlawful.crossed.mp hcrossed hsame
    constructor
    · rw [watchAll, List.flatMap_cons, lookOn_snd, hmoves]
      refine departures_cons p now files rest (f := Rollover.before) (g := fun d => p.moving d.1)
        (fun hsame => ?_) (fun hne => ?_)
      · exact (hlawful.idle (hidle hsame)).1
      · exact hlawful.before (hlawful.crossed.mpr hne)
    · rw [watchAll, List.flatMap_cons, lookOn_snd, hpacks]
      refine departures_cons p now files rest (f := Rollover.background)
        (g := fun d => p.packing d.1 (d.2.present (p.fixedFile.getD ⟨p.compression.strip d.1⟩)))
        (fun hsame => ?_) (fun hne => ?_)
      · exact (hlawful.idle (hidle hsame)).2
      · exact hlawful.background (hlawful.crossed.mpr hne)

/-- **The history of a policy.**  Let it look at any instants in any order, whatever files are there at
each look.  Each look is lawful for the name of the instant before it, which for the first look is the
instant of activation, and for the compression found then.  So what is asked for in the whole history is
what is to be done about each maximal run of equal names that was left, once and in their order. -/
theorem history_of_looks {localTime : LocalTime} {start : Int} {config : Config} {p : Policy}
    (hp : activate localTime config start = .ok p) (visits : List (Int × FileSystem)) :
    (p.fixedFile = config.activeFile ∧ p.compression = .detect (p.nameAt start)) ∧
    (p.watchAll visits).length = visits.length ∧
    (∀ (i : Nat) (now : Int) (files : FileSystem), visits[i]? = some (now, files) →
      ∃ last step r, (start :: visits.map Prod.fst)[i]? = some last ∧
        (p.watchAll visits)[i]? = some step ∧ step.rollover = some r ∧
        Lawful p (p.nameAt last) now files r step.policy) ∧
    ((p.departures visits).map Prod.fst =
      (((start :: visits.map Prod.fst).map p.nameAt).destutter (· ≠ ·)).dropLast) ∧
    ((p.watchAll visits).flatMap (Watched.asked Rollover.before) =
      (p.departures visits).flatMap fun d => p.moving d.1) ∧
    ((p.watchAll visits).flatMap (Watched.asked Rollover.background) =
      (p.departures visits).flatMap fun d =>
        p.packing d.1 (d.2.present (p.fixedFile.getD ⟨p.compression.strip d.1⟩))) := by
  have hact := activate_ok hp
  have hnames : (start :: visits.map Prod.fst).map p.nameAt =
      p.lastName :: visits.map fun v => p.nameAt v.1 := by
    rw [List.map_cons, List.map_map, hact.lastName]
    rfl
  refine ⟨⟨hact.fixedFile, ?_⟩, p.length_watchAll visits, ?_, ?_, p.flatMap_watchAll visits⟩
  · rw [hact.compression, hact.lastName]
  · intro i now files hi
    exact lawful_watchAll hact.lastName visits i hi
  · rw [hnames]
    exact p.map_fst_departures visits

/-- A log by the hour in a fixed file: from the first hour it goes to the second, back to the last hour of
1969, and on to the second again; the file is there at two of these three departures. -/
theorem history_of_looks_back_and_forth :
    let log : FileSystem := .ofFiles [(⟨"log"⟩, some [1])]
    let visits : List (Int × FileSystem) :=
      [(0, log), (3600000, log), (3600500, log), (-1, .blank), (3600000, log)]
    ∃ p, activate (.fixed 0) ⟨some "%d\x7bHH\x7d.gz", some ⟨"log"⟩, .utc⟩ 0 = .ok p ∧
      (p.departures visits).map Prod.fst = ["00.gz", "01.gz", "23.gz"] ∧
      (p.watchAll visits).flatMap (Watched.asked Rollover.before) =
        [.rename ⟨"log"⟩ ⟨"00"⟩ true, .rename ⟨"log"⟩ ⟨"01"⟩ true, .rename ⟨"log"⟩ ⟨"23"⟩ true] ∧
      (p.watchAll visits).flatMap (Watched.asked Rollover.background) =
        [.compress .gzip ⟨"00"⟩ ⟨"00.gz"⟩ true, .compress .gzip ⟨"23"⟩ ⟨"23.gz"⟩ true] := by
  have hp : activate (.fixed 0) ⟨some "%d\x7bHH\x7d.gz", some ⟨"log"⟩, .utc⟩ 0 = .ok
      ⟨⟨"%d\x7bHH\x7d.gz", [], "HH".toList, [.field (.hour .padded)], ".gz".toList, .utc, false⟩, .fixed 0,
        some ⟨"log"⟩, .gzip, "00.gz", 0⟩ := by rfl
  obtain ⟨-, -, -, hnames, hmoves, hpacks⟩ := history_of_looks hp
    [(0, .ofFiles [(⟨"log"⟩, some [1])]), (3600000, .ofFiles [(⟨"log"⟩, some [1])]),
      (3600500, .ofFiles [(⟨"log"⟩, some [1])]), (-1, .blank),
      (3600000, .ofFiles [(⟨"log"⟩, some [1])])]
  exact ⟨_, hp, hnames.trans (by decide), hmoves.trans (by decide), hpacks.trans (by decide)⟩

end LogRotation.Policy
