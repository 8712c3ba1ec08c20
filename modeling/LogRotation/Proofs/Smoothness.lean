/-
  Runs in which nothing fails.

  Where no operation fails, a routine goes one way only: the file system serves its requests, and each
  answer is a success.  What is left open is what others do in between, and that is a relation.

    * SUCCEEDS   an answer that tells of no failure;
    * SMOOTH     a run all of whose requests succeed, those of the program and those of the worker;
    * SERVED     what a success says of the operation behind it;
    * SMOOTHLY   a routine among others that keeps its guarantee as long as its requests succeed.
-/
import LogRotation.Proofs.Interference

namespace LogRotation

/-! ## Success -/

/-- Holds of an answer that tells of no failure.  A directory that cannot be made is no failure yet:
it may be there, which is asked for then, and must be so. -/
def Request.succeeds : (q : Request) → q.Reply → Bool
  | .isDirectory _, there => there
  | .rename .., r => r.isOk
  | .remove _, r => r.isOk
  | .openRead _, r => r.isOk
  | .openWrite .., r => r.isOk
  | .read _, r => r.isOk
  | .write .., r => r.failure.isNone
  | .sync _, r => r.isOk
  | .present _, _ | .makeDirectory _, _ | .close _, _ | .submit _, _ | .await, _ | .clock, _ => true

/-- Nothing fails from outside. -/
def Conditions.Quiet (c : Conditions) : Prop := ∀ tick q, c.fault tick q = none

/-! ## Smooth runs -/

namespace World

variable {c : Conditions} {w : World}

/-- Whether all requests of a routine that is run alone succeed. -/
def smoothAlone {α : Type} (c : Conditions) : Routine α → World → Bool
  | .done _, _ => true
  | .ask q next, w =>
    q.succeeds (w.answer c q).1 && smoothAlone c (next (w.answer c q).1) (w.answer c q).2

/-- Whether the next request of the worker succeeds. -/
def smoothTurn (c : Conditions) (w : World) : Bool :=
  match w.begun with
  | .ask q _ => q.succeeds (w.answer c q).1
  | .done () => true

/-- Whether so many requests of the worker succeed. -/
def smoothTurns (c : Conditions) : Nat → World → Bool
  | 0, _ => true
  | n + 1, w => smoothTurn c w && smoothTurns c n (w.turn c)

/-- Whether all requests of actions succeed that are done one after the other. -/
def smoothActions (c : Conditions) : List Action → World → Bool
  | [], _ => true
  | a :: rest, w =>
    smoothAlone c a.executeQuietly w && smoothActions c rest (runAlone c a.executeQuietly w).2

/-- Whether the worker finishes what it has begun and all that was submitted without a failure. -/
def smoothDrain (c : Conditions) (w : World) : Bool :=
  smoothAlone c w.begun { w with begun := .done () } &&
    smoothActions c w.queue { (runAlone c w.begun { w with begun := .done () }).2 with queue := [] }

/-- Whether a request of the program succeeds. -/
def smoothPerform (c : Conditions) (w : World) : Request → Bool
  | .await => smoothDrain c w
  | q => q.succeeds (w.answer c q).1

/-- Whether in a run of a program all requests succeed, those of the worker in between as well. -/
def smooth {α : Type} (c : Conditions) : Routine α → World → Bool
  | .done _, _ => true
  | .ask q next, w =>
    smoothTurns c (c.turns w.ticks) w &&
      (smoothPerform c (turns c (c.turns w.ticks) w) q &&
        smooth c (next ((turns c (c.turns w.ticks) w).perform c q).1)
          ((turns c (c.turns w.ticks) w).perform c q).2)

/-- Where nothing fails from outside, the file system serves. -/
theorem answer_quiet (hc : c.Quiet) {q : Request} (hq : q.isFile = true) :
    w.answer c q = ((w.files.serve q).1,
      { w with files := (w.files.serve q).2, ticks := w.ticks + 1 }) := by
  have hfault : c.fault w.ticks q = none := hc _ _
  cases q <;> first
    | exact absurd hq Bool.false_ne_true
    | (simp only [answer, hfault]; rfl)

end World

/-! ## What success says -/

namespace FileSystem

variable {fs fs' : FileSystem} {x y : Path}

theorem served_settle {r : Except IoError FileSystem}
    (h : (fs.settle (r.map fun fs => ((), fs))).1.isOk = true) :
    ∃ fs', r = .ok fs' ∧ fs.settle (r.map fun fs => ((), fs)) = (.ok (), fs') := by
  cases r with
  | error e => cases h
  | ok fs' => exact ⟨fs', rfl, rfl⟩

theorem served_rename (h : (Request.rename x y).succeeds (fs.serve (.rename x y)).1 = true) :
    ∃ fs', fs.rename x y = .ok fs' ∧ fs.serve (.rename x y) = (.ok (), fs') :=
  served_settle h

theorem served_remove (h : (Request.remove x).succeeds (fs.serve (.remove x)).1 = true) :
    ∃ fs', fs.remove x = .ok fs' ∧ fs.serve (.remove x) = (.ok (), fs') :=
  served_settle h

/-- A directory was made, or nothing was changed. -/
theorem served_makeDirectory (fs : FileSystem) (x : Path) :
    (fs.serve (.makeDirectory x)).2 = fs ∨
      ∃ fs', fs.makeDirectory x = .ok fs' ∧ fs.serve (.makeDirectory x) = (.ok (), fs') := by
  show (fs.settle ((fs.makeDirectory x).map fun fs => ((), fs))).2 = fs ∨ ∃ fs',
    fs.makeDirectory x = .ok fs' ∧
      fs.settle ((fs.makeDirectory x).map fun fs => ((), fs)) = (.ok (), fs')
  cases fs.makeDirectory x with
  | error e => exact .inl rfl
  | ok fs' => exact .inr ⟨fs', rfl, rfl⟩

theorem served_openRead (h : (Request.openRead x).succeeds (fs.serve (.openRead x)).1 = true) :
    ∃ handle, fs.openRead x = .ok handle ∧ fs.serve (.openRead x) = (.ok handle, fs) := by
  have hok : (fs.openRead x).isOk = true := h
  cases hopen : fs.openRead x with
  | error e =>
    rw [hopen] at hok
    cases hok
  | ok handle =>
    refine ⟨handle, rfl, ?_⟩
    rw [serve, hopen]

theorem served_openWrite {keep : Bool}
    (h : (Request.openWrite x keep).succeeds (fs.serve (.openWrite x keep)).1 = true) :
    ∃ handle fs', fs.openWrite x keep = .ok (handle, fs') ∧
      fs.serve (.openWrite x keep) = (.ok handle, fs') := by
  have hok : (fs.settle (fs.openWrite x keep)).1.isOk = true := h
  cases hopen : fs.openWrite x keep with
  | error e =>
    rw [hopen] at hok
    cases hok
  | ok result =>
    refine ⟨result.1, result.2, rfl, ?_⟩
    rw [serve, hopen]
    rfl

end FileSystem

/-! ## Routines among others -/

/-- Requests that succeed among those of others: before each request the files may have changed as is
relied on, and where it succeeds, they must change as is guaranteed. -/
def Regime.smoothly (rely guar : FileSystem → FileSystem → Prop) : Regime FileSystem where
  step fs q k := q.isFile = true ∧ ∀ fs₁, rely fs fs₁ → q.succeeds (fs₁.serve q).1 = true →
    guar fs₁ (fs₁.serve q).2 ∧ k (fs₁.serve q).1 (fs₁.serve q).2
  mono h hk := by
    refine ⟨h.1, fun fs₁ hrely hok => ?_⟩
    obtain ⟨hguar, hr⟩ := h.2 fs₁ hrely hok
    exact ⟨hguar, hk _ _ hr⟩

namespace Routine

variable {α ε : Type} {rely guar : FileSystem → FileSystem → Prop} {fs fs' : FileSystem} {x : Path}

/-- Holds of a routine that asks about files only and that, as long as its requests succeed and others
keep to what it relies on, keeps its guarantee and ends well. -/
abbrev Smoothly (rely guar : FileSystem → FileSystem → Prop) (r : Routine α)
    (Q : α → FileSystem → Prop) (fs : FileSystem) : Prop :=
  r.Leads (.smoothly rely guar) Q fs

/-- What others do beforehand is no harm to a routine whose end they do not change. -/
theorem Smoothly.after {r : Routine α} {Q : α → FileSystem → Prop}
    (htrans : ∀ a b c, rely a b → rely b c → rely a c)
    (hstable : ∀ a fs fs', rely fs fs' → Q a fs → Q a fs')
    (h : r.Smoothly rely guar Q fs) (hrely : rely fs fs') : r.Smoothly rely guar Q fs' := by
  cases r with
  | done a => exact hstable a _ _ hrely h
  | ask q next =>
    obtain ⟨hq, hsteps⟩ := h
    refine ⟨hq, fun fs₁ h₁ => ?_⟩
    exact hsteps fs₁ (htrans _ _ _ hrely h₁)

/-- One request, of which all is known that others cannot change. -/
theorem smoothly_request {q : Request} {Q : q.Reply → FileSystem → Prop} {P : FileSystem → Prop}
    (hq : q.isFile = true) (hP : P fs) (stable : ∀ a b, rely a b → P a → P b)
    (h : ∀ fs₁, P fs₁ → q.succeeds (fs₁.serve q).1 = true →
      guar fs₁ (fs₁.serve q).2 ∧ Q (fs₁.serve q).1 (fs₁.serve q).2) :
    (request q).Smoothly rely guar Q fs := by
  refine ⟨hq, ?_⟩
  intro fs₁ hrely hok
  exact h fs₁ (stable _ _ hrely hP) hok

/-- Closing a file changes nothing that others could not change. -/
theorem smoothly_closing {handle : Handle} {body : Attempt ε α} {Q : Except ε α → FileSystem → Prop}
    (refl : ∀ a, guar a a) (stable : ∀ r a b, rely a b → Q r a → Q r b)
    (h : Smoothly rely guar body.run Q fs) : Smoothly rely guar (closing handle body).run Q fs := by
  refine Leads.bind (h.mono fun r fs hr => Leads.bind ?_)
  exact smoothly_request rfl hr (stable r) fun fs₁ h₁ _ => ⟨refl fs₁, h₁⟩

end Routine

end LogRotation
