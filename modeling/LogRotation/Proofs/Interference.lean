/-
  Routines that are not alone: what a request may be answered with, and what a routine is safe for.

  Between two requests of a routine others may ask theirs.  What they may do is a relation, and so
  is what the routine itself may do; both are told of the files alone, whoever asked.

    * ANSWERS   an answer that the file system gives, or a failure from outside;
    * SAFE      a routine that keeps its guarantee at each request, whatever is answered, as long as
                the others keep to what it relies on.
-/
import LogRotation.Proofs.Places
import LogRotation.Proofs.Regimes

namespace LogRotation

/-! ## Requests about files -/

/-- Holds of the requests that the file system answers. -/
def Request.isFile : Request → Bool
  | submit _ | await | clock => false
  | _ => true

/-- Holds of the requests that change no file, whatever they are answered with. -/
def Request.isLook : Request → Bool
  | present _ | isDirectory _ | openRead _ | read _ | sync _ | close _ => true
  | _ => false

theorem Request.isFile_of_isLook {q : Request} (h : q.isLook = true) : q.isFile = true := by
  cases q <;> first | rfl | cases h

/-- Holds of the requests that write to an open file. -/
def Request.isWrite : Request → Bool
  | write .. => true
  | _ => false

namespace FileSystem

variable {fs fs' : FileSystem} {x y : Path} {spared : Bool}

/-- An answer and the files after it: what the file system gives or, unless the request is spared, a
failure from outside. -/
def Answers (fs : FileSystem) (spared : Bool) (q : Request) (r : q.Reply)
    (fs' : FileSystem) : Prop :=
  fs.serve q = (r, fs') ∨ spared = false ∧ ∃ fault, fs.serveFault fault q = some (r, fs')

/-- An answer is possible if failures come only where nothing is spared. -/
theorem answers_getD (fs : FileSystem) (q : Request) (fault : Option Fault)
    (h : spared = true → fault = none) :
    fs.Answers spared q ((fault.bind fun f => fs.serveFault f q).getD (fs.serve q)).1
      ((fault.bind fun f => fs.serveFault f q).getD (fs.serve q)).2 := by
  cases hf : fault.bind fun f => fs.serveFault f q with
  | none => exact .inl rfl
  | some answer =>
    obtain ⟨f, rfl, hserve⟩ := Option.bind_eq_some_iff.mp hf
    refine .inr ⟨?_, f, hserve⟩
    cases spared with
    | false => rfl
    | true => cases h rfl

/-- Looking changes nothing. -/
theorem Answers.unchanged {q : Request} {r : q.Reply} (h : fs.Answers spared q r fs')
    (hq : q.isLook = true) : fs' = fs := by
  cases q <;> first
    | exact absurd hq Bool.false_ne_true
    | rcases h with h | ⟨-, fault, h⟩ <;> cases h <;> rfl

/-- What is present has something at its place. -/
theorem answers_present (h : fs.Answers spared (.present x) true fs') :
    ∃ n, fs.nodeAt x = some n := by
  rcases h with h | ⟨-, fault, h⟩
  · exact nodeAt_of_present (Prod.mk.inj h).1
  · cases h

/-- What an operation gave that may change files. -/
theorem settle_eq {α : Type} {r : Except IoError (α × FileSystem)} {a : Except IoError α}
    (h : fs.settle r = (a, fs')) :
    (∃ e, a = .error e ∧ fs' = fs) ∨ ∃ b, a = .ok b ∧ r = .ok (b, fs') := by
  cases r with
  | error e =>
    cases h
    exact .inl ⟨e, rfl, rfl⟩
  | ok result =>
    cases h
    exact .inr ⟨_, rfl, rfl⟩

/-- What an operation gave that changes files and tells no more than that. -/
theorem settle_map_eq {r : Except IoError FileSystem} {a : Except IoError Unit}
    (h : fs.settle (r.map fun fs => ((), fs)) = (a, fs')) :
    (∃ e, a = .error e ∧ fs' = fs) ∨ (a = .ok () ∧ r = .ok fs') := by
  cases r with
  | error e =>
    cases h
    exact .inl ⟨e, rfl, rfl⟩
  | ok result =>
    cases h
    exact .inr ⟨rfl, rfl⟩

theorem answers_makeDirectory {r : Except IoError Unit}
    (h : fs.Answers spared (.makeDirectory x) r fs') :
    (∃ e, r = .error e ∧ fs' = fs) ∨ (r = .ok () ∧ fs.makeDirectory x = .ok fs') := by
  rcases h with h | ⟨-, fault, h⟩
  · exact settle_map_eq h
  · cases h; exact .inl ⟨_, rfl, rfl⟩

theorem answers_rename {r : Except IoError Unit} (h : fs.Answers spared (.rename x y) r fs') :
    (∃ e, r = .error e ∧ fs' = fs) ∨ (r = .ok () ∧ fs.rename x y = .ok fs') := by
  rcases h with h | ⟨-, fault, h⟩
  · exact settle_map_eq h
  · cases h; exact .inl ⟨_, rfl, rfl⟩

theorem answers_remove {r : Except IoError Unit} (h : fs.Answers spared (.remove x) r fs') :
    (∃ e, r = .error e ∧ fs' = fs) ∨ (r = .ok () ∧ fs.remove x = .ok fs') := by
  rcases h with h | ⟨-, fault, h⟩
  · exact settle_map_eq h
  · cases h; exact .inl ⟨_, rfl, rfl⟩

theorem answers_openRead {handle : Handle}
    (h : fs.Answers spared (.openRead x) (.ok handle) fs') : fs.openRead x = .ok handle := by
  rcases h with h | ⟨-, fault, h⟩
  · exact (Prod.mk.inj h).1
  · cases h

theorem answers_openWrite {keep : Bool} {r : Except IoError Handle}
    (h : fs.Answers spared (.openWrite x keep) r fs') :
    (∃ e, r = .error e ∧ fs' = fs) ∨
      ∃ handle, r = .ok handle ∧ fs.openWrite x keep = .ok (handle, fs') := by
  rcases h with h | ⟨-, fault, h⟩
  · exact settle_eq h
  · cases h; exact .inl ⟨_, rfl, rfl⟩

theorem answers_read {handle : Handle} {bytes : Bytes}
    (h : fs.Answers spared (.read handle) (.ok bytes) fs') : fs.read handle = .ok bytes := by
  rcases h with h | ⟨-, fault, h⟩
  · exact (Prod.mk.inj h).1
  · cases h

/-- A write to a file adds what was taken, and tells of no failure if that was all. -/
theorem answers_write {id : Nat} {bytes : Bytes} {r : Written}
    (h : fs.Answers spared (.write (.file id) bytes) r fs') :
    ∃ taken, fs' = fs.setContent id ((fs.content id).append taken) ∧
      (r.failure = none → taken = bytes) ∧ (spared = true → r = ⟨bytes.length, none⟩) := by
  rcases h with h | ⟨hs, fault, h⟩
  · -- served: all bytes are taken
    cases h
    exact ⟨bytes, rfl, fun _ => rfl, fun _ => rfl⟩
  · -- failed after some bytes, which happens to no spared request
    cases h
    refine ⟨_, rfl, nofun, ?_⟩
    intro hspared
    rw [hspared] at hs
    cases hs

end FileSystem

/-! ## Safe routines -/

/-- Requests about files among those of others: before each request the files may have changed as is
relied on, and whatever is answered, they must change as is guaranteed. -/
def Regime.among (rely guar : FileSystem → FileSystem → Prop) : Regime FileSystem where
  step fs q k := q.isFile = true ∧ ∀ fs₁, rely fs fs₁ → ∀ r fs₂,
    fs₁.Answers false q r fs₂ → guar fs₁ fs₂ ∧ k r fs₂
  mono h hk := by
    refine ⟨h.1, fun fs₁ hrely r fs₂ hanswer => ?_⟩
    obtain ⟨hguar, hr⟩ := h.2 fs₁ hrely r fs₂ hanswer
    exact ⟨hguar, hk r fs₂ hr⟩

namespace Routine

variable {α ε : Type} {rely guar : FileSystem → FileSystem → Prop} {fs fs' : FileSystem}

/-- Holds of a routine that asks about files only, that keeps its guarantee at each request, and
that ends well, if others keep to what it relies on. -/
abbrev Safe (rely guar : FileSystem → FileSystem → Prop) (r : Routine α)
    (Q : α → FileSystem → Prop) (fs : FileSystem) : Prop :=
  r.Leads (.among rely guar) Q fs

/-- What others do beforehand is no harm to a routine of which nothing is asked at its end. -/
theorem Safe.after {r : Routine α} (htrans : ∀ a b c, rely a b → rely b c → rely a c)
    (h : r.Safe rely guar (fun _ _ => True) fs) (hrely : rely fs fs') :
    r.Safe rely guar (fun _ _ => True) fs' := by
  cases r with
  | done a => trivial
  | ask q next =>
    obtain ⟨hq, hsteps⟩ := h
    refine ⟨hq, fun fs₁ h₁ => ?_⟩
    exact hsteps fs₁ (htrans _ _ _ hrely h₁)

/-- One request, of which all is known that others cannot change. -/
theorem safe_request {q : Request} {Q : q.Reply → FileSystem → Prop} {P : FileSystem → Prop}
    (hq : q.isFile = true) (hP : P fs) (stable : ∀ a b, rely a b → P a → P b)
    (h : ∀ fs₁, P fs₁ → ∀ r fs₂, fs₁.Answers false q r fs₂ → guar fs₁ fs₂ ∧ Q r fs₂) :
    (request q).Safe rely guar Q fs := by
  refine ⟨hq, ?_⟩
  intro fs₁ hrely r fs₂ hanswer
  exact h fs₁ (stable _ _ hrely hP) r fs₂ hanswer

/-- Closing a file changes nothing that others could not change. -/
theorem safe_closing {handle : Handle} {body : Attempt ε α} {Q : Except ε α → FileSystem → Prop}
    (refl : ∀ a, guar a a) (stable : ∀ r a b, rely a b → Q r a → Q r b)
    (h : Safe rely guar body.run Q fs) : Safe rely guar (closing handle body).run Q fs := by
  refine Leads.bind (h.mono fun r fs hr => Leads.bind ?_)
  refine safe_request rfl hr (stable r) fun fs₁ h₁ u fs₂ hanswer => ?_
  cases hanswer.unchanged rfl
  exact ⟨refl fs₁, h₁⟩

end Routine

end LogRotation
