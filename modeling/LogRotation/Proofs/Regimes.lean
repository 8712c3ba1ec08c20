/-
  What a routine leads to, told request by request.

  A routine is a tree of requests, so whatever is known of it is known at its requests: a regime
  says, for a state, which ways to go on are good whatever a request is answered with.  The state
  may be the files that are there, or something about them that lasts while others are at work as
  well.

    * REGIME   what may happen at a request, closed under weaker ways to go on;
    * LEADS    a routine that, from a state on, ends where something holds of its result.
-/
import LogRotation.Routine

namespace LogRotation

/-- What may happen at a request: for a state, the ways to go on that are good for every answer. -/
structure Regime (S : Type) where
  step : S → (q : Request) → (q.Reply → S → Prop) → Prop
  mono : ∀ {s : S} {q : Request} {k k' : q.Reply → S → Prop},
    step s q k → (∀ r s', k r s' → k' r s') → step s q k'

namespace Routine

variable {S α β ε ε' : Type} {m : Regime S} {s : S}

/-- Holds of a routine that, from a state on, ends in a state where something holds of its
result. -/
def Leads (m : Regime S) : Routine α → (α → S → Prop) → S → Prop
  | .done a, Q, s => Q a s
  | .ask q next, Q, s => m.step s q fun r s' => Leads m (next r) Q s'

/-- A routine leads on from where its first part ends. -/
theorem Leads.bind {r : Routine α} {f : α → Routine β} {Q : β → S → Prop}
    (h : r.Leads m (fun a s => (f a).Leads m Q s) s) : (r >>= f).Leads m Q s := by
  induction r generalizing s with
  | done a => exact h
  | ask q next ih =>
    refine m.mono h ?_
    intro r s' hr
    exact ih r hr

theorem Leads.mono {r : Routine α} {Q Q' : α → S → Prop} (h : r.Leads m Q s)
    (hQ : ∀ a s, Q a s → Q' a s) : r.Leads m Q' s := by
  induction r generalizing s with
  | done a => exact hQ a s h
  | ask q next ih =>
    refine m.mono h ?_
    intro r s' hr
    exact ih r hr

/-- A routine that may fail goes on only where it has not failed. -/
theorem leads_attempt {x : Attempt ε α} {f : α → Attempt ε β} {Q : Except ε β → S → Prop}
    (h : Leads m x.run (fun r s => match r with
      | .ok a => Leads m (f a).run Q s
      | .error e => Q (.error e) s) s) :
    Leads m (x >>= f).run Q s := by
  refine Leads.bind (f := ExceptT.bindCont f) (h.mono ?_)
  intro r s hr
  cases r with
  | ok a => exact hr
  | error e => exact hr

theorem leads_lift {r : Routine α} {Q : Except ε α → S → Prop}
    (h : r.Leads m (fun a s => Q (.ok a) s) s) : Leads m (ExceptT.lift r : Attempt ε α).run Q s :=
  Leads.bind h

theorem leads_adapt {x : Attempt ε α} {f : ε → ε'} {Q : Except ε' α → S → Prop}
    (h : Leads m x.run (fun r s => Q (r.mapError f) s) s) : Leads m (x.adapt f).run Q s :=
  Leads.bind h

/-- Making directories leaves a state as it is where no request about a directory changes it.  It fails
only where a directory that cannot be made may turn out not to be there. -/
theorem leads_makeDirectories (found : Bool → Prop) {ds : List Path} {Q : Except IoError Unit → S → Prop}
    (hmake : ∀ d ∈ ds, ∀ k : Except IoError Unit → S → Prop,
      (∀ r, k r s) → m.step s (.makeDirectory d) k)
    (hlook : ∀ d ∈ ds, ∀ k : Bool → S → Prop,
      (∀ there, found there → k there s) → m.step s (.isDirectory d) k)
    (hok : Q (.ok ()) s) (herror : found false → ∀ e, Q (.error e) s) :
    Leads m (makeDirectories ds).run Q s := by
  induction ds generalizing Q with
  | nil => exact hok
  | cons d above ih =>
    have hmem : d ∈ d :: above := List.mem_cons_self
    -- where a directory cannot be made, it counts whether it is there after all
    have hask : ∀ e, Leads m (ExceptT.run do
        unless ← reply (.isDirectory d) do throw e : Routine (Except IoError Unit)) Q s := by
      intro e
      refine leads_attempt (leads_lift (hlook d hmem _ fun there hthere => ?_))
      cases there with
      | true => exact hok
      | false => exact herror hthere e
    refine leads_attempt (leads_lift (hmake d hmem _ fun r => ?_))
    cases r with
    | ok u => exact hok
    | error e =>
      cases e
      case notFound =>
        -- the directories above come first, and then this one again
        refine leads_attempt (ih (fun d hd => hmake d (List.mem_cons_of_mem _ hd))
          (fun d hd => hlook d (List.mem_cons_of_mem _ hd)) ?_ herror)
        refine leads_attempt (leads_lift (hmake d hmem _ fun r => ?_))
        cases r with
        | ok u => exact hok
        | error e => exact hask e
      all_goals exact hask _

end Routine

end LogRotation
