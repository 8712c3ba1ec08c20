/-
  What work on a writer leads to, told request by request.

  Work changes a writer and asks for files, and it may fail; what was changed before a failure stays
  changed.  So what it leads to is told of its result, of the writer and of the state, and each way to
  build work has its rule.
-/
import LogRotation.Proofs.Looks
import LogRotation.Proofs.Regimes
import LogRotation.Writer

namespace LogRotation.Writer.Work

variable {S α β : Type} {m : Regime S} {w : Writer} {s : S}

/-- Holds of work that, from a writer and a state on, ends with a writer and in a state where
something holds of its result. -/
def Leads (m : Regime S) (x : Work α) (Q : Except Error α → Writer → S → Prop) (w : Writer)
    (s : S) : Prop :=
  Routine.Leads m (x.run.run w) (fun r s => Q r.1 r.2 s) s

/-- Work that may fail goes on only where it has not failed. -/
theorem Leads.bind {x : Work α} {f : α → Work β} {Q : Except Error β → Writer → S → Prop}
    (h : x.Leads m (fun r w s => match r with
      | .ok a => (f a).Leads m Q w s
      | .error e => Q (.error e) w s) w s) :
    (x >>= f).Leads m Q w s := by
  refine Routine.Leads.bind (Routine.Leads.mono h ?_)
  rintro ⟨r, w⟩ s hr
  cases r with
  | ok a => exact hr
  | error e => exact hr

theorem Leads.mono {x : Work α} {Q Q' : Except Error α → Writer → S → Prop}
    (h : x.Leads m Q w s) (hQ : ∀ r w s, Q r w s → Q' r w s) : x.Leads m Q' w s :=
  Routine.Leads.mono h fun r s hr => hQ r.1 r.2 s hr

theorem leads_pure {Q : Except Error α → Writer → S → Prop} {a : α} (h : Q (.ok a) w s) :
    (pure a : Work α).Leads m Q w s := h

theorem leads_get {Q : Except Error Writer → Writer → S → Prop} (h : Q (.ok w) w s) :
    (get : Work Writer).Leads m Q w s := h

theorem leads_modify {Q : Except Error PUnit → Writer → S → Prop} {f : Writer → Writer}
    (h : Q (.ok ⟨⟩) (f w) s) : (modify f : Work PUnit).Leads m Q w s := h

theorem leads_ofExcept {Q : Except Error α → Writer → S → Prop} {r : Except Error α}
    (h : Q r w s) : (ofExcept r).Leads m Q w s := h

theorem leads_ofRoutine {Q : Except Error α → Writer → S → Prop} {r : Routine α}
    (h : r.Leads m (fun a s => Q (.ok a) w s) s) : (ofRoutine r).Leads m Q w s :=
  Routine.Leads.bind (Routine.Leads.bind h)

theorem leads_ofAttempt {Q : Except Error α → Writer → S → Prop} {r : Routine.Attempt IoError α}
    (h : Routine.Leads m r.run (fun a s => Q (a.mapError Error.io) w s) s) :
    (ofAttempt r).Leads m Q w s :=
  Leads.bind (leads_ofRoutine h)

/-- A file that is opened is the writer's from then on. -/
theorem leads_openFile {x : Path} {Q : Except Error Unit → Writer → S → Prop}
    (h : Routine.Leads m (Routine.openAppend x).run (fun r s => match r with
      | .ok f => Q (.ok ()) { w with file := some f, path := x } s
      | .error e => Q (.error (.io e)) w s) s) : (openFile x).Leads m Q w s := by
  refine Leads.bind (leads_ofAttempt (h.mono fun r s hr => ?_))
  cases r with
  | error e => exact hr
  | ok f => exact leads_modify hr

theorem leads_keepFile {step : Except IoError Unit × Buffered}
    {Q : Except Error Unit → Writer → S → Prop}
    (hQ : Q (step.1.mapError Error.io) { w with file := some step.2 } s) :
    (keepFile step).Leads m Q w s :=
  Leads.bind (leads_modify hQ)

theorem leads_showRecord {record : Option String} {Q : Except Error Unit → Writer → S → Prop}
    (hQ : ∀ tail, Q (.ok ()) { w with tail := tail } s) : (showRecord record).Leads m Q w s := by
  cases record with
  | none => exact hQ w.tail
  | some r => exact leads_modify (hQ _)

/-- A look at the clock asks for the file of a period that is over. -/
theorem leads_consult {now : Int} {Q : Except Error Rollover → Writer → S → Prop}
    (hover : w.policy.isOver now = true → m.step s (.present w.policy.activeFile)
      fun written s => Q (.ok (w.policy.rollover now written).1)
        { w with policy := w.policy.looked now } s)
    (hsame : w.policy.isOver now = false → Q (.ok (w.policy.rollover now false).1)
      { w with policy := w.policy.looked now } s) : (consult now).Leads m Q w s := by
  have hkeep : ∀ written s', Q (.ok (w.policy.rollover now written).1)
      { w with policy := w.policy.looked now } s' →
      Q (.ok (w.policy.rollover now written).1)
        { w with policy := (w.policy.rollover now written).2 } s' := by
    intro written s' hQ
    rw [Policy.rollover_snd]
    exact hQ
  refine Leads.bind (leads_get (Leads.bind (leads_ofRoutine ?_)))
  unfold Policy.consult
  split
  · rename_i h
    refine m.mono (hover h) ?_
    intro written s' hQ
    exact Leads.bind (leads_modify (hkeep written s' hQ))
  · rename_i h
    exact Leads.bind (leads_modify (hkeep false s (hsame (Bool.eq_false_iff.mpr h))))

end LogRotation.Writer.Work
