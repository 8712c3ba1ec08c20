/-
  What is told of a program: the file that it opened last, what it wrote to it, and what it handed to
  the background.

  A program asks requests, and only their answers tell it what came of them.  A tale keeps what matters
  of both, whatever the answers are, and whoever else is at work on the files.

    * TALE     the last file that was opened for writing with what was sent to it, the paths that were
               found and opened, and the actions that were submitted;
    * TOLD     the regime in which a request may be answered with anything but a write that reports no
               failure and falls short;
    * STREAM   what was sent to a file and what is still pending, of which nothing is lost.

  Main statement: `told_run`.
-/
import LogRotation.Proofs.Regimes
import LogRotation.World
import LogRotation.Writer

namespace LogRotation

/-! ## Tales -/

/-- A file that was opened for writing, and what was sent to it since. -/
structure Landing where
  path : Path
  handle : Handle
  sent : Bytes
  deriving DecidableEq, Repr

/-- What is told of a run. -/
structure Tale where
  landing : Option Landing
  /-- The paths that were found to lead somewhere. -/
  found : List Path
  /-- The paths that were opened for writing. -/
  opened : List Path
  submitted : List Action
  deriving DecidableEq, Repr

namespace Tale

/-- Nothing was told yet. -/
def blank : Tale := ⟨none, [], [], []⟩

/-- Bytes that were sent to a file are told of if it is the one that was opened last. -/
def sending (t : Tale) (h : Handle) (bytes : Bytes) : Tale :=
  match t.landing with
  | some l => if l.handle = h then { t with landing := some { l with sent := l.sent ++ bytes } } else t
  | none => t

/-- A tale goes on with a request and its answer. -/
def after (t : Tale) : (q : Request) → q.Reply → Tale
  | .present p, there => if there then { t with found := t.found ++ [p] } else t
  | .openWrite p _, r =>
    match r with
    | .ok h => { t with landing := some ⟨p, h, []⟩, opened := t.opened ++ [p] }
    | .error _ => t
  | .write h bytes, r => t.sending h (bytes.take r.count)
  | .submit actions, _ => { t with submitted := t.submitted ++ actions }
  | _, _ => t

end Tale

/-- Holds of an answer that can be given: a write that reports no failure has taken all bytes. -/
def Request.Fair : (q : Request) → q.Reply → Prop
  | .write _ bytes, r => r.failure = none → r.count = bytes.length
  | _, _ => True

/-- A request may be answered with all that can be given. -/
def Regime.told : Regime Tale where
  step t q k := ∀ r, q.Fair r → k r (t.after q r)
  mono h hk := fun r hr => hk r _ (h r hr)

namespace World

variable {c : Conditions}

/-- What is told of a run of a routine, going on from a tale. -/
def tale {α : Type} (c : Conditions) : Routine α → World → Tale → Tale
  | .done _, _, t => t
  | .ask q next, w, t =>
    let (r, w) := (turns c (c.turns w.ticks) w).perform c q
    tale c (next r) w (t.after q r)

/-- Files take all bytes or report a failure, and so does what fails from outside. -/
theorem fair_answer (w : World) (q : Request) : q.Fair (w.answer c q).1 := by
  cases q <;> try trivial
  rename_i h bytes
  intro hnone
  unfold World.answer at hnone ⊢
  dsimp only at hnone ⊢
  generalize c.fault w.ticks (.write h bytes) = fault at hnone ⊢
  cases fault with
  | some fault =>
    -- a write that fails from outside reports that
    simp [FileSystem.serveFault] at hnone
  | none =>
    cases h with
    | file id => rfl
    | directory => cases hnone
    | full =>
      cases bytes with
      | nil => rfl
      | cons b bytes => cases hnone

theorem fair_perform (w : World) (q : Request) : q.Fair (w.perform c q).1 := by
  cases q <;> first | exact fair_answer w _ | trivial

/-- **Whatever is answered.**  What a routine leads to for all answers, it leads to in every run. -/
theorem told_run {α : Type} {r : Routine α} {Q : α → Tale → Prop} {w : World} {t : Tale}
    (h : r.Leads .told Q t) : Q (run c r w).1 (tale c r w t) := by
  induction r generalizing w t with
  | done a => exact h
  | ask q next ih => exact ih _ (h _ (fair_perform _ q))

end World

/-! ## Files -/

namespace Routine

variable {t : Tale}

theorem told_makeDirectories (ds : List Path) {Q : Except IoError Unit → Tale → Prop}
    (hQ : ∀ r, Q r t) : Leads .told (makeDirectories ds).run Q t :=
  leads_makeDirectories (fun _ => True) (fun _ _ _ hk r _ => hk r)
    (fun _ _ _ hk there _ => hk there trivial) (hQ _) fun _ _ => hQ _

theorem told_makeParents (x : Path) {Q : Except IoError Unit → Tale → Prop} (hQ : ∀ r, Q r t) :
    Leads .told (makeParents x).run Q t := by
  unfold makeParents
  split
  · exact told_makeDirectories _ hQ
  · exact hQ _

/-- Opening a file at its end is told of if it succeeds. -/
theorem told_openAppend (x : Path) {Q : Except IoError Buffered → Tale → Prop}
    (herror : ∀ e, Q (.error e) t)
    (hok : ∀ h, Q (.ok ⟨h, []⟩) { t with landing := some ⟨x, h, []⟩, opened := t.opened ++ [x] }) :
    Leads .told (openAppend x).run Q t := by
  refine leads_attempt (told_makeParents x fun r => ?_)
  cases r with
  | error e => exact herror e
  | ok u =>
    refine leads_attempt fun r _ => ?_
    cases r with
    | error e => exact herror e
    | ok h => exact hok h

end Routine

/-! ## Buffers -/

namespace Tale

variable {t t' : Tale} {x : Path}

/-- `t.Streams x f bytes` - the buffer `f` belongs to the file at `x` that was opened last, and what
was sent to it and what is pending make up these bytes. -/
def Streams (t : Tale) (x : Path) (f : Buffered) (bytes : Bytes) : Prop :=
  ∃ sent, t.landing = some ⟨x, f.handle, sent⟩ ∧ sent ++ f.pending = bytes

/-- Holds of tales that differ in what was sent only. -/
structure SameBut (t t' : Tale) : Prop where
  found : t'.found = t.found
  opened : t'.opened = t.opened
  submitted : t'.submitted = t.submitted

theorem SameBut.refl (t : Tale) : t.SameBut t := ⟨rfl, rfl, rfl⟩

theorem SameBut.trans {t'' : Tale} (h : t.SameBut t') (h' : t'.SameBut t'') : t.SameBut t'' :=
  ⟨h'.found.trans h.found, h'.opened.trans h.opened, h'.submitted.trans h.submitted⟩

theorem sameBut_sending (t : Tale) (h : Handle) (bytes : Bytes) : t.SameBut (t.sending h bytes) := by
  unfold sending
  split
  · split <;> exact ⟨rfl, rfl, rfl⟩
  · exact .refl t

theorem landing_sending {h : Handle} {sent : Bytes} (ht : t.landing = some ⟨x, h, sent⟩)
    (bytes : Bytes) : (t.sending h bytes).landing = some ⟨x, h, sent ++ bytes⟩ := by
  unfold sending
  rw [ht]
  dsimp only
  rw [if_pos rfl]

end Tale

namespace Buffered

variable {t : Tale} {x : Path} {f : Buffered} {stream : Bytes}

/-- Nothing is lost by a flush, and if it succeeds nothing is pending. -/
theorem told_flush (h : t.Streams x f stream) : f.flush.Leads .told (fun r t' =>
    t.SameBut t' ∧ t'.Streams x r.2 stream ∧ (r.1 = .ok () → r.2.pending = [])) t := by
  unfold flush
  split
  · rename_i hempty
    exact ⟨.refl t, h, fun _ => List.isEmpty_iff.mp hempty⟩
  · refine Routine.Leads.bind (f := fun w => _) ?_
    intro r hfair
    obtain ⟨sent, hlanding, hstream⟩ := h
    refine ⟨t.sameBut_sending _ _, ⟨sent ++ f.pending.take r.count, ?_, ?_⟩, ?_⟩
    · exact Tale.landing_sending hlanding _
    · show _ ++ f.pending.drop r.count = stream
      rw [List.append_assoc, List.take_append_drop, hstream]
    · intro hok
      have hnone : r.failure = none := by
        cases hr : r.failure with
        | none => rfl
        | some e => simp [outcome, hr] at hok
      show f.pending.drop r.count = []
      rw [hfair hnone, List.drop_length]

/-- Bytes that pass by an empty buffer come behind all that was sent. -/
theorem told_writePast (h : t.Streams x f stream) (hempty : f.pending = []) (bytes : Bytes) :
    (Routine.request (.write f.handle bytes)).Leads .told (fun w t' =>
      t.SameBut t' ∧ (∃ stream', t'.Streams x f stream') ∧
      (outcome w = .ok () → t'.Streams x f (stream ++ bytes))) t := by
  intro w hfair
  obtain ⟨sent, hlanding, hstream⟩ := h
  have hsent := Tale.landing_sending hlanding (bytes.take w.count)
  refine ⟨t.sameBut_sending _ _, ⟨_, _, hsent, rfl⟩, ?_⟩
  intro hok
  have hnone : w.failure = none := by
    cases hw : w.failure with
    | none => rfl
    | some e => simp [outcome, hw] at hok
  have hall : bytes.take w.count = bytes := by rw [hfair hnone, List.take_length]
  rw [hall] at hsent
  rw [hempty, List.append_nil] at hstream
  refine ⟨sent ++ bytes, ?_, ?_⟩
  · show (t.sending f.handle (bytes.take w.count)).landing = _
    rw [hall]
    exact hsent
  · rw [hempty, List.append_nil, hstream]

/-- Bytes that are added come behind all that was sent or is pending. -/
theorem told_add (h : t.Streams x f stream) (bytes : Bytes) :
    (f.add bytes).Leads .told (fun r t' => t.SameBut t' ∧ (∃ stream', t'.Streams x r.2 stream') ∧
      (r.1 = .ok () → t'.Streams x r.2 (stream ++ bytes))) t := by
  -- bytes that do not fit into the buffer find it empty
  have hput : ∀ (f' : Buffered) (t' : Tale), t.SameBut t' → t'.Streams x f' stream →
      (capacity ≤ bytes.length → f'.pending = []) →
      Routine.Leads .told (if bytes.length < capacity
        then pure (.ok (), { f' with pending := f'.pending ++ bytes })
        else Routine.request (.write f'.handle bytes) >>= fun w => pure (outcome w, f'))
        (fun r t' => t.SameBut t' ∧ (∃ stream', t'.Streams x r.2 stream') ∧
          (r.1 = .ok () → t'.Streams x r.2 (stream ++ bytes))) t' := by
    intro f' t' hsame hstreams hempty
    split
    · obtain ⟨sent, hlanding, hstream⟩ := hstreams
      have hadded : t'.Streams x { f' with pending := f'.pending ++ bytes } (stream ++ bytes) :=
        ⟨sent, hlanding, by rw [← hstream, List.append_assoc]⟩
      exact ⟨hsame, ⟨_, hadded⟩, fun _ => hadded⟩
    · rename_i hlarge
      refine Routine.Leads.bind ((told_writePast hstreams (hempty (by omega)) bytes).mono ?_)
      rintro w t'' ⟨hsame', hstreams', hok⟩
      exact ⟨hsame.trans hsame', hstreams', hok⟩
  unfold add
  dsimp only
  by_cases hroom : capacity - f.pending.length < bytes.length
  · rw [if_pos hroom]
    refine Routine.Leads.bind ((told_flush h).mono ?_)
    rintro ⟨r, f'⟩ t' ⟨hsame, hstreams, hempty⟩
    cases r with
    | error e => exact ⟨hsame, ⟨stream, hstreams⟩, nofun⟩
    | ok u => exact hput f' t' hsame hstreams fun _ => hempty rfl
  · rw [if_neg hroom]
    refine hput f t (.refl t) h fun hlarge => ?_
    unfold capacity at hroom hlarge
    exact List.length_eq_zero_iff.mp (by omega)

/-- A file that is let go of belongs to nobody, and nothing else is told of it but what was sent. -/
theorem told_release (h : t.Streams x f stream) :
    f.release.Leads .told (fun _ t' => t.SameBut t') t := by
  refine Routine.Leads.bind ((told_flush h).mono ?_)
  rintro r t' ⟨hsame, -, -⟩ u -
  exact hsame

end Buffered

end LogRotation
