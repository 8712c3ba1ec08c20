/-
  What a run asked, and what it was answered.

  The files that a run leaves behind do not say how they came to be: a move, a refusal or what was handed
  to the background may leave no trace in them.  So a routine is followed here together with all that it
  has asked, and, as long as nobody else is at work, with the files:

    * TRANSCRIPT   what a run asks, with the answers; what is known of a routine with its transcript
                   holds when it was run (`leads_run_staged`);
    * ALONE        the worker waits, or was handed nothing;
    * QUIETLY      requests of which none hands anything to the background;
    * OPEN         an open file that is the one at a path, so that what it takes stands there;
    * TOOK         bytes that were written through an open file without a failure.

  Main statements: `leads_run_staged`, `staged_openAppend`, `staged_flush`.
-/
import LogRotation.Proofs.Blame
import LogRotation.Proofs.Conservation
import LogRotation.Proofs.Journals

namespace LogRotation

variable {α : Type} {c : Conditions}

/-! ## Transcripts -/

/-- A request, and what it was answered with. -/
abbrev Exchange := (q : Request) × q.Reply

/-- What was handed to the background, each time as it was handed over. -/
def handedOver (asked : List Exchange) : List (List Action) :=
  asked.filterMap fun e =>
    match e with
    | ⟨.submit actions, _⟩ => some actions
    | _ => none

theorem handedOver_append (asked more : List Exchange) :
    handedOver (asked ++ more) = handedOver asked ++ handedOver more := List.filterMap_append

/-- What a run of a routine asks, with the answers. -/
def World.transcript (c : Conditions) : Routine α → World → List Exchange
  | .done _, _ => []
  | .ask q next, w =>
    let (r, w) := (turns c (c.turns w.ticks) w).perform c q
    ⟨q, r⟩ :: transcript c (next r) w

/-- The files and all that was asked, at some point of a run. -/
structure Stage where
  files : FileSystem
  asked : List Exchange

/-- Holds of the files that an answer leaves behind where nobody else is at work; waiting for the
background is left open. -/
def FileSystem.LeftBy (fs : FileSystem) (q : Request) (r : q.Reply) (fs' : FileSystem) : Prop :=
  if q.isFile = true then fs.Answers false q r fs' else q ≠ .await → fs' = fs

/-- Holds of a point of a run up to which nobody else was at work: the worker waits, or nothing was handed
to it. -/
def Stage.Alone (waits : Bool) (s : Stage) : Prop := waits = true ∨ handedOver s.asked = []

/-- Each request may be answered with all that can be given.  The files are known as long as nobody else is
at work. -/
def Regime.staged (waits : Bool) : Regime Stage where
  step s q k := ∀ r files, q.Fair r → (s.Alone waits → s.files.LeftBy q r files) →
    k r ⟨files, s.asked ++ [⟨q, r⟩]⟩
  mono h hk := fun r files hr hfiles => hk r _ (h r files hr hfiles)

namespace World

theorem leftBy_perform (w : World) (q : Request) :
    w.files.LeftBy q (w.perform c q).1 (w.perform c q).2.files := by
  unfold FileSystem.LeftBy
  split
  · rename_i hq
    have hperform : w.perform c q = w.answer c q := by cases q <;> first | rfl | cases hq
    rw [hperform, answer_respond hq]
    exact w.files.answers_getD q (c.fault w.ticks q) nofun
  · rename_i hq
    intro hawait
    cases q <;> first | rfl | exact absurd rfl hq | exact absurd rfl hawait

/-- A worker that has nothing to do is given something by what is handed over only. -/
theorem Idle.perform {w : World} (h : w.Idle) {q : Request} {r : q.Reply} (hq : handedOver [⟨q, r⟩] = []) :
    (w.perform c q).2.Idle := by
  cases q
  case submit => cases hq
  case await =>
    show (w.drain c).Idle
    rw [drain, h.1, h.2]
    exact ⟨rfl, rfl⟩
  all_goals exact h

/-- What is known of a routine with its transcript and the files holds when it was run. -/
theorem leads_run_staged {waits : Bool} {r : Routine α} {Q : α → Stage → Prop} {w : World}
    {asked : List Exchange} (hwaits : waits = true → ∀ n, c.turns n = 0)
    (hidle : handedOver asked = [] → w.Idle) (h : r.Leads (.staged waits) Q ⟨w.files, asked⟩) :
    Q (run c r w).1 ⟨(run c r w).2.files, asked ++ transcript c r w⟩ ∧
      (handedOver (asked ++ transcript c r w) = [] → (run c r w).2.Idle) := by
  induction r generalizing w asked with
  | done a =>
    rw [transcript, List.append_nil]
    exact ⟨h, hidle⟩
  | ask q next ih =>
    rw [transcript, List.append_cons]
    refine ih _ (fun hnone => ?_) (h _ _ (fair_perform _ q) fun halone => ?_)
    · rw [handedOver_append, List.append_eq_nil_iff] at hnone
      rw [(hidle hnone.1).turns]
      exact (hidle hnone.1).perform hnone.2
    · -- the request finds the files as they were left
      have hturns : turns c (c.turns w.ticks) w = w := by
        rcases halone with hw | hnone
        · rw [hwaits hw]
          rfl
        · exact (hidle hnone).turns _
      rw [hturns]
      exact leftBy_perform w q

end World

/-! ## Opening -/

/-- Holds of an open file that is the one at a path. -/
def FileSystem.OpenAt (fs : FileSystem) (x : Path) (h : Handle) : Prop :=
  ∃ n, fs.nodeAt x = some n ∧ h = FileSystem.handleOf n

/-- `s.Quietly s'` - some requests were made, and nothing was handed to the background. -/
def Stage.Quietly (s s' : Stage) : Prop :=
  ∃ new, s'.asked = s.asked ++ new ∧ handedOver new = []

namespace Stage

variable {s s' s'' : Stage}

theorem Quietly.refl (s : Stage) : s.Quietly s := ⟨[], (List.append_nil _).symm, rfl⟩

theorem Quietly.trans (h : s.Quietly s') (h' : s'.Quietly s'') : s.Quietly s'' := by
  obtain ⟨new, hnew, hquiet⟩ := h
  obtain ⟨new', hnew', hquiet'⟩ := h'
  refine ⟨new ++ new', ?_, ?_⟩
  · rw [hnew', hnew, List.append_assoc]
  · rw [handedOver_append, hquiet, hquiet']
    rfl

theorem quietly_ask (s : Stage) (files : FileSystem) {q : Request} (hq : q.isFile = true) (r : q.Reply) :
    s.Quietly ⟨files, s.asked ++ [⟨q, r⟩]⟩ := by
  refine ⟨[⟨q, r⟩], rfl, ?_⟩
  cases q <;> first | rfl | cases hq

/-- Who was alone in the end was alone before. -/
theorem Alone.before {waits : Bool} {new : List Exchange} (h : s'.Alone waits)
    (hnew : s'.asked = s.asked ++ new) : s.Alone waits := by
  refine h.imp_right fun hnone => ?_
  rw [hnew, handedOver_append] at hnone
  exact (List.append_eq_nil_iff.mp hnone).1

/-- What was asked stays asked. -/
theorem Quietly.mem (h : s.Quietly s') {e : Exchange} (he : e ∈ s.asked) : e ∈ s'.asked := by
  obtain ⟨new, hnew, -⟩ := h
  rw [hnew]
  exact List.mem_append_left _ he

end Stage

namespace Routine

variable {S : Type} {m : Regime S} {s : S} {waits : Bool}

/-- What requests about directories do not change stays while directories are made. -/
theorem leads_makeDirectories_keep {P : S → Prop} {ds : List Path} (hs : P s)
    (hmake : ∀ d ∈ ds, ∀ s, P s → ∀ k : Except IoError Unit → S → Prop,
      (∀ r s', P s' → k r s') → m.step s (.makeDirectory d) k)
    (hlook : ∀ d ∈ ds, ∀ s, P s → ∀ k : Bool → S → Prop,
      (∀ r s', P s' → k r s') → m.step s (.isDirectory d) k) :
    Leads m (makeDirectories ds).run (fun _ s => P s) s := by
  induction ds generalizing s with
  | nil => exact hs
  | cons d above ih =>
    have hmem : d ∈ d :: above := List.mem_cons_self
    have hask : ∀ e s, P s → Leads m (ExceptT.run do
        unless ← reply (.isDirectory d) do throw e : Routine (Except IoError Unit)) (fun _ s => P s) s := by
      intro e s hs
      refine leads_attempt (leads_lift (hlook d hmem s hs _ fun there s hs => ?_))
      cases there <;> exact hs
    refine leads_attempt (leads_lift (hmake d hmem s hs _ fun r s hs => ?_))
    cases r with
    | ok u => exact hs
    | error e =>
      cases e
      case notFound =>
        -- the directories above come first, and then this one again
        refine leads_attempt ((ih hs (fun d hd => hmake d (List.mem_cons_of_mem _ hd))
          (fun d hd => hlook d (List.mem_cons_of_mem _ hd))).mono ?_)
        intro r s hs
        cases r with
        | error e => exact hs
        | ok u =>
          refine leads_attempt (leads_lift (hmake d hmem s hs _ fun r s hs => ?_))
          cases r with
          | ok u => exact hs
          | error e => exact hask e s hs
      all_goals exact hask _ s hs

theorem staged_makeParents (x : Path) (s : Stage) :
    Leads (.staged waits) (makeParents x).run (fun _ s' => s.Quietly s') s := by
  unfold makeParents
  split
  · refine leads_makeDirectories_keep (.refl s) ?_ ?_
    · intro d _ s' hs' k hk r files _ _
      exact hk r _ (hs'.trans (s'.quietly_ask files rfl r))
    · intro d _ s' hs' k hk r files _ _
      exact hk r _ (hs'.trans (s'.quietly_ask files rfl r))
  · exact .refl s

/-- A file that was opened is the one at its path. -/
theorem staged_openAppend (x : Path) (s : Stage) :
    Leads (.staged waits) (openAppend x).run (fun r s' => s.Quietly s' ∧ ∀ f, r = .ok f →
      f.pending = [] ∧ ⟨.openWrite x true, .ok f.handle⟩ ∈ s'.asked ∧
        (s'.Alone waits → s'.files.OpenAt x f.handle)) s := by
  refine leads_attempt ((staged_makeParents x s).mono ?_)
  intro r s₁ hquiet
  cases r with
  | error e => exact ⟨hquiet, nofun⟩
  | ok u =>
    refine leads_attempt fun r files _ hleft => ?_
    have hquiet := hquiet.trans (s₁.quietly_ask files (q := .openWrite x true) rfl r)
    cases r with
    | error e => exact ⟨hquiet, nofun⟩
    | ok handle =>
      refine ⟨hquiet, ?_⟩
      rintro f ⟨⟩
      refine ⟨rfl, List.mem_append_right _ List.mem_cons_self, fun halone => ?_⟩
      rcases FileSystem.answers_openWrite (hleft (halone.before rfl)) with ⟨e, he, -⟩ | ⟨h, he, hopen⟩
      · cases he
      · cases he
        rcases FileSystem.openWrite_ok hopen with ⟨hfree, rfl, rfl⟩ | ⟨id, hid, rfl, rfl⟩ | hfull
        · exact ⟨_, FileSystem.nodeAt_addFile hfree, rfl⟩
        · exact ⟨_, hid, rfl⟩
        · obtain ⟨rfl, rfl⟩ := FileSystem.openWrite_full hfull hopen
          exact ⟨_, hfull, rfl⟩

end Routine

/-- Moving a file leaves the background alone, and a move that succeeds was granted. -/
theorem Action.staged_move (active target : Path) {waits : Bool} (s : Stage) :
    Routine.Leads (.staged waits) (executeAll [.rename active target true]).run (fun r s' =>
      ∃ new, s'.asked = s.asked ++ new ∧ handedOver new = [] ∧
        (r = .ok () → ⟨.rename active target, .ok ()⟩ ∈ new)) s := by
  have hrefused : ∀ {r : Except Error Unit} {s' : Stage}, s.Quietly s' → r ≠ .ok () → ∃ new,
      s'.asked = s.asked ++ new ∧ handedOver new = [] ∧
        (r = .ok () → ⟨.rename active target, .ok ()⟩ ∈ new) := by
    rintro r s' ⟨new, hnew, hnone⟩ hr
    exact ⟨new, hnew, hnone, fun hok => absurd hok hr⟩
  refine Routine.leads_attempt (Routine.leads_attempt (Routine.leads_lift fun there files _ _ => ?_))
  have hlooked := s.quietly_ask files (q := .present active) rfl there
  cases there with
  | false => exact hrefused hlooked nofun
  | true =>
    refine Routine.leads_attempt (Routine.leads_adapt ((Routine.staged_makeParents target _).mono ?_))
    intro made s₁ hmade
    have hquiet := hlooked.trans hmade
    cases made with
    | error e => exact hrefused hquiet nofun
    | ok u =>
      refine Routine.leads_attempt (Routine.leads_lift fun moved files _ _ => ?_)
      cases moved with
      | error e =>
        exact hrefused (hquiet.trans (s₁.quietly_ask files (q := .rename active target) rfl _)) nofun
      | ok u =>
        obtain ⟨new, hnew, hnone⟩ := hquiet
        refine ⟨new ++ [⟨.rename active target, .ok ()⟩], ?_, ?_, fun _ => ?_⟩
        · rw [← List.append_assoc, ← hnew]
        · rw [handedOver_append, hnone]
          rfl
        · exact List.mem_append_right _ List.mem_cons_self

/-! ## Writing -/

/-- `s.Took waits x h bytes` - these bytes were written through an open file without a failure, and stand
at the end of what is at a path. -/
def Stage.Took (s : Stage) (waits : Bool) (x : Path) (h : Handle) (bytes : Bytes) : Prop :=
  (bytes ≠ [] → ∃ a : Written, a.failure = none ∧ ⟨.write h bytes, a⟩ ∈ s.asked) ∧
    (s.Alone waits → bytes <:+ s.files.bytesAt x)

namespace Buffered

variable {waits : Bool} {s : Stage} {x : Path} {h : Handle}

theorem staged_write (hopen : s.Alone waits → s.files.OpenAt x h) (bytes : Bytes) :
    (Routine.request (.write h bytes)).Leads (.staged waits) (fun a s' => s.Quietly s' ∧
      (outcome a = .ok () → s'.Took waits x h bytes)) s := by
  intro a files _ hleft
  refine ⟨s.quietly_ask files (q := .write h bytes) rfl a, fun hok => ?_⟩
  have hnone : a.failure = none := by
    cases ha : a.failure with
    | none => rfl
    | some e => simp [outcome, ha] at hok
  refine ⟨fun _ => ⟨a, hnone, List.mem_append_right _ List.mem_cons_self⟩, fun hended => ?_⟩
  have halone : s.Alone waits := hended.before rfl
  obtain ⟨n, hn, rfl⟩ := hopen halone
  have hanswer : s.files.Answers false (.write (FileSystem.handleOf n) bytes) a files := hleft halone
  cases n with
  | directory =>
    -- no byte is written to a directory
    rcases hanswer with hserved | ⟨-, fault, hfault⟩
    · cases hserved
      cases hnone
    · cases hfault
      cases hnone
  | file id =>
    obtain ⟨taken, rfl, hall, -⟩ := FileSystem.answers_write hanswer
    have hnode : (s.files.setContent id ((s.files.content id).append taken)).nodeAt x = some (.file id) := hn
    show bytes <:+ (s.files.setContent id ((s.files.content id).append taken)).bytesAt x
    rw [FileSystem.bytesAt_of_file hnode, FileSystem.content_setContent_self, Content.bytes_append, hall hnone]
    exact List.suffix_append _ _
  | full =>
    obtain ⟨-, hempty⟩ := FileSystem.answers_write_full hanswer
    rw [hempty hnone]
    exact List.nil_suffix

/-- Where nothing is pending, nothing is asked. -/
theorem leads_idle {S : Type} {m : Regime S} {s : S} (h : Handle) :
    (flush ⟨h, []⟩).Leads m (fun r s' => r = (.ok (), ⟨h, []⟩) ∧ s' = s) s := by
  rw [flush_of_empty rfl]
  exact ⟨rfl, rfl⟩

/-- What is pending is written. -/
theorem staged_flush (hopen : s.Alone waits → s.files.OpenAt x h) (bytes : Bytes) :
    (flush ⟨h, bytes⟩).Leads (.staged waits) (fun r s' => s.Quietly s' ∧
      (r.1 = .ok () → s'.Took waits x h bytes)) s := by
  unfold flush
  dsimp only
  split
  · rename_i hempty
    rw [List.isEmpty_iff.mp hempty]
    exact ⟨.refl s, fun _ => ⟨fun hne => absurd rfl hne, fun _ => List.nil_suffix⟩⟩
  · exact Routine.Leads.bind (staged_write hopen bytes)

/-- Bytes that are added where nothing is pending are pending, or were written at once. -/
theorem staged_add (hopen : s.Alone waits → s.files.OpenAt x h) (bytes : Bytes) :
    (add ⟨h, []⟩ bytes).Leads (.staged waits) (fun r s' => s.Quietly s' ∧ (r.1 = .ok () →
      (r.2 = ⟨h, bytes⟩ ∧ s' = s) ∨ (r.2 = ⟨h, []⟩ ∧ s'.Took waits x h bytes))) s := by
  have hput : Routine.Leads (.staged waits) (if bytes.length < capacity
      then pure (.ok (), ⟨h, [] ++ bytes⟩)
      else Routine.request (.write h bytes) >>= fun w => pure (outcome w, ⟨h, []⟩))
      (fun (r : Except IoError Unit × Buffered) s' => s.Quietly s' ∧ (r.1 = .ok () →
        (r.2 = ⟨h, bytes⟩ ∧ s' = s) ∨ (r.2 = ⟨h, []⟩ ∧ s'.Took waits x h bytes))) s := by
    by_cases hsmall : bytes.length < capacity
    · rw [if_pos hsmall]
      exact ⟨.refl s, fun _ => .inl ⟨rfl, rfl⟩⟩
    · rw [if_neg hsmall]
      refine Routine.Leads.bind ((staged_write hopen bytes).mono ?_)
      intro a s' ⟨hquiet, htook⟩
      exact ⟨hquiet, fun hok => .inr ⟨rfl, htook hok⟩⟩
  -- there is nothing to write out first
  unfold add
  rw [flush_of_empty rfl, ite_self]
  exact hput

end Buffered

end LogRotation
