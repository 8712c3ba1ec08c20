/-
  The live tail shows what was written, and nobody can tell that it is there.

  A record is shown last of all, when its call can no longer fail, and what was shown is looked at by
  nothing else.  So a log with a tail asks the world exactly what it asks without one, and what a tail
  holds in the end is known from the calls and their results alone.  What the files took is known from
  the tale of each call: where it succeeded, its record is the last that the log's file took.

    * DISCREET   work that leaves the tail alone and does not look at it: all but showing a record;
    * SHOWN      what a call leaves in a tail, told of its result;
    * ACCOUNTS   what came of each call, with what its file took meanwhile;
    * READERS    somebody who does with the tail what they like between two calls, or who is gone.

  Main statement: `tail_shows_what_was_written`.
-/
import LogRotation.Proofs.Blame
import LogRotation.Proofs.Reopening

namespace LogRotation

/-- Routines go on alike if they do from each of the ends that the first part may have. -/
theorem Routine.bind_congr_of_leads {α β : Type} {r : Routine α} {f g : α → Routine β}
    (h : r.Leads .anything (fun a _ => f a = g a) ()) : r >>= f = r >>= g := by
  induction r with
  | done a => exact h
  | ask q next ih => exact congrArg (Routine.ask q) (funext fun reply => ih reply (h reply))

namespace World

variable {α β : Type} (c : Conditions) (others : Nat → FileSystem → FileSystem)

theorem runAmong_bind (r : Routine α) (f : α → Routine β) (w : World) : runAmong c others (r >>= f) w =
    runAmong c others (f (runAmong c others r w).1) (runAmong c others r w).2 := by
  induction r generalizing w with
  | done a => rfl
  | ask q next ih => exact ih _ _

/-- A result that is told differently comes of the same run. -/
theorem runAmong_map (f : α → β) (r : Routine α) (w : World) :
    runAmong c others (f <$> r) w = (f (runAmong c others r w).1, (runAmong c others r w).2) :=
  runAmong_bind c others r (fun a => .done (f a)) w

/-- What is told of a run among others, going on from a tale. -/
def taleAmong : Routine α → World → Tale → Tale
  | .done _, _, t => t
  | .ask q next, w, t =>
    let w := { w with files := others w.ticks w.files }
    let (r, w) := (turns c (c.turns w.ticks) w).perform c q
    taleAmong (next r) w (t.after q r)

/-- What a routine leads to for all answers, it leads to in every run among others. -/
theorem told_runAmong {r : Routine α} {Q : α → Tale → Prop} {w : World} {t : Tale}
    (h : r.Leads .told Q t) : Q (runAmong c others r w).1 (taleAmong c others r w t) := by
  induction r generalizing w t with
  | done a => exact h
  | ask q next ih => exact ih _ (h _ (fair_perform _ q))

end World

/-- Something that always holds is led to. -/
theorem Routine.leads_told {α : Type} (r : Routine α) {Q : α → Tale → Prop} {t : Tale}
    (hQ : ∀ a t, Q a t) : r.Leads .told Q t := by
  induction r generalizing t with
  | done a => exact hQ a t
  | ask q next ih => exact fun r _ => ih r

/-! ## Tails -/

/-- Shows records one after the other. -/
def LiveTail.sendAll (t : LiveTail) (records : List String) : LiveTail := records.foldl send t

/-- A tail that nobody reads keeps the first records, as many as it has room for. -/
theorem LiveTail.sendAll_eq (t : LiveTail) (records : List String) : t.sendAll records =
    { t with records := t.records ++ records.take (t.capacity - t.records.length) } := by
  induction records generalizing t with
  | nil =>
    rw [List.take_nil, List.append_nil]
    rfl
  | cons record rest ih =>
    show (t.send record).sendAll rest = _
    rw [ih]
    unfold send
    split
    · rename_i hroom
      obtain ⟨room, hroom⟩ : ∃ room, t.capacity - t.records.length = room + 1 :=
        ⟨t.capacity - t.records.length - 1, by omega⟩
      have hrest : t.capacity - (t.records ++ [record]).length = room := by
        rw [List.length_append, List.length_singleton]
        omega
      rw [hroom, List.take_succ_cons, hrest, List.append_assoc, List.singleton_append]
    · rename_i hfull
      rw [Nat.sub_eq_zero_of_le (Nat.le_of_not_lt hfull), List.take_zero, List.take_zero]

/-! ## Discreet work -/

/-- Holds of policies that stamp records alike. -/
def Policy.StampsAlike (p q : Policy) : Prop := q.template = p.template ∧ q.localTime = p.localTime

theorem Policy.StampsAlike.trans {p q r : Policy} (h : p.StampsAlike q) (h' : q.StampsAlike r) :
    p.StampsAlike r := ⟨h'.1.trans h.1, h'.2.trans h.2⟩

theorem Writer.Entry.bytes_of_stampsAlike {p q : Policy} (h : p.StampsAlike q) (e : Entry) :
    e.bytes q = e.bytes p := by
  cases e with
  | line text now =>
    unfold Entry.bytes lineRecord
    rw [h.1, h.2]
  | raw bytes now => rfl

namespace Writer.Work

variable {α β : Type}

/-- Holds of work that does not look at what a reader was shown and leaves that as it is, and that leaves
the stamps of records as they are. -/
structure Discreet (x : Work α) : Prop where
  blind : ∀ (w : Writer) (tail : Option LiveTail), x.run.run { w with tail := tail } =
    (fun s => (s.1, { s.2 with tail := tail })) <$> x.run.run w
  stamps : ∀ w : Writer, x.Leads .anything (fun _ w' _ => w.policy.StampsAlike w'.policy) w ()

/-- What work goes on with, where it has not failed. -/
def goOn (f : α → Work β) (s : Except Error α × Writer) : Routine (Except Error β × Writer) :=
  match s.1 with
  | .ok a => (f a).run.run s.2
  | .error e => .done (.error e, s.2)

theorem run_bind (x : Work α) (f : α → Work β) (w : Writer) :
    (x >>= f).run.run w = x.run.run w >>= goOn f := by
  show (x.run.run w >>= fun s => (ExceptT.bindCont f s.1).run s.2) = _
  refine bind_congr fun s => ?_
  obtain ⟨r, w'⟩ := s
  cases r <;> rfl

theorem Discreet.bind {x : Work α} {f : α → Work β} (hx : Discreet x) (hf : ∀ a, Discreet (f a)) :
    Discreet (x >>= f) where
  blind w tail := by
    rw [run_bind, run_bind, hx.blind, bind_map_left, map_bind]
    refine bind_congr fun s => ?_
    obtain ⟨r, w'⟩ := s
    cases r with
    | error e => rfl
    | ok a => exact (hf a).blind w' tail
  stamps w := by
    refine Leads.bind ((hx.stamps w).mono ?_)
    rintro r w₁ - hstamps
    cases r with
    | error e => exact hstamps
    | ok a => exact ((hf a).stamps w₁).mono fun _ _ _ h => hstamps.trans h

theorem discreet_pure (a : α) : Discreet (pure a : Work α) := ⟨fun _ _ => rfl, fun _ => ⟨rfl, rfl⟩⟩

theorem run_ofRoutine (r : Routine α) (w : Writer) :
    (ofRoutine r).run.run w = (fun a => (Except.ok a, w)) <$> r := by
  show (r >>= fun a => Routine.done (a, w)) >>= (fun s => Routine.done (Except.ok s.1, s.2)) =
    r >>= fun a => Routine.done (Except.ok a, w)
  rw [bind_assoc]
  rfl

theorem discreet_ofRoutine (r : Routine α) : Discreet (ofRoutine r) where
  blind w tail := by
    rw [run_ofRoutine, run_ofRoutine, Functor.map_map]
  stamps w := leads_ofRoutine (r.leads_anything fun _ => ⟨rfl, rfl⟩)

theorem discreet_ofExcept (r : Except Error α) : Discreet (ofExcept r) :=
  ⟨fun _ _ => rfl, fun _ => leads_ofExcept ⟨rfl, rfl⟩⟩

/-- What is done to all of a writer but its tail. -/
theorem discreet_modify {f : Writer → Writer} (hf : ∀ w tail, f { w with tail := tail } = { f w with tail := tail })
    (hstamps : ∀ w : Writer, w.policy.StampsAlike (f w).policy) : Discreet (modify f : Work PUnit) where
  blind w tail := by
    show Routine.done (_, f { w with tail := tail }) = Routine.done (_, { f w with tail := tail })
    rw [hf]
  stamps w := leads_modify (hstamps w)

/-- What is looked at in a writer is not its tail. -/
theorem discreet_get {f : Writer → Work α} (hf : ∀ w, Discreet (f w))
    (hsame : ∀ w tail, f { w with tail := tail } = f w) : Discreet (get >>= f) where
  blind w tail := by
    show (f { w with tail := tail }).run.run { w with tail := tail } = _ <$> (f w).run.run w
    rw [hsame]
    exact (hf w).blind w tail
  stamps w := Leads.bind (leads_get ((hf w).stamps w))

/-! ### The parts of a call -/

theorem discreet_ofAttempt (r : Routine.Attempt IoError α) : Discreet (ofAttempt r) :=
  (discreet_ofRoutine _).bind fun _ => discreet_ofExcept _

theorem discreet_closeFile : Discreet closeFile := by
  refine discreet_get (fun w => ?_) fun _ _ => rfl
  cases w.file with
  | none => exact discreet_pure _
  | some f =>
    refine Discreet.bind (discreet_modify (fun _ _ => rfl) fun _ => ⟨rfl, rfl⟩) fun _ => ?_
    refine (discreet_ofRoutine _).bind fun step => ?_
    exact (discreet_ofRoutine _).bind fun _ => discreet_ofExcept _

theorem discreet_openFile (x : Path) : Discreet (openFile x) :=
  (discreet_ofAttempt _).bind fun _ => discreet_modify (fun _ _ => rfl) fun _ => ⟨rfl, rfl⟩

theorem run_consult (now : Int) (w : Writer) : (consult now).run.run w =
    (fun s => (Except.ok s.1, { w with policy := s.2 })) <$> w.policy.consult now := by
  show (ofRoutine (w.policy.consult now) >>= fun s =>
    (modify fun w => { w with policy := s.2 }) >>= fun _ => pure s.1 : Work Rollover).run.run w = _
  rw [run_bind, run_ofRoutine, bind_map_left]
  rfl

/-- A look at the clock goes on to a policy that stamps alike. -/
theorem discreet_consult (now : Int) : Discreet (consult now) where
  blind w tail := by
    rw [run_consult, run_consult, Functor.map_map]
  stamps w := leads_consult (fun _ _ => ⟨rfl, rfl⟩) fun _ => ⟨rfl, rfl⟩

theorem discreet_roll (now : Int) : Discreet (roll now) := by
  refine discreet_get (fun w => ?_) fun _ _ => rfl
  by_cases hdue : w.policy.isDue now = true
  · rw [if_pos hdue]
    refine (discreet_consult now).bind fun rollover => ?_
    by_cases hcrossed : rollover.crossed = true
    · rw [if_pos hcrossed]
      refine discreet_closeFile.bind fun _ => (discreet_ofRoutine _).bind fun moved => ?_
      refine (discreet_openFile _).bind fun _ => (discreet_ofExcept moved).bind fun _ => ?_
      by_cases hempty : rollover.background.isEmpty = true
      · rw [if_pos hempty]
        exact discreet_pure _
      · rw [if_neg hempty]
        exact discreet_ofRoutine _
    · rw [if_neg hcrossed]
      refine discreet_get (fun w => ?_) fun _ _ => rfl
      by_cases hpath : rollover.activeFile.components ≠ w.path.components
      · rw [if_pos hpath]
        exact discreet_closeFile.bind fun _ => discreet_openFile _
      · rw [if_neg hpath]
        exact discreet_pure _
  · rw [if_neg hdue]
    exact discreet_pure _

theorem discreet_needFile : Discreet needFile := by
  refine discreet_get (fun w => ?_) fun _ _ => rfl
  cases w.file with
  | some f => exact discreet_pure f
  | none =>
    refine discreet_get (fun w => ?_) fun _ _ => rfl
    refine (discreet_ofAttempt _).bind fun f => ?_
    exact Discreet.bind (discreet_modify (fun _ _ => rfl) fun _ => ⟨rfl, rfl⟩) fun _ => discreet_pure f

theorem discreet_keepFile (step : Except IoError Unit × Buffered) : Discreet (keepFile step) :=
  Discreet.bind (discreet_modify (fun _ _ => rfl) fun _ => ⟨rfl, rfl⟩) fun _ => discreet_ofExcept _

theorem discreet_append (bytes : Bytes) : Discreet (append bytes) := by
  refine discreet_needFile.bind fun f => (discreet_ofRoutine _).bind fun step => ?_
  refine (discreet_keepFile step).bind fun _ => discreet_needFile.bind fun f => ?_
  exact (discreet_ofRoutine _).bind fun step => discreet_keepFile step

theorem discreet_flush : Discreet flush := by
  refine discreet_get (fun w => ?_) fun _ _ => rfl
  cases w.file with
  | none => exact discreet_pure _
  | some f => exact (discreet_ofRoutine _).bind fun step => discreet_keepFile step

end Writer.Work

/-! ## What is shown -/

/-- The record of a call, if it succeeded. -/
def Writer.ifOk (result : Except Error Unit) (record : Option String) : Option String :=
  match result with
  | .ok _ => record
  | .error _ => none

/-- Shows a record, if there is one, to a reader, if there is one. -/
def Writer.shown (record : Option String) (tail : Option LiveTail) : Option LiveTail :=
  match record with
  | some r => tail.map fun t => t.send r
  | none => tail

namespace Writer.Work

/-- **One record.**  With a tail it asks what it asks without one, and the tail is known from the result. -/
theorem run_record (now : Int) (bytes : Bytes) (w : Writer) (tail : Option LiveTail) :
    (record now bytes).run.run { w with tail := tail } =
      (fun s => (s.1, { s.2 with tail := shown (ifOk s.1 (Bytes.text? bytes)) tail })) <$>
        (record now bytes).run.run w := by
  have hdiscreet : Discreet (roll now >>= fun _ => append bytes) :=
    (discreet_roll now).bind fun _ => discreet_append bytes
  have hrecord : record now bytes =
      (roll now >>= fun _ => append bytes) >>= fun _ => showRecord (Bytes.text? bytes) := by
    rw [bind_assoc]
    rfl
  rw [hrecord, run_bind (roll now >>= fun _ => append bytes) _ { w with tail := tail },
    run_bind (roll now >>= fun _ => append bytes) _ w, hdiscreet.blind, bind_map_left, map_bind]
  refine bind_congr fun s => ?_
  obtain ⟨r, w'⟩ := s
  cases r with
  | error e => rfl
  | ok u =>
    unfold ifOk
    cases Bytes.text? bytes <;> rfl

theorem stamps_record (now : Int) (bytes : Bytes) (w : Writer) : (record now bytes).Leads .anything
    (fun _ w' _ => w.policy.StampsAlike w'.policy) w () := by
  refine Leads.bind (((discreet_roll now).stamps w).mono ?_)
  rintro r w₁ - hrolled
  cases r with
  | error e => exact hrolled
  | ok u =>
    refine Leads.bind (((discreet_append bytes).stamps w₁).mono ?_)
    rintro r w₂ - happended
    cases r with
    | error e => exact hrolled.trans happended
    | ok u => exact leads_showRecord fun _ => hrolled.trans happended

end Writer.Work

namespace Writer

variable {p q : Policy} {w : Writer} {tail : Option LiveTail}

/-- The record of a deed, if there is one and a reader can be shown it. -/
def Deed.text? (p : Policy) : Deed → Option String
  | write e => Bytes.text? (e.bytes p)
  | flush => none

theorem Deed.text?_of_stampsAlike (h : p.StampsAlike q) (d : Deed) : d.text? q = d.text? p := by
  cases d with
  | write e => exact congrArg Bytes.text? (e.bytes_of_stampsAlike h)
  | flush => rfl

/-- The records of the writes that succeeded, as far as they are text, in the order of the calls. -/
def legible (p : Policy) (deeds : List Deed) (results : List (Except Error Unit)) : List String :=
  (deeds.zip results).filterMap fun s => ifOk s.2 (s.1.text? p)

theorem legible_of_stampsAlike (h : p.StampsAlike q) (deeds : List Deed)
    (results : List (Except Error Unit)) : legible q deeds results = legible p deeds results := by
  unfold legible
  simp only [Deed.text?_of_stampsAlike h]

/-- One call shows its own record, and the others show theirs. -/
theorem sendAll_legible_cons (p : Policy) (d : Deed) (deeds : List Deed) (result : Except Error Unit)
    (results : List (Except Error Unit)) (tail : Option LiveTail) :
    tail.map (fun t => t.sendAll (legible p (d :: deeds) (result :: results))) =
      (shown (ifOk result (d.text? p)) tail).map fun t => t.sendAll (legible p deeds results) := by
  unfold legible
  rw [List.zip_cons_cons]
  cases hrecord : ifOk result (d.text? p) with
  | none =>
    rw [List.filterMap_cons_none (by exact hrecord)]
    rfl
  | some record =>
    rw [List.filterMap_cons_some (by exact hrecord), shown, Option.map_map]
    rfl

/-- **One call.** -/
theorem run_perform (d : Deed) (w : Writer) (tail : Option LiveTail) : d.perform { w with tail := tail } =
    (fun s => (s.1, { s.2 with tail := shown (ifOk s.1 (d.text? w.policy)) tail })) <$> d.perform w := by
  cases d with
  | flush =>
    have hshown : ∀ result, shown (ifOk result none) tail = tail := by
      intro result
      cases result <;> rfl
    show Work.flush.run.run { w with tail := tail } = _
    rw [Work.discreet_flush.blind]
    simp only [Deed.text?, hshown]
    rfl
  | write e =>
    cases e with
    | line text now => exact Work.run_record now.millis (lineRecord w.policy text now) w tail
    | raw bytes now => exact Work.run_record now.millis bytes w tail

theorem stamps_perform (d : Deed) (w : Writer) :
    (d.perform w).Leads .anything (fun s _ => w.policy.StampsAlike s.2.policy) () := by
  cases d with
  | flush => exact Work.discreet_flush.stamps w
  | write e =>
    cases e with
    | line text now => exact Work.stamps_record now.millis (lineRecord w.policy text now) w
    | raw bytes now => exact Work.stamps_record now.millis bytes w

theorem performAll_cons (d : Deed) (deeds : List Deed) (w : Writer) : performAll (d :: deeds) w =
    d.perform w >>= fun s => performAll deeds s.2 >>= fun s' => Routine.done (s.1 :: s'.1, s'.2) := rfl

/-- **Call after call.**  With a tail a run asks what it asks without one, and the tail is known from the
results. -/
theorem run_performAll (deeds : List Deed) (w : Writer) (tail : Option LiveTail) :
    performAll deeds { w with tail := tail } =
      (fun s => (s.1, { s.2 with tail := tail.map fun t => t.sendAll (legible w.policy deeds s.1) })) <$>
        performAll deeds w := by
  induction deeds generalizing w tail with
  | nil => cases tail <;> rfl
  | cons d deeds ih =>
    rw [performAll_cons, performAll_cons, run_perform, bind_map_left, map_bind]
    refine Routine.bind_congr_of_leads ((stamps_perform d w).mono ?_)
    rintro ⟨result, w₁⟩ - hstamps
    dsimp only
    rw [ih, bind_map_left, map_bind]
    refine bind_congr fun s => ?_
    show Routine.done _ = Routine.done _
    dsimp only
    rw [sendAll_legible_cons, legible_of_stampsAlike hstamps]

/-! ## What the log took -/

/-- What came of one thing that was done, the file that the log had then, and what was told of it. -/
structure Account where
  deed : Deed
  result : Except Error Unit
  path : Path
  tale : Tale

/-- The record that an account has for a reader. -/
def Account.shown? (p : Policy) (a : Account) : Option String := ifOk a.result (a.deed.text? p)

/-- Holds of a record that the log's file took last of all that it took meanwhile. -/
def Account.Took (a : Account) (record : Bytes) : Prop :=
  ∃ handle sent, a.tale.landing = some ⟨a.path, handle, sent⟩ ∧ record <:+ sent

/-- Does one thing after the other, among others, and keeps an account of each.  What is told to be sent
was sent by the deed itself. -/
def accounts (c : Conditions) (others : Nat → FileSystem → FileSystem) :
    List Deed → Writer → World → List Account
  | [], _, _ => []
  | d :: deeds, w, world =>
    let ended := World.runAmong c others (d.perform w) world
    ⟨d, ended.1.1, ended.1.2.path, World.taleAmong c others (d.perform w) world w.outset⟩ ::
      accounts c others deeds ended.1.2 ended.2

/-- **One call.**  Where it succeeds, the log's file has taken its record. -/
theorem told_perform (d : Deed) (w : Writer) : (d.perform w).Leads .told (fun s t =>
    s.1 = .ok () → ∀ e, d = .write e → (Account.mk d s.1 s.2.path t).Took (e.bytes w.policy)) w.outset := by
  cases d with
  | flush => exact Routine.leads_told _ fun _ _ _ _ => nofun
  | write e =>
    have hrecord : ∀ now bytes, ((Work.record now bytes).run.run w).Leads .told (fun s t =>
        s.1 = .ok () → (Account.mk (.write e) s.1 s.2.path t).Took bytes) w.outset :=
      fun now bytes => Work.Leads.mono (Work.told_record (writes_outset w) bytes) fun _ _ _ h => h.2
    cases e with
    | line text now =>
      refine (hrecord now.millis (lineRecord w.policy text now)).mono ?_
      rintro s t htook hok e ⟨⟩
      exact htook hok
    | raw bytes now =>
      refine (hrecord now.millis bytes).mono ?_
      rintro s t htook hok e ⟨⟩
      exact htook hok

/-- **Call after call.**  The accounts are those of the run, and each record whose call succeeded was
taken. -/
theorem accounts_performAll (c : Conditions) (others : Nat → FileSystem → FileSystem) (deeds : List Deed)
    (w : Writer) (world : World) :
    (accounts c others deeds w world).map Account.deed = deeds ∧
      (accounts c others deeds w world).map Account.result =
        (World.runAmong c others (performAll deeds w) world).1.1 ∧
      ∀ a ∈ accounts c others deeds w world, a.result = .ok () →
        ∀ e, a.deed = .write e → a.Took (e.bytes w.policy) := by
  induction deeds generalizing w world with
  | nil => exact ⟨rfl, rfl, fun a ha => absurd ha List.not_mem_nil⟩
  | cons d deeds ih =>
    have hone := World.told_runAmong c others (w := world) (told_perform d w)
    have hstamps : w.policy.StampsAlike (World.runAmong c others (d.perform w) world).1.2.policy :=
      World.anything_run (stamps_perform d w)
    have hrun : (World.runAmong c others (performAll (d :: deeds) w) world).1.1 =
        (World.runAmong c others (d.perform w) world).1.1 ::
          (World.runAmong c others (performAll deeds (World.runAmong c others (d.perform w) world).1.2)
            (World.runAmong c others (d.perform w) world).2).1.1 := by
      rw [performAll_cons, World.runAmong_bind, World.runAmong_bind]
      rfl
    rw [hrun]
    obtain ⟨hdeeds, hresults, hrest⟩ := ih (World.runAmong c others (d.perform w) world).1.2
      (World.runAmong c others (d.perform w) world).2
    refine ⟨congrArg (d :: ·) hdeeds, congrArg (_ :: ·) hresults, fun a ha hok e he => ?_⟩
    rcases List.mem_cons.mp ha with rfl | ha
    · exact hone hok e he
    · rw [← e.bytes_of_stampsAlike hstamps]
      exact hrest a ha hok e he

theorem legible_accounts (p : Policy) (accounts : List Account) :
    legible p (accounts.map Account.deed) (accounts.map Account.result) =
      accounts.filterMap (Account.shown? p) := by
  rw [legible, List.zip_map', List.filterMap_map]
  rfl

/-! ## Readers -/

/-- What somebody does with the tail of a log: attach one, take records from it, or put it away. -/
abbrev Reader := Option LiveTail → Option LiveTail

/-- Does one thing after the other, whatever comes of each, and before each a reader is at work. -/
def performWatched : List (Reader × Deed) → Writer → Routine (List (Except Error Unit) × Writer)
  | [], w => return ([], w)
  | (reader, d) :: rest, w => do
    let (result, w) ← d.perform { w with tail := reader w.tail }
    let (results, w) ← performWatched rest w
    return (result :: results, w)

/-- A result, with a writer of which the tail is left out. -/
def untailed {α : Type} (s : α × Writer) : α × Writer := (s.1, { s.2 with tail := none })

theorem performWatched_cons (reader : Reader) (d : Deed) (rest : List (Reader × Deed)) (w : Writer) :
    performWatched ((reader, d) :: rest) w = d.perform { w with tail := reader w.tail } >>= fun s =>
      performWatched rest s.2 >>= fun s' => Routine.done (s.1 :: s'.1, s'.2) := rfl

/-- **Nobody can tell** that readers are at work, but by the tail. -/
theorem untailed_performWatched (watched : List (Reader × Deed)) (w : Writer) (tail : Option LiveTail) :
    untailed <$> performWatched watched { w with tail := tail } =
      untailed <$> performAll (watched.map Prod.snd) w := by
  induction watched generalizing w tail with
  | nil => rfl
  | cons x rest ih =>
    obtain ⟨reader, d⟩ := x
    rw [performWatched_cons, List.map_cons, performAll_cons, map_bind, map_bind]
    show d.perform { w with tail := reader tail } >>= _ = _
    rw [run_perform, bind_map_left]
    refine bind_congr fun s => ?_
    have hrest : ∀ r : Routine (List (Except Error Unit) × Writer),
        untailed <$> (r >>= fun s' => Routine.done (s.1 :: s'.1, s'.2)) =
          (untailed <$> r) >>= fun s' => Routine.done (s.1 :: s'.1, s'.2) := by
      intro r
      rw [map_bind, bind_map_left]
      rfl
    rw [hrest, hrest, ih]

/-- Goes on to the closing of a log, and tells what came of all. -/
def toEnd (r : Routine (List (Except Error Unit) × Writer)) :
    Routine (List (Except Error Unit) × Except Error Unit) := do
  let (results, w) ← r
  let (closed, _) ← w.close
  return (results, closed)

/-- The closing of a log does not look at the tail. -/
theorem run_close (w : Writer) (tail : Option LiveTail) : { w with tail := tail }.close =
    (fun s => (s.1, { s.2 with tail := tail })) <$> w.close := by
  show (Work.closeFile.run.run { w with tail := tail } >>= fun r =>
    Routine.request .await >>= fun _ => Routine.done r) = _ <$> (Work.closeFile.run.run w >>= _)
  rw [Work.discreet_closeFile.blind, bind_map_left, map_bind]
  rfl

theorem toEnd_eq (r : Routine (List (Except Error Unit) × Writer)) :
    toEnd r = (untailed <$> r) >>= fun s => s.2.close >>= fun t => Routine.done (s.1, t.1) := by
  rw [bind_map_left]
  show (r >>= fun s => s.2.close >>= fun t => Routine.done (s.1, t.1)) = _
  refine bind_congr fun s => ?_
  show _ = { s.2 with tail := none }.close >>= _
  rw [run_close s.2 none, bind_map_left]
  rfl

/-- **The live tail.**  Let a log be asked for records and flushes one after the other, at any instants,
whatever failed before, whatever fails and whatever the worker and others do to the files.

Each record whose call succeeds is the last that the log's file takes from this call.  A tail with room for
some records that nobody reads holds in the end the first of these records, as far as they are text, in the
order of the calls.

And whoever attaches a tail to the log, takes records from it or puts it away, before whichever calls: each
call has the same result as without any tail, the world is the same after it, and so is what comes of
closing the log. -/
theorem tail_shows_what_was_written (c : Conditions) (others : Nat → FileSystem → FileSystem)
    (world : World) (w : Writer) :
    (∀ (n : Nat) (deeds : List Deed),
      let kept := accounts c others deeds { w with tail := some ⟨n, []⟩ } world
      let ended := World.runAmong c others (performAll deeds { w with tail := some ⟨n, []⟩ }) world
      kept.map Account.deed = deeds ∧ kept.map Account.result = ended.1.1 ∧
      (∀ a ∈ kept, a.result = .ok () → ∀ e, a.deed = .write e → a.Took (e.bytes w.policy)) ∧
      ended.1.2.tail = some ⟨n, (kept.filterMap (Account.shown? w.policy)).take n⟩) ∧
    ∀ (watched : List (Reader × Deed)) (tail : Option LiveTail),
      (World.runAmong c others (performWatched watched { w with tail := tail }) world).1.1 =
        (World.runAmong c others (performAll (watched.map Prod.snd) { w with tail := none }) world).1.1 ∧
      (World.runAmong c others (performWatched watched { w with tail := tail }) world).2 =
        (World.runAmong c others (performAll (watched.map Prod.snd) { w with tail := none }) world).2 ∧
      World.runAmong c others (toEnd (performWatched watched { w with tail := tail })) world =
        World.runAmong c others (toEnd (performAll (watched.map Prod.snd) { w with tail := none })) world := by
  refine ⟨fun n deeds => ?_, fun watched tail => ?_⟩
  · obtain ⟨hdeeds, hresults, htook⟩ :=
      accounts_performAll c others deeds { w with tail := some ⟨n, []⟩ } world
    refine ⟨hdeeds, hresults, htook, ?_⟩
    rw [← legible_accounts, hdeeds, hresults, run_performAll, World.runAmong_map]
    dsimp only
    rw [Option.map_some, LiveTail.sendAll_eq]
    rfl
  · have hsame : untailed <$> performWatched watched { w with tail := tail } =
        untailed <$> performAll (watched.map Prod.snd) { w with tail := none } := by
      rw [untailed_performWatched, run_performAll (watched.map Prod.snd) w none, Functor.map_map]
      rfl
    have hrun := congrArg (fun r => World.runAmong c others r world) hsame
    simp only [World.runAmong_map] at hrun
    obtain ⟨hresult, hworld⟩ := Prod.mk.inj hrun
    refine ⟨(Prod.mk.inj hresult).1, hworld, ?_⟩
    rw [toEnd_eq, toEnd_eq, hsame]

/-- The conditions in which one record cannot be written, and the worker waits. -/
def refusingRecord (record : Bytes) : Conditions where
  fault _ q := match q with
    | .write _ bytes => if bytes = record then some ⟨.storageFull, 0⟩ else none
    | _ => none
  clock _ := .epoch
  turns _ := 0

/-- A log by the hour, and a tail with room for two records.  The second record is no text and the third
cannot be written; what is left of it is written before the fourth, which is shown.  The last one opens the
next file and finds the tail full. -/
theorem tail_shows_what_was_written_past_failure : ∃ (w : Writer) (deeds : List Deed),
    let kept := accounts (refusingRecord [98]) (fun _ fs => fs) deeds w (.ofFiles .blank)
    let ended := World.runAmong (refusingRecord [98]) (fun _ fs => fs) (performAll deeds w) (.ofFiles .blank)
    kept.map (fun a => (a.result.isOk, a.path.text)) =
      [(true, "app-00.log"), (true, "app-00.log"), (false, "app-00.log"), (true, "app-00.log"),
        (true, "app-00.log"), (true, "app-01.log")] ∧
    kept.map (fun a => a.tale.landing.map Landing.sent) =
      [some [97], some [255], some [], some (98 :: Bytes.ofText "[1970-01-01 00:00:01] c\n"), some [],
        some [100]] ∧
    ended.1.2.tail = some ⟨2, ["a", "[1970-01-01 00:00:01] c\n"]⟩ ∧
    ended.1.2.tail = some ⟨2, (kept.filterMap (Account.shown? w.policy)).take 2⟩ ∧
    ∀ a ∈ kept, a.result = .ok () → ∀ e, a.deed = .write e → a.Took (e.bytes w.policy) := by
  have h := (tail_shows_what_was_written (refusingRecord [98]) (fun _ fs => fs) (.ofFiles .blank)
    ⟨⟨.byHour, .fixed 0, none, .none, "app-00.log", 0⟩, ⟨"app-00.log"⟩, none, none⟩).1 2
    [.write (.raw [97] ⟨0, 0⟩), .write (.raw [255] ⟨0, 500000000⟩), .write (.raw [98] ⟨1, 0⟩),
      .write (.line "c" ⟨1, 0⟩), .flush, .write (.raw [100] ⟨3600, 0⟩)]
  exact ⟨_, _, by decide +kernel, by decide +kernel, by decide +kernel, h.2.2.2, h.2.2.1⟩

end Writer

end LogRotation
