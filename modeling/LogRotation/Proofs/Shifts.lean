/-
  A program and the worker, under every schedule, when nothing fails.

  The worker takes the deposits that it was handed one after the other.  At any time it is through with
  some, busy with one at most, and the rest waits in the order in which it was handed over.  Whatever
  the program does in between, it leaves these alone; so a program that goes from chronicle to
  chronicle does so in every run.

    * PROGRESS   how far the worker is with what it was handed;
    * STEP       what may happen at a request of the program that succeeds;
    * KEEPS      a world whose files are as a chronicle tells, and whose worker is on its way.

  Main statement: `World.keeps_run`.
-/
import LogRotation.Proofs.Chronicles

namespace LogRotation

open FileSystem (Change)

/-! ## Progress -/

namespace Chronicle

variable {b : Scene} {g g' : Chronicle} {fs fs' : FileSystem} {d : Deposit}
variable {done doing waiting before after : List Deposit}

/-- How far the worker is with what it was handed. -/
structure Progress (b : Scene) (g : Chronicle) (done doing waiting : List Deposit)
    (fs : FileSystem) : Prop where
  tells : g.Tells b fs
  handed : g.handed = done ++ (doing ++ waiting)
  done : ∀ d ∈ done, d.slot.Settled d.content fs
  waiting : ∀ d ∈ waiting, d.Whole fs ∧ d.Ready

theorem Progress.handed_mem_deposits (h : Progress b g done doing waiting fs)
    (hd : d ∈ done ++ (doing ++ waiting)) : d ∈ g.deposits :=
  List.mem_append_right _ (List.mem_append_left _ (h.handed ▸ hd))

/-- Different deposits share no path. -/
theorem deposit_split (hn : (g.paths ++ b.others).Nodup) (h : g.deposits = before ++ d :: after) :
    ∀ e ∈ before ++ after, ∀ x ∈ e.slot.paths, x ∉ d.slot.paths := by
  have hsplit : g.slots =
      before.map Deposit.slot ++ d.slot :: (after.map Deposit.slot ++ g.coming) := by
    simp [slots, h]
  intro e he x hx
  refine Slot.not_mem_of_split (List.nodup_append.mp hn).1 hsplit ?_ hx
  have hmem : e.slot ∈ (before ++ after).map Deposit.slot := List.mem_map_of_mem he
  rw [List.map_append] at hmem
  rw [← List.append_assoc]
  exact List.mem_append_left _ hmem

/-- The worker's steps at one deposit are not seen elsewhere. -/
theorem Progress.work (h : Progress b g done [d] waiting fs)
    (hchange : Change (g.paths ++ b.others) (· ∈ d.slot.paths) fs fs') :
    Progress b g done [d] waiting fs' := by
  have hn := h.tells.nodup
  have hsplit : g.deposits = (g.settled ++ done) ++ d :: (waiting ++ g.whole) := by
    rw [deposits, h.handed]
    simp
  have hd : d ∈ g.deposits := h.handed_mem_deposits (by simp)
  have hdistinct := deposit_split hn hsplit
  have hother : ∀ e ∈ g.deposits, e ∈ (g.settled ++ done) ++ (waiting ++ g.whole) →
      ∀ x ∈ e.slot.paths, FileSystem.SameAt fs fs' x := by
    intro e he hmem x hx
    exact hchange.same x (mem_paths (mem_slots_of_deposit he) hx) (hdistinct e hmem x hx)
  have hwhole : ∀ e ∈ g.deposits, e ∈ (g.settled ++ done) ++ (waiting ++ g.whole) → e.Whole fs →
      e.Whole fs' := by
    intro e he hmem hw
    have hfile := e.slot.file_mem_paths
    exact hw.change hchange h.tells.rooted (mem_paths (mem_slots_of_deposit he) hfile)
      (hdistinct e hmem _ hfile)
  have hcoming : ∀ s ∈ g.coming, FileSystem.SameAt fs fs' s.file := by
    intro s hs
    refine hchange.same _ (mem_paths (mem_slots_of_coming hs) s.file_mem_paths) fun hsd => ?_
    exact deposit_not_coming hn hd hsd ⟨s, hs, s.file_mem_paths⟩
  have hcurrent := hcoming _ current_mem_coming
  refine ⟨⟨⟨?_, hchange.tidy h.tells.tidy, hchange.rooted h.tells.rooted, ?_, ?_, ?_⟩, ?_, ?_, ?_⟩,
    h.handed, ?_, ?_⟩
  · rw [hchange.here]
    exact h.tells.apart
  · intro e he
    exact (h.tells.settled e he).congr (hother e (settled_mem_deposits he) (by simp [he]))
  · intro e he
    exact hwhole e (whole_mem_deposits he) (by simp [he]) (h.tells.whole e he)
  · intro x hx
    refine (h.tells.others x hx).trans (hchange.same x (List.mem_append_right _ hx) fun hxd => ?_)
    have hmem : x ∈ g.paths := List.mem_flatMap.mpr ⟨_, mem_slots_of_deposit hd, hxd⟩
    exact (List.nodup_append.mp hn).2.2 x hmem x hx rfl
  · intro id hid
    obtain ⟨hnamed, hnode⟩ := h.tells.there id hid
    exact ⟨hchange.named h.tells.rooted hnamed, hcurrent.node.trans hnode⟩
  · rw [hcurrent.bytesAt, h.tells.bytes]
  · intro s hs
    rw [(hcoming s (later_mem_coming hs)).bytesAt, h.tells.later s hs]
  · intro e he
    have hmem := h.handed_mem_deposits (List.mem_append_left _ he)
    exact (h.done e he).congr (hother e hmem (by simp [he]))
  · intro e he
    have hmem := h.handed_mem_deposits (List.mem_append_right _ (List.mem_append_right _ he))
    obtain ⟨hw, hready⟩ := h.waiting e he
    exact ⟨hwhole e hmem (by simp [he]) hw, hready⟩

/-- The worker is through with a deposit. -/
theorem Progress.finish (h : Progress b g done [d] waiting fs)
    (hsettled : d.slot.Settled d.content fs) : Progress b g (done ++ [d]) [] waiting fs := by
  refine ⟨h.tells, ?_, ?_, h.waiting⟩
  · rw [h.handed]
    simp
  · intro e he
    rcases List.mem_append.mp he with he | he
    · exact h.done e he
    · rw [List.mem_singleton.mp he]
      exact hsettled

/-- The worker begins with the deposit that has waited longest. -/
theorem Progress.begin {a : Action} (h : Progress b g done [] (d :: waiting) fs)
    (ha : a ∈ d.slot.archiving) :
    Progress b g done [d] waiting fs ∧ d.Busy (g.paths ++ b.others) a.executeQuietly fs := by
  have hmem : d.slot ∈ g.slots := mem_slots_of_deposit (h.handed_mem_deposits (by simp))
  obtain ⟨hwhole, hready⟩ := h.waiting d List.mem_cons_self
  refine ⟨⟨h.tells, h.handed, h.done, fun e he => h.waiting e (List.mem_cons_of_mem d he)⟩, ?_⟩
  refine Deposit.busy_archiving h.tells.apart h.tells.tidy h.tells.rooted ?_ ?_ hwhole hready ha
  · intro x hx
    exact mem_paths hmem hx
  · intro x hx
    exact archive_ne h.tells.nodup hmem hx

/-- One request of the worker. -/
theorem Progress.step {q : Request} {next : q.Reply → Routine Unit}
    (h : Progress b g done [d] waiting fs)
    (hbusy : d.Busy (g.paths ++ b.others) (.ask q next) fs)
    (hok : q.succeeds (fs.serve q).1 = true) :
    Progress b g done [d] waiting (fs.serve q).2 ∧
      d.Busy (g.paths ++ b.others) (next (fs.serve q).1) (fs.serve q).2 := by
  obtain ⟨hguar, hnext⟩ := hbusy.2 fs (.refl _ _ fs) hok
  exact ⟨h.work hguar, hnext⟩

/-- What the program does is not seen by the worker. -/
theorem Progress.moves (h : Progress b g done doing waiting fs) (hmoves : g.Moves b fs g' fs') :
    Progress b g' done doing waiting fs' ∧ ∀ d ∈ doing, ∀ r, d.Busy (g.paths ++ b.others) r fs →
      d.Busy (g'.paths ++ b.others) r fs' := by
  have hn := h.tells.nodup
  have hpaths : g'.paths = g.paths := congrArg (List.flatMap Slot.paths) hmoves.slots
  have hnot : ∀ e ∈ done ++ (doing ++ waiting), ∀ x ∈ e.slot.paths, ¬ ∃ s ∈ g.coming, x ∈ s.paths :=
    fun e he x hx => deposit_not_coming hn (h.handed_mem_deposits he) hx
  have hown : ∀ e ∈ done ++ (doing ++ waiting), ∀ x ∈ e.slot.paths, x ∈ g.paths ++ b.others :=
    fun e he x hx => mem_paths (mem_slots_of_deposit (h.handed_mem_deposits he)) hx
  refine ⟨⟨hmoves.tells, hmoves.handed.trans h.handed, ?_, ?_⟩, ?_⟩
  · intro e he
    have hmem : e ∈ done ++ (doing ++ waiting) := List.mem_append_left _ he
    refine (h.done e he).congr fun x hx => ?_
    exact hmoves.change.same x (hown e hmem x hx) (hnot e hmem x hx)
  · intro e he
    have hmem : e ∈ done ++ (doing ++ waiting) :=
      List.mem_append_right _ (List.mem_append_right _ he)
    have hfile := e.slot.file_mem_paths
    obtain ⟨hw, hready⟩ := h.waiting e he
    exact ⟨hw.change hmoves.change h.tells.rooted (hown e hmem _ hfile) (hnot e hmem _ hfile), hready⟩
  · intro d hd r hbusy
    have hmem : d ∈ done ++ (doing ++ waiting) :=
      List.mem_append_right _ (List.mem_append_left _ hd)
    rw [hpaths]
    refine hbusy.after (hown d hmem) (hmoves.change.mono fun x _ hx hxd => ?_)
    exact hnot d hmem x hxd hx

/-- What is whole is handed to the worker. -/
theorem Progress.submit (h : Progress b g done doing waiting fs) (hready : ∀ d ∈ g.whole, d.Ready) :
    Progress b { g with handed := g.handed ++ g.whole, whole := [] } done doing
      (waiting ++ g.whole) fs := by
  have hslots : slots { g with handed := g.handed ++ g.whole, whole := [] } = g.slots := by
    simp [slots, deposits, coming]
  have hpaths : paths { g with handed := g.handed ++ g.whole, whole := [] } = g.paths :=
    congrArg (List.flatMap Slot.paths) hslots
  refine ⟨⟨⟨hpaths ▸ h.tells.apart, hpaths ▸ h.tells.tidy, h.tells.rooted, h.tells.settled, ?_,
    h.tells.others⟩, h.tells.there, h.tells.bytes, h.tells.later⟩, ?_, h.done, ?_⟩
  · intro d hd
    cases hd
  · rw [h.handed]
    simp
  · intro d hd
    rcases List.mem_append.mp hd with hd | hd
    · exact h.waiting d hd
    · exact ⟨h.tells.whole d hd, hready d hd⟩

/-- The worker is through with all that it was handed. -/
theorem Progress.await (h : Progress b g done [] [] fs) :
    Progress b { g with settled := g.settled ++ g.handed, handed := [] } [] [] [] fs := by
  have hslots : slots { g with settled := g.settled ++ g.handed, handed := [] } = g.slots := by
    simp [slots, deposits, coming]
  have hpaths : paths { g with settled := g.settled ++ g.handed, handed := [] } = g.paths :=
    congrArg (List.flatMap Slot.paths) hslots
  have hdone : g.handed = done := by simpa using h.handed
  refine ⟨⟨⟨hpaths ▸ h.tells.apart, hpaths ▸ h.tells.tidy, h.tells.rooted, ?_, h.tells.whole,
    h.tells.others⟩, h.tells.there, h.tells.bytes, h.tells.later⟩, rfl,
    fun _ hd => absurd hd List.not_mem_nil, fun _ hd => absurd hd List.not_mem_nil⟩
  intro d hd
  rcases List.mem_append.mp hd with hd | hd
  · exact h.tells.settled d hd
  · exact h.done d (hdone ▸ hd)

/-! ## Programs -/

/-- What may happen at a request that succeeds, and what is to hold after it. -/
def Step (b : Scene) (g : Chronicle) : (q : Request) → (q.Reply → Chronicle → Prop) → Prop
  | .submit actions, k => actions = g.whole.flatMap (fun d => d.slot.archiving) ∧
      (∀ d ∈ g.whole, d.Ready) ∧ k () { g with handed := g.handed ++ g.whole, whole := [] }
  | .await, k => k () { g with settled := g.settled ++ g.handed, handed := [] }
  | .clock, k => ∀ now, k now g
  | q, k => ∀ fs, g.Tells b fs → q.succeeds (fs.serve q).1 = true →
      ∃ g', g.Moves b fs g' (fs.serve q).2 ∧ k (fs.serve q).1 g'

theorem step_file {q : Request} {k : q.Reply → Chronicle → Prop} (hq : q.isFile = true) :
    g.Step b q k ↔ ∀ fs, g.Tells b fs → q.succeeds (fs.serve q).1 = true →
      ∃ g', g.Moves b fs g' (fs.serve q).2 ∧ k (fs.serve q).1 g' := by
  cases q <;> first | exact Iff.rfl | cases hq

theorem Step.mono {q : Request} {k k' : q.Reply → Chronicle → Prop} (h : g.Step b q k)
    (hk : ∀ r g', k r g' → k' r g') : g.Step b q k' := by
  by_cases hq : q.isFile = true
  · rw [step_file hq] at h ⊢
    intro fs htells hok
    obtain ⟨g', hmoves, hr⟩ := h fs htells hok
    exact ⟨g', hmoves, hk _ g' hr⟩
  · cases q <;> first | exact absurd rfl hq | skip
    · -- deposits are handed over
      exact ⟨h.1, h.2.1, hk _ _ h.2.2⟩
    · -- the worker is waited for
      exact hk _ _ h
    · -- the clock is read
      intro now
      exact hk _ _ (h now)

/-- Going from chronicle to chronicle. -/
def regime (b : Scene) : Regime Chronicle := ⟨Step b, Step.mono⟩

end Chronicle

/-! ## Worlds -/

namespace World

open Chronicle (Progress)

variable {b : Scene} {g : Chronicle} {c : Conditions} {w : World} {d : Deposit}
variable {done waiting : List Deposit}

/-- A world whose files are as a chronicle tells, and whose worker is on its way through what it was
handed. -/
def Keeps (b : Scene) (g : Chronicle) (w : World) : Prop :=
  ∃ done waiting, w.queue = waiting.flatMap (fun d => d.slot.archiving) ∧
    ((w.begun = .done () ∧ Progress b g done [] waiting w.files) ∨
      ∃ d, Progress b g done [d] waiting w.files ∧ d.Busy (g.paths ++ b.others) w.begun w.files)

theorem Keeps.tells (h : Keeps b g w) : g.Tells b w.files := by
  obtain ⟨_, _, -, ⟨-, hprogress⟩ | ⟨_, hprogress, -⟩⟩ := h <;> exact hprogress.tells

/-! ### The worker -/

/-- One request of the worker, answered by the world. -/
theorem progress_answer (hc : c.Quiet) {q : Request} {next : q.Reply → Routine Unit}
    (h : Progress b g done [d] waiting w.files)
    (hbusy : d.Busy (g.paths ++ b.others) (.ask q next) w.files)
    (hok : q.succeeds (w.answer c q).1 = true) :
    Progress b g done [d] waiting (w.answer c q).2.files ∧
      d.Busy (g.paths ++ b.others) (next (w.answer c q).1) (w.answer c q).2.files ∧
      (w.answer c q).2.queue = w.queue ∧ (w.answer c q).2.begun = w.begun := by
  rw [answer_quiet hc hbusy.1] at hok ⊢
  obtain ⟨hstep, hnext⟩ := h.step hbusy hok
  exact ⟨hstep, hnext, rfl, rfl⟩

/-- A worker that has nothing begun is between two deposits. -/
theorem Keeps.between (h : Keeps b g w) (hbegun : w.begun = .done ()) :
    ∃ done waiting, w.queue = waiting.flatMap (fun d => d.slot.archiving) ∧
      Progress b g done [] waiting w.files := by
  obtain ⟨done, waiting, hqueue, ⟨-, hprogress⟩ | ⟨d, hprogress, hbusy⟩⟩ := h
  · exact ⟨done, waiting, hqueue, hprogress⟩
  · rw [hbegun] at hbusy
    exact ⟨done ++ [d], waiting, hqueue, hprogress.finish hbusy⟩

/-- What is ready waits with one action. -/
theorem archiving_of_ready (h : d.Ready) : ∃ a, d.slot.archiving = [a] := by
  obtain ⟨format, target, -, harchive, -⟩ := h
  refine ⟨.compress format d.slot.file target true, ?_⟩
  unfold Slot.archiving
  rw [harchive]

/-- A turn of the worker. -/
theorem Keeps.turn (hc : c.Quiet) (h : Keeps b g w) (hs : smoothTurn c w = true) :
    Keeps b g (w.turn c) := by
  unfold smoothTurn at hs
  unfold World.turn
  split
  · -- the next request of the action that was begun
    rename_i q next hbegun
    rw [hbegun] at hs
    obtain ⟨done, waiting, hqueue, ⟨hdone, -⟩ | ⟨d, hprogress, hbusy⟩⟩ := h
    · rw [hbegun] at hdone
      cases hdone
    · rw [hbegun] at hbusy
      obtain ⟨hprogress', hnext, hqueue', -⟩ := progress_answer hc hprogress hbusy hs
      exact ⟨done, waiting, hqueue'.trans hqueue, .inr ⟨d, hprogress', hnext⟩⟩
  · rename_i hbegun
    obtain ⟨done, waiting, hqueue, hprogress⟩ := h.between hbegun
    split
    · -- nothing to do
      exact ⟨done, waiting, hqueue, .inl ⟨hbegun, hprogress⟩⟩
    · -- the next action is begun
      rename_i a rest hnext
      rw [hnext] at hqueue
      cases waiting with
      | nil => cases hqueue
      | cons d waiting =>
        obtain ⟨a', ha'⟩ := archiving_of_ready (hprogress.waiting d List.mem_cons_self).2
        rw [List.flatMap_cons, ha'] at hqueue
        obtain ⟨rfl, hrest⟩ := List.cons.inj hqueue
        obtain ⟨hbegun', hbusy⟩ := hprogress.begin (ha' ▸ List.mem_singleton_self _)
        exact ⟨done, waiting, hrest, .inr ⟨d, hbegun', hbusy⟩⟩

/-- So do any number of turns. -/
theorem Keeps.turns (hc : c.Quiet) {n : Nat} (h : Keeps b g w) (hs : smoothTurns c n w = true) :
    Keeps b g (World.turns c n w) := by
  induction n generalizing w with
  | zero => exact h
  | succ n ih =>
    rw [smoothTurns, Bool.and_eq_true] at hs
    exact ih (h.turn hc hs.1) hs.2

/-- A deposit that the worker is busy with is settled when the worker is through with it. -/
theorem progress_runAlone (hc : c.Quiet) {r : Routine Unit}
    (h : Progress b g done [d] waiting w.files) (hbusy : d.Busy (g.paths ++ b.others) r w.files)
    (hs : smoothAlone c r w = true) :
    Progress b g (done ++ [d]) [] waiting (runAlone c r w).2.files ∧
      (runAlone c r w).2.queue = w.queue ∧ (runAlone c r w).2.begun = w.begun := by
  induction r generalizing w with
  | done u => exact ⟨h.finish hbusy, rfl, rfl⟩
  | ask q next ih =>
    rw [smoothAlone, Bool.and_eq_true] at hs
    obtain ⟨hprogress, hnext, hqueue, hbegun⟩ := progress_answer hc h hbusy hs.1
    obtain ⟨hend, hqueue', hbegun'⟩ := ih _ hprogress hnext hs.2
    exact ⟨hend, hqueue'.trans hqueue, hbegun'.trans hbegun⟩

/-- All that waits is settled when the worker is through with it. -/
theorem progress_actions (hc : c.Quiet) (h : Progress b g done [] waiting w.files)
    (hs : smoothActions c (waiting.flatMap fun d => d.slot.archiving) w = true) :
    let w' := (waiting.flatMap fun d => d.slot.archiving).foldl
      (fun w a => (runAlone c a.executeQuietly w).2) w
    Progress b g (done ++ waiting) [] [] w'.files ∧ w'.queue = w.queue ∧ w'.begun = w.begun := by
  induction waiting generalizing done w with
  | nil =>
    rw [List.append_nil]
    exact ⟨h, rfl, rfl⟩
  | cons d waiting ih =>
    obtain ⟨a, ha⟩ := archiving_of_ready (h.waiting d List.mem_cons_self).2
    rw [List.flatMap_cons, ha] at hs ⊢
    rw [List.singleton_append, smoothActions, Bool.and_eq_true] at hs
    obtain ⟨hbegun, hbusy⟩ := h.begin (ha ▸ List.mem_singleton_self a)
    obtain ⟨hfirst, hqueue, hbegun⟩ := progress_runAlone hc hbegun hbusy hs.1
    obtain ⟨hend, hqueue', hbegun'⟩ := ih hfirst hs.2
    rw [List.append_assoc, List.singleton_append] at hend
    exact ⟨hend, hqueue'.trans hqueue, hbegun'.trans hbegun⟩

/-- **Waiting for the worker.**  It ends with all that it was handed. -/
theorem Keeps.drain (hc : c.Quiet) (h : Keeps b g w) (hs : smoothDrain c w = true) :
    Keeps b { g with settled := g.settled ++ g.handed, handed := [] } (w.drain c) := by
  rw [smoothDrain, Bool.and_eq_true] at hs
  -- what was begun is ended first
  have hfirst : ∃ done waiting, w.queue = waiting.flatMap (fun d => d.slot.archiving) ∧
      Progress b g done [] waiting (runAlone c w.begun { w with begun := .done () }).2.files ∧
      (runAlone c w.begun { w with begun := .done () }).2.queue = w.queue ∧
      (runAlone c w.begun { w with begun := .done () }).2.begun = .done () := by
    obtain ⟨done, waiting, hqueue, ⟨hdone, hprogress⟩ | ⟨d, hprogress, hbusy⟩⟩ := h
    · rw [hdone]
      exact ⟨done, waiting, hqueue, hprogress, rfl, rfl⟩
    · exact ⟨done ++ [d], waiting, hqueue,
        progress_runAlone (w := { w with begun := .done () }) hc hprogress hbusy hs.1⟩
  obtain ⟨done, waiting, hqueue, hprogress, hsame, hbegun⟩ := hfirst
  have hactions : smoothActions c (waiting.flatMap fun d => d.slot.archiving)
      { (runAlone c w.begun { w with begun := .done () }).2 with queue := [] } = true := by
    rw [← hqueue]
    exact hs.2
  obtain ⟨hend, hqueue', hbegun'⟩ := progress_actions
    (w := { (runAlone c w.begun { w with begun := .done () }).2 with queue := [] }) hc hprogress
    hactions
  have hdrain : w.drain c = (waiting.flatMap fun d => d.slot.archiving).foldl
      (fun w a => (runAlone c a.executeQuietly w).2)
      { (runAlone c w.begun { w with begun := .done () }).2 with queue := [] } := by
    rw [World.drain]
    dsimp only
    rw [hsame, hqueue]
  rw [hdrain]
  exact ⟨[], [], hqueue', .inl ⟨hbegun'.trans hbegun, hend.await⟩⟩

/-! ### The program -/

/-- One request of the program. -/
theorem keeps_perform (hc : c.Quiet) {q : Request} {k : q.Reply → Chronicle → Prop}
    (h : Keeps b g w) (hstep : g.Step b q k) (hs : smoothPerform c w q = true) :
    ∃ g', Keeps b g' (w.perform c q).2 ∧ k (w.perform c q).1 g' := by
  by_cases hq : q.isFile = true
  · have hanswer : w.perform c q = w.answer c q := by
      cases q <;> first | rfl | cases hq
    have hok : q.succeeds (w.answer c q).1 = true := by
      cases q <;> first | exact hs | cases hq
    rw [hanswer]
    rw [answer_quiet hc hq] at hok ⊢
    obtain ⟨g', hmoves, hk⟩ := (Chronicle.step_file hq).mp hstep w.files h.tells hok
    obtain ⟨done, waiting, hqueue, hworker⟩ := h
    refine ⟨g', ⟨done, waiting, hqueue, ?_⟩, hk⟩
    rcases hworker with ⟨hbegun, hprogress⟩ | ⟨d, hprogress, hbusy⟩
    · exact .inl ⟨hbegun, (hprogress.moves hmoves).1⟩
    · obtain ⟨hprogress', hstill⟩ := hprogress.moves hmoves
      exact .inr ⟨d, hprogress', hstill d (List.mem_singleton_self d) _ hbusy⟩
  · cases q <;> first | exact absurd rfl hq | skip
    · -- deposits are handed over
      rename_i actions
      obtain ⟨hactions, hready, hk⟩ := hstep
      obtain ⟨done, waiting, hqueue, hworker⟩ := h
      refine ⟨_, ⟨done, waiting ++ g.whole, ?_, ?_⟩, hk⟩
      · show w.queue ++ actions = _
        rw [hqueue, hactions, List.flatMap_append]
      · rcases hworker with ⟨hbegun, hprogress⟩ | ⟨d, hprogress, hbusy⟩
        · exact .inl ⟨hbegun, hprogress.submit hready⟩
        · have hslots : Chronicle.slots { g with handed := g.handed ++ g.whole, whole := [] } =
              g.slots := by
            simp [Chronicle.slots, Chronicle.deposits, Chronicle.coming]
          refine .inr ⟨d, hprogress.submit hready, ?_⟩
          rw [Chronicle.paths, hslots]
          exact hbusy
    · -- the worker is waited for
      exact ⟨_, h.drain hc hs, hstep⟩
    · -- the clock is read
      exact ⟨g, h, hstep _⟩

/-- **Every schedule.**  A program that goes from chronicle to chronicle does so in every run in which
nothing fails, however its requests and the worker's follow on each other. -/
theorem keeps_run {α : Type} {r : Routine α} {Q : α → Chronicle → Prop} (hc : c.Quiet)
    (h : Keeps b g w) (hleads : r.Leads (Chronicle.regime b) Q g) (hs : smooth c r w = true) :
    ∃ g', Keeps b g' (run c r w).2 ∧ Q (run c r w).1 g' := by
  induction r generalizing w g with
  | done a => exact ⟨g, h, hleads⟩
  | ask q next ih =>
    rw [smooth, Bool.and_eq_true, Bool.and_eq_true] at hs
    obtain ⟨hturns, hperform, hrest⟩ := hs
    obtain ⟨g₁, h₁, hnext⟩ := keeps_perform hc (h.turns hc hturns) hleads hperform
    exact ih _ h₁ hnext hrest

end World

end LogRotation
