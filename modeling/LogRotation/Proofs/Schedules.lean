/-
  Programs that keep books while a worker is busy, under every schedule.

  A program that asks for files goes from page to page.  Between two of its requests the worker may
  have come any way through the actions that were handed to it.  So a program is judged by what the
  books alone say at each of its requests, and that judgement is sound for every run.

    * HOLDS    a world whose files agree with a page, and whose worker is busy with sealed slots
               only;
    * MEETS    a program that goes from a page to a page on which something holds, whatever is
               answered on the way and whatever the books leave open;
    * SPARED   a run in which none of the program's own writes fails from outside.

  Main statement: `holds_run`.
-/
import LogRotation.Proofs.Archiving
import LogRotation.Proofs.Pages

namespace LogRotation

/-! ## Programs -/

namespace Page

/-- What may happen at a request, and what is to hold after it. -/
def Step (g : Page) : (q : Request) → (q.Reply → Page → Prop) → Prop
  | .submit actions, k => (∀ a ∈ actions, ∃ s ∈ g.sealed, a ∈ s.archiving) ∧ k () g
  | .await, k => k () g
  | .clock, k => ∀ now, k now g
  | q, k => ∀ fs, g.Books fs → ∀ r fs', fs.Answers q.isWrite q r fs' →
      ∃ g', g.Moves fs g' fs' ∧ k r g'

theorem step_file {g : Page} {q : Request} {k : q.Reply → Page → Prop} (hq : q.isFile = true) :
    g.Step q k ↔ ∀ fs, g.Books fs → ∀ r fs', fs.Answers q.isWrite q r fs' →
      ∃ g', g.Moves fs g' fs' ∧ k r g' := by
  cases q <;> first | exact Iff.rfl | cases hq

theorem Step.mono {g : Page} {q : Request} {k k' : q.Reply → Page → Prop} (h : g.Step q k)
    (hk : ∀ r g', k r g' → k' r g') : g.Step q k' := by
  by_cases hq : q.isFile = true
  · rw [step_file hq] at h ⊢
    intro fs hbooks r fs' hanswer
    obtain ⟨g', hmoves, hr⟩ := h fs hbooks r fs' hanswer
    exact ⟨g', hmoves, hk r g' hr⟩
  · cases q <;> first | exact absurd rfl hq | skip
    · -- actions are handed over
      exact ⟨h.1, hk _ _ h.2⟩
    · -- the worker is waited for
      exact hk _ _ h
    · -- the clock is read
      intro now
      exact hk _ _ (h now)

end Page

/-- Going from page to page. -/
def Page.regime : Regime Page := ⟨Page.Step, Page.Step.mono⟩

/-- Holds of a program that, from a page on, ends on a page where something holds of its result. -/
abbrev Routine.Meets {α : Type} (r : Routine α) (Q : α → Page → Prop) (g : Page) : Prop :=
  r.Leads Page.regime Q g

/-! ## Worlds -/

namespace World

variable {c : Conditions} {g : Page} {w : World}

/-- Holds of a run in which no write that the program asks for fails from outside. -/
def Spared {α : Type} (c : Conditions) : Routine α → World → Prop
  | .done _, _ => True
  | .ask q next, w =>
    let before := turns c (c.turns w.ticks) w
    (q.isWrite = true → c.fault before.ticks q = none) ∧
      Spared c (next (before.perform c q).1) (before.perform c q).2

/-- Where no write fails at all, the program's own writes are spared. -/
theorem spared_of_fault {α : Type} (h : ∀ tick q, q.isWrite = true → c.fault tick q = none)
    (r : Routine α) (w : World) : Spared c r w := by
  induction r generalizing w with
  | done a => trivial
  | ask q next ih => exact ⟨h _ q, ih _ _⟩

/-- A world whose files agree with a page, and whose worker is busy with sealed slots only. -/
structure Holds (g : Page) (w : World) : Prop where
  books : g.Books w.files
  queue : ∀ a ∈ w.queue, ∃ s ∈ g.sealed, a ∈ s.archiving
  begun : w.begun = .done () ∨ ∃ s ∈ g.sealed, s.Careful g.paths w.begun w.files

/-- A request about files is answered by the files, and changes nothing else but the count. -/
theorem answer_file {q : Request} (hq : q.isFile = true) (spared : Bool)
    (h : spared = true → c.fault w.ticks q = none) :
    w.files.Answers spared q (w.answer c q).1 (w.answer c q).2.files ∧
      (w.answer c q).2.queue = w.queue ∧ (w.answer c q).2.begun = w.begun := by
  have hanswer := FileSystem.answers_getD w.files q (c.fault w.ticks q) h
  cases q <;> first | exact ⟨hanswer, rfl, rfl⟩ | cases hq

/-! ## The worker -/

/-- What the worker begins is done with care. -/
theorem careful_of_submitted {fs : FileSystem} (h : g.Books fs) {s : Slot} (hs : s ∈ g.sealed)
    {a : Action} (ha : a ∈ s.archiving) : s.Careful g.paths a.executeQuietly fs := by
  have hslots := Page.mem_slots_of_sealed hs
  refine Slot.careful_archiving h.apart h.tidy ?_ ?_ ha
  · intro x hx
    exact Page.mem_paths hslots hx
  · intro x hx
    exact Page.archive_ne h.nodup hslots hx

/-- One request of the worker. -/
theorem careful_answer {q : Request} {next : q.Reply → Routine Unit} {s : Slot}
    (h : g.Books w.files) (hs : s ∈ g.sealed) (hcareful : s.Careful g.paths (.ask q next) w.files) :
    g.Books (w.answer c q).2.files ∧
      s.Careful g.paths (next (w.answer c q).1) (w.answer c q).2.files ∧
      (w.answer c q).2.queue = w.queue ∧ (w.answer c q).2.begun = w.begun := by
  obtain ⟨hq, hsteps⟩ := hcareful
  obtain ⟨hanswer, hqueue, hbegun⟩ := answer_file (c := c) (w := w) hq false nofun
  obtain ⟨hwithin, hnext⟩ := hsteps w.files (.refl _ _ _) _ _ hanswer
  exact ⟨h.settle hs hwithin.frame hwithin.content, hnext, hqueue, hbegun⟩

/-- A turn of the worker leaves the books in order. -/
theorem Holds.turn (h : Holds g w) : Holds g (w.turn c) := by
  unfold World.turn
  split
  · -- the next request of the action that was begun
    rename_i q next hbegun
    obtain hdone | ⟨s, hs, hcareful⟩ := h.begun
    · rw [hbegun] at hdone
      cases hdone
    · rw [hbegun] at hcareful
      obtain ⟨hbooks, hnext, hqueue, -⟩ := careful_answer (c := c) h.books hs hcareful
      refine ⟨hbooks, fun a ha => h.queue a ?_, .inr ⟨s, hs, hnext⟩⟩
      rw [← hqueue]
      exact ha
  · split
    · -- nothing to do
      exact h
    · -- the next action is begun
      rename_i a rest hqueue
      obtain ⟨s, hs, ha⟩ := h.queue a (hqueue ▸ List.mem_cons_self)
      have hcareful := careful_of_submitted h.books hs ha
      refine ⟨h.books, fun b hb => h.queue b ?_, .inr ⟨s, hs, hcareful⟩⟩
      rw [hqueue]
      exact List.mem_cons_of_mem _ hb

/-- So do any number of turns. -/
theorem Holds.turns (h : Holds g w) (n : Nat) : Holds g (World.turns c n w) := by
  induction n generalizing w with
  | zero => exact h
  | succ n ih => exact ih h.turn

/-- A careful routine that is run alone leaves the books in order. -/
theorem books_runAlone {r : Routine Unit} {s : Slot} (h : g.Books w.files) (hs : s ∈ g.sealed)
    (hcareful : s.Careful g.paths r w.files) :
    g.Books (runAlone c r w).2.files ∧ (runAlone c r w).2.queue = w.queue ∧
      (runAlone c r w).2.begun = w.begun := by
  induction r generalizing w with
  | done a => exact ⟨h, rfl, rfl⟩
  | ask q next ih =>
    obtain ⟨hbooks, hnext, hqueue, hbegun⟩ := careful_answer (c := c) h hs hcareful
    obtain ⟨h', hqueue', hbegun'⟩ := ih _ hbooks hnext
    exact ⟨h', hqueue'.trans hqueue, hbegun'.trans hbegun⟩

/-- Actions that are done one after the other leave the books in order. -/
theorem books_foldl (actions : List Action) (h : g.Books w.files)
    (hactions : ∀ a ∈ actions, ∃ s ∈ g.sealed, a ∈ s.archiving) :
    let w' := actions.foldl (fun w a => (runAlone c a.executeQuietly w).2) w
    g.Books w'.files ∧ w'.queue = w.queue ∧ w'.begun = w.begun := by
  induction actions generalizing w with
  | nil => exact ⟨h, rfl, rfl⟩
  | cons a rest ih =>
    obtain ⟨s, hs, ha⟩ := hactions a List.mem_cons_self
    obtain ⟨hbooks, hqueue, hbegun⟩ :=
      books_runAlone (c := c) h hs (careful_of_submitted h hs ha)
    have hrest : ∀ b ∈ rest, ∃ s ∈ g.sealed, b ∈ s.archiving := by
      intro b hb
      exact hactions b (List.mem_cons_of_mem _ hb)
    obtain ⟨h', hqueue', hbegun'⟩ := ih hbooks hrest
    exact ⟨h', hqueue'.trans hqueue, hbegun'.trans hbegun⟩

/-- Waiting for the worker leaves the books in order. -/
theorem Holds.drain (h : Holds g w) : Holds g (w.drain c) := by
  -- what was begun is ended first, and then the queue is worked through
  have hfirst : g.Books (runAlone c w.begun { w with begun := .done () }).2.files ∧
      (runAlone c w.begun { w with begun := .done () }).2.queue = w.queue ∧
      (runAlone c w.begun { w with begun := .done () }).2.begun = .done () := by
    obtain hdone | ⟨s, hs, hcareful⟩ := h.begun
    · rw [hdone]
      exact ⟨h.books, rfl, rfl⟩
    · exact books_runAlone (w := { w with begun := .done () }) h.books hs hcareful
  unfold World.drain
  dsimp only
  generalize (runAlone c w.begun { w with begun := .done () }).2 = w₁ at hfirst ⊢
  obtain ⟨hbooks, hqueue, hbegun⟩ := hfirst
  obtain ⟨hbooks', hqueue', hbegun'⟩ := books_foldl (c := c) (w := { w₁ with queue := [] })
    w₁.queue hbooks (hqueue ▸ h.queue)
  refine ⟨hbooks', fun a ha => ?_, .inl (hbegun'.trans hbegun)⟩
  rw [hqueue'] at ha
  cases ha

/-! ## Runs -/

/-- A step of the program is no harm to what the worker is doing. -/
theorem Holds.moves {g' : Page} {w' : World} (h : Holds g w) (hmoves : g.Moves w.files g' w'.files)
    (hqueue : w'.queue = w.queue) (hbegun : w'.begun = w.begun) : Holds g' w' := by
  refine ⟨hmoves.books, fun a ha => ?_, ?_⟩
  · obtain ⟨s, hs, hmem⟩ := h.queue a (hqueue ▸ ha)
    exact ⟨s, hmoves.sealed s hs, hmem⟩
  · have hpaths : g'.paths = g.paths := congrArg (List.flatMap Slot.paths) hmoves.slots
    rw [hbegun]
    rcases h.begun with hdone | ⟨s, hs, hcareful⟩
    · exact .inl hdone
    · -- the step left the paths of that slot alone, which is what the worker relies on
      refine .inr ⟨s, hmoves.sealed s hs, ?_⟩
      rw [hpaths]
      exact hcareful.after (hmoves.frame.mono fun x _ hx => hx s hs)

/-- One request of the program. -/
theorem holds_perform {q : Request} {k : q.Reply → Page → Prop} (h : Holds g w) (hstep : g.Step q k)
    (hspared : q.isWrite = true → c.fault w.ticks q = none) :
    ∃ g', Holds g' (w.perform c q).2 ∧ g'.slots = g.slots ∧ k (w.perform c q).1 g' := by
  by_cases hq : q.isFile = true
  · obtain ⟨hanswer, hqueue, hbegun⟩ := answer_file (c := c) (w := w) hq q.isWrite hspared
    obtain ⟨g', hmoves, hr⟩ := (Page.step_file hq).mp hstep w.files h.books _ _ hanswer
    have hperform : w.perform c q = w.answer c q := by
      cases q <;> first | rfl | cases hq
    rw [hperform]
    exact ⟨g', h.moves hmoves hqueue hbegun, hmoves.slots, hr⟩
  · cases q <;> first | exact absurd rfl hq | skip
    · -- actions are handed over
      refine ⟨g, ⟨h.books, ?_, h.begun⟩, rfl, hstep.2⟩
      intro a ha
      rcases List.mem_append.mp ha with ha | ha
      · exact h.queue a ha
      · exact hstep.1 a ha
    · -- the worker is waited for
      exact ⟨g, h.drain, rfl, hstep⟩
    · -- the clock is read
      exact ⟨g, ⟨h.books, h.queue, h.begun⟩, rfl, hstep _⟩

/-- **Every schedule.**  A program that goes from page to page does so in every run in which its own
writes are spared, however its requests and the worker's follow on each other. -/
theorem holds_run {α : Type} {r : Routine α} {Q : α → Page → Prop} (h : Holds g w)
    (hmeets : r.Meets Q g) (hspared : Spared c r w) :
    ∃ g', Holds g' (run c r w).2 ∧ g'.slots = g.slots ∧ Q (run c r w).1 g' := by
  induction r generalizing w g with
  | done a => exact ⟨g, h, rfl, hmeets⟩
  | ask q next ih =>
    obtain ⟨hq, hrest⟩ := hspared
    have hbefore := h.turns (c := c) (c.turns w.ticks)
    obtain ⟨g₁, h₁, hslots, hnext⟩ := holds_perform hbefore hmeets hq
    obtain ⟨g', h', hslots', hQ⟩ := ih _ h₁ hnext hrest
    exact ⟨g', h', hslots'.trans hslots, hQ⟩

end World

end LogRotation
