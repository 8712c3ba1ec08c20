/-
  The background carries out all that is submitted, in order, whatever fails on the way.

  What a program submits is done some time later, a request now and a request then, while the program goes
  on.  As long as the program changes nothing that the pending actions are concerned with, nobody can tell
  that from a background that does each batch at once, as a whole, while the program waits.

  The plan:

    1. **CARRIED**: what carrying out a routine with nothing in between may lead to; carrying out two parts
       is carrying out one and then the other.
    2. **ASIDE**: a change that pending actions are not concerned with may as well come after them.
    3. **WORKER**: what the worker has still to do is a routine, of which it does the first part at each
       turn, and all when it is waited for.
    4. **RUN**: backwards from the end, each change of the program is moved past all that is still to do
       at that time, so that every batch comes to stand where it was submitted.

  Main statement: `carried_in_order`.
-/
import LogRotation.Proofs.Asides
import LogRotation.Proofs.Durability

namespace LogRotation

/-! ## Waiting at last -/

/-- Carries out actions one after the other, whatever comes of each. -/
def Action.executeEach : List Action → Routine Unit
  | [] => .done ()
  | a :: rest => do
    a.executeQuietly
    executeEach rest

open LogRotation.Action (executeEach)

/-- A program that waits for the background at last, as one does that shuts it down or closes a log. -/
def Routine.finish {α : Type} (r : Routine α) : Routine α := do
  let a ← r
  request .await
  return a

/-- Closing a log is closing its file and waiting, whatever came of the closing. -/
theorem Writer.close_eq_finish (w : Writer) : w.close = (Work.closeFile.run.run w).finish := rfl

/-! ## Carrying out -/

/-- Lets the next file have this number. -/
def FileSystem.counting (fs : FileSystem) (n : Nat) : FileSystem := { fs with fresh := n }

/-- `Carried c r t fs t' fs'` - a routine that is carried out with nothing in between, from the moment `t`
up to the moment `t'`, makes `fs'` out of `fs`.  Each request is made to fail or not as it is at a later
moment than the one before, and may find that numbers were given to other files. -/
def Carried (c : Conditions) : Routine Unit → Nat → FileSystem → Nat → FileSystem → Prop
  | .done _, t, fs, t', fs' => t ≤ t' ∧ fs' = fs
  | .ask q next, t, fs, t', fs' => ∃ tick n, t ≤ tick ∧ fs.fresh ≤ n ∧
    Carried c (next ((fs.counting n).respond (c.fault tick q) q).1) (tick + 1)
      ((fs.counting n).respond (c.fault tick q) q).2 t' fs'

namespace Carried

open FileSystem

variable {c : Conditions} {r : Routine Unit} {t t' t'' : Nat} {A A' B : FileSystem}
  {as : List Action} {opened : Action.Opened} {apart : Place → Prop}

theorem of_le (h : Carried c r t' A t'' B) (ht : t ≤ t') : Carried c r t A t'' B := by
  cases r with
  | done u => exact ⟨Nat.le_trans ht h.1, h.2⟩
  | ask q next =>
    obtain ⟨tick, n, htick, hn, hrest⟩ := h
    exact ⟨tick, n, Nat.le_trans ht htick, hn, hrest⟩

theorem up_to (h : Carried c r t A t' B) (ht : t' ≤ t'') : Carried c r t A t'' B := by
  induction r generalizing t A with
  | done u => exact ⟨Nat.le_trans h.1 ht, h.2⟩
  | ask q next ih =>
    obtain ⟨tick, n, htick, hn, hrest⟩ := h
    exact ⟨tick, n, htick, hn, ih _ hrest⟩

/-- Carrying out two parts is carrying out one and then the other. -/
theorem bind_iff {f : Unit → Routine Unit} : Carried c (r >>= f) t A t'' B ↔
    ∃ t' A', Carried c r t A t' A' ∧ Carried c (f ()) t' A' t'' B := by
  induction r generalizing t A with
  | done u =>
    constructor
    · intro h
      exact ⟨t, A, ⟨Nat.le_refl t, rfl⟩, h⟩
    · rintro ⟨t', A', ⟨ht, rfl⟩, h⟩
      exact h.of_le ht
  | ask q next ih =>
    constructor
    · rintro ⟨tick, n, htick, hn, hrest⟩
      obtain ⟨t', A', hfirst, hsecond⟩ := (ih _).mp hrest
      exact ⟨t', A', ⟨tick, n, htick, hn, hfirst⟩, hsecond⟩
    · rintro ⟨t', A', ⟨tick, n, htick, hn, hfirst⟩, hsecond⟩
      exact ⟨tick, n, htick, hn, (ih _).mpr ⟨t', A', hfirst, hsecond⟩⟩

/-- What actions leave alone is the same after they were carried out. -/
theorem agreeAt {p : Place} (h : Carried c r t A t' B) (hasks : r.AsksFor as opened)
    (hplace : A.InPlace as opened) (hp : A.LeftAlone as p) : A.AgreeAt B p := by
  induction r generalizing t A opened with
  | done u =>
    rw [h.2]
    exact .refl A p
  | ask q next ih =>
    obtain ⟨tick, n, -, hn, hrest⟩ := h
    obtain ⟨hq, hnext⟩ := hasks
    have hcounting : (A.counting n).LeftAlone as p :=
      ⟨hp.spared, fun id hid => ⟨Nat.lt_of_lt_of_le (hp.file id hid).1 hn, (hp.file id hid).2⟩⟩
    have hplace : (A.counting n).InPlace as opened := hplace
    obtain ⟨r, e, hanswer, he, hplace'⟩ := hplace.respond hq (c.fault tick q)
    rw [hanswer] at hrest
    have hstep : (A.counting n).AgreeAt (e.on (A.counting n)) p := agreeAt_on hplace hq he hcounting
    have hlater := ih r hrest (hnext r) hplace' (hcounting.on hplace hq he)
    exact AgreeAt.trans ⟨hstep.node, hstep.content⟩ hlater

/-- **Aside.**  What was carried out on one file system can be carried out on another one, if the two are
different only where the actions are not concerned; and so they are different afterwards. -/
theorem beside (h : Carried c r t A t' A') (hbeside : Beside as apart A B)
    (hfresh : B.fresh ≤ A.fresh) (hasks : r.AsksFor as opened) (hplace : A.InPlace as opened) :
    ∃ B', Carried c r t B t' B' ∧ Beside as apart A' B' ∧ B'.fresh ≤ A'.fresh := by
  induction r generalizing t A B opened with
  | done u =>
    obtain ⟨ht, rfl⟩ := h
    exact ⟨B, ⟨ht, rfl⟩, hbeside, hfresh⟩
  | ask q next ih =>
    obtain ⟨tick, n, ht, hn, hrest⟩ := h
    obtain ⟨hq, hnext⟩ := hasks
    -- the same numbers are given in both
    have hcounting : Beside as apart (A.counting n) (B.counting n) :=
      ⟨hbeside.here, hbeside.spared, fun p hp =>
        ⟨(hbeside.agree p hp).node, (hbeside.agree p hp).content⟩⟩
    obtain ⟨r, e, hA, hB, -, hbeside', hplace'⟩ :=
      respond_beside hcounting (c.fault tick q) hplace hq rfl
    rw [hA] at hrest
    have hfresh' : (e.on (B.counting n)).fresh ≤ (e.on (A.counting n)).fresh := by
      cases e <;> exact Nat.le_refl _
    obtain ⟨B', hrest', hend⟩ := ih r hrest hbeside' hfresh' (hnext r) hplace'
    refine ⟨B', ⟨tick, n, ht, Nat.le_trans hfresh hn, ?_⟩, hend⟩
    rw [hB]
    exact hrest'

end Carried

namespace World

open FileSystem

variable {c : Conditions} {w : World} {handed : List Action}

/-! ## The worker -/

/-- What the worker has still to do. -/
def rest (w : World) : Routine Unit := w.begun >>= fun _ => executeEach w.queue

/-- A world whose worker is busy with some of the actions that were handed over. -/
def BusyWith (handed : List Action) (w : World) : Prop :=
  ∃ opened, w.files.InPlace handed opened ∧ w.rest.AsksFor handed opened

/-- The worker has gone on: what is left to do is what there was, less what has been done. -/
def Onward (c : Conditions) (w w' : World) : Prop :=
  ∀ t fs, Carried c w'.rest w'.ticks w'.files t fs → Carried c w.rest w.ticks w.files t fs

theorem asksFor_executeEach {as : List Action} {opened : Action.Opened} (h : ∀ a ∈ as, a ∈ handed) :
    (executeEach as).AsksFor handed opened := by
  induction as generalizing opened with
  | nil => trivial
  | cons a rest ih =>
    have ha : a.executeQuietly.AsksFor handed opened :=
      Action.asksFor_executeQuietly (h a List.mem_cons_self)
    refine Routine.Leads.bind (Routine.Leads.mono ha ?_)
    intro _ opened _
    exact ih fun b hb => h b (List.mem_cons_of_mem _ hb)

/-- A request for actions is answered by the files. -/
theorem answer_respond {q : Request} (hq : q.isFile = true) (w : World) : w.answer c q =
    ((w.files.respond (c.fault w.ticks q) q).1,
      { w with files := (w.files.respond (c.fault w.ticks q) q).2, ticks := w.ticks + 1 }) := by
  cases q <;> first | rfl | cases hq

theorem isFile_of_askedFor {q : Request} {as : List Action} {opened : Action.Opened}
    (h : q.AskedFor as opened) : q.isFile = true := by
  cases q <;> first | rfl | exact h.elim

/-- A turn of the worker. -/
theorem BusyWith.turn (h : BusyWith handed w) : BusyWith handed (w.turn c) ∧ Onward c w (w.turn c) := by
  obtain ⟨opened, hplace, hasks⟩ := h
  unfold World.turn
  split
  · -- the next request of the action that was begun
    rename_i q next hbegun
    rw [rest, hbegun] at hasks
    obtain ⟨hq, hnext⟩ := hasks
    rw [answer_respond (isFile_of_askedFor hq)]
    obtain ⟨r, e, hanswer, he, hplace'⟩ := hplace.respond hq (c.fault w.ticks q)
    refine ⟨⟨opened.next q r, ?_, ?_⟩, ?_⟩
    · dsimp only
      rw [hanswer]
      exact hplace'
    · dsimp only
      rw [hanswer]
      exact hnext r
    · intro t fs hcarried
      rw [rest, hbegun]
      exact ⟨w.ticks, w.files.fresh, Nat.le_refl _, Nat.le_refl _, hcarried⟩
  · rename_i hbegun
    split
    · -- nothing to do
      exact ⟨⟨opened, hplace, hasks⟩, fun _ _ hcarried => hcarried⟩
    · -- the next action is begun
      rename_i a queue hqueue
      have hrest : rest { w with queue := queue, begun := a.executeQuietly } = w.rest := by
        rw [rest, rest, hbegun, hqueue]
        rfl
      refine ⟨⟨opened, hplace, hrest ▸ hasks⟩, fun t fs hcarried => ?_⟩
      rw [← hrest]
      exact hcarried

theorem BusyWith.turns (h : BusyWith handed w) (n : Nat) :
    BusyWith handed (turns c n w) ∧ Onward c w (turns c n w) := by
  induction n generalizing w with
  | zero => exact ⟨h, fun _ _ hcarried => hcarried⟩
  | succ n ih =>
    obtain ⟨hbusy, hturn⟩ := h.turn (c := c)
    obtain ⟨hbusy', hturns⟩ := ih hbusy
    exact ⟨hbusy', fun t fs hcarried => hturn t fs (hturns t fs hcarried)⟩

/-- What the worker does with nothing in between is carried out. -/
theorem carried_runAlone {r : Routine Unit} {opened : Action.Opened} (h : r.AsksFor handed opened)
    (w : World) : (runAlone c r w).2.queue = w.queue ∧ (runAlone c r w).2.begun = w.begun ∧
      Carried c r w.ticks w.files (runAlone c r w).2.ticks (runAlone c r w).2.files := by
  induction r generalizing w opened with
  | done u => exact ⟨rfl, rfl, Nat.le_refl _, rfl⟩
  | ask q next ih =>
    obtain ⟨hq, hnext⟩ := h
    rw [runAlone, answer_respond (isFile_of_askedFor hq)]
    obtain ⟨hqueue, hbegun, hcarried⟩ := ih _ (hnext _) _
    exact ⟨hqueue, hbegun, w.ticks, w.files.fresh, Nat.le_refl _, Nat.le_refl _, hcarried⟩

theorem carried_foldl (as : List Action) (w : World) :
    let w' := as.foldl (fun w a => (runAlone c a.executeQuietly w).2) w
    w'.queue = w.queue ∧ w'.begun = w.begun ∧
      Carried c (executeEach as) w.ticks w.files w'.ticks w'.files := by
  induction as generalizing w with
  | nil => exact ⟨rfl, rfl, Nat.le_refl _, rfl⟩
  | cons a rest ih =>
    have ha : a.executeQuietly.AsksFor [a] [] := Action.asksFor_executeQuietly List.mem_cons_self
    obtain ⟨hqueue, hbegun, hfirst⟩ := carried_runAlone (c := c) ha w
    obtain ⟨hqueue', hbegun', hrest⟩ := ih (runAlone c a.executeQuietly w).2
    exact ⟨hqueue'.trans hqueue, hbegun'.trans hbegun, Carried.bind_iff.mpr ⟨_, _, hfirst, hrest⟩⟩

theorem asksFor_of_bind {r : Routine Unit} {f : Unit → Routine Unit} {opened : Action.Opened}
    (h : (r >>= f).AsksFor handed opened) : r.AsksFor handed opened := by
  induction r generalizing opened with
  | done u => trivial
  | ask q next ih => exact ⟨h.1, fun r => ih r (h.2 r)⟩

/-- A worker that is waited for carries out all that it has still to do. -/
theorem BusyWith.drain (h : BusyWith handed w) : (w.drain c).queue = [] ∧
    (w.drain c).begun = .done () ∧
      Carried c w.rest w.ticks w.files (w.drain c).ticks (w.drain c).files := by
  obtain ⟨opened, -, hasks⟩ := h
  obtain ⟨hqueue, hbegun, hfirst⟩ :=
    carried_runAlone (c := c) (asksFor_of_bind hasks) { w with begun := .done () }
  unfold World.drain
  dsimp only
  generalize (runAlone c w.begun { w with begun := .done () }).2 = w₁ at hqueue hbegun hfirst ⊢
  obtain ⟨hqueue', hbegun', hrest⟩ := carried_foldl (c := c) w₁.queue { w₁ with queue := [] }
  refine ⟨hqueue', hbegun'.trans hbegun, Carried.bind_iff.mpr ⟨_, _, hfirst, ?_⟩⟩
  rw [← hqueue]
  exact hrest

/-! ## Batches at once -/

/-- A change of one file system is made to another one: what was changed is the same, and the rest is as
it was. -/
structure SameChange (A A' B B' : FileSystem) : Prop where
  here : B'.here = B.here
  fresh : B.fresh ≤ B'.fresh
  kept : ∀ p, A.AgreeAt A' p → B.AgreeAt B' p
  changed : ∀ p, ¬ A.AgreeAt A' p → A'.AgreeAt B' p

/-- What a request does where batches are carried out when they are submitted: a batch is done as a whole,
there is nothing to wait for, and of other requests the change is told by the files before and after. -/
def DoneAtOnce (c : Conditions) (A A' : FileSystem) :
    Request → Nat → FileSystem → Nat → FileSystem → Prop
  | .submit as, t, B, t', B' => Carried c (executeEach as) t B t' B'
  | .await, t, B, t', B' => t' = t ∧ B' = B
  | .clock, t, B, t', B' => t' = t ∧ B' = B
  | _, t, B, t', B' => t' = t ∧ SameChange A A' B B'

/-- `AtOnce c r w t fs t' fs'` - a program that is run in a world makes `fs'` out of `fs` if each of its
changes is made there in its turn, and each batch is carried out as a whole when it is submitted. -/
def AtOnce {α : Type} (c : Conditions) : Routine α → World → Nat → FileSystem → Nat → FileSystem → Prop
  | .done _, _, t, fs, t', fs' => t ≤ t' ∧ fs' = fs
  | .ask q next, w, t, fs, t', fs' =>
    let before := turns c (c.turns w.ticks) w
    ∃ t₁ fs₁, DoneAtOnce c before.files (before.perform c q).2.files q t fs t₁ fs₁ ∧
      AtOnce c (next (before.perform c q).1) (before.perform c q).2 t₁ fs₁ t' fs'

/-! ## Changes aside -/

/-- Holds of a change of files at places that some actions leave alone. -/
def ClearOf (as : List Action) (A A' : FileSystem) : Prop :=
  ∀ p, A.AgreeAt A' p ∨ A'.LeftAlone as p

/-- It is enough to look at the places that are listed. -/
theorem clearOf_iff {as : List Action} {A A' : FileSystem} : ClearOf as A A' ↔
    ∀ x ∈ A.nodes ++ A'.nodes, A.AgreeAt A' x.1 ∨ A'.LeftAlone as x.1 := by
  constructor
  · intro h x _
    exact h x.1
  · intro h p
    by_cases hlisted : ∃ x ∈ A.nodes ++ A'.nodes, x.1 = p
    · obtain ⟨x, hx, rfl⟩ := hlisted
      exact h x hx
    · -- there is nothing in both, or it is the root
      have hnone : ∀ fs : FileSystem, (∀ x ∈ fs.nodes, x ∈ A.nodes ++ A'.nodes) →
          fs.node? p = if p = [] then some .directory else none := by
        intro fs hsub
        rw [node?]
        refine if_congr Iff.rfl rfl (List.lookup_eq_none_iff.mpr fun x hx => ?_)
        rw [bne_iff_ne]
        intro he
        exact hlisted ⟨x, hsub x hx, he.symm⟩
      have hA := hnone A fun x hx => List.mem_append_left _ hx
      have hA' := hnone A' fun x hx => List.mem_append_right _ hx
      refine .inl ⟨hA.trans hA'.symm, fun id hid => ?_⟩
      rw [hA] at hid
      split at hid <;> cases hid

instance (as : List Action) (A A' : FileSystem) : Decidable (ClearOf as A A') :=
  decidable_of_iff _ clearOf_iff.symm

/-! ## Runs -/

/-- What was handed over and may not be done, after a request of the program. -/
def handedAfter (handed : List Action) : Request → List Action
  | .submit as => handed ++ as
  | .await => []
  | _ => handed

/-- Holds of a run in which the program changes nothing that pending actions are concerned with.  Actions
are pending from when they are handed over until they are waited for. -/
def KeepsClear {α : Type} (c : Conditions) : Routine α → World → List Action → Prop
  | .done _, _, _ => True
  | .ask q next, w, handed =>
    let before := turns c (c.turns w.ticks) w
    (q.isFile = true → ClearOf handed before.files (before.perform c q).2.files) ∧
      KeepsClear c (next (before.perform c q).1) (before.perform c q).2 (handedAfter handed q)

instance decidableKeepsClear {α : Type} (c : Conditions) : (r : Routine α) → (w : World) →
    (handed : List Action) → Decidable (KeepsClear c r w handed)
  | .done _, _, _ => .isTrue trivial
  | .ask q next, w, handed =>
    let before := turns c (c.turns w.ticks) w
    have := decidableKeepsClear c (next (before.perform c q).1) (before.perform c q).2
      (handedAfter handed q)
    decidable_of_iff
      ((q.isFile = true → ClearOf handed before.files (before.perform c q).2.files) ∧
        KeepsClear c (next (before.perform c q).1) (before.perform c q).2 (handedAfter handed q)) .rfl

/-- **A change aside.**  A change that the pending actions are not concerned with is made as well after
them: they are carried out alike without it. -/
theorem BusyWith.change (h : BusyWith handed w) (w' : World) (hw : w'.rest = w.rest)
    (hfresh : w.files.fresh ≤ w'.files.fresh)
    (hhere : w'.files.here = w.files.here) (hclear : ClearOf handed w.files w'.files) :
    BusyWith handed w' ∧ ∀ t t₁ fs₁, Carried c w.rest t w'.files t₁ fs₁ →
      ∃ fs₀, Carried c w.rest t w.files t₁ fs₀ ∧ SameChange w.files w'.files fs₀ fs₁ := by
  obtain ⟨opened, hplace, hasks⟩ := h
  have halone : ∀ p, ¬ w.files.AgreeAt w'.files p → w'.files.LeftAlone handed p :=
    fun p hp => (hclear p).resolve_left hp
  have hplace' : w'.files.InPlace handed opened := by
    intro x handle hmem
    obtain ⟨⟨a, ha, hx⟩, hnode⟩ := hplace x handle hmem
    refine ⟨⟨a, ha, hx⟩, fun id hid => ?_⟩
    rcases hclear (x.placeIn w.files.here) with hagree | halone
    · rw [nodeAt, hhere, ← hagree.node]
      exact hnode id hid
    · exact absurd (congrArg _ hhere.symm) ((halone.spared a ha).ne (Action.mem_ways_of_ends hx))
  refine ⟨⟨opened, hplace', hw ▸ hasks⟩, fun t t₁ fs₁ hcarried => ?_⟩
  have hbeside : Beside handed (fun p => ¬ w.files.AgreeAt w'.files p) w'.files w.files :=
    ⟨hhere, fun p hp => (halone p hp).spared, fun p hp => (not_not.mp hp).symm⟩
  obtain ⟨fs₀, hcarried₀, hbeside', hfresh'⟩ := hcarried.beside hbeside hfresh hasks hplace'
  refine ⟨fs₀, hcarried₀, hbeside'.here, hfresh', fun p hp => ?_, fun p hp => ?_⟩
  · exact (hbeside'.agree p (not_not.mpr hp)).symm
  · exact hcarried.agreeAt hasks hplace' (halone p hp)

theorem doneAtOnce_file {q : Request} (hq : q.isFile = true) {A A' B B' : FileSystem} {t : Nat}
    (h : SameChange A A' B B') : DoneAtOnce c A A' q t B t B' := by
  cases q <;> first | exact ⟨rfl, h⟩ | cases hq

theorem executeEach_append (as bs : List Action) :
    executeEach (as ++ bs) = (executeEach as >>= fun _ => executeEach bs) := by
  induction as with
  | nil => rfl
  | cons a rest ih =>
    show (a.executeQuietly >>= fun _ => executeEach (rest ++ bs)) =
      ((a.executeQuietly >>= fun _ => executeEach rest) >>= fun _ => executeEach bs)
    rw [ih, Routine.bind_assoc]

/-- A request of the program about files is made as well after all that is pending. -/
theorem BusyWith.ask {q : Request} (h : BusyWith handed w) (hq : q.isFile = true)
    (hclear : ClearOf handed w.files (w.answer c q).2.files) :
    let after := (w.answer c q).2
    BusyWith handed after ∧ ∀ t₁ fs₁, Carried c after.rest after.ticks after.files t₁ fs₁ →
      ∃ fs, Carried c w.rest w.ticks w.files t₁ fs ∧ SameChange w.files after.files fs fs₁ := by
  rw [answer_respond hq] at hclear ⊢
  obtain ⟨e, heffect, he⟩ := w.files.exists_effect (c.fault w.ticks q) q
  dsimp only at hclear ⊢
  rw [heffect] at hclear ⊢
  obtain ⟨hbusy, hchange⟩ := h.change (c := c)
    { w with files := e.on w.files, ticks := w.ticks + 1 } rfl (Effect.fresh_le_on e w.files)
    (Effect.here_on e w.files) hclear
  refine ⟨hbusy, fun t₁ fs₁ hcarried => ?_⟩
  obtain ⟨fs, hcarried', hsame⟩ := hchange _ _ _ hcarried
  exact ⟨fs, hcarried'.of_le (Nat.le_succ w.ticks), hsame⟩

/-- What is handed over is done after all that is pending. -/
theorem BusyWith.submit (h : BusyWith handed w) (as : List Action) :
    let after : World := { w with queue := w.queue ++ as, ticks := w.ticks + 1 }
    BusyWith (handed ++ as) after ∧ ∀ t₁ fs₁, Carried c after.rest after.ticks after.files t₁ fs₁ →
      ∃ t fs, Carried c w.rest w.ticks w.files t fs ∧ Carried c (executeEach as) t fs t₁ fs₁ := by
  intro after
  obtain ⟨opened, hplace, hasks⟩ := h
  have hrest : after.rest = (w.rest >>= fun _ => executeEach as) := by
    show (w.begun >>= fun _ => executeEach (w.queue ++ as)) = _
    rw [executeEach_append, rest, Routine.bind_assoc]
  have hmore : ∀ a ∈ handed, a ∈ handed ++ as := fun a ha => List.mem_append_left _ ha
  rw [hrest]
  refine ⟨⟨opened, hplace.mono hmore, ?_⟩, fun t₁ fs₁ hcarried => ?_⟩
  · rw [hrest]
    refine Routine.Leads.bind (Routine.Leads.mono (hasks.mono hmore) fun _ opened _ => ?_)
    exact asksFor_executeEach fun a ha => List.mem_append_right _ ha
  · obtain ⟨t, fs, hbefore, hbatch⟩ := Carried.bind_iff.mp hcarried
    exact ⟨t, fs, hbefore.of_le (Nat.le_succ w.ticks), hbatch⟩

/-- Nothing is left to do once the worker was waited for. -/
theorem BusyWith.await (h : BusyWith handed w) : BusyWith [] (w.drain c) ∧ Onward c w (w.drain c) := by
  obtain ⟨hqueue, hbegun, hdrain⟩ := h.drain (c := c)
  have hrest : (w.drain c).rest = .done () := by
    rw [rest, hqueue, hbegun]
    rfl
  refine ⟨⟨[], .nil _ _, ?_⟩, fun t₁ fs₁ hcarried => ?_⟩
  · rw [hrest]
    trivial
  · rw [hrest] at hcarried
    obtain ⟨ht, rfl⟩ := hcarried
    exact hdrain.up_to ht

/-- One request of the program: what the worker has still to do may be done before it, but for what the
request hands over. -/
theorem BusyWith.perform {q : Request} (h : BusyWith handed w)
    (hclear : q.isFile = true → ClearOf handed w.files (w.perform c q).2.files) :
    let after := (w.perform c q).2
    BusyWith (handedAfter handed q) after ∧
      ∀ t₁ fs₁, Carried c after.rest after.ticks after.files t₁ fs₁ →
        ∃ t fs, Carried c w.rest w.ticks w.files t fs ∧
          DoneAtOnce c w.files after.files q t fs t₁ fs₁ := by
  by_cases hq : q.isFile = true
  · have hperform : w.perform c q = w.answer c q := by
      cases q <;> first | rfl | cases hq
    have hhanded : handedAfter handed q = handed := by
      cases q <;> first | rfl | cases hq
    have hclear := hclear hq
    rw [hperform] at hclear ⊢
    rw [hhanded]
    obtain ⟨hbusy, hback⟩ := h.ask hq hclear
    refine ⟨hbusy, fun t₁ fs₁ hcarried => ?_⟩
    obtain ⟨fs, hbefore, hsame⟩ := hback t₁ fs₁ hcarried
    exact ⟨t₁, fs, hbefore, doneAtOnce_file hq hsame⟩
  · cases q <;> first | exact absurd rfl hq | skip
    · -- actions are handed over
      rename_i as
      exact h.submit as
    · -- the worker is waited for
      obtain ⟨hbusy, honward⟩ := h.await (c := c)
      exact ⟨hbusy, fun t₁ fs₁ hcarried => ⟨t₁, fs₁, honward t₁ fs₁ hcarried, rfl, rfl⟩⟩
    · -- the clock is read
      exact ⟨h, fun t₁ fs₁ hcarried => ⟨t₁, fs₁, Carried.of_le hcarried (Nat.le_succ w.ticks), rfl, rfl⟩⟩

/-- **Backwards.**  From a world on, a run is one in which what the worker has still to do is done first,
and then each batch when it is submitted. -/
theorem atOnce_run {α : Type} {r : Routine α} (h : BusyWith handed w) (hclear : KeepsClear c r w handed) :
    let ended := run c r.finish w
    ended.1 = (run c r w).1 ∧ ended.2.queue = [] ∧ ended.2.begun = .done () ∧
      ∃ t fs, Carried c w.rest w.ticks w.files t fs ∧
        AtOnce c r w t fs ended.2.ticks ended.2.files := by
  induction r generalizing w handed with
  | done a =>
    -- the worker goes on for a while, and is waited for
    obtain ⟨hbusy, honward⟩ := h.turns (c := c) (c.turns w.ticks)
    obtain ⟨hqueue, hbegun, hcarried⟩ := hbusy.drain (c := c)
    exact ⟨rfl, hqueue, hbegun, _, _, honward _ _ hcarried, Nat.le_refl _, rfl⟩
  | ask q next ih =>
    obtain ⟨hq, hnext⟩ := hclear
    obtain ⟨hbefore, honward⟩ := h.turns (c := c) (c.turns w.ticks)
    obtain ⟨hafter, hback⟩ := hbefore.perform hq
    obtain ⟨hresult, hqueue, hbegun, t₁, fs₁, hcarried, hatOnce⟩ := ih _ hafter hnext
    obtain ⟨t, fs, hcarried', hstep⟩ := hback t₁ fs₁ hcarried
    exact ⟨hresult, hqueue, hbegun, t, fs, honward _ _ hcarried', t₁, fs₁, hstep, hatOnce⟩

/-- At the start nothing is handed over. -/
theorem busyWith_ofFiles (fs : FileSystem) : BusyWith [] (.ofFiles fs) := ⟨[], .nil fs [], trivial⟩

theorem DoneAtOnce.of_le {q : Request} {A A' B B' : FileSystem} {s t t' : Nat}
    (h : DoneAtOnce c A A' q t B t' B') (hs : s ≤ t) : ∃ s' ≤ t', DoneAtOnce c A A' q s B s' B' := by
  cases q <;> first
    | exact ⟨t', Nat.le_refl t', Carried.of_le h hs⟩
    | exact ⟨s, h.1 ▸ hs, rfl, h.2⟩

theorem AtOnce.of_le {α : Type} {r : Routine α} {s t t' : Nat} {fs fs' : FileSystem}
    (h : AtOnce c r w t fs t' fs') (hs : s ≤ t) : AtOnce c r w s fs t' fs' := by
  induction r generalizing w s t fs with
  | done a => exact ⟨Nat.le_trans hs h.1, h.2⟩
  | ask q next ih =>
    obtain ⟨t₁, fs₁, hstep, hrest⟩ := h
    obtain ⟨s₁, hs₁, hstep⟩ := DoneAtOnce.of_le hstep hs
    exact ⟨s₁, fs₁, hstep, ih _ hrest hs₁⟩

/-- **In order, whatever fails.**  Let a program change nothing that the actions are concerned with which
it has handed over and not waited for.  However its requests and the worker's follow on each other, and
whatever is made to fail: when it has waited at last, nothing is left to do; its result is what it was before
the waiting; and the files are those that are got by carrying out each batch as a whole when it is submitted,
every action once and in its turn, whatever came of those before it. -/
theorem carried_in_order {α : Type} (c : Conditions) (r : Routine α) {fs : FileSystem}
    (clear : KeepsClear c r (.ofFiles fs) []) :
    let ended := run c r.finish (.ofFiles fs)
    ended.1 = (run c r (.ofFiles fs)).1 ∧ ended.2.queue = [] ∧ ended.2.begun = .done () ∧
      AtOnce c r (.ofFiles fs) 0 fs ended.2.ticks ended.2.files := by
  obtain ⟨hresult, hqueue, hbegun, t, fs', ⟨ht, rfl⟩, hatOnce⟩ :=
    atOnce_run (busyWith_ofFiles fs) clear
  exact ⟨hresult, hqueue, hbegun, hatOnce.of_le ht⟩

/-- The conditions in which an archive cannot be opened and one byte at most is taken by a file at each
write, while the worker asks no request, one, or two before each request of the program. -/
def brittle (archive : Path) (id : Nat) : Conditions where
  fault _ q := match q with
    | .openWrite x false => if x = archive then some ⟨.isADirectory, 0⟩ else none
    | .write h _ => if h = .file id then some ⟨.storageFull, 1⟩ else none
    | _ => none
  clock _ := .epoch
  turns tick := tick % 3

/-- A log of archives by the hour, where the first archive cannot be opened, the last record cannot be
written in one piece, and closing the log fails therefore: the second archive is made nevertheless, before
the closing is over. -/
theorem carried_in_order_past_failures : ∃ (w : Writer) (entries : List Writer.Entry)
    (r : Routine (Except Error Unit × Writer)),
    (Writer.writeAll entries w >>= fun (_, w) => w.close) = r.finish ∧
    KeepsClear (brittle ⟨"app-00.log.gz"⟩ 2) r (.ofFiles .blank) [] ∧
    let ended := run (brittle ⟨"app-00.log.gz"⟩ 2) r.finish (.ofFiles .blank)
    ended.1.1 = .error (.io .storageFull) ∧
    (["app-00.log", "app-00.log.gz", "app-01.log", "app-01.log.gz"].map fun x =>
      ended.2.files.present ⟨x⟩) = [true, false, false, true] ∧
    ended.1 = (run (brittle ⟨"app-00.log.gz"⟩ 2) r (.ofFiles .blank)).1 ∧ ended.2.queue = [] ∧
    ended.2.begun = .done () ∧
    AtOnce (brittle ⟨"app-00.log.gz"⟩ 2) r (.ofFiles .blank) 0 .blank ended.2.ticks ended.2.files := by
  refine ⟨⟨⟨.archivedByHour, .fixed 0, none, .gzip, "app-00.log.gz", 0⟩, ⟨"app-00.log"⟩, none, none⟩,
    [.raw [97] ⟨0, 0⟩, .raw [98] ⟨3600, 0⟩, .raw [99, 100] ⟨7200, 0⟩], _,
    (Routine.bind_assoc _ _ _).symm, ?clear, ?_, ?_, carried_in_order _ _ ?clear⟩
  case clear => decide +kernel
  · rfl
  · rfl

/-! ## Batches alone -/

/-- A program that does nothing but submit batches. -/
def submitting : List (List Action) → Routine Unit
  | [] => .done ()
  | as :: batches => .ask (.submit as) fun _ => submitting batches

theorem keepsClear_submitting (c : Conditions) (batches : List (List Action)) (w : World)
    (handed : List Action) : KeepsClear c (submitting batches) w handed := by
  induction batches generalizing w handed with
  | nil => trivial
  | cons as batches ih => exact ⟨nofun, ih _ _⟩

theorem carried_of_submitting {batches : List (List Action)} {t t' : Nat} {fs fs' : FileSystem}
    (h : AtOnce c (submitting batches) w t fs t' fs') :
    Carried c (executeEach batches.flatten) t fs t' fs' := by
  induction batches generalizing w t fs with
  | nil => exact h
  | cons as batches ih =>
    obtain ⟨t₁, fs₁, hbatch, hrest⟩ := h
    rw [List.flatten_cons, executeEach_append]
    exact Carried.bind_iff.mpr ⟨t₁, fs₁, hbatch, ih hrest⟩

/-- Of batches that are submitted one after the other with nothing in between, every action is carried out
once and in order, whatever the cuts between them are and whatever fails. -/
theorem batches_in_order (c : Conditions) (batches : List (List Action)) (fs : FileSystem) :
    let ended := (run c (submitting batches).finish (.ofFiles fs)).2
    ended.queue = [] ∧ ended.begun = .done () ∧
      Carried c (executeEach batches.flatten) 0 fs ended.ticks ended.files := by
  obtain ⟨-, hqueue, hbegun, t, fs', ⟨ht, rfl⟩, hatOnce⟩ :=
    atOnce_run (busyWith_ofFiles fs) (keepsClear_submitting c batches _ [])
  exact ⟨hqueue, hbegun, carried_of_submitting (hatOnce.of_le ht)⟩

end World

end LogRotation
