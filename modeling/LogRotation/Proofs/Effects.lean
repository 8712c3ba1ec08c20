/-
  What a request looks at, and what it does.

  A request about files is decided by a few places, and then it has one of six effects.  Two file
  systems that agree on what a request looks at answer it alike, and it has the same effect on both,
  however different they are elsewhere.

    * TRAIL     the places that a path passes: what it leads to is decided by them;
    * EFFECT    a directory or a file is made, a file is filled, a place is taken away or moved, or
                nothing is done;
    * ALIKE     an operation that fails in both of two file systems, or has one effect on both.

  Main statement: `respond_alike`.
-/
import LogRotation.Proofs.Interference
import LogRotation.Proofs.Directories

namespace LogRotation

namespace FileSystem

/-- Answers a request about files, which may be made to fail. -/
def respond (fs : FileSystem) (fault : Option Fault) (q : Request) : q.Reply × FileSystem :=
  (fault.bind fun f => fs.serveFault f q).getD (fs.serve q)

/-! ## Trails -/

/-- The places that are passed from a place on. -/
def passed (p : Place) : List String → List Place
  | [] => [p]
  | s :: rest => p :: passed (goTo p s) rest

theorem start_mem_passed (p : Place) (segments : List String) : p ∈ passed p segments := by
  cases segments with
  | nil => exact List.mem_cons_self
  | cons s rest => exact List.mem_cons_self

theorem end_mem_passed (p : Place) (segments : List String) :
    segments.foldl goTo p ∈ passed p segments := by
  induction segments generalizing p with
  | nil => exact List.mem_cons_self
  | cons s rest ih => exact List.mem_cons_of_mem _ (ih (goTo p s))

theorem passed_subset_append (p : Place) (segments more : List String) :
    ∀ q ∈ passed p segments, q ∈ passed p (segments ++ more) := by
  induction segments generalizing p with
  | nil =>
    intro q hq
    rw [List.mem_singleton.mp hq]
    exact start_mem_passed p more
  | cons s rest ih =>
    intro q hq
    rcases List.mem_cons.mp hq with rfl | hq
    · exact List.mem_cons_self
    · exact List.mem_cons_of_mem _ (ih (goTo p s) q hq)

end FileSystem

/-- The places that a path passes, for a working directory. -/
def Path.trail (x : Path) (here : Place) : List Place :=
  FileSystem.passed (if x.isAbsolute then [] else here) x.segments

theorem Path.placeIn_mem_trail (x : Path) (here : Place) : x.placeIn here ∈ x.trail here :=
  FileSystem.end_mem_passed _ _

namespace FileSystem

variable {fs A B : FileSystem} {x y : Path} {p q s t : Place} {id : Nat}

/-- Holds of file systems that have the same at some places. -/
def SameOn (A B : FileSystem) (ps : List Place) : Prop := ∀ p ∈ ps, A.node? p = B.node? p

theorem SameOn.refl (fs : FileSystem) (ps : List Place) : fs.SameOn fs ps := fun _ _ => rfl

theorem step_congr {segment : String} (hp : A.node? p = B.node? p)
    (hnext : A.node? (goTo p segment) = B.node? (goTo p segment)) :
    A.step p segment = B.step p segment := by
  unfold step requireDirectory
  rw [hp]
  by_cases hdot : segment = "."
  · rw [if_pos hdot, if_pos hdot]
  · by_cases hup : segment = ".."
    · rw [if_neg hdot, if_pos hup, if_neg hdot, if_pos hup]
    · rw [goTo, if_neg hdot, if_neg hup] at hnext
      rw [hnext]

/-- A way is decided by the places that it passes. -/
theorem walk_congr {segments : List String} (h : A.SameOn B (passed p segments)) :
    A.walk p segments = B.walk p segments := by
  induction segments generalizing p with
  | nil => rfl
  | cons s rest ih =>
    have hstep : A.step p s = B.step p s :=
      step_congr (h p List.mem_cons_self)
        (h _ (List.mem_cons_of_mem _ (start_mem_passed _ rest)))
    show (A.step p s >>= fun next => A.walk next rest) = (B.step p s >>= fun next => B.walk next rest)
    rw [hstep]
    cases hnext : B.step p s with
    | error e => rfl
    | ok next =>
      show A.walk next rest = B.walk next rest
      rw [step_ok hnext]
      exact ih fun q hq => h q (List.mem_cons_of_mem _ hq)

/-- What a path leads to is decided by the places that it passes. -/
theorem resolve_congr (hhere : A.here = B.here) (h : A.SameOn B (x.trail A.here)) :
    A.resolve x = B.resolve x := by
  have horigin : A.origin x = B.origin x := by rw [origin, origin, hhere]
  have hwalk : A.walk (A.origin x) x.segments = B.walk (B.origin x) x.segments := by
    rw [← horigin]
    exact walk_congr h
  unfold resolve
  rw [hwalk]
  cases hplace : B.walk (B.origin x) x.segments with
  | error e => rfl
  | ok place =>
    have hnode : A.node? place = B.node? place := by
      refine h place ?_
      rw [walk_ok hplace, ← horigin]
      exact end_mem_passed _ _
    have hdir : A.requireDirectory place = B.requireDirectory place := by
      rw [requireDirectory, requireDirectory, hnode]
    show (checkText x >>= fun _ => _) = (checkText x >>= fun _ => _)
    simp only [bind, Except.bind, hnode, hdir]

theorem entry_congr (hhere : A.here = B.here) (h : A.SameOn B (x.trail A.here)) :
    A.entry x = B.entry x := by
  have horigin : A.origin x = B.origin x := by rw [origin, origin, hhere]
  unfold entry
  cases hlast : x.segments.getLast? with
  | none => rw [horigin]
  | some last =>
    obtain ⟨before, hbefore⟩ := List.getLast?_eq_some_iff.mp hlast
    have hdrop : x.segments.dropLast = before := by rw [hbefore, List.dropLast_concat]
    have hpassed : A.SameOn B (passed (A.origin x) before) := by
      intro q hq
      refine h q ?_
      rw [Path.trail, hbefore]
      exact passed_subset_append _ before [last] q hq
    have hwalk : A.walk (A.origin x) before = B.walk (B.origin x) before := by
      rw [← horigin]
      exact walk_congr hpassed
    dsimp only
    rw [hdrop, hwalk]
    cases hplace : B.walk (B.origin x) before with
    | error e => rfl
    | ok place =>
      have hnode : A.node? place = B.node? place := by
        refine hpassed place ?_
        rw [walk_ok hplace, ← horigin]
        exact end_mem_passed _ _
      have hdir : A.requireDirectory place = B.requireDirectory place := by
        rw [requireDirectory, requireDirectory, hnode]
      simp only [bind, Except.bind, hdir]

/-! ## Effects -/

/-- What a request may do. -/
inductive Effect
  | nothing
  /-- A directory is made at a free place. -/
  | make (p : Place)
  /-- An empty file is made at a free place. -/
  | add (p : Place)
  | fill (id : Nat) (c : Content)
  | erase (p : Place)
  | move (source target : Place)
  deriving DecidableEq, Repr

/-- What is left by an effect. -/
def Effect.on (fs : FileSystem) : Effect → FileSystem
  | nothing => fs
  | make p => fs.insert p .directory
  | add p => (fs.addFile p).2
  | fill id c => fs.setContent id c
  | erase p => fs.erase p
  | move s t => fs.move s t

/-- `e.Of fs q` - an effect that a request may have on a file system. -/
def Effect.Of (fs : FileSystem) : Effect → Request → Prop
  | nothing, _ => True
  | make p, .makeDirectory x => p = x.placeIn fs.here ∧ fs.nodeAt x = none
  | add p, .openWrite x _ => p = x.placeIn fs.here ∧ fs.nodeAt x = none
  | fill id _, .openWrite x _ => fs.nodeAt x = some (.file id)
  | fill id _, .write h _ => h = .file id
  | erase p, .remove x => p = x.placeIn fs.here
  | move s t, .rename x y =>
    s = x.placeIn fs.here ∧ t = y.placeIn fs.here ∧ ¬ s <+: t ∧ ¬ t <+: s
  | _, _ => False

section Of

variable {q : Request}

theorem Effect.Of.make (h : (Effect.make p).Of fs q) :
    ∃ x, q = .makeDirectory x ∧ p = x.placeIn fs.here ∧ fs.nodeAt x = none := by
  cases q <;> first
    | exact h.elim
    | exact ⟨_, rfl, h⟩

theorem Effect.Of.add (h : (Effect.add p).Of fs q) :
    ∃ x keep, q = .openWrite x keep ∧ p = x.placeIn fs.here ∧ fs.nodeAt x = none := by
  cases q <;> first
    | exact h.elim
    | exact ⟨_, _, rfl, h⟩

theorem Effect.Of.fill {c : Content} (h : (Effect.fill id c).Of fs q) :
    (∃ x keep, q = .openWrite x keep ∧ fs.nodeAt x = some (.file id)) ∨
      ∃ bytes, q = .write (.file id) bytes := by
  cases q with
  | openWrite x keep => exact .inl ⟨x, keep, rfl, h⟩
  | write handle bytes =>
    obtain rfl : handle = .file id := h
    exact .inr ⟨bytes, rfl⟩
  | _ => exact h.elim

theorem Effect.Of.erase (h : (Effect.erase p).Of fs q) :
    ∃ x, q = .remove x ∧ p = x.placeIn fs.here := by
  cases q <;> first
    | exact h.elim
    | exact ⟨_, rfl, h⟩

theorem Effect.Of.move (h : (Effect.move s t).Of fs q) :
    ∃ x y, q = .rename x y ∧ s = x.placeIn fs.here ∧ t = y.placeIn fs.here ∧
      ¬ s <+: t ∧ ¬ t <+: s := by
  cases q <;> first
    | exact h.elim
    | exact ⟨_, _, rfl, h⟩

end Of

/-- What was opened is at its place. -/
def Opens (fs : FileSystem) : (q : Request) → q.Reply → Prop
  | .openRead x, r | .openWrite x _, r => ∀ id, r = .ok (.file id) → fs.nodeAt x = some (.file id)
  | _, _ => True

/-! ## Operations on two file systems -/

/-- Holds of results that are both failures, the same one, or both successes that are related. -/
def Both {ε α β : Type} (R : α → β → Prop) : Except ε α → Except ε β → Prop
  | .ok a, .ok b => R a b
  | .error e, .error e' => e = e'
  | _, _ => False

section Both

variable {ε α β γ : Type} {R R' : α → β → Prop}

theorem both_bind {r r' : Except ε γ} {f : γ → Except ε α} {g : γ → Except ε β} (h : r = r')
    (hk : ∀ c, r = .ok c → Both R (f c) (g c)) : Both R (r >>= f) (r' >>= g) := by
  subst h
  cases r with
  | error e => exact rfl
  | ok c => exact hk c rfl

theorem both_check {c : Prop} [Decidable c] {r : Except ε Unit} {f : Unit → Except ε α}
    {g : Unit → Except ε β} (h : Both R (f ()) (g ())) :
    Both R (if c then r >>= f else f ()) (if c then r >>= g else g ()) := by
  by_cases hc : c
  · rw [if_pos hc, if_pos hc]
    exact both_bind rfl fun _ _ => h
  · rw [if_neg hc, if_neg hc]
    exact h

theorem Both.mono {r : Except ε α} {r' : Except ε β} (h : Both R r r')
    (hR : ∀ a b, r = .ok a → R a b → R' a b) : Both R' r r' := by
  cases r <;> cases r' <;> first
    | exact h
    | exact hR _ _ rfl h

end Both

theorem makeDirectory_alike (hhere : A.here = B.here) (hx : A.SameOn B (x.trail A.here)) :
    Both (fun A' B' => ∃ e : Effect, e.Of A (.makeDirectory x) ∧ A' = e.on A ∧ B' = e.on B)
      (A.makeDirectory x) (B.makeDirectory x) := by
  unfold makeDirectory
  refine both_bind (entry_congr hhere hx) fun e hentry => ?_
  cases e with
  | noName d => exact rfl
  | name parent name slash =>
    dsimp only
    refine both_bind rfl fun _ _ => ?_
    have hplace := entry_name hentry
    have hnode : A.node? (parent ++ [name]) = B.node? (parent ++ [name]) := by
      rw [hplace]
      exact hx _ (x.placeIn_mem_trail _)
    rw [← hnode]
    cases hn : A.node? (parent ++ [name]) with
    | some n => exact rfl
    | none =>
      rw [hplace] at hn ⊢
      exact ⟨.make _, ⟨rfl, hn⟩, rfl, rfl⟩

theorem remove_alike (hhere : A.here = B.here) (hx : A.SameOn B (x.trail A.here)) :
    Both (fun A' B' => ∃ e : Effect, e.Of A (.remove x) ∧ A' = e.on A ∧ B' = e.on B)
      (A.remove x) (B.remove x) := by
  unfold remove
  refine both_bind (entry_congr hhere hx) fun e hentry => ?_
  cases e with
  | noName d => exact rfl
  | name parent name slash =>
    dsimp only
    refine both_bind rfl fun _ _ => ?_
    have hplace := entry_name hentry
    have hnode : A.node? (parent ++ [name]) = B.node? (parent ++ [name]) := by
      rw [hplace]
      exact hx _ (x.placeIn_mem_trail _)
    rw [← hnode]
    have herase : Both (fun A' B' => ∃ e : Effect, e.Of A (.remove x) ∧ A' = e.on A ∧ B' = e.on B)
        (if slash = true then Except.error IoError.notADirectory else .ok (A.erase (parent ++ [name])))
        (if slash = true then Except.error IoError.notADirectory else .ok (B.erase (parent ++ [name]))) := by
      cases slash with
      | true => exact rfl
      | false =>
        rw [hplace]
        exact ⟨.erase _, rfl, rfl, rfl⟩
    cases A.node? (parent ++ [name]) with
    | none => exact rfl
    | some n =>
      cases n with
      | directory => exact rfl
      | file id => exact herase
      | full => exact herase

theorem rename_alike (hhere : A.here = B.here) (hx : A.SameOn B (x.trail A.here))
    (hy : A.SameOn B (y.trail A.here))
    (hbare : A.isBare (y.placeIn A.here) = B.isBare (y.placeIn A.here)) :
    Both (fun A' B' => ∃ e : Effect, e.Of A (.rename x y) ∧ A' = e.on A ∧ B' = e.on B)
      (A.rename x y) (B.rename x y) := by
  have hweak : Both (fun A' B' => ∃ e : Effect, (e = .nothing ∨
      e = .move (x.placeIn A.here) (y.placeIn A.here) ∧ x.placeIn A.here ≠ y.placeIn A.here ∧
        ∀ id, A.nodeAt x = some (.file id) → A.nodeAt y ≠ some (.file id)) ∧
      A' = e.on A ∧ B' = e.on B) (A.rename x y) (B.rename x y) := by
    unfold rename
    refine both_bind (entry_congr hhere hx) fun s hs => ?_
    refine both_bind (entry_congr hhere hy) fun t ht => ?_
    refine both_check ?_
    cases s with
    | noName d => exact rfl
    | name sourceParent sourceName sourceSlash =>
      cases t with
      | noName d => exact rfl
      | name targetParent targetName targetSlash =>
        have hsource := entry_name hs
        have htarget := entry_name ht
        have hnode : A.node? (sourceParent ++ [sourceName]) = B.node? (sourceParent ++ [sourceName]) := by
          rw [hsource]
          exact hx _ (x.placeIn_mem_trail _)
        have hthere : A.node? (targetParent ++ [targetName]) = B.node? (targetParent ++ [targetName]) := by
          rw [htarget]
          exact hy _ (y.placeIn_mem_trail _)
        have hreplaceable : ∀ n, A.replaceable n (targetParent ++ [targetName]) =
            B.replaceable n (targetParent ++ [targetName]) := by
          intro n
          rw [← htarget] at hbare
          unfold replaceable
          rw [hthere, hbare]
        have hname : ∀ n, B.hasNameAt n (targetParent ++ [targetName]) =
            A.hasNameAt n (targetParent ++ [targetName]) := by
          intro n
          unfold hasNameAt
          rw [hthere]
        dsimp only
        refine both_bind rfl fun _ _ => ?_
        rw [← hnode]
        cases hn : A.node? (sourceParent ++ [sourceName]) with
        | none => exact rfl
        | some n =>
          dsimp only
          refine both_bind rfl fun _ _ => both_check (both_check (both_check ?_))
          rw [hname]
          by_cases hsame : sourceParent ++ [sourceName] = targetParent ++ [targetName] ∨
            A.hasNameAt n (targetParent ++ [targetName]) = true
          · rw [if_pos hsame, if_pos hsame]
            exact ⟨.nothing, .inl rfl, rfl, rfl⟩
          · rw [if_neg hsame, if_neg hsame]
            refine both_bind (hreplaceable n) fun _ _ => ?_
            obtain ⟨hne, hother⟩ := not_or.mp hsame
            rw [hsource] at hn
            rw [hsource, htarget] at hne ⊢
            refine ⟨.move _ _, .inr ⟨rfl, hne, fun id hid hat => hother ?_⟩, rfl, rfl⟩
            rw [htarget]
            exact hasNameAt_iff.mpr ⟨id, Option.some.inj (hn.symm.trans hid), hat⟩
  refine hweak.mono ?_
  rintro A' B' hok ⟨e, he, hA, hB⟩
  refine ⟨e, ?_, hA, hB⟩
  rcases he with rfl | ⟨rfl, hne⟩
  · trivial
  · obtain ⟨n, hn, ⟨hplace | ⟨id, rfl, hid⟩, -⟩ | ⟨hst, hts, -⟩⟩ := rename_ok hok
    · exact absurd hplace hne.1
    · exact absurd hid (hne.2 id hn)
    · exact ⟨rfl, rfl, hst, hts⟩

theorem openWrite_alike {keep : Bool} (hhere : A.here = B.here) (hfresh : A.fresh = B.fresh)
    (hx : A.SameOn B (x.trail A.here)) :
    Both (fun a b => ∃ e : Effect, e.Of A (.openWrite x keep) ∧ a = (a.1, e.on A) ∧ b = (a.1, e.on B) ∧
        ∀ id, a.1 = .file id → a.2.nodeAt x = some (.file id))
      (A.openWrite x keep) (B.openWrite x keep) := by
  unfold openWrite
  refine both_bind (entry_congr hhere hx) fun e hentry => ?_
  cases e with
  | noName d => exact rfl
  | name parent name slash =>
    dsimp only
    refine both_check (both_bind rfl fun _ _ => ?_)
    have hplace := entry_name hentry
    have hnode : A.node? (parent ++ [name]) = B.node? (parent ++ [name]) := by
      rw [hplace]
      exact hx _ (x.placeIn_mem_trail _)
    rw [← hnode]
    cases hn : A.node? (parent ++ [name]) with
    | none =>
      rw [hplace] at hn
      refine ⟨.add (x.placeIn A.here), ⟨rfl, hn⟩, ?_, ?_, ?_⟩
      · rw [← hplace]
        rfl
      · rw [← hplace]
        show (Handle.file B.fresh, _) = (Handle.file A.fresh, _)
        rw [hfresh]
        rfl
      · rintro id hid
        have hid : Handle.file A.fresh = .file id := hid
        cases hid
        rw [hplace]
        exact nodeAt_addFile hn
    | some n =>
      rw [hplace] at hn
      cases n with
      | directory => exact rfl
      | full => exact ⟨.nothing, trivial, rfl, rfl, nofun⟩
      | file id =>
        have hopened : ∀ id', Handle.file id = .file id' → A.nodeAt x = some (.file id') := by
          rintro id' ⟨⟩
          exact hn
        cases keep with
        | true => exact ⟨.nothing, trivial, rfl, rfl, hopened⟩
        | false => exact ⟨.fill id .empty, hn, rfl, rfl, hopened⟩

/-! ## Answers -/

/-- Holds of file systems that have the same of all that a request looks at. -/
def DecidedBy (A B : FileSystem) : Request → Prop
  | .present x | .isDirectory x | .openRead x | .makeDirectory x | .remove x | .openWrite x _ =>
    A.SameOn B (x.trail A.here)
  | .rename x y => A.SameOn B (x.trail A.here) ∧ A.SameOn B (y.trail A.here) ∧
      A.isBare (y.placeIn A.here) = B.isBare (y.placeIn A.here)
  | .read h | .write h _ => ∀ id, h = .file id → A.content id = B.content id
  | _ => True

theorem settle_alike {P : Effect → Prop} {ra rb : Except IoError FileSystem} (hnothing : P .nothing)
    (h : Both (fun A' B' => ∃ e : Effect, P e ∧ A' = e.on A ∧ B' = e.on B) ra rb) :
    ∃ r, ∃ e : Effect, A.settle (ra.map fun fs => ((), fs)) = (r, e.on A) ∧
      B.settle (rb.map fun fs => ((), fs)) = (r, e.on B) ∧ P e := by
  cases ra with
  | error cause =>
    cases rb with
    | error cause' =>
      obtain rfl : cause = cause' := h
      exact ⟨.error cause, .nothing, rfl, rfl, hnothing⟩
    | ok B' => exact h.elim
  | ok A' =>
    cases rb with
    | error cause => exact h.elim
    | ok B' =>
      obtain ⟨e, he, rfl, rfl⟩ := h
      exact ⟨.ok (), e, rfl, rfl, he⟩

theorem write_alike {h : Handle} (bytes bytes' : Bytes)
    (hcontent : ∀ id, h = .file id → A.content id = B.content id) :
    ∃ w, ∃ e : Effect, A.write h bytes = (w, e.on A) ∧ B.write h bytes = (w, e.on B) ∧
      e.Of A (.write h bytes') := by
  cases h with
  | directory => exact ⟨_, .nothing, rfl, rfl, trivial⟩
  | full => exact ⟨_, .nothing, rfl, rfl, trivial⟩
  | file id =>
    refine ⟨_, .fill id ((A.content id).append bytes), rfl, ?_, rfl⟩
    rw [hcontent id rfl]
    rfl

/-- A request is answered alike, and has one effect, where all that it looks at is the same. -/
theorem serve_alike {q : Request} (hhere : A.here = B.here) (hfresh : A.fresh = B.fresh)
    (h : A.DecidedBy B q) : ∃ r, ∃ e : Effect, A.serve q = (r, e.on A) ∧ B.serve q = (r, e.on B) ∧ e.Of A q ∧
      (e.on A).Opens q r := by
  cases q with
  | present x =>
    refine ⟨_, .nothing, rfl, ?_, trivial, trivial⟩
    show (B.present x, B) = (A.present x, B)
    rw [FileSystem.present, FileSystem.present, resolve_congr hhere h]
  | isDirectory x =>
    refine ⟨_, .nothing, rfl, ?_, trivial, trivial⟩
    show (B.isDirectory x, B) = (A.isDirectory x, B)
    rw [FileSystem.isDirectory, FileSystem.isDirectory, resolve_congr hhere h]
  | openRead x =>
    have hsame : A.openRead x = B.openRead x := by
      unfold openRead
      rw [resolve_congr hhere h]
    refine ⟨A.openRead x, .nothing, rfl, ?_, trivial, ?_⟩
    · show (B.openRead x, B) = (A.openRead x, B)
      rw [hsame]
    · intro id hid
      obtain ⟨⟨place, n⟩, hfound, hid⟩ := ok_of_bind hid
      have hnode := (resolve_ok hfound).2
      cases n <;> cases hid
      exact hnode
  | makeDirectory x =>
    obtain ⟨r, e, hA, hB, he⟩ := settle_alike trivial (makeDirectory_alike hhere h)
    exact ⟨r, e, hA, hB, he, trivial⟩
  | remove x =>
    obtain ⟨r, e, hA, hB, he⟩ := settle_alike trivial (remove_alike hhere h)
    exact ⟨r, e, hA, hB, he, trivial⟩
  | rename x y =>
    obtain ⟨hx, hy, hbare⟩ := h
    obtain ⟨r, e, hA, hB, he⟩ := settle_alike trivial (rename_alike hhere hx hy hbare)
    exact ⟨r, e, hA, hB, he, trivial⟩
  | openWrite x keep =>
    have hboth : Both _ (A.openWrite x keep) (B.openWrite x keep) := openWrite_alike hhere hfresh h
    rw [serve, serve]
    cases hA : A.openWrite x keep with
    | error cause =>
      cases hB : B.openWrite x keep with
      | error cause' =>
        rw [hA, hB] at hboth
        obtain rfl : cause = cause' := hboth
        refine ⟨.error cause, .nothing, rfl, rfl, trivial, ?_⟩
        intro id hid
        cases hid
      | ok b =>
        rw [hA, hB] at hboth
        exact hboth.elim
    | ok a =>
      cases hB : B.openWrite x keep with
      | error cause =>
        rw [hA, hB] at hboth
        exact hboth.elim
      | ok b =>
        rw [hA, hB] at hboth
        obtain ⟨e, he, ha, rfl, hopened⟩ := hboth
        rw [ha] at hopened ⊢
        refine ⟨.ok a.1, e, rfl, rfl, he, ?_⟩
        intro id hid
        exact hopened id (Except.ok.inj hid)
  | read handle =>
    refine ⟨A.read handle, .nothing, rfl, ?_, trivial, trivial⟩
    show (B.read handle, B) = (A.read handle, B)
    cases handle with
    | file id => rw [read, read, h id rfl]
    | directory => rfl
    | full => rfl
  | write handle bytes =>
    obtain ⟨w, e, hA, hB, he⟩ := write_alike bytes bytes h
    exact ⟨w, e, hA, hB, he, trivial⟩
  | sync handle => exact ⟨_, .nothing, rfl, rfl, trivial, trivial⟩
  | close handle => exact ⟨_, .nothing, rfl, rfl, trivial, trivial⟩
  | submit actions => exact ⟨_, .nothing, rfl, rfl, trivial, trivial⟩
  | await => exact ⟨_, .nothing, rfl, rfl, trivial, trivial⟩
  | clock => exact ⟨_, .nothing, rfl, rfl, trivial, trivial⟩

/-- **What decides an answer.**  Two file systems that have the same of all that a request looks at answer
it alike, whether it is made to fail or not, and it has the same effect on both. -/
theorem respond_alike {q : Request} (fault : Option Fault) (hhere : A.here = B.here)
    (hfresh : A.fresh = B.fresh) (h : A.DecidedBy B q) : ∃ r, ∃ e : Effect,
      A.respond fault q = (r, e.on A) ∧ B.respond fault q = (r, e.on B) ∧ e.Of A q ∧
        (e.on A).Opens q r := by
  cases fault with
  | none => exact serve_alike hhere hfresh h
  | some f =>
    cases q with
    | present x => exact ⟨_, .nothing, rfl, rfl, trivial, trivial⟩
    | isDirectory x => exact ⟨_, .nothing, rfl, rfl, trivial, trivial⟩
    | makeDirectory x => exact ⟨_, .nothing, rfl, rfl, trivial, trivial⟩
    | rename x y => exact ⟨_, .nothing, rfl, rfl, trivial, trivial⟩
    | remove x => exact ⟨_, .nothing, rfl, rfl, trivial, trivial⟩
    | openRead x => exact ⟨_, .nothing, rfl, rfl, trivial, nofun⟩
    | openWrite x keep => exact ⟨_, .nothing, rfl, rfl, trivial, nofun⟩
    | read handle => exact ⟨_, .nothing, rfl, rfl, trivial, trivial⟩
    | write handle bytes =>
      -- some bytes may have been taken
      obtain ⟨w, e, hA, hB, he⟩ := write_alike (bytes.take f.taken) bytes h
      refine ⟨⟨w.count, w.failure <|> some f.cause⟩, e, ?_, ?_, he, trivial⟩
      · simp only [respond, serveFault, hA, Option.bind_some, Option.getD_some]
      · simp only [respond, serveFault, hB, Option.bind_some, Option.getD_some]
    | sync handle => exact ⟨_, .nothing, rfl, rfl, trivial, trivial⟩
    | close handle => exact ⟨_, .nothing, rfl, rfl, trivial, trivial⟩
    | submit actions => exact ⟨_, .nothing, rfl, rfl, trivial, trivial⟩
    | await => exact ⟨_, .nothing, rfl, rfl, trivial, trivial⟩
    | clock => exact ⟨_, .nothing, rfl, rfl, trivial, trivial⟩

theorem DecidedBy.refl (fs : FileSystem) (q : Request) : fs.DecidedBy fs q := by
  cases q <;> first
    | exact SameOn.refl fs _
    | exact ⟨SameOn.refl fs _, SameOn.refl fs _, rfl⟩
    | exact fun _ _ => rfl
    | trivial

/-- Each request has an effect. -/
theorem exists_effect (fs : FileSystem) (fault : Option Fault) (q : Request) :
    ∃ e : Effect, (fs.respond fault q).2 = e.on fs ∧ e.Of fs q := by
  obtain ⟨r, e, hanswer, -, he, -⟩ := respond_alike (q := q) fault rfl rfl (DecidedBy.refl fs q)
  exact ⟨e, congrArg Prod.snd hanswer, he⟩

/-! ## After an effect -/

@[simp] theorem Effect.here_on (e : Effect) (fs : FileSystem) : (e.on fs).here = fs.here := by
  cases e <;> rfl

/-- Numbers are not taken back. -/
theorem Effect.fresh_le_on (e : Effect) (fs : FileSystem) : fs.fresh ≤ (e.on fs).fresh := by
  cases e <;> first
    | exact Nat.le_refl _
    | exact Nat.le_succ _

/-- What is at a place after a move. -/
theorem node?_move (hst : ¬ s <+: t) (hts : ¬ t <+: s) (q : Place) : (fs.move s t).node? q =
    if t <+: q then fs.node? (s ++ q.drop t.length) else if s <+: q then none else fs.node? q := by
  by_cases ht : t <+: q
  · obtain ⟨rest, rfl⟩ := ht
    rw [if_pos (List.prefix_append t rest), node?_move_below hst hts, List.drop_left]
  · rw [if_neg ht]
    by_cases hs : s <+: q
    · have hq : q ≠ [] := by
        rintro rfl
        exact ne_nil_of_not_below hst (List.prefix_nil.mp hs)
      rw [if_pos hs, node?_move_of_below_source ht hs hq]
    · rw [if_neg hs, node?_move_of_apart hs ht]

/-- The number of a node that is a file. -/
def number? : Node → Option Nat
  | .file id => some id
  | _ => none

/-- What is at a place other than the root is listed. -/
theorem mem_nodes {n : Node} (hroot : p ≠ []) (h : fs.node? p = some n) : (p, n) ∈ fs.nodes := by
  rw [node?, if_neg hroot] at h
  obtain ⟨before, after, he, -⟩ := List.lookup_eq_some_iff.mp h
  rw [he]
  exact List.mem_append_right _ List.mem_cons_self

end FileSystem

end LogRotation
