/-
  A file or a tree is moved as a whole, or not at all.

  Before a move the directories above its target are made, and that may be all that comes of it: the move
  itself is one request, which is granted or not.  So there are two ways to end, and each is told of every
  place in the tree.

  1. **Furnished** - directories were made where nothing was, each at the place of one of a list of paths,
     and nothing else was done (`Furnished`).  This is what making directories does, whatever fails
     (`leads_makeDirectories_solitary`).

  2. **Moved** - what was at and below the source is at and below the target, nothing is left where it
     was, and everything else is only furnished (`Moved`).  A target whose path leads through the source
     has directories made for it inside the tree that is moved; they move along.  Two names of one file
     are both left, as one place is (`Coincide`).

  3. **The flag** - a move that is optional is refused without a failure by the move itself, but not by the
     directories above its target: where they cannot be made, the failure is told all the same
     (`runAlone_rename`).

  Main statements: `rename_all_or_nothing`, `optional_rename_fails_iff`.
-/
import LogRotation.Proofs.Ancestry

namespace LogRotation

namespace FileSystem

variable {A B C fs fs' : FileSystem} {ds : List Path} {d : Path} {p : Place} {n : Node}
variable {spared : Bool}

/-! ## New directories -/

/-- Holds of what is found at a place where nothing was done but that, if it was free, one of some
directories may have been made there. -/
def Kept (ds : List Path) (A : FileSystem) (p : Place) (found : Option Node) : Prop :=
  found = A.node? p ∨
    A.node? p = none ∧ found = some .directory ∧ ∃ d ∈ ds, d.placeIn A.here = p

/-- `Furnished ds A B` - some of the directories of a list were made at places that were free, and nothing
else was done. -/
structure Furnished (ds : List Path) (A B : FileSystem) : Prop where
  here : B.here = A.here
  content : ∀ id, B.content id = A.content id
  rooted : A.Rooted → B.Rooted
  node : ∀ p, A.Kept ds p (B.node? p)

theorem Furnished.refl (ds : List Path) (fs : FileSystem) : Furnished ds fs fs :=
  ⟨rfl, fun _ => rfl, id, fun _ => .inl rfl⟩

/-- What is there stays. -/
theorem Furnished.kept (h : Furnished ds A B) (p : Place) (n : Node) (hn : A.node? p = some n) :
    B.node? p = some n := by
  rcases h.node p with hsame | ⟨hfree, -, -⟩
  · rw [hsame, hn]
  · rw [hfree] at hn
    cases hn

theorem Furnished.trans (h : Furnished ds A B) (h' : Furnished ds B C) : Furnished ds A C where
  here := h'.here.trans h.here
  content id := (h'.content id).trans (h.content id)
  rooted := h'.rooted ∘ h.rooted
  node p := by
    rcases h'.node p with hsame | ⟨hfree, hmade, d, hd, hp⟩
    · rw [hsame]
      exact h.node p
    · -- a place that was free after the first was free before
      refine .inr ⟨?_, hmade, d, hd, h.here ▸ hp⟩
      by_contra hn
      obtain ⟨n, hn⟩ := Option.ne_none_iff_exists'.mp hn
      rw [h.kept p n hn] at hfree
      cases hfree

theorem furnished_makeDirectory (hd : d ∈ ds) (h : fs.makeDirectory d = .ok fs') :
    Furnished ds fs fs' := by
  have hrooted := (change_makeDirectory [] h).rooted
  obtain ⟨hfree, rfl⟩ := makeDirectory_ok h
  refine ⟨rfl, fun _ => rfl, hrooted, fun p => ?_⟩
  by_cases hp : p = d.placeIn fs.here
  · subst hp
    have hne : d.placeIn fs.here ≠ [] := by
      intro hroot
      rw [nodeAt, hroot] at hfree
      cases hfree
    exact .inr ⟨hfree, node?_insert_self fs _ hne, d, hd, rfl⟩
  · exact .inl (node?_insert_of_ne fs _ hp)

/-- A path leads to the directory that was made at it. -/
theorem isDirectory_of_makeDirectory (h : fs.makeDirectory d = .ok fs') : fs'.isDirectory d = true := by
  have hfurnished := furnished_makeDirectory (List.mem_singleton.mpr rfl) h
  obtain ⟨e, hentry, h⟩ := ok_of_bind h
  cases e with
  | noName q => cases h
  | name parent name slash =>
    obtain ⟨u, hname, h⟩ := ok_of_bind h
    split at h
    · cases h
    cases h
    obtain ⟨htext, hlast, hwalk, hparent, hdots, -⟩ := entry_eq_name_iff.mp hentry
    have hsegments : d.segments = d.segments.dropLast ++ [name] := by
      obtain ⟨before, hb⟩ := List.getLast?_eq_some_iff.mp hlast
      rw [hb, List.dropLast_concat]
    have hmade : (fs.insert (parent ++ [name]) .directory).node? (parent ++ [name]) = some .directory :=
      node?_insert_self fs _ (List.append_ne_nil_of_right_ne_nil parent (List.cons_ne_nil name []))
    have hstep : (fs.insert (parent ++ [name]) .directory).step parent name = .ok (parent ++ [name]) := by
      have hrequire : (fs.insert (parent ++ [name]) .directory).requireDirectory parent = .ok () :=
        if_pos (hfurnished.kept _ _ hparent)
      have hthere : ((fs.insert (parent ++ [name]) .directory).node? (parent ++ [name])).isSome = true := by
        rw [hmade]
        rfl
      simp only [step, hrequire, bind, Except.bind, if_neg (fun he => hdots (.inl he)),
        if_neg (fun he => hdots (.inr he)), hname, hthere]
      rfl
    refine isDirectory_iff.mpr ⟨parent ++ [name], resolve_eq_ok_iff.mpr ⟨htext, ?_, fun _ => rfl, hmade⟩⟩
    rw [hsegments, walk_concat]
    have hbefore : (fs.insert (parent ++ [name]) .directory).walk (fs.origin d) d.segments.dropLast =
        .ok parent := walk_of_kept hfurnished.kept hwalk
    show ((fs.insert (parent ++ [name]) .directory).walk (fs.origin d) d.segments.dropLast >>= _) = _
    rw [hbefore]
    exact hstep

theorem answers_isDirectory {r : Bool} (h : fs.Answers spared (.isDirectory d) r fs') :
    fs' = fs ∧ (r = true → fs.isDirectory d = true) ∧ (spared = true → r = fs.isDirectory d) := by
  rcases h with h | ⟨hs, fault, h⟩
  · cases h
    exact ⟨rfl, id, fun _ => rfl⟩
  · cases h
    refine ⟨rfl, nofun, fun hspared => ?_⟩
    rw [hspared] at hs
    cases hs

end FileSystem

/-! ## Routines that are alone, and may be spared -/

/-- Requests about files with nothing in between, which fail only as the files have it or, where they are
not spared, from outside. -/
def Regime.solitary (spared : Bool) : Regime FileSystem where
  step fs q k := q.isFile = true ∧ ∀ r fs', fs.Answers spared q r fs' → k r fs'
  mono h hk := ⟨h.1, fun r fs' hanswer => hk r fs' (h.2 r fs' hanswer)⟩

/-- What is known of a routine that is alone holds when it was run. -/
theorem World.leads_runAlone_solitary {α : Type} (spared : Bool) {c : Conditions} {r : Routine α}
    {w : World} {Q : α → FileSystem → Prop} (hspared : spared = true → ∀ n q, c.fault n q = none)
    (h : r.Leads (.solitary spared) Q w.files) :
    Q (runAlone c r w).1 (runAlone c r w).2.files := by
  induction r generalizing w with
  | done a => exact h
  | ask q next ih =>
    obtain ⟨hq, hnext⟩ := h
    rw [runAlone, answer_respond hq]
    refine ih _ (hnext _ _ (w.files.answers_getD q (c.fault w.ticks q) ?_))
    exact fun hs => hspared hs w.ticks q

namespace Routine

open FileSystem (Furnished furnished_makeDirectory)

variable {spared : Bool} {A fs : FileSystem} {ds all : List Path} {target : Path}

/-- **Making directories.**  Nothing is done but that some of them are made.  If no failure is told, the
first of them is there; and if one is told and none came from outside, one of them is not there. -/
theorem leads_makeDirectories_solitary (hall : ∀ d ∈ ds, d ∈ all) (hfs : Furnished all A fs) :
    Leads (.solitary spared) (makeDirectories ds).run (fun r B => Furnished all A B ∧ match r with
      | .ok _ => ∀ d ∈ ds.head?, B.isDirectory d = true
      | .error _ => spared = true → ∃ d ∈ ds, B.isDirectory d = false) fs := by
  induction ds generalizing fs with
  | nil => exact ⟨hfs, nofun⟩
  | cons d above ih =>
    have hd : d ∈ all := hall d List.mem_cons_self
    -- where a directory cannot be made, it counts whether it is there after all
    have hask : ∀ e B, Furnished all A B → Leads (.solitary spared) (ExceptT.run do
        unless ← reply (.isDirectory d) do throw e : Routine (Except IoError Unit))
        (fun r B => Furnished all A B ∧ match r with
          | .ok _ => ∀ d' ∈ (d :: above).head?, B.isDirectory d' = true
          | .error _ => spared = true → ∃ d' ∈ d :: above, B.isDirectory d' = false) B := by
      intro e B hB
      refine leads_attempt (leads_lift ⟨rfl, fun there B' hanswer => ?_⟩)
      obtain ⟨rfl, htrue, hsame⟩ := FileSystem.answers_isDirectory hanswer
      cases there with
      | true =>
        refine ⟨hB, ?_⟩
        rintro d' ⟨⟩
        exact htrue rfl
      | false => exact ⟨hB, fun hspared => ⟨d, List.mem_cons_self, (hsame hspared).symm⟩⟩
    have hmade : ∀ {B B' : FileSystem}, Furnished all A B → B.makeDirectory d = .ok B' →
        Furnished all A B' ∧ ∀ d' ∈ (d :: above).head?, B'.isDirectory d' = true := by
      intro B B' hB hmake
      refine ⟨hB.trans (furnished_makeDirectory hd hmake), ?_⟩
      rintro d' ⟨⟩
      exact FileSystem.isDirectory_of_makeDirectory hmake
    refine leads_attempt (leads_lift ⟨rfl, fun r B hanswer => ?_⟩)
    rcases FileSystem.answers_makeDirectory hanswer with ⟨e, rfl, rfl⟩ | ⟨rfl, hmake⟩
    · cases e
      case notFound =>
        -- the directories above come first, and then this one again
        refine leads_attempt ((ih (fun d hd => hall d (List.mem_cons_of_mem _ hd)) hfs).mono ?_)
        rintro (e | u) B ⟨hB, habove⟩
        · refine ⟨hB, fun hspared => ?_⟩
          obtain ⟨d', hd', hmissing⟩ := habove hspared
          exact ⟨d', List.mem_cons_of_mem _ hd', hmissing⟩
        · refine leads_attempt (leads_lift ⟨rfl, fun r B' hanswer => ?_⟩)
          rcases FileSystem.answers_makeDirectory hanswer with ⟨e, rfl, rfl⟩ | ⟨rfl, hmake⟩
          · exact hask e _ hB
          · exact hmade hB hmake
      all_goals exact hask _ _ hfs
    · exact hmade hfs hmake

theorem makeParents_eq (p : Path) : makeParents p = makeDirectories p.above := by
  unfold makeParents Path.above
  cases p.parent? <;> rfl

theorem leads_makeParents_solitary (target : Path) (fs : FileSystem) :
    Leads (.solitary spared) (makeParents target).run (fun r B => Furnished target.above fs B ∧ match r with
      | .ok _ => ∀ d ∈ target.above, B.isDirectory d = true
      | .error _ => spared = true → ∃ d ∈ target.above, B.isDirectory d = false) fs := by
  rw [makeParents_eq]
  refine (leads_makeDirectories_solitary (fun d hd => hd) (.refl _ fs)).mono ?_
  rintro (e | u) B ⟨hB, hdirs⟩
  · exact ⟨hB, hdirs⟩
  · exact ⟨hB, FileSystem.isDirectory_above hdirs⟩

end Routine

/-! ## Moving -/

namespace FileSystem

variable {A B C fs fs' : FileSystem} {source target : Path} {s t : Place} {n m : Node}

/-- What a node that may be moved over another one says of that one. -/
theorem replaceable_ok (h : fs.replaceable n t = .ok ()) (hm : fs.node? t = some m) :
    (m = .directory ↔ n = .directory) ∧ (m = .directory → fs.isBare t = true) := by
  unfold replaceable at h
  rw [hm] at h
  cases n <;> cases m <;> simp at h ⊢
  exact h

/-- What is moved to another place may be put over what is there. -/
theorem replaceable_of_rename (h : fs.rename source target = .ok fs')
    (hne : ¬ fs.Coincide (source.placeIn fs.here) (target.placeIn fs.here)) (hn : fs.nodeAt source = some n) :
    fs.replaceable n (target.placeIn fs.here) = .ok () := by
  obtain ⟨s, hs, h⟩ := ok_of_bind h
  obtain ⟨t, ht, h⟩ := ok_of_bind h
  obtain ⟨-, h⟩ := ok_of_check h
  cases s with
  | noName d => cases h
  | name sourceParent sourceName sourceSlash =>
    cases t with
    | noName d => cases h
    | name targetParent targetName targetSlash =>
      obtain ⟨-, -, h⟩ := ok_of_bind h
      have hapart : ¬ (sourceParent ++ [sourceName] = targetParent ++ [targetName] ∨
          fs.hasNameAt n (targetParent ++ [targetName]) = true) := by
        rw [entry_name hs, entry_name ht]
        refine fun he => hne (he.imp_right fun he => ?_)
        obtain ⟨id, rfl, hid⟩ := hasNameAt_iff.mp he
        exact ⟨id, hn, hid⟩
      rw [nodeAt, ← entry_name hs] at hn
      rw [← entry_name ht]
      dsimp only at h
      rw [hn] at h
      obtain ⟨-, -, h⟩ := ok_of_bind h
      obtain ⟨-, h⟩ := ok_of_check h
      obtain ⟨-, h⟩ := ok_of_check h
      obtain ⟨-, h⟩ := ok_of_check h
      rw [if_neg hapart] at h
      obtain ⟨u, hreplaceable, -⟩ := ok_of_bind h
      exact hreplaceable

/-- `Moved source target A B` - what was at the source of a move is at its target, and directories were
made above the target. -/
structure Moved (source target : Path) (A B : FileSystem) : Prop where
  here : B.here = A.here
  /-- Every file holds what it held. -/
  content : ∀ id, B.content id = A.content id
  /-- There was something to move. -/
  there : ∃ n, A.nodeAt source = some n
  /-- The file or the whole tree has arrived. -/
  arrived : ∀ rest, A.Kept target.above (source.placeIn A.here ++ rest)
    (B.node? (target.placeIn A.here ++ rest))
  /-- Nothing is left where it was. -/
  gone : ¬ A.Coincide (source.placeIn A.here) (target.placeIn A.here) →
    ∀ rest, B.node? (source.placeIn A.here ++ rest) = none
  /-- But one place, and both names of one file, are left as they were. -/
  left : A.Coincide (source.placeIn A.here) (target.placeIn A.here) → Furnished target.above A B
  /-- A directory replaces an empty directory only, and what is none replaces no directory. -/
  replaced : source.placeIn A.here ≠ target.placeIn A.here → ∀ m, A.nodeAt target = some m →
    (m = .directory ↔ A.nodeAt source = some .directory) ∧
      ∀ rest, rest ≠ [] → A.node? (target.placeIn A.here ++ rest) = none
  elsewhere : ∀ p, ¬ source.placeIn A.here <+: p → ¬ target.placeIn A.here <+: p →
    A.Kept target.above p (B.node? p)

/-- New directories make no places coincide, and part none. -/
theorem Furnished.coincide_iff (h : Furnished ds A B) {p q : Place} (hp : A.node? p = some n) :
    B.Coincide p q ↔ A.Coincide p q := by
  refine or_congr_right ⟨?_, fun ⟨id, hidp, hidq⟩ => ⟨id, h.kept p _ hidp, h.kept q _ hidq⟩⟩
  rintro ⟨id, hidp, hidq⟩
  refine ⟨id, ?_, ?_⟩
  · rw [hp, ← h.kept p n hp, hidp]
  · -- what was made is a directory and no file
    rcases h.node q with hsame | ⟨-, hmade, -⟩
    · rw [← hsame, hidq]
    · rw [hmade] at hidq
      cases hidq

/-- What was replaced, told of the tree before directories were made in it. -/
theorem Furnished.replaced (h : Furnished target.above A B) (hrooted : A.Rooted)
    (hrename : B.rename source target = .ok C)
    (hne : ¬ A.Coincide (source.placeIn A.here) (target.placeIn A.here)) (hn : A.nodeAt source = some n)
    (hm : A.nodeAt target = some m) : (m = .directory ↔ A.nodeAt source = some .directory) ∧
      ∀ rest, rest ≠ [] → A.node? (target.placeIn A.here ++ rest) = none := by
  rw [← h.coincide_iff hn, ← h.here] at hne
  have hnB : B.nodeAt source = some n := by
    rw [nodeAt, h.here]
    exact h.kept _ _ hn
  obtain ⟨hkind, hbare⟩ := replaceable_ok (replaceable_of_rename hrename hne hnB)
    (h.here ▸ h.kept _ _ hm)
  refine ⟨?_, fun rest hrest => ?_⟩
  · rw [hkind, hn, Option.some.injEq]
  · by_cases hdir : m = .directory
    · -- a directory was empty in the end, so that nothing was in it before
      by_contra hthere
      obtain ⟨below, hbelow⟩ := Option.ne_none_iff_exists'.mp hthere
      have hnone := isBare_iff.mp (hbare hdir) _ (List.prefix_append _ rest)
        (fun he => hrest (List.append_right_eq_self.mp he))
      rw [h.here, h.kept _ _ hbelow] at hnone
      cases hnone
    · refine hrooted.below ?_ hrest
      rw [← nodeAt, hm]
      exact fun he => hdir (Option.some.inj he)

/-- Where the two paths coincide, all is left as it was. -/
theorem Furnished.moved_of_coincide (h : Furnished target.above A B) (hrooted : A.Rooted)
    (hn : ∃ n, A.nodeAt source = some n)
    (hc : A.Coincide (source.placeIn A.here) (target.placeIn A.here)) : Moved source target A B := by
  have hbelow : source.placeIn A.here ≠ target.placeIn A.here → ∃ id,
      A.nodeAt source = some (.file id) ∧ A.nodeAt target = some (.file id) ∧
        (∀ rest, rest ≠ [] → A.node? (source.placeIn A.here ++ rest) = none) ∧
        ∀ rest, rest ≠ [] → A.node? (target.placeIn A.here ++ rest) = none := by
    intro hne
    obtain ⟨id, hs, ht⟩ := hc.resolve_left hne
    refine ⟨id, hs, ht, fun rest hrest => hrooted.below ?_ hrest, fun rest hrest => hrooted.below ?_ hrest⟩
    · rw [hs]
      simp
    · rw [ht]
      simp
  refine ⟨h.here, h.content, hn, fun rest => ?_, fun hne => absurd hc hne, fun _ => h, fun hne m hm => ?_,
    fun p _ _ => h.node p⟩
  · by_cases hne : source.placeIn A.here = target.placeIn A.here
    · rw [hne]
      exact h.node _
    · obtain ⟨id, hs, ht, hnone, -⟩ := hbelow hne
      by_cases hrest : rest = []
      · subst hrest
        rw [List.append_nil, List.append_nil]
        exact .inl ((h.kept _ _ ht).trans hs.symm)
      · refine .inl ((h.rooted hrooted).below ?_ hrest |>.trans (hnone rest hrest).symm)
        rw [h.kept _ _ ht]
        simp
  · obtain ⟨id, hs, ht, -, hnone⟩ := hbelow hne
    rw [ht] at hm
    cases hm
    refine ⟨?_, hnone⟩
    rw [hs]
    simp

/-- A move that is granted after directories were made. -/
theorem Furnished.moved (h : Furnished target.above A B) (hrooted : A.Rooted)
    (hn : A.nodeAt source = some n) (hrename : B.rename source target = .ok C) :
    Moved source target A C := by
  obtain ⟨m, hm, hcases⟩ := rename_ok hrename
  rcases hcases with ⟨he, rfl⟩ | ⟨hst, hts, hother, rfl⟩
  · -- a move onto itself, or onto another name of the same file
    have hcoincide : A.Coincide (source.placeIn A.here) (target.placeIn A.here) := by
      rw [← h.coincide_iff hn, ← h.here]
      refine he.imp_right ?_
      rintro ⟨id, rfl, hid⟩
      exact ⟨id, hm, hid⟩
    exact h.moved_of_coincide hrooted ⟨n, hn⟩ hcoincide
  · have hapart : ¬ A.Coincide (source.placeIn A.here) (target.placeIn A.here) := by
      rw [← h.coincide_iff hn, ← h.here]
      rintro (he | ⟨id, hs, ht⟩)
      · exact hst (he ▸ List.prefix_rfl)
      · exact hother id (Option.some.inj (hm.symm.trans hs)) ht
    rw [h.here] at hst hts ⊢
    refine ⟨h.here, h.content, ⟨n, hn⟩, fun rest => ?_, fun _ rest => ?_, fun hc => absurd hc hapart,
      fun hne m hm => ?_, fun p hs ht => ?_⟩
    · rw [node?_move_below hst hts]
      exact h.node _
    · refine node?_move_of_below_source ?_ (List.prefix_append _ rest)
        (List.append_ne_nil_of_left_ne_nil (ne_nil_of_not_below hst) rest)
      intro hbelow
      rcases List.prefix_or_prefix_of_prefix hbelow (List.prefix_append _ rest) with h | h
      · exact hts h
      · exact hst h
    · exact h.replaced hrooted hrename hapart hn hm
    · rw [node?_move_of_apart hs ht]
      exact h.node p

end FileSystem

namespace Action

open FileSystem (Furnished Moved)
open Routine (Leads leads_attempt leads_lift leads_adapt)

variable {A : FileSystem} {spared : Bool}

/-- A move that is not made leaves the tree as it was, but for new directories above its target.  If none
fails from outside, an optional move is a failure only where one of them is not there in the end. -/
theorem leads_runRename_solitary (source target : Path) (mandatory : Bool) (hrooted : A.Rooted) :
    Leads (.solitary spared) (runRename source target mandatory).run (fun r B => match r with
      | .ok true => Moved source target A B
      | .ok false => Furnished target.above A B ∧ mandatory = false ∧
          (spared = true → A.present source = true → ∀ d ∈ target.above, B.isDirectory d = true)
      | .error e => Furnished target.above A B ∧ (∃ fault, e = .renameFailed source target fault) ∧
          (mandatory = false → spared = true → ∃ d ∈ target.above, B.isDirectory d = false)) A := by
  refine leads_attempt (leads_lift ⟨rfl, fun there B hanswer => ?_⟩)
  obtain rfl : B = A := hanswer.unchanged rfl
  cases there with
  | false =>
    cases mandatory with
    | true => exact ⟨.refl _ _, ⟨_, rfl⟩, nofun⟩
    | false =>
      refine ⟨.refl _ _, rfl, fun hspared hthere => ?_⟩
      -- a look that is spared finds what is there
      rcases hanswer with hserved | ⟨hs, -⟩
      · rw [(Prod.mk.inj hserved).1] at hthere
        cases hthere
      · rw [hspared] at hs
        cases hs
  | true =>
    obtain ⟨n, hn⟩ := FileSystem.answers_present hanswer
    refine leads_attempt (leads_adapt ((Routine.leads_makeParents_solitary target _).mono ?_))
    rintro (e | u) B ⟨hfurnished, hdirs⟩
    · exact ⟨hfurnished, ⟨_, rfl⟩, fun _ => hdirs⟩
    · refine leads_attempt (leads_lift ⟨rfl, fun r C hanswer => ?_⟩)
      rcases FileSystem.answers_rename hanswer with ⟨e, rfl, rfl⟩ | ⟨rfl, hrename⟩
      · cases mandatory with
        | true => exact ⟨hfurnished, ⟨_, rfl⟩, nofun⟩
        | false => exact ⟨hfurnished, rfl, fun _ _ => hdirs⟩
      · exact hfurnished.moved hrooted hn hrename

/-- **A move is made as a whole, or not at all**, in a tree where everything stands in a directory, and
whatever fails on the way:

  * if it is told that it was made, then what was at and below the source is at and below the target,
    nothing is left at the source, and every other place is as it was, but that directories above the
    target may be new (`Moved`); where the two paths are to one place, or are two names of one file,
    this is told although both are left as they were;
  * else nothing is different but that directories above the target may be new (`Furnished`);
  * a failure that is told names both paths;
  * a mandatory move is made, or a failure is told. -/
theorem rename_all_or_nothing (c : Conditions) (w : World) (source target : Path) (mandatory : Bool)
    (hrooted : w.files.Rooted) :
    ∃ result w', World.runAlone c (execute (.rename source target mandatory)).run w = (result, w') ∧
      (result = .ok true → Moved source target w.files w'.files) ∧
      (result ≠ .ok true → Furnished target.above w.files w'.files) ∧
      (∀ e, result = .error e → ∃ fault, e = .renameFailed source target fault) ∧
      (mandatory = true → result ≠ .ok false) := by
  have hend := World.leads_runAlone_solitary false (c := c) (w := w) nofun
    (leads_runRename_solitary source target mandatory hrooted)
  obtain ⟨result, w', hrun⟩ : ∃ result w',
      World.runAlone c (runRename source target mandatory).run w = (result, w') := ⟨_, _, rfl⟩
  rw [hrun] at hend
  refine ⟨result, w', hrun, ?_⟩
  match result, hend with
  | .ok true, hmoved => exact ⟨fun _ => hmoved, fun h => absurd rfl h, nofun, fun _ => by simp⟩
  | .ok false, ⟨hfurnished, hoptional, _⟩ =>
    refine ⟨by simp, fun _ => hfurnished, nofun, fun hmandatory => ?_⟩
    rw [hoptional] at hmandatory
    cases hmandatory
  | .error e, ⟨hfurnished, hnames, _⟩ =>
    refine ⟨nofun, fun _ => hfurnished, ?_, fun _ => nofun⟩
    rintro e' ⟨⟩
    exact hnames

/-- A world with a directory, and a file in it. -/
def oneDirectory : World := .ofFiles (.ofFiles [(⟨"a/f"⟩, some [120])])

/-- A tree is moved into directories that were missing; and a file is not moved to where a directory is,
but the directory above that place is new. -/
theorem rename_all_or_nothing_of_one_directory : oneDirectory.files.Rooted ∧
    (∃ w', World.runAlone (.calm .epoch) (execute (.rename ⟨"a"⟩ ⟨"b/c"⟩ true)).run oneDirectory =
        (.ok true, w') ∧
      Moved ⟨"a"⟩ ⟨"b/c"⟩ oneDirectory.files w'.files ∧ w'.files.bytesAt ⟨"b/c/f"⟩ = [120]) ∧
    ∃ w', World.runAlone (.calm .epoch) (execute (.rename ⟨"a/f"⟩ ⟨"b/../a"⟩ true)).run oneDirectory =
        (.error (.renameFailed ⟨"a/f"⟩ ⟨"b/../a"⟩ (.io .notEmpty)), w') ∧
      Furnished (⟨"b/../a"⟩ : Path).above oneDirectory.files w'.files ∧
      w'.files.isDirectory ⟨"b"⟩ = true := by
  have hrooted : oneDirectory.files.Rooted := FileSystem.rooted_of_nodes (by decide)
  refine ⟨hrooted, ?_, ?_⟩
  · obtain ⟨result, w', hrun, hmoved, -⟩ :=
      rename_all_or_nothing (.calm .epoch) oneDirectory ⟨"a"⟩ ⟨"b/c"⟩ true hrooted
    have hended : (World.runAlone (.calm .epoch) (execute (.rename ⟨"a"⟩ ⟨"b/c"⟩ true)).run
          oneDirectory).1 = .ok true ∧
        (World.runAlone (.calm .epoch) (execute (.rename ⟨"a"⟩ ⟨"b/c"⟩ true)).run
          oneDirectory).2.files.bytesAt ⟨"b/c/f"⟩ = [120] := ⟨rfl, by decide⟩
    rw [hrun] at hended
    obtain ⟨hok, hbytes⟩ := hended
    obtain rfl : result = .ok true := hok
    exact ⟨w', hrun, hmoved rfl, hbytes⟩
  · obtain ⟨result, w', hrun, -, hkept, -⟩ :=
      rename_all_or_nothing (.calm .epoch) oneDirectory ⟨"a/f"⟩ ⟨"b/../a"⟩ true hrooted
    have hended : (World.runAlone (.calm .epoch) (execute (.rename ⟨"a/f"⟩ ⟨"b/../a"⟩ true)).run
          oneDirectory).1 = .error (.renameFailed ⟨"a/f"⟩ ⟨"b/../a"⟩ (.io .notEmpty)) ∧
        (World.runAlone (.calm .epoch) (execute (.rename ⟨"a/f"⟩ ⟨"b/../a"⟩ true)).run
          oneDirectory).2.files.isDirectory ⟨"b"⟩ = true := ⟨rfl, by decide⟩
    rw [hrun] at hended
    obtain ⟨herror, hdir⟩ := hended
    obtain rfl : result = _ := herror
    exact ⟨w', hrun, hkept nofun, hdir⟩

/-- What is told to be moved need not arrive unchanged, nor leave.  The target of a move leads through its
source: a directory is made for that inside the tree, and moves along.  And a file is moved to another
name of its own: both names are left. -/
theorem rename_through_source_or_to_other_name :
    (∃ w', World.runAlone (.calm .epoch) (execute (.rename ⟨"a"⟩ ⟨"a/x/../../b"⟩ true)).run oneDirectory =
        (.ok true, w') ∧
      oneDirectory.files.nodeAt ⟨"a/x"⟩ = none ∧ w'.files.nodeAt ⟨"b/x"⟩ = some .directory) ∧
    ∃ w', World.runAlone (.calm .epoch) (execute (.rename ⟨"a.log"⟩ ⟨"b.log"⟩ true)).run oneFile =
        (.ok true, w') ∧
      (⟨"a.log"⟩ : Path).placeIn oneFile.files.here ≠ (⟨"b.log"⟩ : Path).placeIn oneFile.files.here ∧
      w'.files.present ⟨"a.log"⟩ = true ∧ w'.files.present ⟨"b.log"⟩ = true :=
  ⟨⟨_, rfl, by decide, by decide⟩, ⟨_, rfl, by decide, by decide, by decide⟩⟩

/-! ## Moves that are optional -/

/-- Holds where the source of a move is found, and the directories above its target cannot be made. -/
def Hindered (c : Conditions) (source target : Path) (cause : IoError) (w : World) : Prop :=
  (w.answer c (.present source)).1 = true ∧
    (World.runAlone c (Routine.makeParents target).run (w.answer c (.present source)).2).1 = .error cause

theorem runAlone_attempt {ε α β : Type} (c : Conditions) (x : Routine.Attempt ε α)
    (f : α → Routine.Attempt ε β) (w : World) :
    World.runAlone c (x >>= f).run w = match World.runAlone c x.run w with
      | (.ok a, w') => World.runAlone c (f a).run w'
      | (.error e, w') => (.error e, w') := by
  show World.runAlone c (x.run >>= ExceptT.bindCont f) w = _
  rw [World.runAlone_bind]
  rcases World.runAlone c x.run w with ⟨e | a, w'⟩ <;> rfl

theorem runAlone_adapt {ε ε' α : Type} (c : Conditions) (x : Routine.Attempt ε α) (f : ε → ε')
    (w : World) : World.runAlone c (x.adapt f).run w =
      ((World.runAlone c x.run w).1.mapError f, (World.runAlone c x.run w).2) := by
  show World.runAlone c (x.run >>= fun r => pure (r.mapError f)) w = _
  rw [World.runAlone_bind]
  rfl

/-- An optional move is a failure where it is hindered, and is made or not where it is not. -/
theorem runAlone_rename_optional (c : Conditions) (w : World) (source target : Path) :
    match (World.runAlone c (execute (.rename source target false)).run w).1 with
    | .ok _ => ∀ cause, ¬ Hindered c source target cause w
    | .error e => ∃ cause, e = .renameFailed source target (.io cause) ∧
        Hindered c source target cause w := by
  show match (World.runAlone c (runRename source target false).run w).1 with | .ok _ => _ | .error e => _
  unfold Hindered
  rw [runRename, runAlone_attempt]
  have hlook : World.runAlone c (Routine.reply (.present source) : Routine.Attempt Error Bool).run w =
      (.ok (w.answer c (.present source)).1, (w.answer c (.present source)).2) := rfl
  rw [hlook]
  cases (w.answer c (.present source)).1 with
  | false => exact fun cause h => Bool.false_ne_true h.1
  | true =>
    dsimp only
    rw [if_pos rfl, runAlone_attempt, runAlone_adapt]
    generalize World.runAlone c (Routine.makeParents target).run (w.answer c (.present source)).2 = made
    obtain ⟨e | u, w'⟩ := made
    · exact ⟨e, rfl, rfl, rfl⟩
    · -- the move itself is no failure, whatever it is answered with
      have hmove : World.runAlone c (liftM (Routine.rename source target).run :
          Routine.Attempt Error (Except IoError Unit)).run w' =
            (.ok (w'.answer c (.rename source target)).1, (w'.answer c (.rename source target)).2) := rfl
      dsimp only [Except.mapError]
      rw [runAlone_attempt, hmove]
      cases (w'.answer c (.rename source target)).1 with
      | ok u => exact nofun
      | error e => exact nofun

/-- A list of actions is carried out from its start on. -/
theorem executeAll_append (before after : List Action) :
    executeAll (before ++ after) = (executeAll before >>= fun _ => executeAll after) := by
  induction before with
  | nil => rfl
  | cons a before ih =>
    show (a.execute >>= fun _ => executeAll (before ++ after)) =
      (a.execute >>= fun _ => executeAll before) >>= fun _ => executeAll after
    rw [ih, bind_assoc]

/-- Behind actions that were carried out, a list goes on with an action that is carried out as well. -/
theorem runAlone_executeAll_split {c : Conditions} {before : List Action} {start w : World} (a : Action)
    (after : List Action) (hbefore : World.runAlone c (executeAll before).run start = (.ok (), w)) :
    World.runAlone c (executeAll (before ++ a :: after)).run start =
      match World.runAlone c a.execute.run w with
      | (.ok _, w') => World.runAlone c (executeAll after).run w'
      | (.error e, w') => (.error e, w') := by
  rw [executeAll_append, runAlone_attempt, hbefore]
  show World.runAlone c (ExceptT.run (a.execute >>= fun _ => executeAll after)) w = _
  rw [runAlone_attempt]
  rcases World.runAlone c a.execute.run w with ⟨e | moved, w'⟩ <;> rfl

/-- **What is told of an optional move.**  It is a failure just if its source is found and the directories
above its target cannot be made; else it is told whether it was made, which of one place, or of two names
of one file, is told though there is nothing to move (`Moved.left`).  Of a list of actions, what comes
behind an optional move is carried out just if that move was not hindered so.

Where nothing fails from outside, a move of what is there that is not made is told as a failure just if in
the end some directory above its target is not there. -/
theorem optional_rename_fails_iff (c : Conditions) (w : World) (source target : Path)
    (hrooted : w.files.Rooted) :
    ∃ result w', World.runAlone c (execute (.rename source target false)).run w = (result, w') ∧
      (∀ e, result = .error e ↔ ∃ cause, e = .renameFailed source target (.io cause) ∧
        Hindered c source target cause w) ∧
      (result = .ok true → Moved source target w.files w'.files) ∧
      (result ≠ .ok true → Furnished target.above w.files w'.files) ∧
      (∀ before after start, World.runAlone c (executeAll before).run start = (.ok (), w) →
        World.runAlone c (executeAll (before ++ .rename source target false :: after)).run start =
          match result with
          | .ok _ => World.runAlone c (executeAll after).run w'
          | .error e => (.error e, w')) ∧
      ((∀ n q, c.fault n q = none) → w.files.present source = true → result ≠ .ok true →
        ((∃ e, result = .error e) ↔ ∃ d ∈ target.above, w'.files.isDirectory d = false)) := by
  have hhindered := runAlone_rename_optional c w source target
  have hlist (before after : List Action) (start : World)
      (hbefore : World.runAlone c (executeAll before).run start = (.ok (), w)) :=
    runAlone_executeAll_split (.rename source target false) after hbefore
  obtain ⟨result, w', hrun⟩ : ∃ result w',
      World.runAlone c (execute (.rename source target false)).run w = (result, w') := ⟨_, _, rfl⟩
  have hend (spared : Bool) (hspared : spared = true → ∀ n q, c.fault n q = none) :=
    World.leads_runAlone_solitary spared (c := c) (w := w) hspared
      (leads_runRename_solitary source target false hrooted)
  have hrun' : World.runAlone c (runRename source target false).run w = (result, w') := hrun
  rw [hrun'] at hend
  rw [hrun] at hhindered hlist
  refine ⟨result, w', hrun, ?_⟩
  match result, hhindered, hend false nofun, hend true, hlist with
  | .ok true, hfree, hmoved, _, hlist =>
    exact ⟨fun e => ⟨nofun, fun ⟨cause, _, h⟩ => absurd h (hfree cause)⟩, fun _ => hmoved,
      fun h => absurd rfl h, hlist, fun _ _ h => absurd rfl h⟩
  | .ok false, hfree, ⟨hfurnished, _⟩, hspared, hlist =>
    refine ⟨fun e => ⟨nofun, fun ⟨cause, _, h⟩ => absurd h (hfree cause)⟩, by simp, fun _ => hfurnished,
      hlist, fun hcalm hthere _ => ⟨nofun, ?_⟩⟩
    rintro ⟨d, hd, hmissing⟩
    rw [(hspared fun _ => hcalm).2.2 rfl hthere d hd] at hmissing
    cases hmissing
  | .error e, ⟨cause, he, hcause⟩, ⟨hfurnished, _⟩, hspared, hlist =>
    refine ⟨fun e' => ⟨?_, ?_⟩, nofun, fun _ => hfurnished, hlist, fun hcalm _ _ =>
      ⟨fun _ => (hspared fun _ => hcalm).2.2 rfl rfl, fun _ => ⟨e, rfl⟩⟩⟩
    · rintro ⟨⟩
      exact ⟨cause, he, hcause⟩
    · rintro ⟨cause', rfl, hcause'⟩
      obtain rfl : cause = cause' := Except.error.inj (hcause.2.symm.trans hcause'.2)
      rw [he]

/-- A world with two files. -/
def twoFiles : World := .ofFiles (.ofFiles [(⟨"s"⟩, some [120]), (⟨"f"⟩, some [121])])

/-- A file is moved away; and it is not moved below a file, which is told as a failure. -/
theorem optional_rename_fails_iff_below_file : twoFiles.files.Rooted ∧
    (∃ w', World.runAlone (.calm .epoch) (execute (.rename ⟨"s"⟩ ⟨"d/t"⟩ false)).run twoFiles =
        (.ok true, w') ∧ Moved ⟨"s"⟩ ⟨"d/t"⟩ twoFiles.files w'.files) ∧
    ∃ w', World.runAlone (.calm .epoch) (execute (.rename ⟨"s"⟩ ⟨"f/t"⟩ false)).run twoFiles =
        (.error (.renameFailed ⟨"s"⟩ ⟨"f/t"⟩ (.io .alreadyExists)), w') ∧
      Hindered (.calm .epoch) ⟨"s"⟩ ⟨"f/t"⟩ .alreadyExists twoFiles ∧
      ∃ d ∈ (⟨"f/t"⟩ : Path).above, w'.files.isDirectory d = false := by
  have hrooted : twoFiles.files.Rooted := FileSystem.rooted_of_nodes (by decide)
  refine ⟨hrooted, ?_, ?_⟩
  · obtain ⟨result, w', hrun, -, hmoved, -⟩ :=
      optional_rename_fails_iff (.calm .epoch) twoFiles ⟨"s"⟩ ⟨"d/t"⟩ hrooted
    have hok : (World.runAlone (.calm .epoch) (execute (.rename ⟨"s"⟩ ⟨"d/t"⟩ false)).run twoFiles).1 =
      .ok true := by rfl
    rw [hrun] at hok
    obtain rfl : result = .ok true := hok
    exact ⟨w', hrun, hmoved rfl⟩
  · obtain ⟨result, w', hrun, hiff, -, -, -, hmissing⟩ :=
      optional_rename_fails_iff (.calm .epoch) twoFiles ⟨"s"⟩ ⟨"f/t"⟩ hrooted
    have herror : (World.runAlone (.calm .epoch) (execute (.rename ⟨"s"⟩ ⟨"f/t"⟩ false)).run twoFiles).1 =
      .error (.renameFailed ⟨"s"⟩ ⟨"f/t"⟩ (.io .alreadyExists)) := by rfl
    rw [hrun] at herror
    obtain rfl : result = _ := herror
    obtain ⟨cause, he, hhindered⟩ := (hiff _).mp rfl
    obtain rfl : IoError.alreadyExists = cause := RenameFault.io.inj (Error.renameFailed.inj he).2.2
    exact ⟨w', hrun, hhindered, (hmissing (fun _ _ => rfl) (by decide) nofun).mp ⟨_, rfl⟩⟩

/-- An optional move below a file is a failure, and what comes behind it in a list is not done. -/
theorem optional_rename_refused : ∃ w',
    World.runAlone (.calm .epoch)
        (executeAll [.rename ⟨"s"⟩ ⟨"f/t"⟩ false, .rename ⟨"s"⟩ ⟨"u"⟩ true]).run twoFiles =
      (.error (.renameFailed ⟨"s"⟩ ⟨"f/t"⟩ (.io .alreadyExists)), w') ∧
    w'.files.present ⟨"s"⟩ = true ∧ w'.files.present ⟨"u"⟩ = false :=
  ⟨_, rfl, by decide, by decide⟩

end Action

end LogRotation
