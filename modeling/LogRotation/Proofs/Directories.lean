/-
  Directories stay, and so do the ways that lead through them.

  A log makes directories and takes none away; what it takes away or moves is a file.  In a tree where
  everything stands in a directory, no directory is below a file, so that no directory goes with one.
  A path that led to a file by its name leads there for as long as the file is there.

    * ROOTED   everything that is there stands in a directory;
    * NAMED    a path that ends in a name, in a directory that is there;
    * CHANGE   a frame that keeps a tree rooted and its directories where they are: one statement for
               each operation that changes files.
-/
import LogRotation.Proofs.Ledger
import Mathlib.Data.List.Induction

namespace LogRotation.FileSystem

variable {fs fs' fs'' : FileSystem} {x y : Path} {p q s t : Place} {name : String}

/-! ## Rooted trees -/

/-- Holds of a tree in which everything stands in a directory. -/
def Rooted (fs : FileSystem) : Prop :=
  ∀ (p : Place) (name : String), fs.node? (p ++ [name]) ≠ none → fs.node? p = some .directory

/-- It is enough to look at the places that are listed. -/
theorem rooted_of_nodes (h : ∀ x ∈ fs.nodes, fs.node? x.1.dropLast = some .directory) :
    fs.Rooted := by
  intro p name hn
  have hne : p ++ [name] ≠ [] := by simp
  rw [node?, if_neg hne] at hn
  obtain ⟨n, hlookup⟩ := Option.ne_none_iff_exists'.mp hn
  have hmem : (p ++ [name], n) ∈ fs.nodes := by
    obtain ⟨before, after, he, -⟩ := List.lookup_eq_some_iff.mp hlookup
    rw [he]
    exact List.mem_append_right _ List.mem_cons_self
  have hparent := h _ hmem
  rwa [List.dropLast_concat] at hparent

/-- Nothing is below what is no directory. -/
theorem Rooted.below (h : fs.Rooted) (hp : fs.node? p ≠ some .directory) {rest : Place}
    (hrest : rest ≠ []) : fs.node? (p ++ rest) = none := by
  induction rest using List.reverseRecOn with
  | nil => exact absurd rfl hrest
  | append_singleton rest name ih =>
    by_contra hn
    rw [← List.append_assoc] at hn
    have hdir := h _ _ hn
    by_cases hnil : rest = []
    · rw [hnil, List.append_nil] at hdir
      exact hp hdir
    · rw [ih hnil] at hdir
      cases hdir

/-- A directory is not below what is no directory. -/
theorem Rooted.not_below (h : fs.Rooted) (hp : fs.node? p ≠ some .directory)
    (hq : fs.node? q = some .directory) : ¬ p <+: q := by
  rintro ⟨rest, rfl⟩
  by_cases hnil : rest = []
  · rw [hnil, List.append_nil] at hq
    exact hp hq
  · rw [h.below hp hnil] at hq
    cases hq

/-! ## Names -/

theorem requireDirectory_ok (h : fs.requireDirectory p = .ok ()) : fs.node? p = some .directory := by
  unfold requireDirectory at h
  split at h
  · assumption
  · cases h

/-- A path that ends in a name, in the directory that its other steps lead to. -/
theorem entry_eq_name_iff {parent : Place} {slash : Bool} :
    fs.entry x = .ok (.name parent name slash) ↔
      checkText x = .ok () ∧ x.segments.getLast? = some name ∧
        fs.walk (fs.origin x) x.segments.dropLast = .ok parent ∧
        fs.node? parent = some .directory ∧ ¬ (name = "." ∨ name = "..") ∧
        slash = x.endsInSlash := by
  constructor
  · intro h
    obtain ⟨u, htext, h⟩ := ok_of_bind h
    split at h
    · cases h
    · rename_i last hlast
      obtain ⟨place, hwalk, h⟩ := ok_of_bind h
      obtain ⟨u', hdir, h⟩ := ok_of_bind h
      split at h
      · cases h
      · rename_i hname
        cases h
        exact ⟨htext, hlast, hwalk, requireDirectory_ok hdir, hname, rfl⟩
  · rintro ⟨htext, hlast, hwalk, hdir, hname, rfl⟩
    have hrequire : fs.requireDirectory parent = .ok () := if_pos hdir
    simp only [entry, htext, hlast, hwalk, hrequire, bind, Except.bind, if_neg hname]
    rfl

/-- Holds of a path that ends in a name, in a directory that is there. -/
def Named (fs : FileSystem) (x : Path) : Prop :=
  ∃ parent name, fs.entry x = .ok (.name parent name false) ∧ checkName name = .ok ()

/-- The same way leads to the same directory as long as directories stay. -/
theorem walk_of_directories (hdir : ∀ q, fs.node? q = some .directory → fs'.node? q = some .directory)
    {segments : List String} (h : fs.walk p segments = .ok q) (hq : fs.node? q = some .directory) :
    fs'.walk p segments = .ok q := by
  induction segments generalizing p with
  | nil => exact h
  | cons segment rest ih =>
    obtain ⟨next, hstep, hrest⟩ := ok_of_bind h
    -- each step goes on from a directory
    have hnext : fs.node? next = some .directory := by
      cases rest with
      | nil =>
        cases hrest
        exact hq
      | cons segment' rest =>
        obtain ⟨next', hstep', -⟩ := ok_of_bind hrest
        obtain ⟨u, hrequire, -⟩ := ok_of_bind hstep'
        exact requireDirectory_ok hrequire
    have hstep' : fs'.step p segment = .ok next := by
      obtain ⟨u, hrequire, hcases⟩ := ok_of_bind hstep
      have hp : fs'.requireDirectory p = .ok () := if_pos (hdir p (requireDirectory_ok hrequire))
      simp only [step, hp, bind, Except.bind]
      split at hcases
      · rename_i hdot
        rw [if_pos hdot]
        exact hcases
      · rename_i hdot
        rw [if_neg hdot]
        split at hcases
        · rename_i hup
          rw [if_pos hup]
          exact hcases
        · rename_i hup
          rw [if_neg hup]
          obtain ⟨u', hcheck, hcases⟩ := ok_of_bind hcases
          rw [hcheck]
          split at hcases
          · cases hcases
            have hthere : (fs'.node? (p ++ [segment])).isSome = true := by rw [hdir _ hnext]; rfl
            exact if_pos hthere
          · cases hcases
    have hwalk := ih hrest
    show (fs'.step p segment >>= fun next => fs'.walk next rest) = .ok q
    rw [hstep']
    exact hwalk

/-- A path keeps its name as long as directories stay. -/
theorem Named.of_directories (h : fs.Named x) (hhere : fs'.here = fs.here)
    (hdir : ∀ q, fs.node? q = some .directory → fs'.node? q = some .directory) : fs'.Named x := by
  obtain ⟨parent, name, hentry, hname⟩ := h
  obtain ⟨htext, hlast, hwalk, hparent, hdots, hslash⟩ := entry_eq_name_iff.mp hentry
  have horigin : fs'.origin x = fs.origin x := by rw [origin, origin, hhere]
  refine ⟨parent, name, entry_eq_name_iff.mpr ⟨htext, hlast, ?_, hdir _ hparent, hdots, hslash⟩, hname⟩
  rw [horigin]
  exact walk_of_directories hdir hwalk hparent

/-- What is at a path with a name is found. -/
theorem Named.present (h : fs.Named x) {n : Node} (hn : fs.nodeAt x = some n) :
    fs.present x = true := by
  obtain ⟨parent, name, hentry, hname⟩ := h
  have hplace := entry_name hentry
  obtain ⟨htext, hlast, hwalk, hparent, hdots, hslash⟩ := entry_eq_name_iff.mp hentry
  rw [nodeAt, ← hplace] at hn
  have hstep : fs.step parent name = .ok (parent ++ [name]) := by
    have hrequire : fs.requireDirectory parent = .ok () := if_pos hparent
    have hthere : (fs.node? (parent ++ [name])).isSome = true := by rw [hn]; rfl
    simp only [step, hrequire, bind, Except.bind, if_neg (fun he => hdots (.inl he)),
      if_neg (fun he => hdots (.inr he)), hname, hthere]
    rfl
  have hsegments : x.segments = x.segments.dropLast ++ [name] := by
    obtain ⟨before, hb⟩ := List.getLast?_eq_some_iff.mp hlast
    rw [hb, List.dropLast_concat]
  have hall : fs.walk (fs.origin x) x.segments = .ok (parent ++ [name]) := by
    rw [hsegments, walk, List.foldlM_append]
    show (fs.walk (fs.origin x) x.segments.dropLast >>= _) = _
    rw [hwalk]
    show (fs.step parent name >>= _) = _
    rw [hstep]
    rfl
  have hresolve : fs.resolve x = .ok (parent ++ [name], n) := by
    simp only [resolve, htext, hall, ← hslash, hn, bind, Except.bind]
    rfl
  rw [FileSystem.present, hresolve]

/-! ## Changes -/

/-- A frame that keeps a tree rooted, and its directories where they are. -/
structure Change (xs : List Path) (touched : Path → Prop) (fs fs' : FileSystem) : Prop
    extends Frame xs touched fs fs' where
  rooted : fs.Rooted → fs'.Rooted
  directory : fs.Rooted → ∀ q, fs.node? q = some .directory → fs'.node? q = some .directory

variable {xs : List Path} {touched : Path → Prop}

theorem Change.refl (xs : List Path) (touched : Path → Prop) (fs : FileSystem) :
    Change xs touched fs fs :=
  ⟨.refl xs touched fs, id, fun _ _ hq => hq⟩

theorem Change.trans (h : Change xs touched fs fs') (h' : Change xs touched fs' fs'') :
    Change xs touched fs fs'' :=
  ⟨h.toFrame.trans h'.toFrame, h'.rooted ∘ h.rooted,
    fun hr q hq => h'.directory (h.rooted hr) q (h.directory hr q hq)⟩

theorem Change.mono {more : Path → Prop} (h : Change xs touched fs fs')
    (hm : ∀ x ∈ xs, touched x → more x) : Change xs more fs fs' :=
  ⟨h.toFrame.mono hm, h.rooted, h.directory⟩

theorem Change.named (h : Change xs touched fs fs') (hr : fs.Rooted) (hx : fs.Named x) :
    fs'.Named x :=
  hx.of_directories h.here (h.directory hr)

/-! ### New places -/

/-- What is put at a free place in a directory. -/
theorem rooted_insert (hp : fs.node? p = some .directory) (hfree : fs.node? (p ++ [name]) = none)
    (n : Node) : (fs.Rooted → (fs.insert (p ++ [name]) n).Rooted) ∧
      ∀ q, fs.node? q = some .directory →
        (fs.insert (p ++ [name]) n).node? q = some .directory := by
  have hdir : ∀ q, fs.node? q = some .directory →
      (fs.insert (p ++ [name]) n).node? q = some .directory := by
    intro q hq
    have hne : q ≠ p ++ [name] := by
      rintro rfl
      rw [hfree] at hq
      cases hq
    rw [node?_insert_of_ne fs n hne, hq]
  refine ⟨?_, hdir⟩
  intro h q other hn
  by_cases he : q ++ [other] = p ++ [name]
  · have hqp : q = p := (List.append_inj' he rfl).1
    rw [hqp]
    exact hdir p hp
  · rw [node?_insert_of_ne fs n he] at hn
    exact hdir q (h q other hn)

theorem change_makeDirectory (xs : List Path) (h : fs.makeDirectory x = .ok fs') :
    Change xs (fun y => y.placeIn fs.here = x.placeIn fs.here) fs fs' := by
  obtain ⟨hfree, rfl⟩ := makeDirectory_ok h
  obtain ⟨e, hentry, h⟩ := ok_of_bind h
  cases e with
  | noName d => cases h
  | name parent name slash =>
    have hplace := entry_name hentry
    have hparent := (entry_eq_name_iff.mp hentry).2.2.2.1
    have hframe := frame_insert_directory xs (x.placeIn fs.here) hfree
    rw [nodeAt, ← hplace] at hfree
    obtain ⟨hrooted, hdir⟩ := rooted_insert hparent hfree .directory
    rw [hplace] at hrooted hdir
    exact ⟨hframe, hrooted, fun _ => hdir⟩

/-- **Opening for writing.**  It leads to a file that is known by its path, and that keeps what it held
or is empty. -/
theorem change_openWrite (apart : xs.Pairwise (Path.Apart fs.here)) (tidy : fs.Tidy xs) (hx : x ∈ xs)
    {keep : Bool} {handle : Handle} (h : fs.openWrite x keep = .ok (handle, fs')) :
    Change xs (· = x) fs fs' ∧ fs.Named x ∧ ∃ id, handle = .file id ∧
      fs'.nodeAt x = some (.file id) ∧ fs'.bytesAt x = if keep then fs.bytesAt x else [] := by
  have hcases := openWrite_ok h
  obtain ⟨e, hentry, h⟩ := ok_of_bind h
  cases e with
  | noName d => cases h
  | name parent name slash =>
    obtain ⟨hslash, h⟩ := ok_of_check h
    obtain ⟨u, hname, -⟩ := ok_of_bind h
    have hnoSlash : slash = false := by
      cases slash with
      | false => rfl
      | true => cases hslash rfl
    subst hnoSlash
    have hnamed : fs.Named x := ⟨parent, name, hentry, hname⟩
    have hplace := entry_name hentry
    have hparent := (entry_eq_name_iff.mp hentry).2.2.2.1
    rcases hcases with ⟨hfree, rfl, rfl⟩ | ⟨id, hfile, rfl, rfl⟩ | hfull
    · -- a new file
      have hframe := frame_addFile apart tidy hx hfree
      have hnode := nodeAt_addFile hfree
      have hbytes : (fs.addFile (x.placeIn fs.here)).2.bytesAt x = [] := by
        rw [bytesAt_of_file hnode, content_addFile, Content.bytes_empty]
      have hold : fs.bytesAt x = [] := bytesAt_of_vacant (.inl hfree)
      rw [nodeAt, ← hplace] at hfree
      obtain ⟨hrooted, hdir⟩ := rooted_insert hparent hfree (.file fs.fresh)
      rw [hplace] at hrooted hdir
      refine ⟨⟨hframe, hrooted, fun _ => hdir⟩, hnamed, _, rfl, hnode, ?_⟩
      rw [hbytes, hold, ite_self]
    · -- the file that is there
      refine ⟨?_, hnamed, id, rfl, ?_, ?_⟩
      · cases keep with
        | true => exact .refl xs _ fs
        | false => exact ⟨frame_setContent tidy hx hfile .empty, fun hr => hr, fun _ _ hq => hq⟩
      · cases keep <;> exact hfile
      · cases keep with
        | true => rfl
        | false =>
          have hnode : (fs.setContent id .empty).nodeAt x = some (.file id) := hfile
          show (fs.setContent id .empty).bytesAt x = []
          rw [bytesAt_of_file hnode, content_setContent_self, Content.bytes_empty]
    · exact absurd hfull (tidy.noDevice x hx)

/-! ### Contents -/

/-- Adding bytes to the file at a path. -/
theorem change_append (tidy : fs.Tidy xs) (hx : x ∈ xs) {id : Nat}
    (h : fs.nodeAt x = some (.file id)) (bytes : Bytes) :
    Change xs (· = x) fs (fs.setContent id ((fs.content id).append bytes)) ∧
      (fs.setContent id ((fs.content id).append bytes)).bytesAt x = fs.bytesAt x ++ bytes := by
  have hnode : (fs.setContent id ((fs.content id).append bytes)).nodeAt x = some (.file id) := h
  refine ⟨⟨frame_setContent tidy hx h _, fun hr => hr, fun _ _ hq => hq⟩, ?_⟩
  rw [bytesAt_of_file hnode, bytesAt_of_file h, content_setContent_self, Content.bytes_append]

/-! ### Places that go -/

/-- Nothing is left at or below a place that was taken away. -/
theorem node?_erase_of_below (h : p <+: q) (hq : q ≠ []) : (fs.erase p).node? q = none := by
  unfold node? erase
  rw [if_neg hq]
  have hnone := lookup_rekeyed_none fs.nodes (fun k => !p.isPrefixOf k) id (b := q) ?_
  · simpa using hnone
  · rintro k hk rfl
    exact not_isPrefixOf_iff.mp hk h

theorem change_remove (apart : xs.Pairwise (Path.Apart fs.here)) (hx : x ∈ xs)
    (h : fs.remove x = .ok fs') : Change xs (· = x) fs fs' ∧ fs'.nodeAt x = none := by
  obtain ⟨hframe, hgone⟩ := frame_remove apart hx h
  obtain ⟨n, hn, hne, rfl⟩ := remove_ok h
  have hfile : fs.node? (x.placeIn fs.here) ≠ some .directory := by
    intro hdir
    exact hne (Option.some.inj (hn.symm.trans hdir))
  have hdir : fs.Rooted → ∀ q, fs.node? q = some .directory →
      (fs.erase (x.placeIn fs.here)).node? q = some .directory := by
    intro hr q hq
    rw [node?_erase_of_not_below (hr.not_below hfile hq), hq]
  refine ⟨⟨hframe, ?_, hdir⟩, hgone⟩
  intro hr q name hq
  -- what is left is not below the place that was taken away
  have hnot : ¬ x.placeIn fs.here <+: q ++ [name] := by
    intro hbelow
    exact hq (node?_erase_of_below hbelow (by simp))
  rw [node?_erase_of_not_below hnot] at hq
  exact hdir hr q (hr q name hq)

/-! ### Places that move -/

/-- Nothing is left at or below the source of a move. -/
theorem node?_move_of_below_source (hts : ¬ t <+: q) (hsq : s <+: q) (hq : q ≠ []) :
    (fs.move s t).node? q = none := by
  unfold node? move
  rw [if_neg hq]
  refine lookup_rekeyed_none fs.nodes (fun k => !t.isPrefixOf k) (relocated s t) fun k _ he => ?_
  by_cases hk : s <+: k
  · rw [relocated_of_below hk] at he
    exact hts ⟨_, he⟩
  · rw [relocated_of_not_below hk] at he
    exact hk (he ▸ hsq)

/-- A file that was moved to a place in a directory, where no directory was. -/
theorem rooted_move (hs : fs.node? s ≠ some .directory)
    (ht : fs.node? (p ++ [name]) ≠ some .directory) (hp : fs.node? p = some .directory)
    (hst : ¬ s <+: p ++ [name]) (hts : ¬ p ++ [name] <+: s) (h : fs.Rooted) :
    (fs.move s (p ++ [name])).Rooted ∧ ∀ q, fs.node? q = some .directory →
      (fs.move s (p ++ [name])).node? q = some .directory := by
  have hdir : ∀ q, fs.node? q = some .directory →
      (fs.move s (p ++ [name])).node? q = some .directory := by
    intro q hq
    rw [node?_move_of_apart (h.not_below hs hq) (h.not_below ht hq), hq]
  refine ⟨?_, hdir⟩
  intro q other hn
  by_cases htq : p ++ [name] <+: q ++ [other]
  · -- only what was at the source is at the target, and nothing below
    obtain ⟨rest, he⟩ := htq
    rw [← he, node?_move_below hst hts] at hn
    by_cases hnil : rest = []
    · rw [hnil, List.append_nil] at he
      have hpq : p = q := (List.append_inj' he rfl).1
      rw [← hpq]
      exact hdir p hp
    · exact absurd (h.below hs hnil) hn
  · by_cases hsq : s <+: q ++ [other]
    · exact absurd (node?_move_of_below_source htq hsq (by simp)) hn
    · rw [node?_move_of_apart hsq htq] at hn
      exact hdir q (h q other hn)

/-- **Moving a file.**  It goes with its content, and it is known by its new path. -/
theorem change_rename (apart : xs.Pairwise (Path.Apart fs.here)) (tidy : fs.Tidy xs) (hx : x ∈ xs)
    (hy : y ∈ xs) (hne : x ≠ y) {id : Nat} (hfile : fs.nodeAt x = some (.file id)) (h : fs.rename x y = .ok fs') :
    Change xs (fun z => z = x ∨ z = y) fs fs' ∧ fs.Named y ∧ fs'.nodeAt x = none ∧
      fs'.nodeAt y = some (.file id) ∧ fs'.bytesAt y = fs.bytesAt x := by
  obtain ⟨hframe, hgone, hthere, hcontent⟩ := frame_rename apart tidy hx hy hne h
  rw [hfile] at hthere
  have hbytes : fs'.bytesAt y = fs.bytesAt x := by
    rw [bytesAt_of_file hthere, bytesAt_of_file hfile, hcontent]
  obtain ⟨_, hn, ⟨hplace | ⟨_, rfl, hother⟩, -⟩ | ⟨hst, hts, -, rfl⟩⟩ := rename_ok h
  · exact absurd (hplace ▸ List.prefix_rfl) (Path.not_prefix_of_pairwise apart hx hy hne)
  · exact absurd (tidy.single x hx y hy _ hn hother) hne
  obtain ⟨s, hs, h⟩ := ok_of_bind h
  obtain ⟨t, ht, h⟩ := ok_of_bind h
  obtain ⟨-, h⟩ := ok_of_check h
  cases s with
  | noName d => cases h
  | name sourceParent sourceName sourceSlash =>
    cases t with
    | noName d => cases h
    | name targetParent targetName targetSlash =>
      obtain ⟨-, -, h⟩ := ok_of_bind h
      have hsource := entry_name hs
      have htarget := entry_name ht
      have hparent := (entry_eq_name_iff.mp ht).2.2.2.1
      have hnode := hfile
      rw [nodeAt, ← hsource] at hnode
      dsimp only at h
      rw [hnode] at h
      dsimp only at h
      obtain ⟨u, hname, h⟩ := ok_of_bind h
      obtain ⟨hslash, h⟩ := ok_of_check h
      obtain ⟨-, h⟩ := ok_of_check h
      obtain ⟨-, h⟩ := ok_of_check h
      have hnoSlash : targetSlash = false := by
        cases targetSlash with
        | false => rfl
        | true => cases hslash ⟨by simp, Bool.or_true _⟩
      rw [hnoSlash] at ht
      have hfileSource : fs.node? (x.placeIn fs.here) ≠ some .directory := by
        rw [← hsource, hnode]
        simp
      have hfileTarget : fs.node? (targetParent ++ [targetName]) ≠ some .directory := by
        intro hdir
        split at h
        · rename_i he
          rcases he with he | he
          · rw [he, hdir] at hnode
            cases hnode
          · obtain ⟨_, -, hfile⟩ := hasNameAt_iff.mp he
            rw [hdir] at hfile
            cases hfile
        · obtain ⟨u, hreplaceable, -⟩ := ok_of_bind h
          unfold replaceable at hreplaceable
          rw [hdir] at hreplaceable
          cases hreplaceable
      rw [← htarget] at hst hts
      have hmoved : fs.Rooted → _ := rooted_move hfileSource hfileTarget hparent hst hts
      rw [htarget] at hmoved
      exact ⟨⟨hframe, fun hr => (hmoved hr).1, fun hr => (hmoved hr).2⟩,
        ⟨_, _, ht, hname⟩, hgone, hthere, hbytes⟩

end LogRotation.FileSystem
