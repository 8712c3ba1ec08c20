/-
  Where a path leads, and what each operation does to the places of paths.

  A path names one place, whatever is there: names go down, two dots go up.  An operation on files
  that succeeds has changed the node or the content at the place of its path and, for a move, at the
  places of both its paths; what is at a place that is not below these stays as it is.

    * PLACE       `Path.placeIn` follows a path without looking; `entry_name` and `resolve_ok` say
                  that the file system arrives there too;
    * OPERATIONS  one statement for each, from its success to what it did;
    * LOOKUPS     what is at a place after nodes were inserted, erased or moved.
-/
import LogRotation.World

namespace LogRotation

/-! ## Places of paths -/

/-- Goes one step from a place, without looking what is there. -/
def FileSystem.goTo (q : Place) (segment : String) : Place :=
  if segment = "." then q else if segment = ".." then q.dropLast else q ++ [segment]

/-- The place that a path names, for a working directory. -/
def Path.placeIn (p : Path) (here : Place) : Place :=
  p.segments.foldl FileSystem.goTo (if p.isAbsolute then [] else here)

namespace FileSystem

variable {fs fs' : FileSystem} {x y : Path} {p q : Place}

/-- What is at the place of a path. -/
def nodeAt (fs : FileSystem) (x : Path) : Option Node := fs.node? (x.placeIn fs.here)

/-- What succeeds after something has that succeed first. -/
theorem ok_of_bind {ε α β : Type} {r : Except ε α} {f : α → Except ε β} {b : β}
    (h : r >>= f = .ok b) : ∃ a, r = .ok a ∧ f a = .ok b := by
  cases r with
  | error e => cases h
  | ok a => exact ⟨a, rfl, h⟩

/-- What succeeds after a check that is only made under a condition. -/
theorem ok_of_check {ε β : Type} {c : Prop} [Decidable c] {r : Except ε Unit}
    {f : Unit → Except ε β} {b : β} (h : (if c then r >>= f else f ()) = .ok b) :
    (c → r = .ok ()) ∧ f () = .ok b := by
  split at h
  · obtain ⟨u, hr, h⟩ := ok_of_bind h
    exact ⟨fun _ => hr, h⟩
  · exact ⟨fun hc => absurd hc ‹_›, h⟩

theorem step_ok {segment : String} (h : fs.step p segment = .ok q) : q = goTo p segment := by
  obtain ⟨-, -, h⟩ := ok_of_bind h
  rw [goTo]
  split at h
  · rename_i hdot
    cases h
    rw [if_pos hdot]
  · rename_i hdot
    rw [if_neg hdot]
    split at h
    · rename_i hup
      cases h
      rw [if_pos hup]
    · rename_i hup
      rw [if_neg hup]
      obtain ⟨-, -, h⟩ := ok_of_bind h
      split at h
      · cases h; rfl
      · cases h

theorem walk_ok {segments : List String} (h : fs.walk p segments = .ok q) :
    q = segments.foldl goTo p := by
  induction segments generalizing p with
  | nil => cases h; rfl
  | cons s rest ih =>
    obtain ⟨next, hstep, h⟩ := ok_of_bind h
    rw [List.foldl_cons, ← step_ok hstep]
    exact ih h

/-- A path that leads somewhere leads to its place. -/
theorem resolve_ok {n : Node} (h : fs.resolve x = .ok (p, n)) :
    p = x.placeIn fs.here ∧ fs.nodeAt x = some n := by
  obtain ⟨-, -, h⟩ := ok_of_bind h
  obtain ⟨place, hwalk, h⟩ := ok_of_bind h
  have hp : place = x.placeIn fs.here := walk_ok hwalk
  obtain ⟨-, h⟩ := ok_of_check h
  rw [nodeAt, ← hp]
  split at h
  · rename_i hn
    cases h
    exact ⟨rfl, hn⟩
  · cases h

/-- A path that leads somewhere has something at its place. -/
theorem nodeAt_of_present (h : fs.present x = true) : ∃ n, fs.nodeAt x = some n := by
  unfold present at h
  split at h
  · rename_i found hfound
    exact ⟨found.2, (resolve_ok hfound).2⟩
  · cases h

/-- A path that ends in a name ends at its place. -/
theorem entry_name {name : String} {slash : Bool} (h : fs.entry x = .ok (.name p name slash)) :
    p ++ [name] = x.placeIn fs.here := by
  obtain ⟨-, -, h⟩ := ok_of_bind h
  split at h
  · cases h
  · rename_i last hlast
    obtain ⟨parent, hwalk, h⟩ := ok_of_bind h
    obtain ⟨-, -, h⟩ := ok_of_bind h
    split at h
    · cases h
    · rename_i hname
      cases h
      obtain ⟨before, hb⟩ := List.getLast?_eq_some_iff.mp hlast
      have hp := walk_ok hwalk
      rw [hb, List.dropLast_concat] at hp
      rw [Path.placeIn, hb, List.foldl_append, hp]
      show _ = goTo _ _
      rw [goTo, if_neg (fun he => hname (.inl he)), if_neg (fun he => hname (.inr he))]
      rfl

/-! ## Operations -/

/-- A directory is made at a free place only. -/
theorem makeDirectory_ok (h : fs.makeDirectory x = .ok fs') :
    fs.nodeAt x = none ∧ fs' = fs.insert (x.placeIn fs.here) .directory := by
  obtain ⟨e, hentry, h⟩ := ok_of_bind h
  cases e with
  | noName d => cases h
  | name parent name slash =>
    obtain ⟨-, -, h⟩ := ok_of_bind h
    rw [nodeAt, ← entry_name hentry]
    split at h
    · cases h
    · rename_i hn
      cases h
      exact ⟨hn, rfl⟩

/-- What opening for writing did: it made an empty file at a free place, or opened the file that is
there. -/
theorem openWrite_ok {keep : Bool} {handle : Handle}
    (h : fs.openWrite x keep = .ok (handle, fs')) :
    (fs.nodeAt x = none ∧ handle = .file fs.fresh ∧ fs' = (fs.addFile (x.placeIn fs.here)).2) ∨
    (∃ id, fs.nodeAt x = some (.file id) ∧ handle = .file id ∧
      fs' = if keep then fs else fs.setContent id .empty) ∨
    fs.nodeAt x = some .full := by
  obtain ⟨e, hentry, h⟩ := ok_of_bind h
  cases e with
  | noName d => cases h
  | name parent name slash =>
    obtain ⟨-, h⟩ := ok_of_check h
    obtain ⟨-, -, h⟩ := ok_of_bind h
    rw [nodeAt, ← entry_name hentry]
    split at h
    · -- nothing is there: a new file
      rename_i hn
      cases h
      exact .inl ⟨hn, rfl, rfl⟩
    · -- a directory is not opened for writing
      cases h
    · -- a device
      rename_i hn
      exact .inr (.inr hn)
    · -- a file, emptied unless its content is kept
      rename_i id hn
      cases h
      exact .inr (.inl ⟨id, hn, rfl, rfl⟩)

/-- A file is taken away with its place. -/
theorem remove_ok (h : fs.remove x = .ok fs') :
    ∃ n, fs.nodeAt x = some n ∧ n ≠ .directory ∧ fs' = fs.erase (x.placeIn fs.here) := by
  obtain ⟨e, hentry, h⟩ := ok_of_bind h
  cases e with
  | noName d => cases h
  | name parent name slash =>
    obtain ⟨-, -, h⟩ := ok_of_bind h
    rw [nodeAt, ← entry_name hentry]
    split at h
    · cases h
    · cases h
    · rename_i n hdir hn
      split at h
      · cases h
      · cases h
        exact ⟨n, hn, hdir, rfl⟩

/-- What is opened for reading is what is at the place. -/
theorem openRead_ok {handle : Handle} (h : fs.openRead x = .ok handle) :
    (fs.nodeAt x = some .directory ∧ handle = .directory) ∨
    (∃ id, fs.nodeAt x = some (.file id) ∧ handle = .file id) ∨
    fs.nodeAt x = some .full := by
  obtain ⟨⟨place, n⟩, hfound, h⟩ := ok_of_bind h
  have hn := (resolve_ok hfound).2
  cases n with
  | directory => cases h; exact .inl ⟨hn, rfl⟩
  | file id => cases h; exact .inr (.inl ⟨id, hn, rfl⟩)
  | full => exact .inr (.inr hn)

theorem hasNameAt_iff {n : Node} {p : Place} :
    fs.hasNameAt n p = true ↔ ∃ id, n = .file id ∧ fs.node? p = some (.file id) := by
  rw [hasNameAt.eq_def]
  split
  · rename_i id other hp
    rw [beq_iff_eq]
    constructor
    · rintro rfl
      exact ⟨id, rfl, hp⟩
    · rintro ⟨_, he, hother⟩
      cases he
      rw [hp] at hother
      cases hother
      rfl
  · rename_i hother
    refine ⟨nofun, ?_⟩
    rintro ⟨id, rfl, hp⟩
    exact (hother id id rfl hp).elim

/-- What a move did: nothing if both paths have one place or are names of one file, and else it took a
tree along, with neither place below the other. -/
theorem rename_ok (h : fs.rename x y = .ok fs') :
    ∃ n, fs.nodeAt x = some n ∧
      ((x.placeIn fs.here = y.placeIn fs.here ∨ ∃ id, n = .file id ∧ fs.nodeAt y = some (.file id)) ∧
          fs' = fs ∨
        ¬ x.placeIn fs.here <+: y.placeIn fs.here ∧ ¬ y.placeIn fs.here <+: x.placeIn fs.here ∧
          (∀ id, n = .file id → fs.nodeAt y ≠ some (.file id)) ∧
          fs' = fs.move (x.placeIn fs.here) (y.placeIn fs.here)) := by
  obtain ⟨s, hs, h⟩ := ok_of_bind h
  obtain ⟨t, ht, h⟩ := ok_of_bind h
  obtain ⟨-, h⟩ := ok_of_check h
  cases s with
  | noName d => cases h
  | name sourceParent sourceName sourceSlash =>
    cases t with
    | noName d => cases h
    | name targetParent targetName targetSlash =>
      obtain ⟨-, -, h⟩ := ok_of_bind h
      rw [nodeAt, nodeAt, ← entry_name hs, ← entry_name ht]
      dsimp only at h
      split at h
      · cases h
      · rename_i n hn
        refine ⟨n, hn, ?_⟩
        obtain ⟨-, -, h⟩ := ok_of_bind h
        obtain ⟨-, h⟩ := ok_of_check h
        obtain ⟨hbelow, h⟩ := ok_of_check h
        obtain ⟨habove, h⟩ := ok_of_check h
        split at h
        · -- a move onto itself, or onto another name of the same file
          rename_i he
          cases h
          exact .inl ⟨he.imp_right hasNameAt_iff.mp, rfl⟩
        · -- the checks say of the parents what is to be shown of the names in them
          rename_i hsame
          obtain ⟨hne, hname⟩ := not_or.mp hsame
          obtain ⟨-, -, h⟩ := ok_of_bind h
          cases h
          refine .inr ⟨?_, ?_, fun id hid hat => hname (hasNameAt_iff.mpr ⟨id, hid, hat⟩), rfl⟩
          · intro hst
            rcases List.prefix_concat_iff.mp hst with he | hst
            · exact hne he
            · nomatch hbelow (List.isPrefixOf_iff_prefix.mpr hst)
          · intro hts
            rcases List.prefix_concat_iff.mp hts with he | hts
            · exact hne he.symm
            · nomatch habove (List.isPrefixOf_iff_prefix.mpr hts)

/-! ## Lookups -/

section Lookups

variable {α β : Type} [BEq α] [LawfulBEq α] {a b : α}

/-- A key is found after a change of keys where it was found before, if it alone becomes what is
looked for. -/
theorem lookup_rekeyed (l : List (α × β)) (keep : α → Bool) (key : α → α) (hkeep : keep a = true)
    (h : ∀ k, keep k = true → (key k = b ↔ k = a)) :
    ((l.filter fun x => keep x.1).map fun x => (key x.1, x.2)).lookup b = l.lookup a := by
  induction l with
  | nil => rfl
  | cons x rest ih =>
    obtain ⟨k, v⟩ := x
    by_cases hk : keep k = true
    · have he : (b == key k) = (a == k) := by
        rw [Bool.eq_iff_iff, beq_iff_eq, beq_iff_eq, eq_comm, h k hk, eq_comm]
      rw [List.filter_cons_of_pos (by exact hk), List.map_cons, List.lookup_cons, List.lookup_cons,
        ih, he]
    · -- an entry that is not kept is not the one that is looked for
      have hne : (a == k) = false := beq_eq_false_iff_ne.mpr fun he => hk (he ▸ hkeep)
      rw [List.filter_cons_of_neg (by exact hk), List.lookup_cons, hne, ih]

/-- A key that none becomes is not found. -/
theorem lookup_rekeyed_none (l : List (α × β)) (keep : α → Bool) (key : α → α)
    (h : ∀ k, keep k = true → key k ≠ b) :
    ((l.filter fun x => keep x.1).map fun x => (key x.1, x.2)).lookup b = none := by
  rw [List.lookup_eq_none_iff]
  intro x hx
  obtain ⟨y, hy, rfl⟩ := List.mem_map.mp hx
  exact bne_iff_ne.mpr (h y.1 (List.mem_filter.mp hy).2).symm

end Lookups

variable {s t : Place}

theorem not_isPrefixOf_iff : (!p.isPrefixOf q) = true ↔ ¬ p <+: q := by
  rw [Bool.not_eq_true', ← List.isPrefixOf_iff_prefix, Bool.not_eq_true]

theorem relocated_of_below (h : s <+: q) : relocated s t q = t ++ q.drop s.length :=
  if_pos (List.isPrefixOf_iff_prefix.mpr h)

theorem relocated_of_not_below (h : ¬ s <+: q) : relocated s t q = q :=
  if_neg fun hp => h (List.isPrefixOf_iff_prefix.mp hp)

theorem ne_nil_of_not_below (h : ¬ s <+: t) : s ≠ [] := by
  rintro rfl
  exact h List.nil_prefix

/-- Taking a place away leaves alone what is not below it. -/
theorem node?_erase_of_not_below (h : ¬ p <+: q) : (fs.erase p).node? q = fs.node? q := by
  unfold node? erase
  split
  · rfl
  · have := lookup_rekeyed fs.nodes (fun k => !p.isPrefixOf k) id (b := q)
      (not_isPrefixOf_iff.mpr h) (fun k _ => Iff.rfl)
    simpa using this

theorem node?_erase_self (h : p ≠ []) : (fs.erase p).node? p = none := by
  unfold node? erase
  rw [if_neg h]
  have := lookup_rekeyed_none fs.nodes (fun k => !p.isPrefixOf k) id (b := p)
    (fun k hk he => not_isPrefixOf_iff.mp hk (he ▸ List.prefix_rfl))
  simpa using this

/-- A move leaves alone what is neither at nor below one of its places. -/
theorem node?_move_of_apart (hs : ¬ s <+: q) (ht : ¬ t <+: q) :
    (fs.move s t).node? q = fs.node? q := by
  unfold node? move
  split
  · rfl
  · refine lookup_rekeyed fs.nodes (fun k => !t.isPrefixOf k) (relocated s t)
      (not_isPrefixOf_iff.mpr ht) fun k _ => ?_
    by_cases hk : s <+: k
    · -- what was taken along is now below the target, and was below the source
      rw [relocated_of_below hk]
      constructor
      · intro he
        exact absurd ⟨_, he⟩ ht
      · intro he
        exact absurd (he ▸ hk) hs
    · rw [relocated_of_not_below hk]

/-- What was at or below the source of a move is at or below its target. -/
theorem node?_move_below (hst : ¬ s <+: t) (hts : ¬ t <+: s) (rest : Place) :
    (fs.move s t).node? (t ++ rest) = fs.node? (s ++ rest) := by
  have ht : t ++ rest ≠ [] := List.append_ne_nil_of_left_ne_nil (ne_nil_of_not_below hts) rest
  have hs : s ++ rest ≠ [] := List.append_ne_nil_of_left_ne_nil (ne_nil_of_not_below hst) rest
  have hkept : ¬ t <+: s ++ rest := by
    intro hbelow
    rcases List.prefix_or_prefix_of_prefix hbelow (List.prefix_append s rest) with h | h
    · exact hts h
    · exact hst h
  unfold node? move
  rw [if_neg ht, if_neg hs]
  refine lookup_rekeyed fs.nodes (fun k => !t.isPrefixOf k) (relocated s t)
    (not_isPrefixOf_iff.mpr hkept) fun k hkeep => ?_
  by_cases hk : s <+: k
  · obtain ⟨more, rfl⟩ := hk
    rw [relocated_of_below (List.prefix_append s more), List.drop_left]
    simp
  · -- what stays is neither below the source nor, as it was kept, below the target
    rw [relocated_of_not_below hk]
    constructor
    · intro he
      exact absurd (he ▸ List.prefix_append t rest) (not_isPrefixOf_iff.mp hkeep)
    · intro he
      exact absurd (he ▸ List.prefix_append s rest) hk

/-- What was at the source of a move is at its target. -/
theorem node?_move_target (hst : ¬ s <+: t) (hts : ¬ t <+: s) :
    (fs.move s t).node? t = fs.node? s := by
  have hmoved : (fs.move s t).node? (t ++ []) = fs.node? (s ++ []) := node?_move_below hst hts []
  rwa [List.append_nil, List.append_nil] at hmoved

/-- Nothing is left at the source of a move. -/
theorem node?_move_source (hst : ¬ s <+: t) (hts : ¬ t <+: s) :
    (fs.move s t).node? s = none := by
  unfold node? move
  rw [if_neg (ne_nil_of_not_below hst)]
  refine lookup_rekeyed_none fs.nodes (fun k => !t.isPrefixOf k) (relocated s t)
    fun k _ he => ?_
  by_cases hk : s <+: k
  · rw [relocated_of_below hk] at he
    exact hts ⟨_, he⟩
  · rw [relocated_of_not_below hk] at he
    exact hk (he ▸ List.prefix_rfl)

end FileSystem

end LogRotation
