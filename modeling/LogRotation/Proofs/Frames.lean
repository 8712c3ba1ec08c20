/-
  What an operation leaves alone, for paths that do not get in each other's way.

  A log owns several paths.  As long as none of them is at or above another, and each that has a
  file has a file of its own, an operation at one of them is not seen at the others: this is a
  frame.

    * APART    neither path is at or above the other, nor made a directory on the way to it;
    * TIDY     the files at some paths are known, each one's own, and no devices;
    * FRAME    a step that keeps paths tidy, and that is seen at the touched paths only.
-/
import LogRotation.Proofs.Places
import Mathlib.Data.List.Pairwise

namespace LogRotation

namespace Path

/-- The directories that are made before a path is opened. -/
def above (x : Path) : List Path :=
  match x.parent? with
  | some parent => parent.ancestors
  | none => []

/-- Holds of a path that is at or above another one, as its place or as a directory on the way. -/
def Covers (here : Place) (x y : Path) : Prop :=
  x.placeIn here <+: y.placeIn here ∨ ∃ d ∈ y.above, d.placeIn here = x.placeIn here

/-- Holds of paths of which neither is at or above the other. -/
def Apart (here : Place) (x y : Path) : Prop := ¬ x.Covers here y ∧ ¬ y.Covers here x

instance (here : Place) (x y : Path) : Decidable (x.Covers here y) := by
  unfold Covers; infer_instance

instance (here : Place) (x y : Path) : Decidable (x.Apart here y) := by
  unfold Apart; infer_instance

theorem covers_self (here : Place) (x : Path) : x.Covers here x := .inl List.prefix_rfl

theorem Apart.symm {here : Place} {x y : Path} (h : x.Apart here y) : y.Apart here x := ⟨h.2, h.1⟩

theorem Apart.ne {here : Place} {x y : Path} (h : x.Apart here y) : x ≠ y := by
  rintro rfl
  exact h.1 (covers_self here x)

instance (here : Place) : Std.Symm (Apart here) := ⟨fun _ _ => Apart.symm⟩

/-- Of paths that are apart in pairs, each is not below any other. -/
theorem not_prefix_of_pairwise {here : Place} {xs : List Path} (h : xs.Pairwise (Apart here))
    {x y : Path} (hx : x ∈ xs) (hy : y ∈ xs) (hne : x ≠ y) :
    ¬ x.placeIn here <+: y.placeIn here := by
  have hxy : x.Apart here y := h.forall hx hy hne
  intro hp
  exact hxy.1 (.inl hp)

end Path

namespace FileSystem

variable {fs fs' fs'' : FileSystem} {xs : List Path} {x y : Path} {touched : Path → Prop}

/-! ## The same at a path -/

/-- Holds where a path leads to the same node in both, and its file has the same content. -/
structure SameAt (fs fs' : FileSystem) (x : Path) : Prop where
  node : fs'.nodeAt x = fs.nodeAt x
  content : ∀ id, fs.nodeAt x = some (.file id) → fs'.content id = fs.content id

theorem SameAt.refl (fs : FileSystem) (x : Path) : SameAt fs fs x := ⟨rfl, fun _ _ => rfl⟩

theorem SameAt.trans (h : SameAt fs fs' x) (h' : SameAt fs' fs'' x) : SameAt fs fs'' x where
  node := h'.node.trans h.node
  content id hx := (h'.content id (h.node.trans hx)).trans (h.content id hx)

/-! ## Tidy paths -/

/-- Holds of paths whose files are known and no two paths', and of which none is a device. -/
structure Tidy (fs : FileSystem) (xs : List Path) : Prop where
  known : ∀ x ∈ xs, ∀ id, fs.nodeAt x = some (.file id) → id < fs.fresh
  single : ∀ x ∈ xs, ∀ y ∈ xs, ∀ id,
    fs.nodeAt x = some (.file id) → fs.nodeAt y = some (.file id) → x = y
  noDevice : ∀ x ∈ xs, fs.nodeAt x ≠ some .full

/-- The number of the file at a path, if there is one. -/
def fileAt? (fs : FileSystem) (x : Path) : Option Nat :=
  match fs.nodeAt x with
  | some (.file id) => some id
  | _ => none

theorem mem_fileAt? {fs : FileSystem} {x : Path} {id : Nat} :
    id ∈ fs.fileAt? x ↔ fs.nodeAt x = some (.file id) := by
  unfold fileAt?
  split
  · rename_i other hnode
    rw [hnode, Option.mem_some_iff, Option.some.injEq, Node.file.injEq]
  · rename_i hnot
    exact ⟨fun h => absurd h (Option.not_mem_none id), fun h => absurd h (hnot id)⟩

instance (fs : FileSystem) (xs : List Path) : Decidable (fs.Tidy xs) :=
  decidable_of_iff ((∀ x ∈ xs, ∀ id ∈ fs.fileAt? x, id < fs.fresh) ∧
      (∀ x ∈ xs, ∀ y ∈ xs, ∀ id ∈ fs.fileAt? x, id ∈ fs.fileAt? y → x = y) ∧
      ∀ x ∈ xs, fs.nodeAt x ≠ some .full) <| by
    simp only [mem_fileAt?]
    exact ⟨fun h => ⟨h.1, h.2.1, h.2.2⟩, fun h => ⟨h.known, h.single, h.noDevice⟩⟩

/-! ## Frames -/

/-- A step that keeps paths tidy, and that is seen at the touched ones only. -/
structure Frame (xs : List Path) (touched : Path → Prop) (fs fs' : FileSystem) : Prop where
  here : fs'.here = fs.here
  tidy : fs.Tidy xs → fs'.Tidy xs
  same : ∀ x ∈ xs, ¬ touched x → SameAt fs fs' x

theorem Frame.refl (xs : List Path) (touched : Path → Prop) (fs : FileSystem) :
    Frame xs touched fs fs :=
  ⟨rfl, id, fun x _ _ => .refl fs x⟩

theorem Frame.trans (h : Frame xs touched fs fs') (h' : Frame xs touched fs' fs'') :
    Frame xs touched fs fs'' where
  here := h'.here.trans h.here
  tidy := h'.tidy ∘ h.tidy
  same x hx ht := (h.same x hx ht).trans (h'.same x hx ht)

theorem Frame.mono {more : Path → Prop} (h : Frame xs touched fs fs')
    (hm : ∀ x ∈ xs, touched x → more x) : Frame xs more fs fs' where
  here := h.here
  tidy := h.tidy
  same x hx ht := h.same x hx fun htouched => ht (hm x hx htouched)

/-- Paths stay tidy where each file has a path that it came from, and no two came from one. -/
theorem Tidy.of_source (h : fs.Tidy xs) (source : Path → Path) (hfresh : fs.fresh ≤ fs'.fresh)
    (hsource : ∀ y ∈ xs, ∀ n, fs'.nodeAt y = some n → n ≠ .directory →
      source y ∈ xs ∧ fs.nodeAt (source y) = some n)
    (hinj : ∀ y ∈ xs, ∀ z ∈ xs, fs'.nodeAt y ≠ none → fs'.nodeAt z ≠ none →
      source y = source z → y = z) : fs'.Tidy xs where
  known y hy id hn := by
    obtain ⟨hs, hsn⟩ := hsource y hy _ hn (by simp)
    exact Nat.lt_of_lt_of_le (h.known _ hs id hsn) hfresh
  single y hy z hz id hny hnz := by
    obtain ⟨hsy, hsny⟩ := hsource y hy _ hny (by simp)
    obtain ⟨hsz, hsnz⟩ := hsource z hz _ hnz (by simp)
    exact hinj y hy z hz (by simp [hny]) (by simp [hnz]) (h.single _ hsy _ hsz id hsny hsnz)
  noDevice y hy hn := by
    obtain ⟨hs, hsn⟩ := hsource y hy _ hn (by simp)
    exact h.noDevice _ hs hsn

/-! ## Frames of the operations -/

/-- What is at a path after a directory was made at a free place. -/
theorem nodeAt_insert_directory (p : Place) (h : fs.node? p = none) (y : Path) :
    (fs.insert p .directory).nodeAt y =
      if y.placeIn fs.here = p then some .directory else fs.nodeAt y := by
  have hp : p ≠ [] := by
    rintro rfl
    cases h
  show (fs.insert p .directory).node? (y.placeIn fs.here) = _
  split
  · rename_i hy
    rw [hy, node?_insert_self fs .directory hp]
  · rename_i hy
    exact node?_insert_of_ne fs .directory hy

/-- A new directory is seen at its place only. -/
theorem frame_insert_directory (xs : List Path) (p : Place) (h : fs.node? p = none) :
    Frame xs (fun y => y.placeIn fs.here = p) fs (fs.insert p .directory) := by
  have hnode := nodeAt_insert_directory p h
  refine ⟨rfl, ?_, ?_⟩
  · intro ht
    refine ht.of_source id (Nat.le_refl _) ?_ (fun _ _ _ _ _ _ he => he)
    intro y hy n hn hdir
    refine ⟨hy, ?_⟩
    rw [hnode] at hn
    split at hn
    · cases hn
      exact absurd rfl hdir
    · exact hn
  · intro y _ hy
    exact ⟨(hnode y).trans (if_neg hy), fun _ _ => rfl⟩

theorem nodeAt_addFile (h : fs.nodeAt x = none) :
    (fs.addFile (x.placeIn fs.here)).2.nodeAt x = some (.file fs.fresh) := by
  have hp : x.placeIn fs.here ≠ [] := by
    intro hp
    rw [nodeAt, hp] at h
    cases h
  exact node?_insert_self fs _ hp

theorem content_addFile (p : Place) : (fs.addFile p).2.content fs.fresh = .empty :=
  content_setContent_self (fs.insert p (.file fs.fresh)) fs.fresh .empty

/-- A new file is seen at its path only. -/
theorem frame_addFile (apart : xs.Pairwise (Path.Apart fs.here)) (tidy : fs.Tidy xs) (hx : x ∈ xs)
    (h : fs.nodeAt x = none) :
    Frame xs (· = x) fs (fs.addFile (x.placeIn fs.here)).2 := by
  have hother : ∀ y ∈ xs, y ≠ x → (fs.addFile (x.placeIn fs.here)).2.nodeAt y = fs.nodeAt y := by
    intro y hy hne
    refine node?_insert_of_ne fs _ fun he => ?_
    exact Path.not_prefix_of_pairwise apart hy hx hne (he ▸ List.prefix_rfl)
  have hnew := nodeAt_addFile h
  have hcases : ∀ y ∈ xs, ∀ n, (fs.addFile (x.placeIn fs.here)).2.nodeAt y = some n →
      (y = x ∧ n = .file fs.fresh) ∨ (y ≠ x ∧ fs.nodeAt y = some n) := by
    intro y hy n hn
    by_cases hne : y = x
    · subst hne
      rw [hnew] at hn
      exact .inl ⟨rfl, (Option.some.inj hn).symm⟩
    · exact .inr ⟨hne, (hother y hy hne).symm.trans hn⟩
  refine ⟨rfl, fun _ => ⟨?_, ?_, ?_⟩, ?_⟩
  · -- known: the new file is the last one
    intro y hy id hn
    show id < fs.fresh + 1
    rcases hcases y hy _ hn with ⟨-, he⟩ | ⟨-, hold⟩
    · cases he
      omega
    · have := tidy.known y hy id hold
      omega
  · -- single: no known file is the new one
    intro y hy z hz id hny hnz
    rcases hcases y hy _ hny with ⟨rfl, hey⟩ | ⟨-, holdy⟩ <;>
      rcases hcases z hz _ hnz with ⟨rfl, hez⟩ | ⟨-, holdz⟩
    · rfl
    · cases hey
      exact absurd (tidy.known z hz _ holdz) (Nat.lt_irrefl _)
    · cases hez
      exact absurd (tidy.known y hy _ holdy) (Nat.lt_irrefl _)
    · exact tidy.single y hy z hz id holdy holdz
  · -- no device
    intro y hy hn
    rcases hcases y hy _ hn with ⟨-, he⟩ | ⟨-, hold⟩
    · cases he
    · exact tidy.noDevice y hy hold
  · -- the same elsewhere
    intro y hy hne
    refine ⟨hother y hy hne, fun id hid => ?_⟩
    have hold := tidy.known y hy id hid
    exact content_setContent_of_ne _ _ (by omega)

/-- A new content is seen at the path of its file only. -/
theorem frame_setContent (tidy : fs.Tidy xs) (hx : x ∈ xs) {id : Nat}
    (h : fs.nodeAt x = some (.file id)) (c : Content) :
    Frame xs (· = x) fs (fs.setContent id c) := by
  refine ⟨rfl, fun ht => ⟨ht.known, ht.single, ht.noDevice⟩, ?_⟩
  intro y hy hne
  refine ⟨rfl, fun other ho => ?_⟩
  have hother : other ≠ id := by
    rintro rfl
    exact hne (tidy.single y hy x hx other ho h)
  exact content_setContent_of_ne fs c hother

/-- Taking a path away is seen at that path only. -/
theorem frame_erase (apart : xs.Pairwise (Path.Apart fs.here)) (hx : x ∈ xs) :
    Frame xs (· = x) fs (fs.erase (x.placeIn fs.here)) := by
  have hother : ∀ y ∈ xs, y ≠ x → (fs.erase (x.placeIn fs.here)).nodeAt y = fs.nodeAt y :=
    fun y hy hne => node?_erase_of_not_below (Path.not_prefix_of_pairwise apart hx hy hne.symm)
  -- the root cannot be taken away, but it is no file either
  have hgone : ∀ n, n ≠ .directory → (fs.erase (x.placeIn fs.here)).nodeAt x ≠ some n := by
    intro n hdir
    show (fs.erase (x.placeIn fs.here)).node? (x.placeIn fs.here) ≠ some n
    by_cases hroot : x.placeIn fs.here = []
    · rw [hroot, node?_root]
      intro he
      exact hdir (Option.some.inj he).symm
    · rw [node?_erase_self hroot]
      exact (Option.some_ne_none n).symm
  refine ⟨rfl, ?_, fun y hy hne => ⟨hother y hy hne, fun _ _ => rfl⟩⟩
  intro ht
  refine ht.of_source id (Nat.le_refl _) ?_ (fun _ _ _ _ _ _ he => he)
  intro y hy n hn hdir
  refine ⟨hy, ?_⟩
  by_cases hne : y = x
  · subst hne
    exact absurd hn (hgone n hdir)
  · exact (hother y hy hne).symm.trans hn

/-- A file that was taken away is gone, which is seen at its path only. -/
theorem frame_remove (apart : xs.Pairwise (Path.Apart fs.here)) (hx : x ∈ xs)
    (h : fs.remove x = .ok fs') : Frame xs (· = x) fs fs' ∧ fs'.nodeAt x = none := by
  obtain ⟨n, hn, hdir, rfl⟩ := remove_ok h
  have hroot : x.placeIn fs.here ≠ [] := by
    intro hroot
    rw [nodeAt, hroot, node?_root] at hn
    exact hdir (Option.some.inj hn).symm
  exact ⟨frame_erase apart hx, node?_erase_self hroot⟩

/-- A move is seen at its two paths only. -/
theorem frame_move (apart : xs.Pairwise (Path.Apart fs.here)) (hx : x ∈ xs) (hy : y ∈ xs)
    (hne : x ≠ y) :
    Frame xs (fun z => z = x ∨ z = y) fs (fs.move (x.placeIn fs.here) (y.placeIn fs.here)) := by
  have hxy := Path.not_prefix_of_pairwise apart hx hy hne
  have hyx := Path.not_prefix_of_pairwise apart hy hx hne.symm
  have hsource : (fs.move (x.placeIn fs.here) (y.placeIn fs.here)).nodeAt x = none :=
    node?_move_source hxy hyx
  have htarget : (fs.move (x.placeIn fs.here) (y.placeIn fs.here)).nodeAt y = fs.nodeAt x :=
    node?_move_target hxy hyx
  have hother : ∀ z ∈ xs, ¬ (z = x ∨ z = y) →
      (fs.move (x.placeIn fs.here) (y.placeIn fs.here)).nodeAt z = fs.nodeAt z := by
    intro z hz hzxy
    have ⟨hzx, hzy⟩ := not_or.mp hzxy
    exact node?_move_of_apart (Path.not_prefix_of_pairwise apart hx hz (Ne.symm hzx))
      (Path.not_prefix_of_pairwise apart hy hz (Ne.symm hzy))
  refine ⟨rfl, ?_, fun z hz hzxy => ⟨hother z hz hzxy, fun _ _ => rfl⟩⟩
  intro ht
  -- what is at the target came from the source; where the source was is nothing
  refine ht.of_source (fun z => if z = y then x else z) (Nat.le_refl _) ?_ ?_
  · intro z hz n hn _
    by_cases hzy : z = y
    · subst hzy
      rw [if_pos rfl, ← htarget]
      exact ⟨hx, hn⟩
    · rw [if_neg hzy]
      by_cases hzx : z = x
      · subst hzx
        rw [hsource] at hn
        cases hn
      · exact ⟨hz, (hother z hz (not_or.mpr ⟨hzx, hzy⟩)).symm.trans hn⟩
  · intro z _ z' _ hz hz' he
    have hzx : z ≠ x := by
      rintro rfl
      exact hz hsource
    have hzx' : z' ≠ x := by
      rintro rfl
      exact hz' hsource
    split at he <;> split at he
    · rename_i h h'
      rw [h, h']
    · exact absurd he.symm hzx'
    · exact absurd he hzx
    · exact he

/-- A file that was moved is seen at its two paths only: nothing is where it was, and where it was
moved to is what was there. -/
theorem frame_rename (apart : xs.Pairwise (Path.Apart fs.here)) (tidy : fs.Tidy xs) (hx : x ∈ xs)
    (hy : y ∈ xs) (hne : x ≠ y) (h : fs.rename x y = .ok fs') :
    Frame xs (fun z => z = x ∨ z = y) fs fs' ∧ fs'.nodeAt x = none ∧ fs'.nodeAt y = fs.nodeAt x ∧
      ∀ id, fs'.content id = fs.content id := by
  have hxy := Path.not_prefix_of_pairwise apart hx hy hne
  obtain ⟨n, hn, ⟨hplace | ⟨id, rfl, hid⟩, -⟩ | ⟨-, hyx, -, rfl⟩⟩ := rename_ok h
  · exact absurd (hplace ▸ List.prefix_rfl) hxy
  · exact absurd (tidy.single x hx y hy id hn hid) hne
  · exact ⟨frame_move apart hx hy hne, node?_move_source hxy hyx, node?_move_target hxy hyx,
      fun _ => rfl⟩

end FileSystem

end LogRotation
