/-
  A path that leads to a directory leads through directories.

  The paths above a path are written from its steps, and a file system follows the segments of what was
  written.  Between the two is only text:

    * SEGMENTS   steps that are written as a path are its segments again (`segments_ofComponents`);
    * STEPS      the steps of a path are texts without slashes, behind the root at most
                 (`isSteps_components`), so that a step more is a segment more and nothing else;
    * ABOVE      whoever follows all segments of a path has followed all but the last, out of a
                 directory.

  Main statement: `isDirectory_above`.
-/
import LogRotation.Proofs.Conservation

namespace LogRotation

namespace Path

variable {p : Path} {cs rest : List Component} {c : Component}

/-! ## Segments -/

theorem cutAtSlashes_of_not_mem {t : List Char} (h : '/' ∉ t) : cutAtSlashes t = [t] := by
  induction t with
  | nil => rfl
  | cons c t ih =>
    have hc : c ≠ '/' := fun he => h (he ▸ List.mem_cons_self)
    rw [cutAtSlashes, if_neg hc, ih fun ht => h (List.mem_cons_of_mem c ht)]

theorem cutAtSlashes_append {t : List Char} (h : '/' ∉ t) (more : List Char) :
    cutAtSlashes (t ++ '/' :: more) = t :: cutAtSlashes more := by
  induction t with
  | nil => rw [List.nil_append, cutAtSlashes, if_pos rfl]
  | cons c t ih =>
    have hc : c ≠ '/' := fun he => h (he ▸ List.mem_cons_self)
    rw [List.cons_append, cutAtSlashes, if_neg hc, ih fun ht => h (List.mem_cons_of_mem c ht)]

/-- Texts without slashes that are joined by slashes are cut as they were joined. -/
theorem cutAtSlashes_intercalate {ts : List (List Char)} (hne : ts ≠ [])
    (h : ∀ t ∈ ts, '/' ∉ t) : cutAtSlashes (['/'].intercalate ts) = ts := by
  induction ts with
  | nil => exact absurd rfl hne
  | cons t ts ih =>
    have ht : '/' ∉ t := h t List.mem_cons_self
    cases ts with
    | nil => rw [List.intercalate_singleton, cutAtSlashes_of_not_mem ht]
    | cons t' ts =>
      rw [List.intercalate_cons_cons, List.append_assoc, List.singleton_append, cutAtSlashes_append ht,
        ih (List.cons_ne_nil t' ts) fun s hs => h s (List.mem_cons_of_mem t hs)]

theorem not_mem_of_mem_cutAtSlashes {cs t : List Char} (h : t ∈ cutAtSlashes cs) : '/' ∉ t := by
  induction cs generalizing t with
  | nil =>
    rw [List.mem_singleton.mp h]
    exact List.not_mem_nil
  | cons c cs ih =>
    rw [cutAtSlashes] at h
    split at h
    · rcases List.mem_cons.mp h with rfl | h
      · exact List.not_mem_nil
      · exact ih h
    · rename_i hc
      -- the first segment has a character more
      have hlonger : ∀ s ∈ cutAtSlashes cs, '/' ∉ c :: s := by
        intro s hs hslash
        rcases List.mem_cons.mp hslash with he | hslash
        · exact hc he.symm
        · exact ih hs hslash
      cases hcut : cutAtSlashes cs with
      | nil =>
        rw [hcut] at h
        rw [List.mem_singleton.mp h]
        exact fun hslash => hc (List.mem_singleton.mp hslash).symm
      | cons s others =>
        rw [hcut] at h hlonger ih
        rcases List.mem_cons.mp h with rfl | h
        · exact hlonger s List.mem_cons_self
        · exact ih (List.mem_cons_of_mem s h)

/-! ## Steps -/

/-- Holds of a step with a text of its own, which has no slash. -/
def Component.Plain (c : Component) : Prop := c.text ≠ "" ∧ '/' ∉ c.text.toList

/-- Holds of steps as a path has them: only the first may be the root. -/
def IsSteps (cs : List Component) : Prop :=
  (∀ c ∈ cs, c.Plain) ∨ ∃ rest, cs = .root :: rest ∧ ∀ c ∈ rest, c.Plain

theorem plain_of_mem_segments {s : String} (hs : s ∈ p.segments) (hc : stepOf s = some c) :
    c.Plain := by
  obtain ⟨t, ht, rfl⟩ := List.mem_map.mp hs
  obtain ⟨ht, hne⟩ := List.mem_filter.mp ht
  have hslash := not_mem_of_mem_cutAtSlashes ht
  have htext : ("" : String) ≠ String.ofList t := by
    intro he
    have hnil : t = [] := by
      rw [← String.toList_ofList (l := t), ← he]
      rfl
    rw [hnil] at hne
    cases hne
  unfold stepOf at hc
  split at hc
  · cases hc
  · split at hc
    · cases hc
      exact ⟨by decide, by decide⟩
    · cases hc
      refine ⟨fun he => htext he.symm, ?_⟩
      show '/' ∉ (String.ofList t).toList
      rwa [String.toList_ofList]

theorem isSteps_components (p : Path) : IsSteps p.components := by
  have hplain : ∀ c ∈ p.segments.filterMap stepOf, c.Plain := by
    intro c hc
    obtain ⟨s, hs, hc⟩ := List.mem_filterMap.mp hc
    exact plain_of_mem_segments hs hc
  unfold components
  dsimp only
  split
  · exact .inr ⟨_, rfl, hplain⟩
  · split
    · refine .inl fun c hc => ?_
      rcases List.mem_cons.mp hc with rfl | hc
      · exact ⟨by decide, by decide⟩
      · exact hplain c hc
    · exact .inl hplain

/-- Without the last step, the steps of a path are those of a path. -/
theorem IsSteps.of_concat (h : IsSteps (cs ++ [c])) (hne : cs ≠ []) : IsSteps cs ∧ c.Plain := by
  rcases h with h | ⟨rest, he, h⟩
  · exact ⟨.inl fun d hd => h d (List.mem_append_left _ hd), h c (List.mem_append_right _ List.mem_cons_self)⟩
  · obtain ⟨first, more, rfl⟩ := List.exists_cons_of_ne_nil hne
    obtain ⟨rfl, rfl⟩ := List.cons.inj he
    exact ⟨.inr ⟨more, rfl, fun d hd => h d (List.mem_append_left _ hd)⟩,
      h c (List.mem_append_right _ List.mem_cons_self)⟩

theorem IsSteps.not_mem_text (h : IsSteps cs) (hc : c ∈ cs) : '/' ∉ c.text.toList := by
  rcases h with h | ⟨rest, rfl, h⟩
  · exact (h c hc).2
  · rcases List.mem_cons.mp hc with rfl | hc
    · exact List.not_mem_nil
    · exact (h c hc).2

/-! ## Steps that are written -/

theorem ofComponents_of_ne (h : cs ≠ [.root]) :
    (ofComponents cs).text = String.intercalate "/" (cs.map Component.text) := by
  unfold ofComponents
  split
  · exact absurd rfl h
  · rfl

/-- Steps that are written as a path are its segments, but for the root, which is none. -/
theorem segments_ofComponents (h : IsSteps cs) :
    (ofComponents cs).segments = (cs.map Component.text).filter (fun s => !s.isEmpty) := by
  by_cases hroot : cs = [.root]
  · rw [hroot]
    decide
  by_cases hnil : cs = []
  · rw [hnil]
    decide
  have hcut : cutAtSlashes (ofComponents cs).text.toList = (cs.map Component.text).map String.toList := by
    rw [ofComponents_of_ne hroot, String.toList_intercalate]
    refine cutAtSlashes_intercalate (by simpa using hnil) ?_
    intro t ht
    obtain ⟨s, hs, rfl⟩ := List.mem_map.mp ht
    obtain ⟨c, hc, rfl⟩ := List.mem_map.mp hs
    exact h.not_mem_text hc
  rw [segments, hcut, List.filter_map, List.map_map]
  have hempty : ((fun s => !s.isEmpty) ∘ String.toList : String → Bool) = fun s => !s.isEmpty := by
    funext s
    show (!s.toList.isEmpty) = !s.isEmpty
    rw [Bool.eq_iff_iff, Bool.not_eq_true', Bool.not_eq_true', ← Bool.not_eq_true, ← Bool.not_eq_true,
      List.isEmpty_iff, String.isEmpty_iff, String.toList_eq_nil_iff]
  have htext : String.ofList ∘ String.toList = id := by
    funext s
    exact String.ofList_toList
  rw [hempty, htext, List.map_id]

/-- A path of one step or more has a text. -/
theorem IsSteps.text_ne_empty (h : IsSteps cs) (hne : cs ≠ []) : (ofComponents cs).text ≠ "" := by
  obtain ⟨c, rest, rfl⟩ := List.exists_cons_of_ne_nil hne
  by_cases hroot : c :: rest = [.root]
  · rw [hroot]
    decide
  rw [ofComponents_of_ne hroot]
  cases rest with
  | nil =>
    rcases h with h | ⟨rest, he, -⟩
    · exact (h c List.mem_cons_self).1
    · obtain ⟨rfl, -⟩ := List.cons.inj he
      exact absurd rfl hroot
  | cons d rest =>
    intro he
    rw [List.map_cons, List.map_cons, String.intercalate_cons_cons, ← String.toList_eq_nil_iff] at he
    simp at he

/-- One step more is written behind the others. -/
theorem text_ofComponents_concat (hne : cs ≠ []) (c : Component) :
    ∃ more, (ofComponents (cs ++ [c])).text = (ofComponents cs).text ++ more := by
  have hmore : cs ++ [c] ≠ [.root] := by
    intro he
    obtain ⟨first, rest, rfl⟩ := List.exists_cons_of_ne_nil hne
    exact List.append_ne_nil_of_right_ne_nil rest (List.cons_ne_nil c []) (List.cons.inj he).2
  have htexts : cs.map Component.text ≠ [] := List.map_eq_nil_iff.not.mpr hne
  rw [ofComponents_of_ne hmore, List.map_append, List.map_singleton,
    String.intercalate_append_of_ne_nil htexts (List.cons_ne_nil _ _), String.intercalate_singleton]
  by_cases hroot : cs = [.root]
  · -- the root brings a slash of its own
    refine ⟨c.text, ?_⟩
    rw [hroot]
    rfl
  · rw [ofComponents_of_ne hroot, String.append_assoc]
    exact ⟨_, rfl⟩

end Path

namespace FileSystem

variable {fs : FileSystem} {x y : Path} {p q : Place}

/-! ## Directories above directories -/

/-- What is not refused for a longer text is not refused for its start. -/
theorem checkText_of_append {more : String} (hy : y.text = x.text ++ more) (hne : x.text ≠ "")
    (h : checkText y = .ok ()) : checkText x = .ok () := by
  unfold checkText at h ⊢
  split at h
  · cases h
  rename_i hnul
  split at h
  · cases h
  split at h
  · cases h
  rename_i hlong
  rw [if_neg, if_neg, if_neg]
  · rw [hy, String.utf8ByteSize_append] at hlong
    omega
  · rwa [Path.isEmpty, String.isEmpty_iff]
  · intro hx
    refine hnul ?_
    rw [List.contains_iff_mem] at hx ⊢
    rw [hy, String.toList_append]
    exact List.mem_append_left _ hx

theorem isDirectory_iff : fs.isDirectory x = true ↔ ∃ p, fs.resolve x = .ok (p, .directory) := by
  unfold isDirectory
  constructor
  · intro h
    split at h
    · rename_i p hp
      exact ⟨p, hp⟩
    · cases h
  · rintro ⟨p, hp⟩
    rw [hp]

theorem walk_concat (fs : FileSystem) (p : Place) (segments : List String) (s : String) :
    fs.walk p (segments ++ [s]) = (fs.walk p segments >>= fun q => fs.step q s) := by
  rw [walk, List.foldlM_append]
  refine bind_congr fun q => ?_
  show (fs.step q s >>= fun q => pure q) = fs.step q s
  rw [bind_pure]

/-- Where a path leads to something, the path without its last step leads to a directory. -/
theorem isDirectory_of_concat {cs : List Path.Component} {c : Path.Component}
    (h : Path.IsSteps (cs ++ [c])) (hne : cs ≠ [])
    (hdir : fs.isDirectory (.ofComponents (cs ++ [c])) = true) :
    fs.isDirectory (.ofComponents cs) = true := by
  obtain ⟨hsteps, hplain⟩ := h.of_concat hne
  obtain ⟨more, hmore⟩ := Path.text_ofComponents_concat hne c
  have htext := hsteps.text_ne_empty hne
  obtain ⟨p, hp⟩ := isDirectory_iff.mp hdir
  obtain ⟨hcheck, hwalk, -, -⟩ := resolve_eq_ok_iff.mp hp
  have hsegments : (Path.ofComponents (cs ++ [c])).segments = (Path.ofComponents cs).segments ++ [c.text] := by
    have hc : (!c.text.isEmpty) = true := by
      rw [Bool.not_eq_true', ← Bool.not_eq_true, String.isEmpty_iff]
      exact hplain.1
    rw [Path.segments_ofComponents h, Path.segments_ofComponents hsteps, List.map_append,
      List.filter_append, List.map_singleton, List.filter_cons_of_pos (by exact hc), List.filter_nil]
  have horigin : fs.origin (.ofComponents (cs ++ [c])) = fs.origin (.ofComponents cs) := by
    have hhead : (Path.ofComponents (cs ++ [c])).isAbsolute = (Path.ofComponents cs).isAbsolute := by
      obtain ⟨first, rest, hfirst⟩ := List.exists_cons_of_ne_nil (String.toList_eq_nil_iff.not.mpr htext)
      rw [Path.isAbsolute, Path.isAbsolute, hmore, String.toList_append, hfirst]
      rfl
    rw [origin, origin, hhead]
  rw [hsegments, walk_concat, horigin] at hwalk
  obtain ⟨q, hwalk, hstep⟩ := ok_of_bind hwalk
  obtain ⟨u, hrequire, -⟩ := ok_of_bind hstep
  have hq := requireDirectory_ok hrequire
  exact isDirectory_iff.mpr
    ⟨q, resolve_eq_ok_iff.mpr ⟨checkText_of_append hmore htext hcheck, hwalk, fun _ => rfl, hq⟩⟩

/-- If the first of a path and the paths above it leads to a directory, then all of them do. -/
theorem isDirectory_ancestorsOf {cs : List Path.Component} (h : Path.IsSteps cs.reverse)
    (hdir : ∀ x ∈ (Path.ancestorsOf cs).head?, fs.isDirectory x = true) :
    ∀ x ∈ Path.ancestorsOf cs, fs.isDirectory x = true := by
  induction cs with
  | nil => exact nofun
  | cons c above ih =>
    have hfirst : fs.isDirectory (.ofComponents (above.reverse ++ [c])) = true := by
      rw [← List.reverse_cons]
      exact hdir _ rfl
    intro x hx
    rcases List.mem_cons.mp hx with rfl | hx
    · exact hdir _ rfl
    · cases above with
      | nil => cases hx
      | cons c' above =>
        rw [List.reverse_cons] at h
        have hne : (c' :: above).reverse ≠ [] := by simp
        refine ih (h.of_concat hne).1 ?_ x hx
        rintro y ⟨⟩
        exact isDirectory_of_concat h hne hfirst

/-- **Directories above directories.**  Where the nearest of the directories above a path is there, all of
them are. -/
theorem isDirectory_above (hdir : ∀ d ∈ x.above.head?, fs.isDirectory d = true) :
    ∀ d ∈ x.above, fs.isDirectory d = true := by
  unfold Path.above at hdir ⊢
  split
  · rename_i parent hparent
    rw [hparent] at hdir
    refine isDirectory_ancestorsOf ?_ hdir
    rw [List.reverse_reverse]
    exact Path.isSteps_components parent
  · exact nofun

end FileSystem

end LogRotation
