/-
  What a JSON document sets of a rolling configuration.

  An object gives each field at most once, under one of its names, in any order and among members that
  name no field; an array gives the fields in their order, and may stop early.  What is not given has
  its default.  Names are texts, as all strings of RFC 8259 are: what half a pair of surrogates should
  stand for is left open there, and here no name has one.  In a value that is passed over it may stand.

    * FIELDS     a configuration and a draft as functions of the field, so that what holds of every
                 field is proved once (`setField_eq_some_iff`);
    * MEMBERS    what one member does to a draft, and from it what a run over all members does
                 (`setMembers_cons_iff`, `settled_of_setMembers`, `exists_setMembers`);
    * DOCUMENTS  which objects and arrays describe a configuration (`config?_object_iff`,
                 `config?_array_iff`), and that each has some in every order (`exists_document`).

  Main statement: `reading_is_by_fields`.
-/
import Mathlib.Tactic.Choose
import LogRotation.Config.Format
import LogRotation.Proofs.JsonTexts

/-! ## Fields -/

namespace LogRotation.Config

/-- The names of a field. -/
def Key.names : Key → List String
  | .fileNamePattern => ["file_name_pattern", "FileNamePattern"]
  | .activeFile => ["active_file_name", "ActiveFileName"]
  | .zone => ["time_zone"]

theorem Key.ofName?_eq_some_iff {name : String} {k : Key} :
    Key.ofName? name = some k ↔ name ∈ k.names := by
  constructor
  · intro h
    rw [Key.ofName?] at h
    split at h
    · cases h
      simpa [Key.names]
    split at h
    · cases h
      simpa [Key.names]
    split at h
    · cases h
      simpa [Key.names]
    · nomatch h
  · intro h
    cases k
    all_goals
      simp only [Key.names, List.mem_cons, List.not_mem_nil, or_false] at h
      rcases h with rfl | rfl <;> decide

/-- What a field holds: a text that may be missing, or a zone. -/
abbrev Key.Content : Key → Type
  | .fileNamePattern | .activeFile => Option String
  | .zone => Zone

/-- What a field holds when it is not given. -/
def Key.default : (k : Key) → k.Content
  | .fileNamePattern | .activeFile => none
  | .zone => .localTime

/-- What a configuration has in a field. -/
def field (c : Config) : (k : Key) → k.Content
  | .fileNamePattern => c.fileNamePattern
  | .activeFile => c.activeFile.map Path.text
  | .zone => c.zone

theorem eq_of_field {c d : Config} (h : ∀ k, c.field k = d.field k) : c = d := by
  obtain ⟨p, a, z⟩ := c
  obtain ⟨p', a', z'⟩ := d
  obtain rfl : p = p' := h .fileNamePattern
  obtain rfl : z = z' := h .zone
  have ha : a.map Path.text = a'.map Path.text := h .activeFile
  have hinj : Function.Injective Path.text := fun x y he => by cases x; cases y; cases he; rfl
  obtain rfl : a = a' := Option.map_injective hinj ha
  rfl

namespace Draft

/-- What a draft has in a field that is set. -/
def field? (d : Draft) : (k : Key) → Option k.Content
  | .fileNamePattern => d.fileNamePattern
  | .activeFile => d.activeFile
  | .zone => d.zone

/-- Sets a field. -/
def set (d : Draft) : (k : Key) → k.Content → Draft
  | .fileNamePattern, t => { d with fileNamePattern := some t }
  | .activeFile, t => { d with activeFile := some t }
  | .zone, z => { d with zone := some z }

@[simp] theorem field?_empty (k : Key) : empty.field? k = none := by cases k <;> rfl

@[simp] theorem field?_set (d : Draft) (k : Key) (x : k.Content) :
    (d.set k x).field? k = some x := by cases k <;> rfl

theorem field?_set_of_ne {d : Draft} {k k' : Key} (x : k.Content) (h : k' ≠ k) :
    (d.set k x).field? k' = d.field? k' := by
  cases k <;> cases k' <;> simp [set, field?] at h ⊢

theorem has_eq (d : Draft) (k : Key) : d.has k = (d.field? k).isSome := by cases k <;> rfl

theorem field_config (d : Draft) (k : Key) : d.config.field k = (d.field? k).getD k.default := by
  obtain ⟨p, a, z⟩ := d
  cases k with
  | fileNamePattern => cases p <;> rfl
  | activeFile => rcases a with _ | _ | a <;> rfl
  | zone => cases z <;> rfl

end Draft

end LogRotation.Config

namespace LogRotation.Json

open Config (Key Draft)

/-! ## What gives a field -/

/-- `OptionalText t v` - a text, or null for none. -/
inductive OptionalText : Option String → Value → Prop
  | absent : OptionalText none .null
  | text {t : String} {s : List Element} : Means s t.toList → OptionalText (some t) (.string s)

/-- `ZoneName z v` - the name of a zone, or an object of that name and nothing. -/
inductive ZoneName : Zone → Value → Prop
  | word {z : Zone} {s : List Element} : Means s z.name.toList → ZoneName z (.string s)
  | tagged {z : Zone} {s : List Element} : Means s z.name.toList →
      ZoneName z (.object [(s, .null)])

/-- `Gives k x v` - the value `v` gives the content `x` to the field `k`. -/
def Gives : (k : Key) → k.Content → Value → Prop
  | .fileNamePattern, t, v | .activeFile, t, v => OptionalText t v
  | .zone, z, v => ZoneName z v

/-- Reads what a field holds. -/
def content? : (k : Key) → Value → Option k.Content
  | .fileNamePattern, v | .activeFile, v => optionalText? v
  | .zone, v => zone? v

/-- The strings of a value that a field could be read from are proper. -/
def Value.Proper : Value → Prop
  | .string s => Json.Proper s
  | .object ms => ∀ m ∈ ms, Json.Proper m.1
  | _ => True

theorem zoneOfName?_eq_some_iff {name : String} {z : Zone} :
    Config.zoneOfName? name = some z ↔ name = z.name := by
  constructor
  · intro h
    rw [Config.zoneOfName?] at h
    split at h
    · cases h
      assumption
    split at h
    · cases h
      assumption
    · nomatch h
  · rintro rfl
    cases z <;> decide

theorem optionalText?_eq_some_iff {v : Value} {t : Option String} (hv : v.Proper) :
    optionalText? v = some t ↔ OptionalText t v := by
  constructor
  · intro h
    rw [optionalText?.eq_def] at h
    split at h
    · cases h
      exact .absent
    · obtain ⟨cs, hcs, rfl⟩ := Option.map_eq_some_iff.mp h
      refine .text ?_
      rw [String.toList_ofList]
      exact (text?_eq_some_iff hv).mp hcs
    · nomatch h
  · rintro (_ | hs)
    · rfl
    · rw [optionalText?, hs.text?, Option.map_some, String.ofList_toList]

theorem zone?_eq_some_iff {v : Value} {z : Zone} (hv : v.Proper) :
    zone? v = some z ↔ ZoneName z v := by
  constructor
  · intro h
    rw [zone?.eq_def] at h
    split at h
    · obtain ⟨cs, hcs, hz⟩ := Option.bind_eq_some_iff.mp h
      refine .word ?_
      rw [← zoneOfName?_eq_some_iff.mp hz, String.toList_ofList]
      exact (text?_eq_some_iff hv).mp hcs
    · obtain ⟨cs, hcs, hz⟩ := Option.bind_eq_some_iff.mp h
      refine .tagged ?_
      rw [← zoneOfName?_eq_some_iff.mp hz, String.toList_ofList]
      exact (text?_eq_some_iff (hv _ List.mem_cons_self)).mp hcs
    · nomatch h
  · rintro (hs | hs)
    all_goals
      rw [zone?, hs.text?, Option.bind_some, String.ofList_toList]
      exact zoneOfName?_eq_some_iff.mpr rfl

theorem content?_eq_some_iff {k : Key} {v : Value} {x : k.Content} (hv : v.Proper) :
    content? k v = some x ↔ Gives k x v := by
  cases k with
  | fileNamePattern | activeFile => exact optionalText?_eq_some_iff hv
  | zone => exact zone?_eq_some_iff hv

/-- **A field is set if it is not set yet** and is given something that it can hold. -/
theorem setField_eq_some_iff {d d' : Draft} {k : Key} {v : Value} (hv : v.Proper) :
    setField d k v = some d' ↔ d.field? k = none ∧ ∃ x, Gives k x v ∧ d' = d.set k x := by
  have hset : setField d k v = if d.has k then none else (content? k v).map (d.set k) := by
    cases k <;> rfl
  rw [hset, Draft.has_eq]
  constructor
  · intro h
    split at h
    · nomatch h
    · rename_i hnone
      obtain ⟨x, hx, rfl⟩ := Option.map_eq_some_iff.mp h
      exact ⟨by simpa using hnone, x, (content?_eq_some_iff hv).mp hx, rfl⟩
  · rintro ⟨hnone, x, hx, rfl⟩
    rw [hnone, (content?_eq_some_iff hv).mpr hx]
    rfl

/-! ## Members -/

/-- `Names m k` - the member `m` names the field `k`. -/
def Names (m : Member) (k : Key) : Prop := ∃ name ∈ k.names, Means m.1 name.toList

theorem Names.exists_means {m : Member} {k : Key} (h : Names m k) : ∃ t, Means m.1 t := by
  obtain ⟨name, -, hm⟩ := h
  exact ⟨_, hm⟩

theorem Names.unique {m : Member} {k k' : Key} (h : Names m k) (h' : Names m k') : k = k' := by
  obtain ⟨name, hname, hm⟩ := h
  obtain ⟨name', hname', hm'⟩ := h'
  obtain rfl : name = name' :=
    String.toList_inj.mp (Option.some.inj (hm.text?.symm.trans hm'.text?))
  exact Option.some.inj ((Key.ofName?_eq_some_iff.mpr hname).symm.trans
    (Key.ofName?_eq_some_iff.mpr hname'))

theorem setMembers_of_names {m : Member} {k : Key} (h : Names m k) (d : Draft) (ms : List Member) :
    setMembers d (m :: ms) = (setField d k m.2).bind fun d => setMembers d ms := by
  obtain ⟨name, hname, hm⟩ := h
  rw [setMembers, hm.text?]
  dsimp only [Option.bind_eq_bind, Option.bind_some]
  rw [String.ofList_toList, Key.ofName?_eq_some_iff.mpr hname]

theorem setMembers_of_other {m : Member} {t : List Char} (ht : Means m.1 t)
    (h : ∀ k, ¬ Names m k) (d : Draft) (ms : List Member) :
    setMembers d (m :: ms) = setMembers d ms := by
  have hnone : Key.ofName? (String.ofList t) = none := by
    rw [Option.eq_none_iff_forall_ne_some]
    intro k hk
    exact h k ⟨_, Key.ofName?_eq_some_iff.mp hk, by rwa [String.toList_ofList]⟩
  rw [setMembers, ht.text?]
  dsimp only [Option.bind_eq_bind, Option.bind_some]
  rw [hnone]

/-- **One member** sets the field that it names, or names none and is passed over. -/
theorem setMembers_cons_iff {d d' : Draft} {m : Member} {ms : List Member} (hname : Proper m.1)
    (hvalue : m.2.Proper) : setMembers d (m :: ms) = some d' ↔
      (∃ k x, Names m k ∧ d.field? k = none ∧ Gives k x m.2 ∧
        setMembers (d.set k x) ms = some d') ∨
      (∃ t, Means m.1 t) ∧ (∀ k, ¬ Names m k) ∧ setMembers d ms = some d' := by
  constructor
  · intro h
    by_cases hk : ∃ k, Names m k
    · obtain ⟨k, hk⟩ := hk
      rw [setMembers_of_names hk] at h
      obtain ⟨d₁, hset, hrest⟩ := Option.bind_eq_some_iff.mp h
      obtain ⟨hnone, x, hx, rfl⟩ := (setField_eq_some_iff hvalue).mp hset
      exact .inl ⟨k, x, hk, hnone, hx, hrest⟩
    · -- a name that is no text would end the reading
      have hother : ∀ k, ¬ Names m k := fun k h => hk ⟨k, h⟩
      have ht : ∃ t, Means m.1 t := by
        rw [setMembers] at h
        obtain ⟨t, ht, -⟩ := Option.bind_eq_some_iff.mp h
        exact ⟨t, (text?_eq_some_iff hname).mp ht⟩
      obtain ⟨t, ht⟩ := ht
      rw [setMembers_of_other ht hother] at h
      exact .inr ⟨⟨t, ht⟩, hother, h⟩
  · rintro (⟨k, x, hk, hnone, hx, hrest⟩ | ⟨⟨t, ht⟩, hother, hrest⟩)
    · rw [setMembers_of_names hk, (setField_eq_some_iff hvalue).mpr ⟨hnone, x, hx, rfl⟩]
      exact hrest
    · rwa [setMembers_of_other ht hother]

/-- `Settled d d' ms` - the members `ms` lead from the draft `d` to the draft `d'`: each field that they
name is named once and was not set before, and all others stay as they were. -/
structure Settled (d d' : Draft) (ms : List Member) : Prop where
  named : ∀ m ∈ ms, ∃ t, Means m.1 t
  once : ms.Pairwise fun m m' => ∀ k, Names m k → ¬ Names m' k
  fresh : ∀ m ∈ ms, ∀ k, Names m k → d.field? k = none
  given : ∀ m ∈ ms, ∀ k, Names m k → ∃ x, d'.field? k = some x ∧ Gives k x m.2
  kept : ∀ k, (∀ m ∈ ms, ¬ Names m k) → d'.field? k = d.field? k

theorem Settled.cons {d d' : Draft} {m : Member} {ms : List Member} {k : Key} {x : k.Content}
    (h : Settled (d.set k x) d' ms) (hk : Names m k) (hnone : d.field? k = none)
    (hx : Gives k x m.2) : Settled d d' (m :: ms) := by
  -- the field is set now, so no later member names it
  have hlast : ∀ m' ∈ ms, ¬ Names m' k := by
    intro m' hm' hk'
    have hset := h.fresh m' hm' k hk'
    rw [Draft.field?_set] at hset
    nomatch hset
  constructor
  case named => exact List.forall_mem_cons.mpr ⟨hk.exists_means, h.named⟩
  case once =>
    refine List.pairwise_cons.mpr ⟨fun m' hm' k' hk' => ?_, h.once⟩
    obtain rfl := hk.unique hk'
    exact hlast m' hm'
  case fresh =>
    refine List.forall_mem_cons.mpr ⟨fun k' hk' => ?_, fun m' hm' k' hk' => ?_⟩
    · obtain rfl := hk.unique hk'
      exact hnone
    · have hne : k' ≠ k := by
        rintro rfl
        exact hlast m' hm' hk'
      rw [← Draft.field?_set_of_ne x hne]
      exact h.fresh m' hm' k' hk'
  case given =>
    refine List.forall_mem_cons.mpr ⟨fun k' hk' => ?_, h.given⟩
    obtain rfl := hk.unique hk'
    exact ⟨x, by rw [h.kept k hlast, Draft.field?_set], hx⟩
  case kept =>
    intro k' hk'
    obtain ⟨hm, hms⟩ := List.forall_mem_cons.mp hk'
    have hne : k' ≠ k := by
      rintro rfl
      exact hm hk
    rw [h.kept k' hms, Draft.field?_set_of_ne x hne]

theorem Settled.cons_other {d d' : Draft} {m : Member} {ms : List Member} (h : Settled d d' ms)
    (ht : ∃ t, Means m.1 t) (hother : ∀ k, ¬ Names m k) : Settled d d' (m :: ms) where
  named := List.forall_mem_cons.mpr ⟨ht, h.named⟩
  once := List.pairwise_cons.mpr ⟨fun _ _ k hk => absurd hk (hother k), h.once⟩
  fresh := List.forall_mem_cons.mpr ⟨fun k hk => absurd hk (hother k), h.fresh⟩
  given := List.forall_mem_cons.mpr ⟨fun k hk => absurd hk (hother k), h.given⟩
  kept k hk := h.kept k (List.forall_mem_cons.mp hk).2

/-- **A run over members.** -/
theorem settled_of_setMembers {d d' : Draft} {ms : List Member}
    (hms : ∀ m ∈ ms, Proper m.1 ∧ m.2.Proper) (h : setMembers d ms = some d') :
    Settled d d' ms := by
  induction ms generalizing d with
  | nil =>
    cases h
    exact ⟨nofun, .nil, nofun, nofun, fun _ _ => rfl⟩
  | cons m ms ih =>
    obtain ⟨⟨hname, hvalue⟩, hms'⟩ := List.forall_mem_cons.mp hms
    rcases (setMembers_cons_iff hname hvalue).mp h with
      ⟨k, x, hk, hnone, hx, hrest⟩ | ⟨ht, hother, hrest⟩
    · exact (ih hms' hrest).cons hk hnone hx
    · exact (ih hms' hrest).cons_other ht hother

/-- Members of which each gives the field that it names, and no two name one, can be gone through. -/
theorem exists_setMembers {d : Draft} {ms : List Member}
    (hms : ∀ m ∈ ms, Proper m.1 ∧ m.2.Proper) (hnamed : ∀ m ∈ ms, ∃ t, Means m.1 t)
    (honce : ms.Pairwise fun m m' => ∀ k, Names m k → ¬ Names m' k)
    (hfresh : ∀ m ∈ ms, ∀ k, Names m k → d.field? k = none)
    (hgiven : ∀ m ∈ ms, ∀ k, Names m k → ∃ x, Gives k x m.2) : ∃ d', setMembers d ms = some d' := by
  induction ms generalizing d with
  | nil => exact ⟨d, rfl⟩
  | cons m ms ih =>
    obtain ⟨⟨hname, hvalue⟩, hms'⟩ := List.forall_mem_cons.mp hms
    obtain ⟨ht, hnamed'⟩ := List.forall_mem_cons.mp hnamed
    obtain ⟨hlast, honce'⟩ := List.pairwise_cons.mp honce
    obtain ⟨hnone, hfresh'⟩ := List.forall_mem_cons.mp hfresh
    obtain ⟨hx, hgiven'⟩ := List.forall_mem_cons.mp hgiven
    by_cases hk : ∃ k, Names m k
    · obtain ⟨k, hk⟩ := hk
      obtain ⟨x, hx⟩ := hx k hk
      have hfresh'' : ∀ m' ∈ ms, ∀ k', Names m' k' → (d.set k x).field? k' = none := by
        intro m' hm' k' hk'
        have hne : k' ≠ k := by
          rintro rfl
          exact hlast m' hm' k' hk hk'
        rw [Draft.field?_set_of_ne x hne]
        exact hfresh' m' hm' k' hk'
      obtain ⟨d', hd'⟩ := ih hms' hnamed' honce' hfresh'' hgiven'
      exact ⟨d', (setMembers_cons_iff hname hvalue).mpr (.inl ⟨k, x, hk, hnone k hk, hx, hd'⟩)⟩
    · obtain ⟨d', hd'⟩ := ih hms' hnamed' honce' hfresh' hgiven'
      exact ⟨d', (setMembers_cons_iff hname hvalue).mpr
        (.inr ⟨ht, fun k h => hk ⟨k, h⟩, hd'⟩)⟩

/-! ## Documents -/

/-- `Describes c ms` - an object of the members `ms` describes the configuration `c`: every name is a
text, no two members name the same field, and a field holds what the member that names it gives, or its
default where none does. -/
structure Describes (c : Config) (ms : List Member) : Prop where
  named : ∀ m ∈ ms, ∃ t, Means m.1 t
  once : ms.Pairwise fun m m' => ∀ k, Names m k → ¬ Names m' k
  given : ∀ m ∈ ms, ∀ k, Names m k → Gives k (c.field k) m.2
  absent : ∀ k, (∀ m ∈ ms, ¬ Names m k) → c.field k = k.default

/-- The order of the members does not matter. -/
theorem Describes.perm {c : Config} {ms ms' : List Member} (h : Describes c ms) (hms : ms.Perm ms') :
    Describes c ms' where
  named := fun m hm => h.named m (hms.mem_iff.mpr hm)
  once := (hms.pairwise_iff fun hm k hk hk' => hm k hk' hk).mp h.once
  given := fun m hm => h.given m (hms.mem_iff.mpr hm)
  absent := fun k hk => h.absent k fun m hm => hk m (hms.mem_iff.mp hm)

/-- The members that give values to fields under their first names, as far as there are values. -/
def entries (keys : List Key) (vs : List Value) : List Member :=
  keys.zipWith (fun k v => (k.name.toList.map .char, v)) vs

/-- `Lists c vs` - an array of the values `vs` describes `c`: they are as many as there are fields at the
most, and give the fields in their order what the object does that names these fields. -/
def Lists (c : Config) (vs : List Value) : Prop :=
  vs.length ≤ 3 ∧ Describes c (entries [.fileNamePattern, .activeFile, .zone] vs)

/-- **An object is read by the fields that its members name.** -/
theorem config?_object_iff {ms : List Member} {c : Config}
    (hms : ∀ m ∈ ms, Proper m.1 ∧ m.2.Proper) :
    config? (.object ms) = some c ↔ Describes c ms := by
  rw [config?]
  constructor
  · intro h
    obtain ⟨d, hd, rfl⟩ := Option.map_eq_some_iff.mp h
    obtain ⟨hnamed, honce, -, hgiven, hkept⟩ := settled_of_setMembers hms hd
    refine ⟨hnamed, honce, fun m hm k hk => ?_, fun k hk => ?_⟩
    · obtain ⟨x, hx, hgives⟩ := hgiven m hm k hk
      rwa [Draft.field_config, hx]
    · rw [Draft.field_config, hkept k hk, Draft.field?_empty]
      rfl
  · rintro ⟨hnamed, honce, hgiven, habsent⟩
    obtain ⟨d, hd⟩ := exists_setMembers (d := .empty) hms hnamed honce
      (fun _ _ k _ => Draft.field?_empty k) fun m hm k hk => ⟨_, hgiven m hm k hk⟩
    have hsettled := settled_of_setMembers hms hd
    refine Option.map_eq_some_iff.mpr ⟨d, hd, Config.eq_of_field fun k => ?_⟩
    rw [Draft.field_config]
    by_cases hk : ∃ m ∈ ms, Names m k
    · obtain ⟨m, hm, hk⟩ := hk
      obtain ⟨x, hx, hgives⟩ := hsettled.given m hm k hk
      have hproper := (hms m hm).2
      rw [hx]
      exact Option.some.inj (((content?_eq_some_iff hproper).mpr hgives).symm.trans
        ((content?_eq_some_iff hproper).mpr (hgiven m hm k hk)))
    · have hnone : ∀ m ∈ ms, ¬ Names m k := fun m hm h => hk ⟨m, hm, h⟩
      rw [hsettled.kept k hnone, Draft.field?_empty, habsent k hnone]
      rfl

theorem means_map_char (t : List Char) : Means (t.map .char) t := by
  induction t with
  | nil => exact .nil
  | cons c t ih => exact .char ih

/-- **An array is read as the object of its items**, each under the name of its field. -/
theorem setItems_eq (d : Draft) (keys : List Key) (vs : List Value) :
    setItems d keys vs =
      if vs.length ≤ keys.length then setMembers d (entries keys vs) else none := by
  induction keys generalizing d vs with
  | nil => cases vs <;> rfl
  | cons k keys ih =>
    cases vs with
    | nil => rfl
    | cons v vs =>
      have hnames : Names (k.name.toList.map .char, v) k :=
        ⟨k.name, by cases k <;> simp [Key.names, Key.name], means_map_char _⟩
      show (setField d k v).bind (fun d => setItems d keys vs) =
        if _ then setMembers d ((k.name.toList.map .char, v) :: entries keys vs) else none
      rw [setMembers_of_names hnames]
      cases setField d k v with
      | none => simp
      | some d₁ =>
        rw [Option.bind_some, Option.bind_some, ih]
        simp

theorem Written.proper {p : Phrase} {cs : List Char} (h : Written p cs) :
    match p with
    | .value v => v.Proper
    | .items vs => ∀ v ∈ vs, v.Proper
    | .member m => Proper m.1 ∧ m.2.Proper
    | .members ms => ∀ m ∈ ms, Proper m.1 ∧ m.2.Proper := by
  induction h with
  | null | true | false | number | emptyArray | array => trivial
  | string hs => exact hs.proper
  | emptyObject => exact nofun
  | object _ _ ih => exact fun m hm => (ih m hm).1
  | lastItem _ _ ih | lastMember _ _ ih => exact List.forall_mem_singleton.mpr ih
  | item _ _ _ _ ih ih' | members _ _ _ _ ih ih' => exact List.forall_mem_cons.mpr ⟨ih, ih'⟩
  | member hs _ _ _ ih => exact ⟨hs.proper, ih⟩

theorem Document.proper_object {ms : List Member} {cs : List Char} (h : Document (.object ms) cs) :
    ∀ m ∈ ms, Proper m.1 ∧ m.2.Proper := by
  obtain ⟨_, _, _, _, hwritten, -⟩ := h
  cases hwritten with
  | emptyObject => exact nofun
  | object _ hms => exact hms.proper

theorem Document.proper_array {vs : List Value} {cs : List Char} (h : Document (.array vs) cs) :
    ∀ v ∈ vs, v.Proper := by
  obtain ⟨_, _, _, _, hwritten, -⟩ := h
  cases hwritten with
  | emptyArray => exact nofun
  | array _ hvs => exact hvs.proper

theorem proper_entries (keys : List Key) {vs : List Value} (hvs : ∀ v ∈ vs, v.Proper) :
    ∀ m ∈ entries keys vs, Proper m.1 ∧ m.2.Proper := by
  induction keys generalizing vs with
  | nil => exact nofun
  | cons k keys ih =>
    cases vs with
    | nil => exact nofun
    | cons v vs =>
      obtain ⟨hv, hvs⟩ := List.forall_mem_cons.mp hvs
      refine List.forall_mem_cons.mpr ⟨⟨fun n hn => ?_, hv⟩, ih hvs⟩
      obtain ⟨_, _, he⟩ := List.mem_map.mp hn
      nomatch he

theorem config?_array_iff {vs : List Value} {c : Config} (hvs : ∀ v ∈ vs, v.Proper) :
    config? (.array vs) = some c ↔ Lists c vs := by
  rw [config?, setItems_eq, Lists]
  split
  · rename_i hlength
    rw [← config?_object_iff (proper_entries _ hvs)]
    exact ⟨fun h => ⟨hlength, h⟩, fun h => h.2⟩
  · rename_i hlength
    exact ⟨nofun, fun h => absurd h.1 hlength⟩

theorem readConfig_of_document {v : Value} {text : String} (h : Document v text.toList) :
    readConfig text = (config? v).elim (.error (.json "not a rolling configuration")) .ok := by
  rw [readConfig, parse?_eq_some_iff.mpr h]
  dsimp only
  cases config? v <;> rfl

/-! ## Every configuration has its documents -/

/-- Members that can be written one by one can be written together. -/
theorem exists_written {ms : List Member} (hms : ∀ m ∈ ms, ∃ cs, Written (.member m) cs)
    (hne : ms ≠ []) : ∃ cs, Written (.members ms) cs := by
  induction ms with
  | nil => exact absurd rfl hne
  | cons m ms ih =>
    obtain ⟨⟨cs, hcs⟩, hms⟩ := List.forall_mem_cons.mp hms
    cases ms with
    | nil => exact ⟨_, .lastMember hcs .nil⟩
    | cons m' ms =>
      obtain ⟨ds, hds⟩ := ih hms nofun
      exact ⟨_, .members hcs .nil .nil hds⟩

theorem exists_written_object {ms : List Member} (hms : ∀ m ∈ ms, ∃ cs, Written (.member m) cs) :
    ∃ cs, Written (.value (.object ms)) cs := by
  by_cases hne : ms = []
  · subst hne
    exact ⟨_, .emptyObject .nil⟩
  · obtain ⟨cs, hcs⟩ := exists_written hms hne
    exact ⟨_, .object .nil hcs⟩

/-- What a field holds can be written. -/
theorem exists_gives (k : Key) (x : k.Content) : ∃ v cs, Gives k x v ∧ Written (.value v) cs := by
  have hoptional (t : Option String) : ∃ v cs, OptionalText t v ∧ Written (.value v) cs := by
    cases t with
    | none => exact ⟨_, _, .absent, .null⟩
    | some t =>
      obtain ⟨cs, hcs⟩ := exists_spelled t.toList
      exact ⟨_, _, .text (means_map_char _), .string hcs⟩
  cases k with
  | fileNamePattern | activeFile => exact hoptional x
  | zone =>
    obtain ⟨cs, hcs⟩ := exists_spelled (Zone.name x).toList
    exact ⟨_, _, .word (means_map_char _), .string hcs⟩

/-- A configuration is described by members that give what it has, one for each of some fields, if all
other fields hold their defaults. -/
theorem describes_map {c : Config} {keys : List Key} {m : Key → Member} (honce : keys.Nodup)
    (hnames : ∀ k, Names (m k) k) (hgives : ∀ k, Gives k (c.field k) (m k).2)
    (hkeys : ∀ k, k ∉ keys → c.field k = k.default) : Describes c (keys.map m) where
  named := List.forall_mem_map.mpr fun k _ => (hnames k).exists_means
  once := by
    refine List.pairwise_map.mpr (honce.imp fun {a b} hne k ha hb => hne ?_)
    rw [(hnames a).unique ha, (hnames b).unique hb]
  given := by
    refine List.forall_mem_map.mpr fun k _ k' hk' => ?_
    obtain rfl := (hnames k).unique hk'
    exact hgives k
  absent := by
    intro k hk
    exact hkeys k fun hmem => List.forall_mem_map.mp hk k hmem (hnames k)

/-- **Every configuration can be written**, whatever texts it holds: with its fields in any order, each
under any of its names, and those left out that hold their defaults. -/
theorem exists_document (c : Config) {keys : List Key} (honce : keys.Nodup)
    (hkeys : ∀ k, k ∉ keys → c.field k = k.default) {name : Key → String}
    (hname : ∀ k, name k ∈ k.names) : ∃ cs ms, Document (.object ms) cs ∧ Describes c ms ∧
      ms.map Prod.fst = keys.map fun k => (name k).toList.map .char := by
  choose v cs hgives hcs using fun k => exists_gives k (c.field k)
  have hdescribes : Describes c (keys.map fun k => ((name k).toList.map .char, v k)) :=
    describes_map honce (fun k => ⟨name k, hname k, means_map_char _⟩) hgives hkeys
  have hmembers : ∀ m ∈ keys.map fun k => ((name k).toList.map Element.char, v k),
      ∃ ds, Written (.member m) ds := by
    refine List.forall_mem_map.mpr fun k _ => ?_
    obtain ⟨ns, hns⟩ := exists_spelled (name k).toList
    exact ⟨_, .member hns .nil .nil (hcs k)⟩
  obtain ⟨ds, hds⟩ := exists_written_object hmembers
  refine ⟨ds, _, ⟨[], ds, [], .nil, hds, .nil, by simp⟩, hdescribes, ?_⟩
  rw [List.map_map]
  rfl

/-! ## Reading -/

/-- **Reading is by the fields alone.**  A text that is an object describing a configuration is read as
that configuration, whatever the order and the writing of its members and whatever else it holds; and so
is an array that lists the fields.  An object in which two members name one field, be it under one name
or two, is refused; and nothing but such an object or array is read. -/
theorem reading_is_by_fields (text : String) :
    (∀ c ms, Document (.object ms) text.toList → Describes c ms →
      ConfigFormat.json.read text = .ok c) ∧
    (∀ c vs, Document (.array vs) text.toList → Lists c vs →
      ConfigFormat.json.read text = .ok c) ∧
    (∀ ms m m' k, Document (.object ms) text.toList → [m, m'].Sublist ms → Names m k → Names m' k →
      ∃ detail, ConfigFormat.json.read text = .error (.json detail)) ∧
    ∀ c, ConfigFormat.json.read text = .ok c →
      (∃ ms, Document (.object ms) text.toList ∧ Describes c ms) ∨
        ∃ vs, Document (.array vs) text.toList ∧ Lists c vs := by
  refine ⟨fun c ms hdoc hc => ?_, fun c vs hdoc hc => ?_, fun ms m m' k hdoc htwo hm hm' => ?_,
    fun c h => ?_⟩
  · show readConfig text = _
    rw [readConfig_of_document hdoc, (config?_object_iff hdoc.proper_object).mpr hc, Option.elim_some]
  · show readConfig text = _
    rw [readConfig_of_document hdoc, (config?_array_iff hdoc.proper_array).mpr hc, Option.elim_some]
  · show ∃ detail, readConfig text = _
    rw [readConfig_of_document hdoc]
    cases hconfig : config? (.object ms) with
    | none => exact ⟨_, rfl⟩
    | some c =>
      have honce := ((config?_object_iff hdoc.proper_object).mp hconfig).once
      exact absurd hm' (List.pairwise_iff_forall_sublist.mp honce htwo k hm)
  · replace h : readConfig text = .ok c := h
    cases hread : Value.parse? text.toList with
    | none =>
      rw [readConfig, hread] at h
      nomatch h
    | some v =>
      have hdoc := parse?_eq_some_iff.mp hread
      rw [readConfig_of_document hdoc] at h
      cases hconfig : config? v with
      | none =>
        rw [hconfig] at h
        nomatch h
      | some c' =>
        rw [hconfig] at h
        obtain rfl := Except.ok.inj h
        cases v with
        | object ms => exact .inl ⟨ms, hdoc, (config?_object_iff hdoc.proper_object).mp hconfig⟩
        | array vs => exact .inr ⟨vs, hdoc, (config?_array_iff hdoc.proper_array).mp hconfig⟩
        | null | bool | number | string => nomatch hconfig

/-- The fields of an object out of order, one under its second name and with an escape in its text,
behind a member that is passed over with a pair of surrogates in its name and half a pair in its value;
an array that stops early; and an object that names the pattern in both ways. -/
theorem reading_is_by_fields_of_escaped :
    (∃ text ms, text =
        "\x7b\"\\ud83d\\ude00\":\x7b\"zone\":\"\\ud800\"\x7d,\"time_zone\" : \"utc\",\"ActiveFileName\":\"a\\/b\"\x7d" ∧
      Document (.object ms) text.toList ∧ Describes ⟨none, some ⟨"a/b"⟩, .utc⟩ ms ∧
      ConfigFormat.json.read text = .ok ⟨none, some ⟨"a/b"⟩, .utc⟩) ∧
    (∃ text vs, text = "[\"\\ud83d\\ude00%d\", null]" ∧
      Document (.array vs) text.toList ∧ Lists ⟨some "😀%d", none, .localTime⟩ vs ∧
      ConfigFormat.json.read text = .ok ⟨some "😀%d", none, .localTime⟩) ∧
    ∃ text ms m m', text = "\x7b\"FileNamePattern\":1,\"y\":[],\"file_name_pattern\":null\x7d" ∧
      Document (.object ms) text.toList ∧ [m, m'].Sublist ms ∧
      Names m .fileNamePattern ∧ Names m' .fileNamePattern ∧
      ∃ detail, ConfigFormat.json.read text = .error (.json detail) := by
  refine ⟨?_, ?_, ?_⟩
  · have hdoc : Document (.object [
        ([.surrogate 0xD83D, .surrogate 0xDE00], .object [("zone".toList.map .char, .string [.surrogate 0xD800])]),
        ("time_zone".toList.map .char, .string ("utc".toList.map .char)),
        ("ActiveFileName".toList.map .char, .string ("a/b".toList.map .char))])
        "\x7b\"\\ud83d\\ude00\":\x7b\"zone\":\"\\ud800\"\x7d,\"time_zone\" : \"utc\",\"ActiveFileName\":\"a\\/b\"\x7d".toList :=
      parse?_eq_some_iff.mp (by cbv)
    have hc := (config?_object_iff hdoc.proper_object).mp rfl
    exact ⟨_, _, rfl, hdoc, hc, (reading_is_by_fields _).1 _ _ hdoc hc⟩
  · have hdoc : Document (.array [
        .string ([.surrogate 0xD83D, .surrogate 0xDE00] ++ "%d".toList.map .char), .null])
        "[\"\\ud83d\\ude00%d\", null]".toList := parse?_eq_some_iff.mp (by cbv)
    have hc := (config?_array_iff hdoc.proper_array).mp rfl
    exact ⟨_, _, rfl, hdoc, hc, (reading_is_by_fields _).2.1 _ _ hdoc hc⟩
  · have hdoc : Document (.object [("FileNamePattern".toList.map .char, .number ['1']),
        ("y".toList.map .char, .array []), ("file_name_pattern".toList.map .char, .null)])
        "\x7b\"FileNamePattern\":1,\"y\":[],\"file_name_pattern\":null\x7d".toList :=
      parse?_eq_some_iff.mp (by cbv)
    have hfirst : Names ("FileNamePattern".toList.map .char, .number ['1']) .fileNamePattern :=
      ⟨"FileNamePattern", by decide, means_map_char _⟩
    have hsecond : Names ("file_name_pattern".toList.map .char, .null) .fileNamePattern :=
      ⟨"file_name_pattern", by decide, means_map_char _⟩
    have htwo := List.Sublist.cons_cons ("FileNamePattern".toList.map Element.char, Value.number ['1'])
      (List.Sublist.cons ("y".toList.map Element.char, Value.array [])
        (List.Sublist.refl [("file_name_pattern".toList.map Element.char, Value.null)]))
    exact ⟨_, _, _, _, rfl, hdoc, htwo, hfirst, hsecond,
      (reading_is_by_fields _).2.2.1 _ _ _ _ hdoc htwo hfirst hsecond⟩

end LogRotation.Json
