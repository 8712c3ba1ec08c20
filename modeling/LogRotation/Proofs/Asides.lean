/-
  What actions ask for, and what they are not concerned with.

  An action asks about a few paths, and reads and writes the files that it opened there.  Whatever is
  different elsewhere, its requests are answered alike and have the same effects; and what is
  elsewhere stays as it is.

    * AGREE     two file systems have the same at a place: the same node, and the same content if it
                is a file;
    * SPARED    a place that an action neither passes nor changes;
    * ALONE     a place that is spared, and where no file is that has another name at the ends of actions;
    * ASKED     a request for some actions, where each open file is at the path where it was opened;
    * BESIDE    two file systems that agree but where actions are not concerned.

  Main statements: `agreeAt_on`, `respond_beside`, `asksFor_executeQuietly`.
-/
import LogRotation.Proofs.Effects
import LogRotation.Proofs.Regimes

namespace LogRotation

/-! ## Agreement at a place -/

namespace FileSystem

variable {fs A B C : FileSystem} {p q : Place}

/-- Holds where two file systems have the same node and, if it is a file, the same content. -/
structure AgreeAt (A B : FileSystem) (p : Place) : Prop where
  node : A.node? p = B.node? p
  content : ∀ id, A.node? p = some (.file id) → A.content id = B.content id

theorem AgreeAt.refl (fs : FileSystem) (p : Place) : fs.AgreeAt fs p := ⟨rfl, fun _ _ => rfl⟩

theorem AgreeAt.symm (h : A.AgreeAt B p) : B.AgreeAt A p where
  node := h.node.symm
  content id hid := (h.content id (h.node.trans hid)).symm

theorem AgreeAt.trans (h : A.AgreeAt B p) (h' : B.AgreeAt C p) : A.AgreeAt C p where
  node := h.node.trans h'.node
  content id hid := (h.content id hid).trans (h'.content id (h.node.symm.trans hid))

instance (A B : FileSystem) (p : Place) : Decidable (A.AgreeAt B p) :=
  decidable_of_iff (A.node? p = B.node? p ∧
      ∀ n ∈ A.node? p, ∀ id ∈ number? n, A.content id = B.content id) <| by
    constructor
    · rintro ⟨hnode, hcontent⟩
      exact ⟨hnode, fun id hid => hcontent (.file id) hid id rfl⟩
    · rintro ⟨hnode, hcontent⟩
      refine ⟨hnode, fun n hn id hid => ?_⟩
      cases n <;> cases hid
      exact hcontent _ hn

/-- What is at a place after a node was put somewhere. -/
theorem node?_insert (fs : FileSystem) (p : Place) (n : Node) (q : Place) :
    (fs.insert p n).node? q = if q = p ∧ q ≠ [] then some n else fs.node? q := by
  by_cases hroot : q = []
  · rw [if_neg fun h => h.2 hroot, hroot]
    rfl
  · by_cases hqp : q = p
    · rw [if_pos ⟨hqp, hroot⟩, ← hqp, node?_insert_self fs n hroot]
    · rw [if_neg fun h => hqp h.1, node?_insert_of_ne fs n hqp]

/-- What is at a place after a place was taken away. -/
theorem node?_erase (fs : FileSystem) (p q : Place) :
    (fs.erase p).node? q = if p <+: q ∧ q ≠ [] then none else fs.node? q := by
  by_cases hroot : q = []
  · rw [if_neg fun h => h.2 hroot, hroot]
    rfl
  · by_cases hpq : p <+: q
    · rw [if_pos ⟨hpq, hroot⟩, node?_erase_of_below hpq hroot]
    · rw [if_neg fun h => hpq h.1, node?_erase_of_not_below hpq]

/-- A place is bare if there is nothing at any place below it. -/
theorem isBare_iff : fs.isBare p = true ↔ ∀ q, p <+: q → q ≠ p → fs.node? q = none := by
  rw [isBare, List.all_eq_true]
  constructor
  · intro hall q hpq hne
    by_contra hn
    have hroot : q ≠ [] := by
      rintro rfl
      exact hne (List.prefix_nil.mp hpq).symm
    obtain ⟨n, hnode⟩ := Option.ne_none_iff_exists'.mp hn
    have := hall _ (mem_nodes hroot hnode)
    simp [List.isPrefixOf_iff_prefix.mpr hpq, hne] at this
  · intro hnone x hx
    by_contra hbelow
    simp only [Bool.not_eq_true, Bool.not_eq_false', Bool.and_eq_true, List.isPrefixOf_iff_prefix,
      bne_iff_ne] at hbelow
    obtain ⟨hpx, hne⟩ := hbelow
    have hroot : x.1 ≠ [] := by
      intro hroot
      rw [hroot] at hpx hne
      exact hne (List.prefix_nil.mp hpx).symm
    have hn := hnone x.1 hpx hne
    rw [node?, if_neg hroot, List.lookup_eq_none_iff] at hn
    exact absurd (hn x hx) (by simp)

end FileSystem

/-! ## Places that actions are not concerned with -/

namespace Action

/-- The paths at which an action may change something. -/
def ends (a : Action) : List Path := [a.source, a.target]

/-- The paths that an action asks about: its ends, and the directories that its target may need. -/
def ways (a : Action) : List Path := a.ends ++ a.target.above

/-- Holds of a place that an action neither passes nor changes. -/
def Spares (here : Place) (a : Action) (p : Place) : Prop :=
  (∀ x ∈ a.ways, p ∉ x.trail here) ∧ ∀ x ∈ a.ends, ¬ x.placeIn here <+: p

instance (here : Place) (a : Action) (p : Place) : Decidable (a.Spares here p) := by
  unfold Spares; infer_instance

theorem mem_ways_of_ends {a : Action} {x : Path} (h : x ∈ a.ends) : x ∈ a.ways :=
  List.mem_append_left _ h

theorem Spares.ne {here p : Place} {a : Action} {x : Path} (h : a.Spares here p) (hx : x ∈ a.ways) :
    p ≠ x.placeIn here := by
  intro he
  exact h.1 x hx (he ▸ x.placeIn_mem_trail here)

/-! ## What is asked for actions -/

/-- Files that were opened, and where. -/
abbrev Opened := List (Path × Handle)

end Action

/-- Holds of a request that is asked for some actions, which have opened some files. -/
def Request.AskedFor (as : List Action) (opened : Action.Opened) : Request → Prop
  | present x | isDirectory x | makeDirectory x => ∃ a ∈ as, x ∈ a.ways
  | rename x y => (∃ a ∈ as, x ∈ a.ends) ∧ ∃ a ∈ as, y ∈ a.ends
  | remove x | openRead x | openWrite x _ => ∃ a ∈ as, x ∈ a.ends
  | read h | write h _ => ∃ x, (x, h) ∈ opened
  | sync _ | close _ => True
  | submit _ | await | clock => False

/-- What is known to be open after a reply: a file that was moved or removed is not counted on. -/
def Action.Opened.next (opened : Opened) : (q : Request) → q.Reply → Opened
  | .openRead x, .ok h | .openWrite x _, .ok h => (x, h) :: opened
  | .rename .., _ | .remove _, _ => []
  | _, _ => opened

/-- Asking for some actions. -/
def Action.regime (as : List Action) : Regime Action.Opened where
  step opened q k := q.AskedFor as opened ∧ ∀ r, k r (opened.next q r)
  mono h hk := ⟨h.1, fun r => hk r _ (h.2 r)⟩

/-- Holds of a routine that asks for some actions only. -/
abbrev Routine.AsksFor {α : Type} (as : List Action) (r : Routine α) (opened : Action.Opened) : Prop :=
  r.Leads (Action.regime as) (fun _ _ => True) opened

theorem Request.AskedFor.mono {as bs : List Action} {opened : Action.Opened} {q : Request}
    (h : q.AskedFor as opened) (hsub : ∀ a ∈ as, a ∈ bs) : q.AskedFor bs opened := by
  have hmore : ∀ {P : Action → Prop}, (∃ a ∈ as, P a) → ∃ a ∈ bs, P a := by
    rintro P ⟨a, ha, hP⟩
    exact ⟨a, hsub a ha, hP⟩
  cases q <;> first
    | exact hmore h
    | exact ⟨hmore h.1, hmore h.2⟩
    | exact h

/-- What is asked for some actions is asked for more actions. -/
theorem Routine.AsksFor.mono {α : Type} {as bs : List Action} {r : Routine α} {opened : Action.Opened}
    (h : r.AsksFor as opened) (hsub : ∀ a ∈ as, a ∈ bs) : r.AsksFor bs opened := by
  induction r generalizing opened with
  | done a => trivial
  | ask q next ih => exact ⟨h.1.mono hsub, fun r => ih r (h.2 r)⟩

namespace FileSystem

variable {fs A B : FileSystem} {p : Place} {as : List Action} {opened : Action.Opened} {q : Request}
  {e : Effect}

/-- Each open file is at the path where it was opened, which is an end of an action. -/
def InPlace (fs : FileSystem) (as : List Action) (opened : Action.Opened) : Prop :=
  ∀ x handle, (x, handle) ∈ opened → (∃ a ∈ as, x ∈ a.ends) ∧
    ∀ id, handle = .file id → fs.nodeAt x = some (.file id)

theorem InPlace.nil (fs : FileSystem) (as : List Action) : fs.InPlace as [] := nofun

theorem InPlace.mono {bs : List Action} (h : fs.InPlace as opened) (hsub : ∀ a ∈ as, a ∈ bs) :
    fs.InPlace bs opened := by
  intro x handle hmem
  obtain ⟨⟨a, ha, hx⟩, hnode⟩ := h x handle hmem
  exact ⟨⟨a, hsub a ha, hx⟩, hnode⟩

/-- An effect of a request that leaves open files in place. -/
theorem Effect.nodeAt_on (he : e.Of fs q) (hmove : ∀ x y, q ≠ .rename x y) (hremove : ∀ x, q ≠ .remove x)
    {y : Path} {id : Nat} (hy : fs.nodeAt y = some (.file id)) :
    (e.on fs).nodeAt y = some (.file id) := by
  have hfree : ∀ {x : Path}, fs.nodeAt x = none → y.placeIn fs.here ≠ x.placeIn fs.here := by
    intro x hx hplace
    rw [nodeAt, ← hplace] at hx
    rw [nodeAt, hx] at hy
    cases hy
  rw [nodeAt, Effect.here_on]
  cases e with
  | nothing => exact hy
  | make p =>
    obtain ⟨x, -, rfl, hx⟩ := he.make
    exact (node?_insert_of_ne fs _ (hfree hx)).trans hy
  | add p =>
    obtain ⟨x, keep, -, rfl, hx⟩ := he.add
    exact (node?_insert_of_ne fs _ (hfree hx)).trans hy
  | fill id c => exact hy
  | erase p =>
    obtain ⟨x, hq, -⟩ := he.erase
    exact absurd hq (hremove x)
  | move s t =>
    obtain ⟨x, y, hq, -⟩ := he.move
    exact absurd hq (hmove x y)

/-- Open files are in place after a request, with those that it opened. -/
theorem InPlace.on (h : fs.InPlace as opened) (hq : q.AskedFor as opened) (he : e.Of fs q)
    {r : q.Reply} (hopens : (e.on fs).Opens q r) : (e.on fs).InPlace as (opened.next q r) := by
  by_cases hgone : (∃ x y, q = .rename x y) ∨ ∃ x, q = .remove x
  · rcases hgone with ⟨x, y, rfl⟩ | ⟨x, rfl⟩ <;> exact .nil _ _
  · obtain ⟨hmove, hremove⟩ := not_or.mp hgone
    simp only [not_exists] at hmove hremove
    have hkept : (e.on fs).InPlace as opened := by
      intro x handle hmem
      obtain ⟨hx, hnode⟩ := h x handle hmem
      exact ⟨hx, fun id hid => Effect.nodeAt_on he hmove hremove (hnode id hid)⟩
    have hnew : ∀ x handle, (∃ a ∈ as, x ∈ a.ends) →
        (∀ id, Except.ok (ε := IoError) handle = .ok (.file id) → (e.on fs).nodeAt x = some (.file id)) →
        (e.on fs).InPlace as ((x, handle) :: opened) := by
      intro x handle hx hopens y handle' hmem
      rcases List.mem_cons.mp hmem with heq | hmem
      · cases heq
        exact ⟨hx, fun id hid => hopens id (congrArg _ hid)⟩
      · exact hkept y handle' hmem
    cases q with
    | openRead x =>
      cases r with
      | error cause => exact hkept
      | ok handle => exact hnew x handle hq hopens
    | openWrite x keep =>
      cases r with
      | error cause => exact hkept
      | ok handle => exact hnew x handle hq hopens
    | rename x y => exact absurd rfl (hmove x y)
    | remove x => exact absurd rfl (hremove x)
    | _ => exact hkept

/-- A request for some actions has an effect, and open files are in place after it. -/
theorem InPlace.respond (h : fs.InPlace as opened) (hq : q.AskedFor as opened) (fault : Option Fault) :
    ∃ r, ∃ e : Effect, fs.respond fault q = (r, e.on fs) ∧ e.Of fs q ∧
      (e.on fs).InPlace as (opened.next q r) := by
  obtain ⟨r, e, hanswer, -, he, hopens⟩ := respond_alike fault rfl rfl (DecidedBy.refl fs q)
  exact ⟨r, e, hanswer, he, h.on hq he hopens⟩

/-! ## What is elsewhere -/

/-- Holds of a place that some actions leave alone: they are not concerned with it, and a file that is at
it has no other name where they do their work. -/
structure LeftAlone (fs : FileSystem) (as : List Action) (p : Place) : Prop where
  spared : ∀ a ∈ as, a.Spares fs.here p
  file : ∀ id, fs.node? p = some (.file id) → id < fs.fresh ∧
    ∀ a ∈ as, ∀ x ∈ a.ends, ∀ q, x.placeIn fs.here <+: q → fs.node? q ≠ some (.file id)

/-- It is enough to look at the places that are listed. -/
theorem leftAlone_iff : fs.LeftAlone as p ↔ (∀ a ∈ as, a.Spares fs.here p) ∧
    ∀ n ∈ fs.node? p, ∀ id ∈ number? n, id < fs.fresh ∧ ∀ a ∈ as, ∀ x ∈ a.ends, ∀ y ∈ fs.nodes,
      x.placeIn fs.here <+: y.1 → fs.node? y.1 ≠ some (.file id) := by
  constructor
  · rintro ⟨hspared, hfile⟩
    refine ⟨hspared, fun n hn id hid => ?_⟩
    cases n <;> cases hid
    obtain ⟨hknown, hnames⟩ := hfile _ hn
    exact ⟨hknown, fun a ha x hx y _ => hnames a ha x hx y.1⟩
  · rintro ⟨hspared, hfile⟩
    refine ⟨hspared, fun id hid => ?_⟩
    obtain ⟨hknown, hnames⟩ := hfile _ hid id rfl
    refine ⟨hknown, fun a ha x hx q hbelow hq => ?_⟩
    have hroot : q ≠ [] := by
      rintro rfl
      cases hq
    exact hnames a ha x hx _ (mem_nodes hroot hq) hbelow hq

instance (fs : FileSystem) (as : List Action) (p : Place) : Decidable (fs.LeftAlone as p) :=
  decidable_of_iff _ leftAlone_iff.symm

/-- A file that was not made by an effect is where it was, or was moved from below a source. -/
theorem Effect.node?_of_on (he : e.Of fs q) {place : Place} {id : Nat} (hknown : id < fs.fresh)
    (h : (e.on fs).node? place = some (.file id)) : fs.node? place = some (.file id) ∨
      ∃ x y rest, q = .rename x y ∧ fs.node? (x.placeIn fs.here ++ rest) = some (.file id) := by
  cases e with
  | nothing => exact .inl h
  | make made =>
    rw [Effect.on, node?_insert] at h
    split at h
    · cases h
    · exact .inl h
  | add made =>
    have h : (fs.insert made (.file fs.fresh)).node? place = some (.file id) := h
    rw [node?_insert] at h
    split at h
    · cases h
      exact absurd hknown (Nat.lt_irrefl _)
    · exact .inl h
  | fill filled c => exact .inl h
  | erase gone =>
    rw [Effect.on, node?_erase] at h
    split at h
    · cases h
    · exact .inl h
  | move s t =>
    obtain ⟨x, y, hq, rfl, rfl, hst, hts⟩ := he.move
    rw [Effect.on, node?_move hst hts] at h
    split at h
    · exact .inr ⟨x, y, _, hq, h⟩
    · split at h
      · cases h
      · exact .inl h

/-- **Elsewhere nothing changes.**  A request for some actions leaves each place as it is that they leave
alone. -/
theorem agreeAt_on (h : fs.InPlace as opened) (hq : q.AskedFor as opened) (he : e.Of fs q)
    (hp : fs.LeftAlone as p) : fs.AgreeAt (e.on fs) p := by
  cases e with
  | nothing => exact .refl fs p
  | make place =>
    obtain ⟨x, rfl, rfl, -⟩ := he.make
    obtain ⟨a, ha, hx⟩ := hq
    exact ⟨(node?_insert_of_ne fs _ ((hp.spared a ha).ne hx)).symm, fun _ _ => rfl⟩
  | add place =>
    obtain ⟨x, keep, rfl, rfl, -⟩ := he.add
    obtain ⟨a, ha, hx⟩ := hq
    refine ⟨(node?_insert_of_ne fs _ ((hp.spared a ha).ne (Action.mem_ways_of_ends hx))).symm, ?_⟩
    intro id hid
    have hne : id ≠ fs.fresh := Nat.ne_of_lt (hp.file id hid).1
    exact (content_setContent_of_ne _ _ hne).symm
  | fill id c =>
    -- the file is at an end of an action
    have hend : ∃ a ∈ as, ∃ x ∈ a.ends, fs.nodeAt x = some (.file id) := by
      rcases he.fill with ⟨x, keep, rfl, hnode⟩ | ⟨bytes, rfl⟩
      · obtain ⟨a, ha, hx⟩ := hq
        exact ⟨a, ha, x, hx, hnode⟩
      · obtain ⟨x, hmem⟩ := hq
        obtain ⟨⟨a, ha, hx⟩, hnode⟩ := h x _ hmem
        exact ⟨a, ha, x, hx, hnode id rfl⟩
    obtain ⟨a, ha, x, hx, hnode⟩ := hend
    refine ⟨rfl, fun other hother => ?_⟩
    have hne : other ≠ id := by
      rintro rfl
      exact (hp.file _ hother).2 a ha x hx _ List.prefix_rfl hnode
    exact (content_setContent_of_ne fs c hne).symm
  | erase place =>
    obtain ⟨x, rfl, rfl⟩ := he.erase
    obtain ⟨a, ha, hx⟩ := hq
    exact ⟨(node?_erase_of_not_below ((hp.spared a ha).2 x hx)).symm, fun _ _ => rfl⟩
  | move s t =>
    obtain ⟨x, y, rfl, rfl, rfl, -, -⟩ := he.move
    obtain ⟨⟨a, ha, hx⟩, b, hb, hy⟩ := hq
    exact ⟨(node?_move_of_apart ((hp.spared a ha).2 x hx) ((hp.spared b hb).2 y hy)).symm,
      fun _ _ => rfl⟩

/-- What actions leave alone they leave alone after each request. -/
theorem LeftAlone.on (hp : fs.LeftAlone as p) (h : fs.InPlace as opened) (hq : q.AskedFor as opened)
    (he : e.Of fs q) : (e.on fs).LeftAlone as p where
  spared a ha := by
    rw [Effect.here_on]
    exact hp.spared a ha
  file id hid := by
    rw [← (agreeAt_on h hq he hp).node] at hid
    obtain ⟨hknown, hnames⟩ := hp.file id hid
    refine ⟨Nat.lt_of_lt_of_le hknown (Effect.fresh_le_on e fs), fun a ha x hx place hbelow hplace => ?_⟩
    rw [Effect.here_on] at hbelow
    rcases Effect.node?_of_on he hknown hplace with hold | ⟨source, target, rest, rfl, hold⟩
    · exact hnames a ha x hx place hbelow hold
    · -- moved from below the source of a move, which is an end as well
      obtain ⟨⟨b, hb, hsource⟩, -⟩ := hq
      exact hnames b hb source hsource _ (List.prefix_append _ rest) hold

/-! ## Two file systems that are different elsewhere -/

/-- Holds of two file systems that agree everywhere but where no action is concerned. -/
structure Beside (as : List Action) (apart : Place → Prop) (A B : FileSystem) : Prop where
  here : A.here = B.here
  spared : ∀ p, apart p → ∀ a ∈ as, a.Spares A.here p
  agree : ∀ p, ¬ apart p → A.AgreeAt B p

section Beside

variable {apart : Place → Prop} (h : Beside as apart A B)

include h

theorem Beside.way {a : Action} (ha : a ∈ as) {x : Path} (hx : x ∈ a.ways) :
    ∀ p ∈ x.trail A.here, A.AgreeAt B p := by
  intro p hp
  refine h.agree p fun hapart => ?_
  exact (h.spared p hapart a ha).1 x hx hp

theorem Beside.sameOn {x : Path} (hx : ∃ a ∈ as, x ∈ a.ways) : A.SameOn B (x.trail A.here) := by
  obtain ⟨a, ha, hx⟩ := hx
  intro p hp
  exact (h.way ha hx p hp).node

theorem Beside.below {a : Action} (ha : a ∈ as) {x : Path} (hx : x ∈ a.ends)
    (hp : x.placeIn A.here <+: p) : A.AgreeAt B p :=
  h.agree p fun hapart => (h.spared p hapart a ha).2 x hx hp

/-- Nothing that a request for the actions looks at is different. -/
theorem Beside.decided (hopened : A.InPlace as opened) (hq : q.AskedFor as opened) :
    A.DecidedBy B q := by
  have hends : ∀ {x : Path}, (∃ a ∈ as, x ∈ a.ends) → ∃ a ∈ as, x ∈ a.ways := by
    rintro x ⟨a, ha, hx⟩
    exact ⟨a, ha, Action.mem_ways_of_ends hx⟩
  have hread : ∀ {handle : Handle}, (∃ x, (x, handle) ∈ opened) →
      ∀ id, handle = .file id → A.content id = B.content id := by
    rintro handle ⟨x, hmem⟩ id rfl
    obtain ⟨⟨a, ha, hx⟩, hnode⟩ := hopened x _ hmem
    exact (h.way ha (Action.mem_ways_of_ends hx) _ (x.placeIn_mem_trail _)).content id (hnode id rfl)
  cases q with
  | present x => exact h.sameOn hq
  | isDirectory x => exact h.sameOn hq
  | makeDirectory x => exact h.sameOn hq
  | remove x => exact h.sameOn (hends hq)
  | openRead x => exact h.sameOn (hends hq)
  | openWrite x keep => exact h.sameOn (hends hq)
  | rename x y =>
    refine ⟨h.sameOn (hends hq.1), h.sameOn (hends hq.2), ?_⟩
    obtain ⟨-, b, hb, hy⟩ := hq
    rw [Bool.eq_iff_iff, isBare_iff, isBare_iff]
    refine forall_congr' fun p => imp_congr_right fun hp => imp_congr_right fun _ => ?_
    rw [(h.below hb hy hp).node]
  | read handle => exact hread hq
  | write handle bytes => exact hread hq
  | _ => trivial

/-- An effect of a request for the actions is the same on both. -/
theorem Beside.on (hq : q.AskedFor as opened) (he : e.Of A q) (hfresh : A.fresh = B.fresh) :
    Beside as apart (e.on A) (e.on B) := by
  refine ⟨?_, ?_, fun p hp => ?_⟩
  · rw [Effect.here_on, Effect.here_on, h.here]
  · rw [Effect.here_on]
    exact h.spared
  have hsame := h.agree p hp
  cases e with
  | nothing => exact hsame
  | make place =>
    have hnode : ∀ fs : FileSystem, (fs.insert place .directory).node? p =
        if p = place ∧ p ≠ [] then some .directory else fs.node? p := fun fs => node?_insert fs _ _ p
    refine ⟨?_, fun id hid => ?_⟩
    · rw [Effect.on, Effect.on, hnode, hnode, hsame.node]
    · rw [Effect.on, hnode] at hid
      split at hid
      · cases hid
      · exact hsame.content id hid
  | add place =>
    have hnode : ∀ fs : FileSystem, (fs.addFile place).2.node? p =
        if p = place ∧ p ≠ [] then some (.file fs.fresh) else fs.node? p :=
      fun fs => node?_insert fs _ _ p
    refine ⟨?_, fun id hid => ?_⟩
    · rw [Effect.on, Effect.on, hnode, hnode, hsame.node, hfresh]
    · by_cases hid' : id = A.fresh
      · -- the new file is empty in both
        have hA : (A.addFile place).2.content id = .empty := by
          rw [hid']
          exact content_addFile place
        have hB : (B.addFile place).2.content id = .empty := by
          rw [hid', hfresh]
          exact content_addFile place
        exact hA.trans hB.symm
      · have hA : (A.addFile place).2.content id = A.content id := content_setContent_of_ne _ _ hid'
        have hB : (B.addFile place).2.content id = B.content id :=
          content_setContent_of_ne _ _ (hfresh ▸ hid')
        rw [Effect.on, hnode] at hid
        split at hid
        · cases hid
          exact absurd rfl hid'
        · exact hA.trans ((hsame.content id hid).trans hB.symm)
  | fill id c =>
    refine ⟨hsame.node, fun other hother => ?_⟩
    by_cases hne : other = id
    · rw [hne]
      exact (content_setContent_self A id c).trans (content_setContent_self B id c).symm
    · have hA := content_setContent_of_ne A c hne
      have hB := content_setContent_of_ne B c hne
      exact hA.trans ((hsame.content other hother).trans hB.symm)
  | erase place =>
    refine ⟨?_, fun id hid => ?_⟩
    · rw [Effect.on, Effect.on, node?_erase, node?_erase, hsame.node]
    · rw [Effect.on, node?_erase] at hid
      split at hid
      · cases hid
      · exact hsame.content id hid
  | move s t =>
    obtain ⟨x, y, rfl, rfl, rfl, hst, hts⟩ := he.move
    obtain ⟨⟨a, ha, hx⟩, -⟩ := hq
    -- what came from the source was not concerned either
    have hsource := fun rest => h.below ha hx (List.prefix_append (x.placeIn A.here) rest)
    refine ⟨?_, fun id hid => ?_⟩
    · rw [Effect.on, Effect.on, node?_move hst hts, node?_move hst hts, (hsource _).node, hsame.node]
    · rw [Effect.on, node?_move hst hts] at hid
      split at hid
      · exact (hsource _).content id hid
      · split at hid
        · cases hid
        · exact hsame.content id hid

/-- **Beside.**  A request for some actions is answered alike by two file systems that are different
only where these are not concerned, and they are different only there afterwards. -/
theorem respond_beside (fault : Option Fault) (hopened : A.InPlace as opened)
    (hq : q.AskedFor as opened) (hfresh : A.fresh = B.fresh) :
    ∃ r, ∃ e : Effect, A.respond fault q = (r, e.on A) ∧ B.respond fault q = (r, e.on B) ∧
      e.Of A q ∧ Beside as apart (e.on A) (e.on B) ∧ (e.on A).InPlace as (opened.next q r) := by
  obtain ⟨r, e, hA, hB, he, hopens⟩ :=
    respond_alike fault h.here hfresh (h.decided hopened hq)
  exact ⟨r, e, hA, hB, he, h.on hq he hfresh, hopened.on hq he hopens⟩

end Beside

end FileSystem

/-! ## What an action asks -/

namespace Action

open Routine (Leads Attempt reply request leads_attempt leads_lift leads_adapt)

variable {α ε : Type} {as : List Action} {a : Action} {opened : Opened} {x y : Path}

theorem leads_request {q : Request} {Q : q.Reply → Opened → Prop} (hq : q.AskedFor as opened)
    (hQ : ∀ r, Q r (opened.next q r)) : Leads (regime as) (request q) Q opened := ⟨hq, hQ⟩

theorem leads_reply {q : Request} {Q : Except ε q.Reply → Opened → Prop}
    (hq : q.AskedFor as opened) (hQ : ∀ r, Q (.ok r) (opened.next q r)) :
    Leads (regime as) (reply q : Attempt ε q.Reply).run Q opened :=
  leads_lift (leads_request hq hQ)

theorem leads_makeDirectories {ds : List Path} {Q : Except IoError Unit → Opened → Prop}
    (hds : ∀ d ∈ ds, ∃ a ∈ as, d ∈ a.ways) (hQ : ∀ r, Q r opened) :
    Leads (regime as) (Routine.makeDirectories ds).run Q opened :=
  Routine.leads_makeDirectories (fun _ => True)
    (fun d hd _ hk => leads_request (q := .makeDirectory d) (hds d hd) hk)
    (fun d hd _ hk => leads_request (q := .isDirectory d) (hds d hd) fun there => hk there trivial)
    (hQ _) fun _ _ => hQ _

theorem leads_makeParents {Q : Except IoError Unit → Opened → Prop}
    (hx : ∀ d ∈ x.above, ∃ a ∈ as, d ∈ a.ways) (hQ : ∀ r, Q r opened) :
    Leads (regime as) (Routine.makeParents x).run Q opened := by
  unfold Routine.makeParents
  unfold Path.above at hx
  split
  · rename_i parent hparent
    rw [hparent] at hx
    exact leads_makeDirectories hx hQ
  · exact hQ _

theorem leads_writeAll {handle : Handle} {bytes : Bytes} {Q : Except IoError Unit → Opened → Prop}
    (hmem : (x, handle) ∈ opened) (hQ : ∀ r, Q r opened) :
    Leads (regime as) (Routine.writeAll handle bytes).run Q opened := by
  refine leads_attempt (leads_reply (q := .write handle bytes) ⟨x, hmem⟩ fun r => ?_)
  dsimp only
  split <;> exact hQ _

/-- A file that was opened is closed at last. -/
theorem leads_closing {handle : Handle} {body : Attempt ε α} {Q : Except ε α → Opened → Prop}
    (h : Leads (regime as) body.run Q opened) :
    Leads (regime as) (Routine.closing handle body).run Q opened := by
  refine Leads.bind (h.mono fun r opened hr => ?_)
  exact Leads.bind (leads_request (q := .close handle) trivial fun _ => hr)

theorem leads_writeRest {rest : Bytes → Option Bytes} {input output : Handle}
    {Q : Except IoError Unit → Opened → Prop} (hinput : (x, input) ∈ opened)
    (houtput : (y, output) ∈ opened) (hQ : ∀ r, Q r opened) :
    Leads (regime as) (writeRest rest input output).run Q opened := by
  refine leads_attempt (leads_lift (leads_request (q := .read input) ⟨x, hinput⟩ fun r => ?_))
  cases r with
  | error e => exact leads_attempt (leads_lift (leads_writeAll houtput fun _ => hQ _))
  | ok bytes =>
    dsimp only
    split
    · refine leads_attempt (leads_writeAll houtput fun r => ?_)
      cases r with
      | error e => exact hQ _
      | ok u => exact leads_request (q := .sync output) trivial hQ
    · exact hQ _

theorem leads_writeArchive {format : ArchiveFormat} {Q : Except IoError Unit → Opened → Prop}
    (hx : ∃ a ∈ as, x ∈ a.ends) (hy : ∃ a ∈ as, y ∈ a.ends) (hQ : ∀ r opened, Q r opened) :
    Leads (regime as) (writeArchive format x y).run Q opened := by
  refine leads_attempt (leads_request (q := .openRead x) hx fun r => ?_)
  rcases r with e | input
  · exact hQ _ _
  refine leads_closing (leads_attempt (leads_request (q := .openWrite y false) hy fun r => ?_))
  rcases r with e | output
  · exact hQ _ _
  -- both files are open
  have hinput : (x, input) ∈ (y, output) :: (x, input) :: opened :=
    List.mem_cons_of_mem _ List.mem_cons_self
  refine leads_closing ?_
  dsimp only
  show Leads (regime as) (ExceptT.run (if (archiveParts format x).1.isEmpty then
    writeRest (archiveParts format x).2 input output
    else Routine.writeAll output (archiveParts format x).1 >>= fun _ =>
      writeRest (archiveParts format x).2 input output)) _ _
  split
  · exact leads_writeRest hinput List.mem_cons_self fun _ => hQ _ _
  · refine leads_attempt (leads_writeAll List.mem_cons_self fun r => ?_)
    cases r with
    | error e => exact hQ _ _
    | ok u => exact leads_writeRest hinput List.mem_cons_self fun _ => hQ _ _

theorem leads_runRename {mandatory : Bool} (ha : Action.rename x y mandatory ∈ as) :
    Leads (regime as) (runRename x y mandatory).run (fun _ _ => True) opened := by
  have hx : ∃ a ∈ as, x ∈ a.ends := ⟨_, ha, List.mem_cons_self⟩
  have hy : ∃ a ∈ as, y ∈ a.ends := ⟨_, ha, List.mem_cons_of_mem _ List.mem_cons_self⟩
  have habove : ∀ d ∈ y.above, ∃ a ∈ as, d ∈ a.ways := by
    intro d hd
    exact ⟨_, ha, List.mem_append_right _ hd⟩
  refine leads_attempt (leads_reply (q := .present x) ⟨_, ha, List.mem_cons_self⟩ fun there => ?_)
  cases there with
  | false => cases mandatory <;> trivial
  | true =>
    refine leads_attempt (leads_adapt (leads_makeParents habove fun r => ?_))
    cases r with
    | error e => trivial
    | ok u =>
      refine leads_attempt (leads_request (q := .rename x y) ⟨hx, hy⟩ fun r => ?_)
      cases r <;> cases mandatory <;> trivial

theorem leads_runCompress {format : ArchiveFormat} {deleteSource : Bool}
    (ha : Action.compress format x y deleteSource ∈ as) :
    Leads (regime as) (runCompress format x y deleteSource).run (fun _ _ => True) opened := by
  have hx : ∃ a ∈ as, x ∈ a.ends := ⟨_, ha, List.mem_cons_self⟩
  have hy : ∃ a ∈ as, y ∈ a.ends := ⟨_, ha, List.mem_cons_of_mem _ List.mem_cons_self⟩
  refine leads_attempt (leads_reply (q := .present x) ⟨_, ha, List.mem_cons_self⟩ fun there => ?_)
  cases there with
  | false => trivial
  | true =>
    refine leads_attempt (leads_adapt (leads_writeArchive hx hy fun r opened => ?_))
    cases r with
    | error e => trivial
    | ok u =>
      cases deleteSource with
      | false => trivial
      | true =>
        refine leads_attempt (leads_adapt (leads_request (q := .remove x) hx fun r => ?_))
        cases r <;> trivial

/-- **An action asks for itself.** -/
theorem asksFor_executeQuietly (ha : a ∈ as) : a.executeQuietly.AsksFor as opened := by
  refine Leads.bind ?_
  cases a with
  | rename source target mandatory => exact (leads_runRename ha).mono fun _ _ _ => trivial
  | compress format source target deleteSource =>
    exact (leads_runCompress ha).mono fun _ _ _ => trivial

end Action

end LogRotation
