/-
  The grammar of JSON texts (RFC 8259), and the reader that accepts exactly it.

    text    =  blanks, value, blanks
    array   =  "[", blanks, items, "]"          items    =  value, blanks, separated by "," blanks
    object  =  "{", blanks, members, "}"        members  =  member, blanks, separated by "," blanks
    member  =  string, blanks, ":", blanks, value

  1. **Grammar** - `Written` derives values, items and members at once, so that an induction on a text has
     one case for each rule.  What is written begins at once (`Written.opens`).

  2. **The readers** - they are taken apart into the reading of one value or member and of what stands
     behind it (`items?_succ`, `members?_succ`), which is a comma or the end (`after`).

  3. **The crux** - `Written.read`: the reader comes back with what was written, if it may recurse as
     often as the text is long; and `sound`: it comes back with nothing else.

  Main statement: `parse?_eq_some_iff`.  As the reader is a function, no text has two values.
-/
import LogRotation.Proofs.JsonLeaves

namespace LogRotation.Json

/-! ## Values -/

/-- A member of an object: a name and a value. -/
abbrev Member := List Element × Value

/-- What is written in one go: a value, the items of an array, one member of an object, or all. -/
inductive Phrase
  | value (v : Value)
  | items (vs : List Value)
  | member (m : Member)
  | members (ms : List Member)

/-- `Written p cs` - `cs` is a way of writing `p`, where what is written begins at once.  Items and
members are at least one. -/
inductive Written : Phrase → List Char → Prop
  | null : Written (.value .null) ['n', 'u', 'l', 'l']
  | true : Written (.value (.bool true)) ['t', 'r', 'u', 'e']
  | false : Written (.value (.bool false)) ['f', 'a', 'l', 's', 'e']
  | number {t : List Char} : Number t → Written (.value (.number t)) t
  | string {s : List Element} {cs : List Char} : Spelled s cs →
      Written (.value (.string s)) ('"' :: cs ++ ['"'])
  | emptyArray {ws : List Char} : Blanks ws → Written (.value (.array [])) ('[' :: ws ++ [']'])
  | array {vs : List Value} {ws cs : List Char} : Blanks ws → Written (.items vs) cs →
      Written (.value (.array vs)) ('[' :: ws ++ cs ++ [']'])
  | emptyObject {ws : List Char} : Blanks ws → Written (.value (.object [])) ('{' :: ws ++ ['}'])
  | object {ms : List Member} {ws cs : List Char} : Blanks ws →
      Written (.members ms) cs → Written (.value (.object ms)) ('{' :: ws ++ cs ++ ['}'])
  | lastItem {v : Value} {cs ws : List Char} : Written (.value v) cs → Blanks ws →
      Written (.items [v]) (cs ++ ws)
  | item {v : Value} {vs : List Value} {cs ws ws' ds : List Char} : Written (.value v) cs →
      Blanks ws → Blanks ws' → Written (.items vs) ds →
      Written (.items (v :: vs)) (cs ++ ws ++ ',' :: ws' ++ ds)
  | member {name : List Element} {v : Value} {ns ws ws' cs : List Char} : Spelled name ns →
      Blanks ws → Blanks ws' → Written (.value v) cs →
      Written (.member (name, v)) ('"' :: ns ++ '"' :: ws ++ ':' :: ws' ++ cs)
  | lastMember {m : Member} {cs ws : List Char} : Written (.member m) cs →
      Blanks ws → Written (.members [m]) (cs ++ ws)
  | members {m : Member} {ms : List Member}
      {cs ws ws' ds : List Char} : Written (.member m) cs → Blanks ws → Blanks ws' →
      Written (.members ms) ds → Written (.members (m :: ms)) (cs ++ ws ++ ',' :: ws' ++ ds)

/-- `Document v cs` - the text `cs` is a value between blanks. -/
def Document (v : Value) (cs : List Char) : Prop :=
  ∃ before written after, Blanks before ∧ Written (.value v) written ∧ Blanks after ∧
    cs = before ++ written ++ after

/-! ## What a value begins with and what follows it -/

/-- `Opens cs` - what begins as a value does: at once, and without closing anything. -/
def Opens (cs : List Char) : Prop :=
  ∃ c rest, cs = c :: rest ∧ isBlank c = false ∧ c ≠ ']' ∧ c ≠ '}'

theorem opens_cons {c : Char} (cs : List Char)
    (hc : isBlank c = false ∧ c ≠ ']' ∧ c ≠ '}') : Opens (c :: cs) := ⟨c, cs, rfl, hc⟩

theorem Opens.append {cs : List Char} (h : Opens cs) (rest : List Char) : Opens (cs ++ rest) := by
  obtain ⟨c, cs, rfl, hc⟩ := h
  exact opens_cons _ hc

theorem Opens.skip {cs ws : List Char} (h : Opens cs) (hws : Blanks ws) : skip (ws ++ cs) = cs := by
  obtain ⟨c, cs, rfl, hc, -⟩ := h
  exact skip_append cs hws hc

theorem ne_of_isDigit {c d : Char} (hc : Text.isDigit c = true) (hd : Text.isDigit d = false) :
    c ≠ d := by
  rintro rfl
  rw [hc] at hd
  nomatch hd

theorem opens_of_digit {c : Char} (cs : List Char) (h : Text.isDigit c = true) :
    Opens (c :: cs) := by
  refine opens_cons cs ⟨?_, ne_of_isDigit h (by decide), ne_of_isDigit h (by decide)⟩
  have hne : ∀ d, Text.isDigit d = false → c ≠ d := fun d hd => ne_of_isDigit h hd
  simp [isBlank, hne ' ' (by decide), hne '\n' (by decide), hne '\t' (by decide),
    hne '\r' (by decide)]

/-- A number begins with its sign or with a digit. -/
theorem Number.head {t : List Char} (h : Number t) :
    ∃ c rest, t = c :: rest ∧ (c = '-' ∨ Text.isDigit c = true) := by
  cases h with
  | positive ht =>
    obtain ⟨c, rest, rfl, hc⟩ := ht.head
    exact ⟨c, rest, rfl, .inr hc⟩
  | negative => exact ⟨_, _, rfl, .inl rfl⟩

theorem Written.opens {p : Phrase} {cs : List Char} (h : Written p cs) : Opens cs := by
  induction h with
  | number ht =>
    obtain ⟨c, rest, rfl, rfl | hc⟩ := ht.head
    · exact opens_cons _ (by decide)
    · exact opens_of_digit _ hc
  | lastItem _ _ ih | lastMember _ _ ih => exact ih.append _
  | item _ _ _ _ ih | members _ _ _ _ ih =>
    rw [List.append_assoc, List.append_assoc]
    exact ih.append _
  | null | true | false | string | emptyArray | array | emptyObject | object | member =>
    exact opens_cons _ (by decide)

theorem not_numeric_of_isBlank {c : Char} (h : isBlank c = true) : ¬ Numeric c := by
  simp only [isBlank, Bool.or_eq_true, beq_iff_eq, or_assoc] at h
  rcases h with rfl | rfl | rfl | rfl <;> decide

theorem Blanks.past {ws rest : List Char} (hws : Blanks ws) (hrest : Past Numeric rest) :
    Past Numeric (ws ++ rest) := by
  cases ws with
  | nil => exact hrest
  | cons c ws => exact past_cons _ (not_numeric_of_isBlank (hws c List.mem_cons_self))

/-! ## Behind an item or a member -/

/-- `after close more a cs` - what is read behind `a`: the end of what it stands in, or a comma and then
what `more` reads. -/
def after {α : Type} (close : Char) (more : List Char → Option (List α × List Char)) (a : α)
    (cs : List Char) : Option (List α × List Char) :=
  match skip cs with
  | [] => none
  | c :: rest =>
    if c = close then some ([a], rest)
    else if c = ',' then (more (skip rest)).bind fun (as, r) => some (a :: as, r)
    else none

variable {α : Type} {close : Char} {more : List Char → Option (List α × List Char)}

theorem after_eq_close {a : α} {cs rest : List Char} (h : skip cs = close :: rest) :
    after close more a cs = some ([a], rest) := by
  rw [after, h]
  exact if_pos rfl

theorem after_eq_comma {a : α} {cs rest : List Char} (hclose : ',' ≠ close)
    (h : skip cs = ',' :: rest) : after close more a cs =
      (more (skip rest)).bind fun (as, r) => some (a :: as, r) := by
  rw [after, h]
  dsimp only
  rw [if_neg hclose, if_pos rfl]

theorem after_eq_none {a : α} {cs : List Char} (hclose : ∀ rest, skip cs ≠ close :: rest)
    (hcomma : ∀ rest, skip cs ≠ ',' :: rest) : after close more a cs = none := by
  rw [after]
  cases h : skip cs with
  | nil => rfl
  | cons c rest =>
    have hc : c ≠ close := fun he => hclose rest (by rw [h, he])
    have hc' : c ≠ ',' := fun he => hcomma rest (by rw [h, he])
    dsimp only
    rw [if_neg hc, if_neg hc']

theorem after_eq_some {a : α} {cs rest : List Char} {as : List α}
    (h : after close more a cs = some (as, rest)) : ∃ ws, Blanks ws ∧
      ((as = [a] ∧ cs = ws ++ close :: rest) ∨ ∃ as' ws' ds, as = a :: as' ∧ Blanks ws' ∧
        more ds = some (as', rest) ∧ cs = ws ++ ',' :: ws' ++ ds) := by
  obtain ⟨ws, hws, hcs⟩ := exists_blanks cs
  refine ⟨ws, hws, ?_⟩
  rw [after] at h
  split at h
  · nomatch h
  · rename_i c r hr
    rw [hr] at hcs
    split at h
    · rename_i he
      obtain ⟨rfl, rfl⟩ := Prod.mk.inj (Option.some.inj h)
      exact .inl ⟨rfl, by rw [hcs, he]⟩
    split at h
    · rename_i he
      obtain ⟨⟨as', r'⟩, hmore, h⟩ := Option.bind_eq_some_iff.mp h
      obtain ⟨rfl, rfl⟩ := Prod.mk.inj (Option.some.inj h)
      obtain ⟨ws', hws', hsplit⟩ := exists_blanks r
      refine .inr ⟨as', ws', skip r, rfl, hws', hmore, ?_⟩
      rw [List.append_assoc, List.cons_append, ← hsplit, ← he, ← hcs]
    · nomatch h

/-- What stands behind the colon of a member. -/
def behindColon? (cs : List Char) : Option (List Char) :=
  match skip cs with
  | ':' :: rest => some (skip rest)
  | _ => none

theorem behindColon?_eq_some {cs rest : List Char} (h : skip cs = ':' :: rest) :
    behindColon? cs = some (skip rest) := by
  simp only [behindColon?, h]

theorem behindColon?_eq_none {cs : List Char} (h : ∀ rest, skip cs ≠ ':' :: rest) :
    behindColon? cs = none := by
  rw [behindColon?]
  split
  · exact absurd ‹_› (h _)
  · rfl

theorem exists_of_behindColon? {cs rest : List Char} (h : behindColon? cs = some rest) :
    ∃ ws ws', Blanks ws ∧ Blanks ws' ∧ cs = ws ++ ':' :: ws' ++ rest := by
  obtain ⟨ws, hws, hcs⟩ := exists_blanks cs
  rw [behindColon?] at h
  split at h
  · rename_i r hr
    obtain rfl := Option.some.inj h
    obtain ⟨ws', hws', hsplit⟩ := exists_blanks r
    refine ⟨ws, ws', hws, hws', ?_⟩
    rw [List.append_assoc, List.cons_append, ← hsplit, ← hr, ← hcs]
  · nomatch h

/-! ## The readers, taken apart -/

theorem value?_number {t rest : List Char} (fuel : Nat) (ht : Number t) (hrest : Past Numeric rest) :
    value? (fuel + 1) (t ++ rest) = some (.number t, rest) := by
  have hread := number?_append ht hrest
  obtain ⟨c, cs, rfl, hc⟩ := ht.head
  have hother : ∀ d, Text.isDigit d = false → '-' ≠ d → c ≠ d := by
    intro d hd hminus
    rcases hc with rfl | hc
    · exact hminus
    · exact ne_of_isDigit hc hd
  rw [List.cons_append] at hread ⊢
  rw [value?, hread]
  · rfl
  all_goals
    intro r he
    exact hother _ (by decide) (by decide) (List.cons.inj he).1

theorem value?_array {fuel : Nat} {ws cs : List Char} (hws : Blanks ws) (hcs : Opens cs) :
    value? (fuel + 1) ('[' :: (ws ++ cs)) = (items? fuel cs).map fun (vs, r) => (.array vs, r) := by
  rw [value?, hcs.skip hws]
  obtain ⟨c, cs, rfl, -, hc, -⟩ := hcs
  split
  · rename_i he
    exact absurd (List.cons.inj he).1 hc
  · rfl

theorem value?_object {fuel : Nat} {ws cs : List Char} (hws : Blanks ws) (hcs : Opens cs) :
    value? (fuel + 1) ('{' :: (ws ++ cs)) =
      (members? fuel cs).map fun (ms, r) => (.object ms, r) := by
  rw [value?, hcs.skip hws]
  obtain ⟨c, cs, rfl, -, -, hc⟩ := hcs
  split
  · rename_i he
    exact absurd (List.cons.inj he).1 hc
  · rfl

theorem items?_succ (fuel : Nat) (cs : List Char) : items? (fuel + 1) cs =
    (value? fuel cs).bind fun (v, rest) => after ']' (items? fuel) v rest := by
  rw [items?]
  refine Option.bind_congr fun (v, rest) _ => ?_
  dsimp only
  split
  · exact (after_eq_close ‹_›).symm
  · exact (after_eq_comma (by decide) ‹_›).symm
  · exact (after_eq_none ‹_› ‹_›).symm

theorem members?_succ (fuel : Nat) (cs : List Char) :
    members? (fuel + 1) ('"' :: cs) = (string? cs).bind fun (name, rest) =>
      (behindColon? rest).bind fun rest =>
        (value? fuel rest).bind fun (v, rest) => after '}' (members? fuel) (name, v) rest := by
  rw [members?]
  refine Option.bind_congr fun (name, rest) _ => ?_
  dsimp only
  split
  · rw [behindColon?_eq_some ‹_›]
    refine Option.bind_congr fun (v, rest) _ => ?_
    dsimp only
    split
    · exact (after_eq_close ‹_›).symm
    · exact (after_eq_comma (by decide) ‹_›).symm
    · exact (after_eq_none ‹_› ‹_›).symm
  · rw [behindColon?_eq_none ‹_›]
    rfl

/-! ## What is written is read -/

/-- `p.Read cs` - the reader finds `p` in `cs`, whatever follows that could not go on with it, if it may
recurse as often as `cs` is long. -/
def Phrase.Read : Phrase → List Char → Prop
  | .value v, cs => ∀ fuel rest, cs.length ≤ fuel → Past Numeric rest →
      value? (fuel + 1) (cs ++ rest) = some (v, rest)
  | .items vs, cs => ∀ fuel rest, cs.length ≤ fuel →
      items? (fuel + 2) (cs ++ ']' :: rest) = some (vs, rest)
  | .member m, cs => ∀ fuel rest, cs.length ≤ fuel → Past Numeric rest →
      members? (fuel + 2) (cs ++ rest) = after '}' (members? (fuel + 1)) m rest
  | .members ms, cs => ∀ fuel rest, cs.length ≤ fuel →
      members? (fuel + 2) (cs ++ '}' :: rest) = some (ms, rest)

/-- **What is written is read.** -/
theorem Written.read {p : Phrase} {cs : List Char} (h : Written p cs) : p.Read cs := by
  induction h with
  | null | true | false => exact fun fuel rest _ _ => rfl
  | number ht => exact fun fuel rest _ hrest => value?_number fuel ht hrest
  | string hs =>
    intro fuel rest _ _
    simp only [List.cons_append, List.append_assoc, List.nil_append]
    rw [value?, hs.read rest]
    rfl
  | emptyArray hws | emptyObject hws =>
    intro fuel rest _ _
    simp only [List.cons_append, List.append_assoc, List.nil_append]
    rw [value?, skip_append rest hws (by decide)]
    rfl
  | array hws hcs ih =>
    intro fuel rest hfuel _
    simp only [List.cons_append, List.length_cons, List.length_append, List.length_nil] at hfuel
    obtain ⟨fuel, rfl⟩ := Nat.exists_eq_add_of_le' (show 2 ≤ fuel by omega)
    simp only [List.cons_append, List.append_assoc, List.nil_append]
    rw [value?_array hws (hcs.opens.append _), ih fuel rest (by omega)]
    rfl
  | object hws hcs ih =>
    intro fuel rest hfuel _
    simp only [List.cons_append, List.length_cons, List.length_append, List.length_nil] at hfuel
    obtain ⟨fuel, rfl⟩ := Nat.exists_eq_add_of_le' (show 2 ≤ fuel by omega)
    simp only [List.cons_append, List.append_assoc, List.nil_append]
    rw [value?_object hws (hcs.opens.append _), ih fuel rest (by omega)]
    rfl
  | lastItem hcs hws ih =>
    intro fuel rest hfuel
    rw [List.length_append] at hfuel
    rw [items?_succ, List.append_assoc, ih fuel _ (by omega) (hws.past (past_cons _ (by decide)))]
    exact after_eq_close (skip_append rest hws (by decide))
  | item hcs hws hws' hds ih ih' =>
    intro fuel rest hfuel
    simp only [List.length_cons, List.length_append] at hfuel
    obtain ⟨fuel, rfl⟩ := Nat.exists_eq_add_of_le' (show 1 ≤ fuel by omega)
    simp only [List.cons_append, List.append_assoc]
    rw [items?_succ, ih (fuel + 1) _ (by omega) (hws.past (past_cons _ (by decide)))]
    dsimp only [Option.bind_some]
    rw [after_eq_comma (by decide) (skip_append _ hws (by decide)),
      (hds.opens.append _).skip hws', ih' fuel rest (by omega)]
    rfl
  | member hns hws hws' hcs ih =>
    intro fuel rest hfuel hrest
    simp only [List.cons_append, List.length_cons, List.length_append] at hfuel
    simp only [List.cons_append, List.append_assoc]
    rw [members?_succ, hns.read]
    dsimp only [Option.bind_some]
    rw [behindColon?_eq_some (skip_append _ hws (by decide)), (hcs.opens.append _).skip hws']
    dsimp only [Option.bind_some]
    rw [ih fuel rest (by omega) hrest]
    rfl
  | lastMember hcs hws ih =>
    intro fuel rest hfuel
    rw [List.length_append] at hfuel
    rw [List.append_assoc, ih fuel _ (by omega) (hws.past (past_cons _ (by decide)))]
    exact after_eq_close (skip_append rest hws (by decide))
  | members hcs hws hws' hds ih ih' =>
    intro fuel rest hfuel
    simp only [List.length_cons, List.length_append] at hfuel
    obtain ⟨fuel, rfl⟩ := Nat.exists_eq_add_of_le' (show 1 ≤ fuel by omega)
    simp only [List.cons_append, List.append_assoc]
    rw [ih (fuel + 1) _ (by omega) (hws.past (past_cons _ (by decide))),
      after_eq_comma (by decide) (skip_append _ hws (by decide)),
      (hds.opens.append _).skip hws', ih' fuel rest (by omega)]
    rfl

/-! ## What is read was written -/

/-- What the three readers find was written, as deep as they may go. -/
structure Sound (fuel : Nat) : Prop where
  value : ∀ {cs v rest}, value? fuel cs = some (v, rest) →
    ∃ body, Written (.value v) body ∧ cs = body ++ rest
  items : ∀ {cs vs rest}, items? fuel cs = some (vs, rest) →
    ∃ body, Written (.items vs) body ∧ cs = body ++ ']' :: rest
  members : ∀ {cs ms rest}, members? fuel cs = some (ms, rest) →
    ∃ body, Written (.members ms) body ∧ cs = body ++ '}' :: rest

theorem Sound.value_succ {fuel : Nat} (hfuel : Sound fuel) {cs rest : List Char} {v : Value}
    (h : value? (fuel + 1) cs = some (v, rest)) :
    ∃ body, Written (.value v) body ∧ cs = body ++ rest := by
  rw [value?.eq_def] at h
  dsimp only at h
  split at h
  · obtain ⟨rfl, rfl⟩ := Prod.mk.inj (Option.some.inj h)
    exact ⟨_, .null, rfl⟩
  · obtain ⟨rfl, rfl⟩ := Prod.mk.inj (Option.some.inj h)
    exact ⟨_, .true, rfl⟩
  · obtain ⟨rfl, rfl⟩ := Prod.mk.inj (Option.some.inj h)
    exact ⟨_, .false, rfl⟩
  · -- a string
    obtain ⟨⟨s, r⟩, hs, he⟩ := Option.map_eq_some_iff.mp h
    obtain ⟨rfl, rfl⟩ := Prod.mk.inj he
    obtain ⟨body, hbody, rfl⟩ := spelled_of_string? hs
    exact ⟨_, .string hbody, by simp⟩
  · -- an array, without items or with some
    rename_i cs
    obtain ⟨ws, hws, hcs⟩ := exists_blanks cs
    split at h
    · rename_i r hr
      obtain ⟨rfl, rfl⟩ := Prod.mk.inj (Option.some.inj h)
      exact ⟨_, .emptyArray hws, by rw [hcs, hr]; simp⟩
    · obtain ⟨⟨vs, r⟩, hvs, he⟩ := Option.map_eq_some_iff.mp h
      obtain ⟨rfl, rfl⟩ := Prod.mk.inj he
      obtain ⟨body, hbody, he⟩ := hfuel.items hvs
      exact ⟨_, .array hws hbody, by rw [hcs, he]; simp⟩
  · -- an object, without members or with some
    rename_i cs
    obtain ⟨ws, hws, hcs⟩ := exists_blanks cs
    split at h
    · rename_i r hr
      obtain ⟨rfl, rfl⟩ := Prod.mk.inj (Option.some.inj h)
      exact ⟨_, .emptyObject hws, by rw [hcs, hr]; simp⟩
    · obtain ⟨⟨ms, r⟩, hms, he⟩ := Option.map_eq_some_iff.mp h
      obtain ⟨rfl, rfl⟩ := Prod.mk.inj he
      obtain ⟨body, hbody, he⟩ := hfuel.members hms
      exact ⟨_, .object hws hbody, by rw [hcs, he]; simp⟩
  · obtain ⟨⟨t, r⟩, ht, he⟩ := Option.map_eq_some_iff.mp h
    obtain ⟨rfl, rfl⟩ := Prod.mk.inj he
    obtain ⟨hnumber, rfl⟩ := number_of_number? ht
    exact ⟨t, .number hnumber, rfl⟩

theorem Sound.items_succ {fuel : Nat} (hfuel : Sound fuel) {cs rest : List Char} {vs : List Value}
    (h : items? (fuel + 1) cs = some (vs, rest)) :
    ∃ body, Written (.items vs) body ∧ cs = body ++ ']' :: rest := by
  rw [items?_succ] at h
  obtain ⟨⟨v, r⟩, hv, hafter⟩ := Option.bind_eq_some_iff.mp h
  obtain ⟨body, hbody, rfl⟩ := hfuel.value hv
  obtain ⟨ws, hws, ⟨rfl, rfl⟩ | ⟨vs, ws', ds, rfl, hws', hds, rfl⟩⟩ := after_eq_some hafter
  · exact ⟨_, .lastItem hbody hws, by simp⟩
  · obtain ⟨more, hmore, rfl⟩ := hfuel.items hds
    exact ⟨_, .item hbody hws hws' hmore, by simp⟩

/-- What is read of members is one member and what stands behind it. -/
theorem Sound.member {fuel : Nat} (hfuel : Sound fuel) {cs rest : List Char} {ms : List Member}
    (h : members? (fuel + 1) cs = some (ms, rest)) : ∃ m body r, Written (.member m) body ∧
      cs = body ++ r ∧ after '}' (members? fuel) m r = some (ms, rest) := by
  by_cases hquote : ∃ ds, cs = '"' :: ds
  · obtain ⟨ds, rfl⟩ := hquote
    rw [members?_succ] at h
    obtain ⟨⟨name, r⟩, hname, h⟩ := Option.bind_eq_some_iff.mp h
    obtain ⟨r', hcolon, h⟩ := Option.bind_eq_some_iff.mp h
    obtain ⟨⟨v, r''⟩, hv, hafter⟩ := Option.bind_eq_some_iff.mp h
    obtain ⟨ns, hns, rfl⟩ := spelled_of_string? hname
    obtain ⟨ws, ws', hws, hws', rfl⟩ := exists_of_behindColon? hcolon
    obtain ⟨body, hbody, rfl⟩ := hfuel.value hv
    exact ⟨_, _, r'', .member hns hws hws' hbody, by simp, hafter⟩
  · rw [members?] at h
    · nomatch h
    · exact fun ds he => hquote ⟨ds, he⟩

theorem Sound.members_succ {fuel : Nat} (hfuel : Sound fuel) {cs rest : List Char}
    {ms : List Member} (h : members? (fuel + 1) cs = some (ms, rest)) :
    ∃ body, Written (.members ms) body ∧ cs = body ++ '}' :: rest := by
  obtain ⟨m, body, r, hbody, rfl, hafter⟩ := hfuel.member h
  obtain ⟨ws, hws, ⟨rfl, rfl⟩ | ⟨ms, ws', ds, rfl, hws', hds, rfl⟩⟩ := after_eq_some hafter
  · exact ⟨_, .lastMember hbody hws, by simp⟩
  · obtain ⟨more, hmore, rfl⟩ := hfuel.members hds
    exact ⟨_, .members hbody hws hws' hmore, by simp⟩

/-- **What is read was written**, however deep the readers go. -/
theorem sound (fuel : Nat) : Sound fuel := by
  induction fuel with
  | zero => exact ⟨nofun, nofun, nofun⟩
  | succ fuel ih => exact ⟨ih.value_succ, ih.items_succ, ih.members_succ⟩

/-! ## The reader -/

/-- **The reader accepts exactly the grammar.** -/
theorem parse?_eq_some_iff {cs : List Char} {v : Value} :
    Value.parse? cs = some v ↔ Document v cs := by
  constructor
  · intro h
    rw [Value.parse?] at h
    split at h
    · rename_i v' rest hread
      split at h
      · rename_i hend
        obtain rfl := Option.some.inj h
        obtain ⟨before, hbefore, hcs⟩ := exists_blanks cs
        obtain ⟨body, hbody, hbody'⟩ := (sound _).value hread
        obtain ⟨after, hafter, hrest⟩ := exists_blanks rest
        rw [List.isEmpty_iff.mp hend, List.append_nil] at hrest
        refine ⟨before, body, after, hbefore, hbody, hafter, ?_⟩
        rw [List.append_assoc, ← hrest, ← hbody', ← hcs]
      · nomatch h
    · nomatch h
  · rintro ⟨before, body, after, hbefore, hbody, hafter, rfl⟩
    have hread := hbody.read (before ++ body ++ after).length after (by simp; omega)
      (by simpa using hafter.past (past_nil Numeric))
    rw [Value.parse?, List.append_assoc, (hbody.opens.append after).skip hbefore,
      ← List.append_assoc, hread]
    dsimp only
    rw [skip_blanks hafter]
    rfl

end LogRotation.Json
