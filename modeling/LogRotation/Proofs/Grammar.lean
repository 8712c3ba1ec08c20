/-
  The grammar of file name templates, and the reader that accepts exactly it.

    template  =  escape lead, "%d", ending, blocks, escape tail
    ending    =  "ate", wherever it follows; else nothing
    blocks    =  nothing, "{format}" or "{format}{zone}", as many as there are

  1. **Shapes** - a `Shape` is what a template is made of.  `Shape.text` writes it down, and
     `Shape.Legible` says when it is the reading of what was written: no brace block is cut short by
     a brace of its own, and nothing that could be read as the next part is left to the tail.

  2. **The scanner** - each reader of `Template` is inverted once: `literal` in `literal_cases`,
     `block` in `block_eq_some_iff`, `zoneOf?` in `zoneOf?_eq_some_iff`, and `placeholder` in
     `placeholder_text` and `placeholder_ok`.

  3. **The crux** - `parse_text`: on the text of a legible shape the reader comes back with
     the parts of that very shape.  One reading being a function of the text, no text has two
     shapes.
-/
import LogRotation.Template

namespace LogRotation.Template

/-! ## Shapes -/

/-- `Names name zone` - a name of a zone, between blanks and in any case of its letters. -/
def Names (name : List Char) : Zone → Prop
  | .utc =>
    Text.sameWord (Text.trim name) "UTC".toList ∨ Text.sameWord (Text.trim name) "GMT".toList
  | .localTime => Text.sameWord (Text.trim name) "local".toList

/-- The brace blocks of a placeholder; a zone is named in the second one. -/
inductive Blocks
  | none
  | format (f : List Char)
  | zoned (f name : List Char) (zone : Zone)
  deriving DecidableEq, Repr

namespace Blocks

/-- Writes brace blocks down. -/
def text : Blocks → List Char
  | none => []
  | format f => '{' :: (f ++ ['}'])
  | zoned f name _ => '{' :: (f ++ '}' :: '{' :: (name ++ ['}']))

/-- The format that the blocks ask for: a missing or blank one stands for the default. -/
def dateFormat : Blocks → List Char
  | none => defaultFormat
  | format f | zoned f _ _ => if f.all Text.isBlank then defaultFormat else f

/-- The zone that the blocks name. -/
def zone? : Blocks → Option Zone
  | none | format _ => Option.none
  | zoned _ _ zone => some zone

/-- `Legible b rest` - blocks that end where they are meant to end when `rest` follows them. -/
def Legible (rest : List Char) : Blocks → Prop
  | none => rest.head? ≠ some '{'
  | format f => '}' ∉ f ∧ rest.head? ≠ some '{'
  | zoned f name zone => '}' ∉ f ∧ '}' ∉ name ∧ Names name zone

end Blocks

/-- The long ending of the placeholder's name. -/
def longEnding : List Char := ['a', 't', 'e']

/-- What a template is made of. -/
structure Shape where
  lead : List Char
  long : Bool
  blocks : Blocks
  tail : List Char
  deriving DecidableEq, Repr

namespace Shape

/-- What stands behind the letter of the placeholder and its long ending. -/
def afterName (s : Shape) : List Char := s.blocks.text ++ escape s.tail

/-- Writes a template down. -/
def text (s : Shape) : List Char :=
  escape s.lead ++ '%' :: 'd' :: ((if s.long then longEnding else []) ++ s.afterName)

/-- `Legible s` - the parts of `s` are read back as they are: the long ending is taken wherever it
follows, and so is a brace block. -/
def Legible (s : Shape) : Prop :=
  (s.long = false → ¬ longEnding <+: s.afterName) ∧ s.blocks.Legible (escape s.tail)

/-- The template of a shape, once its format is read. -/
def template (s : Shape) (raw : String) (parts : List DateFormat.Part) : Template :=
  ⟨raw, s.lead, s.blocks.dateFormat, parts, s.tail, s.blocks.zone?.getD .localTime,
    s.blocks.zone?.isSome⟩

end Shape

/-! ## Literal text -/

/-- Literal text is read up to the conversion that ends it. -/
theorem literal_escape_conversion (x rest : List Char) {c : Char} (hc : c ≠ '%') :
    literal (escape x ++ '%' :: c :: rest) = (x, .conversion c rest) := by
  induction x with
  | nil =>
    rw [escape, List.nil_append, literal]
    exact hc
  | cons a x ih =>
    by_cases ha : a = '%'
    · subst ha
      simp [escape, literal, ih]
    · simp only [escape, if_neg ha, List.cons_append]
      rw [literal, ih]
      all_goals grind

/-- **The three ends of literal text.**  Whatever is read, the text in front of its end was written
with its percent signs doubled. -/
theorem literal_cases (cs : List Char) :
    (∃ x, cs = escape x ∧ literal cs = (x, .finish)) ∨
    (∃ x c rest, c ≠ '%' ∧ cs = escape x ++ '%' :: c :: rest ∧
      literal cs = (x, .conversion c rest)) ∨
    (∃ x, cs = escape x ++ ['%'] ∧ literal cs = (x, .dangling)) := by
  fun_induction literal cs with
  | case1 => exact Or.inl ⟨[], rfl, rfl⟩
  | case2 rest ih =>
    -- a doubled percent sign stands for itself
    rcases ih with ⟨x, hx, hl⟩ | ⟨x, c, r, hc, hx, hl⟩ | ⟨x, hx, hl⟩
    · exact Or.inl ⟨'%' :: x, by simp [escape, hx], by rw [hl]⟩
    · exact Or.inr (Or.inl ⟨'%' :: x, c, r, hc, by simp [escape, hx], by rw [hl]⟩)
    · exact Or.inr (Or.inr ⟨'%' :: x, by simp [escape, hx], by rw [hl]⟩)
  | case3 c rest hne =>
    -- a percent sign before another letter begins a conversion
    refine Or.inr (Or.inl ⟨[], c, rest, ?_, rfl, rfl⟩)
    rintro rfl
    exact hne rfl
  | case4 => exact Or.inr (Or.inr ⟨[], rfl, rfl⟩)
  | case5 c rest h1 h2 h3 ih =>
    -- any other letter stands for itself
    have hc : c ≠ '%' := by
      rintro rfl
      cases rest with
      | nil => exact h3 rfl rfl
      | cons d r => exact h2 d r rfl rfl
    rcases ih with ⟨x, hx, hl⟩ | ⟨x, d, r, hd, hx, hl⟩ | ⟨x, hx, hl⟩
    · exact Or.inl ⟨c :: x, by simp [escape, hc, ← hx], by rw [hl]⟩
    · exact Or.inr (Or.inl ⟨c :: x, d, r, hd, by simp [escape, hc, hx], by rw [hl]⟩)
    · exact Or.inr (Or.inr ⟨c :: x, by simp [escape, hc, hx], by rw [hl]⟩)

theorem escape_inj {x y : List Char} (h : escape x = escape y) : x = y := by
  have hx := literal_escape x
  rw [h, literal_escape y] at hx
  exact (Prod.mk.inj hx).1.symm

/-! ## Brace blocks -/

/-- A block is what stands in front of the first closing brace. -/
theorem block_append {f : List Char} (rest : List Char) (hf : '}' ∉ f) :
    block (f ++ '}' :: rest) = some (f, rest) := by
  induction f with
  | nil => simp [block]
  | cons c f ih =>
    have hc : c ≠ '}' := fun h => hf (h ▸ List.mem_cons_self)
    have hf' : '}' ∉ f := fun h => hf (List.mem_cons_of_mem c h)
    rw [List.cons_append, block, if_neg hc, ih hf']
    rfl

theorem block_eq_some_iff {cs f rest : List Char} :
    block cs = some (f, rest) ↔ '}' ∉ f ∧ cs = f ++ '}' :: rest := by
  constructor
  · intro h
    induction cs generalizing f with
    | nil => nomatch h
    | cons c cs ih =>
      rw [block] at h
      split at h
      · rename_i hc
        obtain ⟨rfl, rfl⟩ := Prod.mk.inj (Option.some.inj h)
        exact ⟨List.not_mem_nil, by rw [hc]; rfl⟩
      · rename_i hc
        obtain ⟨⟨b, r⟩, hb, he⟩ := Option.map_eq_some_iff.mp h
        obtain ⟨rfl, rfl⟩ := Prod.mk.inj he
        obtain ⟨hnot, hcs⟩ := ih hb
        refine ⟨?_, by rw [hcs]; rfl⟩
        intro hmem
        rcases List.mem_cons.mp hmem with he | hm
        · exact hc he.symm
        · exact hnot hm
  · rintro ⟨hf, rfl⟩
    exact block_append rest hf

theorem sameWord_upper (name : List Char) :
    Text.sameWord name "utc".toList = Text.sameWord name "UTC".toList ∧
    Text.sameWord name "gmt".toList = Text.sameWord name "GMT".toList := by
  have hu : "utc".toList.map Text.lowerAscii = "UTC".toList.map Text.lowerAscii := by decide
  have hg : "gmt".toList.map Text.lowerAscii = "GMT".toList.map Text.lowerAscii := by decide
  constructor
  · rw [Text.sameWord, Text.sameWord, hu]
  · rw [Text.sameWord, Text.sameWord, hg]

/-- No word is the name of both zones. -/
theorem not_local_of_utc {name : List Char} (h : Names name .utc) : ¬ Names name .localTime := by
  intro hl
  simp only [Names, Text.sameWord, beq_iff_eq] at h hl
  rw [hl] at h
  revert h
  decide

theorem zoneOf?_eq_some_iff {name : List Char} {zone : Zone} :
    zoneOf? name = some zone ↔ Names name zone := by
  obtain ⟨hu, hg⟩ := sameWord_upper (Text.trim name)
  have hutc : Names name .utc ↔ (Text.sameWord (Text.trim name) "utc".toList ||
      Text.sameWord (Text.trim name) "gmt".toList) = true := by
    rw [hu, hg, Bool.or_eq_true]
    exact Iff.rfl
  rw [zoneOf?]
  split
  · rename_i h
    cases zone with
    | utc => exact ⟨fun _ => hutc.mpr h, fun _ => rfl⟩
    | localTime =>
      constructor
      · intro h'
        nomatch h'
      · intro h'
        exact absurd h' (not_local_of_utc (hutc.mpr h))
  · rename_i h
    cases zone with
    | utc =>
      constructor
      · intro h'
        split at h' <;> nomatch h'
      · intro h'
        exact absurd (hutc.mp h') h
    | localTime =>
      split
      · rename_i hl
        exact ⟨fun _ => hl, fun _ => rfl⟩
      · rename_i hl
        constructor
        · intro h'
          nomatch h'
        · intro h'
          exact absurd h' hl

/-! ## The placeholder -/

/-- The long ending is dropped where it follows, and nothing else is. -/
theorem dropLongName_append {long : Bool} {rest : List Char}
    (h : long = false → ¬ longEnding <+: rest) :
    dropLongName ((if long then longEnding else []) ++ rest) = rest := by
  cases long with
  | true => rfl
  | false =>
    show dropLongName rest = rest
    rw [dropLongName]
    rintro r rfl
    exact h rfl ⟨r, rfl⟩

theorem exists_ending (cs : List Char) : ∃ long : Bool,
    cs = (if long then longEnding else []) ++ dropLongName cs ∧
    (long = false → ¬ longEnding <+: dropLongName cs) := by
  by_cases h : longEnding <+: cs
  · obtain ⟨rest, rfl⟩ := h
    exact ⟨true, rfl, fun h => nomatch h⟩
  · have hd : dropLongName cs = cs := by
      show dropLongName ((if false then longEnding else []) ++ cs) = cs
      exact dropLongName_append fun _ => h
    refine ⟨false, hd.symm, fun _ => ?_⟩
    rwa [hd]

/-- Blocks that are legible are read back. -/
theorem placeholder_text {long : Bool} {b : Blocks} {rest : List Char}
    (hlong : long = false → ¬ longEnding <+: b.text ++ rest) (hb : b.Legible rest) :
    placeholder ((if long then longEnding else []) ++ (b.text ++ rest)) =
      .ok ⟨b.dateFormat, b.zone?, rest⟩ := by
  rw [placeholder, dropLongName_append hlong]
  cases b with
  | none =>
    cases rest with
    | nil => rfl
    | cons c rest =>
      have hc : c ≠ '{' := fun h => hb (by rw [h]; rfl)
      dsimp only [Blocks.text, List.nil_append]
      split
      · rename_i he
        exact absurd (List.cons.inj he).1 hc
      · rfl
  | format f =>
    obtain ⟨hf, hrest⟩ := hb
    simp only [Blocks.text, List.cons_append, List.append_assoc, List.nil_append,
      block_append rest hf]
    cases rest with
    | nil => rfl
    | cons c rest =>
      have hc : c ≠ '{' := fun h => hrest (by rw [h]; rfl)
      split
      · rename_i he
        cases he
      · rename_i he
        exact absurd (List.cons.inj (Prod.mk.inj (Option.some.inj he)).2).1 hc
      · rename_i he
        obtain ⟨rfl, rfl⟩ := Prod.mk.inj (Option.some.inj he)
        rfl
  | zoned f name zone =>
    obtain ⟨hf, hname, hzone⟩ := hb
    simp only [Blocks.text, List.cons_append, List.append_assoc, List.nil_append,
      block_append _ hf, block_append rest hname, zoneOf?_eq_some_iff.mpr hzone]
    rfl

/-- What was read as a placeholder is legible blocks and what follows them. -/
theorem placeholder_ok {cs : List Char} {p : Placeholder} (h : placeholder cs = .ok p) :
    ∃ (long : Bool) (b : Blocks), cs = (if long then longEnding else []) ++ (b.text ++ p.rest) ∧
      (long = false → ¬ longEnding <+: b.text ++ p.rest) ∧ b.Legible p.rest := by
  obtain ⟨long, hcs, hlong⟩ := exists_ending cs
  rw [placeholder] at h
  generalize dropLongName cs = after at hcs hlong h
  suffices hb : ∃ b : Blocks, after = b.text ++ p.rest ∧ b.Legible p.rest by
    obtain ⟨b, rfl, hb⟩ := hb
    exact ⟨long, b, hcs, hlong, hb⟩
  split at h
  · rename_i afterBrace
    split at h
    · nomatch h
    · -- two blocks, of which the second names a zone
      rename_i f afterSecond hblock
      obtain ⟨hf, rfl⟩ := block_eq_some_iff.mp hblock
      split at h
      · nomatch h
      · rename_i name rest hname
        obtain ⟨hn, rfl⟩ := block_eq_some_iff.mp hname
        split at h
        · nomatch h
        · rename_i zone hzone
          cases h
          exact ⟨.zoned f name zone, by simp [Blocks.text], hf, hn, zoneOf?_eq_some_iff.mp hzone⟩
    · -- one block
      rename_i f rest hrest hblock
      obtain ⟨hf, rfl⟩ := block_eq_some_iff.mp hblock
      cases h
      refine ⟨.format f, by simp [Blocks.text], hf, fun hhead => ?_⟩
      obtain ⟨r, rfl⟩ := List.head?_eq_some_iff.mp hhead
      exact hrest r rfl
  · -- no block
    rename_i hafter
    cases h
    refine ⟨.none, rfl, fun hhead => ?_⟩
    obtain ⟨r, rfl⟩ := List.head?_eq_some_iff.mp hhead
    exact hafter r rfl

/-! ## Whole templates -/

theorem literal_shape (s : Shape) :
    literal s.text =
      (s.lead, .conversion 'd' ((if s.long then longEnding else []) ++ s.afterName)) :=
  literal_escape_conversion _ _ (by decide)

/-- **The crux.**  On the text of a legible shape, the reader comes back with the parts of that
shape, and all that is left to refuse is its format. -/
theorem parse_text {text : String} {s : Shape} (htext : text.toList = s.text) (hs : s.Legible) :
    parse text = match DateFormat.parse s.blocks.dateFormat with
      | .error fault =>
        .error (.invalidPattern text (.dateFormat (String.ofList s.blocks.dateFormat) fault))
      | .ok parts => .ok (s.template text parts) := by
  have hplace := placeholder_text hs.1 hs.2
  simp only [parse, htext, literal_shape, ne_eq, not_true_eq_false, if_false, Shape.afterName,
    hplace, literal_escape, stopFault]
  rfl

theorem stopFault_eq_none {stop : Stop} (h : stopFault stop = none) : stop = .finish := by
  rw [stopFault.eq_def] at h
  split at h
  · rfl
  · nomatch h
  · nomatch h
  · nomatch h

/-- A template that was read is the text of a legible shape. -/
theorem exists_shape_of_parse_ok {text : String} {t : Template} (h : parse text = .ok t) :
    ∃ s : Shape, text.toList = s.text ∧ s.Legible := by
  rw [parse] at h
  rcases literal_cases text.toList with ⟨x, -, hl⟩ | ⟨x, c, rest, hc, hx, hl⟩ | ⟨x, -, hl⟩
  · rw [hl] at h
    nomatch h
  · -- only the text that stops at a conversion is read on
    rw [hl] at h
    dsimp only at h
    split at h
    · nomatch h
    · rename_i hd
      have hd : c = 'd' := Decidable.not_not.mp hd
      split at h
      · nomatch h
      · rename_i p hp
        obtain ⟨long, b, hrest, hlong, hb⟩ := placeholder_ok hp
        split at h
        · nomatch h
        · rename_i hstop
          have hfinish := stopFault_eq_none hstop
          rcases literal_cases p.rest with ⟨y, hy, -⟩ | ⟨y, d, r, -, -, hl'⟩ | ⟨y, -, hl'⟩
          · rw [hy] at hrest hlong hb
            refine ⟨⟨x, long, b, y⟩, ?_, hlong, hb⟩
            rw [hx, hd, hrest]
            rfl
          · rw [hl'] at hfinish
            nomatch hfinish
          · rw [hl'] at hfinish
            nomatch hfinish
  · rw [hl] at h
    nomatch h

/-- Every failure is a text without a placeholder or a pattern that is refused, and says which
text. -/
theorem parse_cases (text : String) :
    (∃ t, parse text = .ok t) ∨
    (parse text = .error (.noDateSpecifier text) ∧ ∃ x, text.toList = escape x) ∨
    ∃ reason, parse text = .error (.invalidPattern text reason) := by
  rw [parse]
  rcases literal_cases text.toList with ⟨x, hx, hl⟩ | ⟨x, c, rest, -, -, hl⟩ | ⟨x, -, hl⟩
  · refine Or.inr (Or.inl ⟨?_, x, hx⟩)
    rw [hl]
  · rw [hl]
    dsimp only
    split
    · exact Or.inr (Or.inr ⟨_, rfl⟩)
    · split
      · exact Or.inr (Or.inr ⟨_, rfl⟩)
      · split
        · exact Or.inr (Or.inr ⟨_, rfl⟩)
        · split
          · exact Or.inr (Or.inr ⟨_, rfl⟩)
          · exact Or.inl ⟨_, rfl⟩
  · rw [hl]
    exact Or.inr (Or.inr ⟨_, rfl⟩)

theorem parse_escape {text : String} {x : List Char} (h : text.toList = escape x) :
    parse text = .error (.noDateSpecifier text) := by
  rw [parse, h, literal_escape]

/-! ## One shape for one text -/

/-- A block and what follows it are told apart. -/
theorem block_text_inj {f g r r' : List Char} (hf : '}' ∉ f) (hg : '}' ∉ g)
    (h : f ++ '}' :: r = g ++ '}' :: r') : f = g ∧ r = r' := by
  have hblock := block_append r hf
  rw [h, block_append r' hg] at hblock
  obtain ⟨rfl, rfl⟩ := Prod.mk.inj (Option.some.inj hblock)
  exact ⟨rfl, rfl⟩

/-- Blocks that are legible where they stand are the only ones that could stand there. -/
theorem Blocks.text_append_inj {b b' : Blocks} {r r' : List Char} (hb : b.Legible r)
    (hb' : b'.Legible r') (h : b.text ++ r = b'.text ++ r') : b = b' ∧ r = r' := by
  cases b with
  | none =>
    cases b' with
    | none => exact ⟨rfl, h⟩
    | format g => exact absurd (by rw [show r = _ from h]; rfl) hb
    | zoned g n z => exact absurd (by rw [show r = _ from h]; rfl) hb
  | format f =>
    cases b' with
    | none => exact absurd (by rw [show r' = _ from h.symm]; rfl) hb'
    | format g =>
      simp only [text, List.cons_append, List.append_assoc, List.nil_append, List.cons.injEq,
        true_and] at h
      obtain ⟨rfl, rfl⟩ := block_text_inj hb.1 hb'.1 h
      exact ⟨rfl, rfl⟩
    | zoned g n z =>
      simp only [text, List.cons_append, List.append_assoc, List.nil_append, List.cons.injEq,
        true_and] at h
      obtain ⟨-, rfl⟩ := block_text_inj hb.1 hb'.1 h
      exact absurd rfl hb.2
  | zoned f n z =>
    cases b' with
    | none => exact absurd (by rw [show r' = _ from h.symm]; rfl) hb'
    | format g =>
      simp only [text, List.cons_append, List.append_assoc, List.nil_append, List.cons.injEq,
        true_and] at h
      obtain ⟨-, rfl⟩ := block_text_inj hb.1 hb'.1 h
      exact absurd rfl hb'.2
    | zoned g n' z' =>
      simp only [text, List.cons_append, List.append_assoc, List.nil_append, List.cons.injEq,
        true_and] at h
      obtain ⟨rfl, hrest⟩ := block_text_inj hb.1 hb'.1 h
      obtain ⟨rfl, rfl⟩ := block_text_inj hb.2.1 hb'.2.1 (List.cons.inj hrest).2
      have hz := zoneOf?_eq_some_iff.mpr hb.2.2
      rw [zoneOf?_eq_some_iff.mpr hb'.2.2] at hz
      exact ⟨by rw [Option.some.inj hz], rfl⟩

theorem ending_inj {long long' : Bool}
    (h : (if long then longEnding else []) = if long' then longEnding else []) : long = long' := by
  revert h
  cases long <;> cases long' <;> decide

/-- **Unambiguity.**  A text has one legible shape at most. -/
theorem Shape.text_inj {s s' : Shape} (hs : s.Legible) (hs' : s'.Legible) (h : s.text = s'.text) :
    s = s' := by
  have hl := literal_shape s
  rw [h, literal_shape s'] at hl
  obtain ⟨hlead, hstop⟩ := Prod.mk.inj hl
  obtain ⟨-, hafter⟩ := Stop.conversion.inj hstop
  have hd : dropLongName ((if s.long then longEnding else []) ++ s.afterName) = s.afterName :=
    dropLongName_append hs.1
  rw [← hafter] at hd
  have hrest : s'.afterName = s.afterName := (dropLongName_append hs'.1).symm.trans hd
  obtain ⟨hb, htail⟩ := Blocks.text_append_inj hs'.2 hs.2 hrest
  have hlong : s'.long = s.long := by
    rw [hrest] at hafter
    exact ending_inj (List.append_cancel_right hafter)
  obtain ⟨lead, long, b, tail⟩ := s
  obtain ⟨lead', long', b', tail'⟩ := s'
  dsimp only at hlead hlong hb htail
  rw [hlead, hlong, hb, escape_inj htail]

/-! ## What is accepted, and as what -/

/-- `Reading text s parts` - `text` has the shape `s`, and the format of `s` has these parts. -/
structure Reading (text : String) (s : Shape) (parts : List DateFormat.Part) : Prop where
  text_eq : text.toList = s.text
  legible : s.Legible
  format_ok : DateFormat.parse s.blocks.dateFormat = .ok parts

theorem parse_eq_ok_iff {text : String} {t : Template} :
    parse text = .ok t ↔ ∃ s parts, Reading text s parts ∧ t = s.template text parts := by
  constructor
  · intro h
    obtain ⟨s, htext, hs⟩ := exists_shape_of_parse_ok h
    rw [parse_text htext hs] at h
    split at h
    · nomatch h
    · rename_i parts hparts
      exact ⟨s, parts, ⟨htext, hs, hparts⟩, (Except.ok.inj h).symm⟩
  · rintro ⟨s, parts, ⟨htext, hs, hparts⟩, rfl⟩
    rw [parse_text htext hs, hparts]

/-- A template keeps the zone that it names, whatever zones are set. -/
theorem zone_foldl_withZone {t : Template} (h : t.zonePinned = true) (zones : List Zone) :
    (zones.foldl withZone t).zone = t.zone := by
  induction zones with
  | nil => rfl
  | cons z zones ih =>
    rw [List.foldl_cons, withZone, if_pos h]
    exact ih

/-- **The reader is exact.**  What is accepted is what the grammar produces, and it is accepted as
its one shape; literal text alone has no placeholder; every other text is refused as a pattern. -/
theorem parse_exact (text : String) :
    (∀ t, parse text = .ok t ↔ ∃ s parts, Reading text s parts ∧ t = s.template text parts) ∧
    (∀ s s' parts parts', Reading text s parts → Reading text s' parts' → s = s') ∧
    (∀ s parts zone, Reading text s parts → s.blocks.zone? = some zone →
      ∀ zones : List Zone, (zones.foldl withZone (s.template text parts)).zone = zone) ∧
    (parse text = .error (.noDateSpecifier text) ↔ ∃ x, text.toList = escape x) ∧
    ((∃ reason, parse text = .error (.invalidPattern text reason)) ↔
      (¬ ∃ s parts, Reading text s parts) ∧ ¬ ∃ x, text.toList = escape x) := by
  refine ⟨fun t => parse_eq_ok_iff, ?_, ?_, ?_, ?_⟩
  · intro s s' parts parts' h h'
    exact Shape.text_inj h.legible h'.legible (h.text_eq.symm.trans h'.text_eq)
  · intro s parts zone _ hzone zones
    rw [zone_foldl_withZone (by rw [Shape.template, hzone]; rfl), Shape.template, hzone]
    rfl
  · constructor
    · intro h
      rcases parse_cases text with ⟨t, ht⟩ | ⟨-, hx⟩ | ⟨reason, hr⟩
      · rw [h] at ht
        nomatch ht
      · exact hx
      · rw [h] at hr
        nomatch hr
    · rintro ⟨x, hx⟩
      exact parse_escape hx
  · constructor
    · rintro ⟨reason, hr⟩
      refine ⟨?_, ?_⟩
      · rintro ⟨s, parts, h⟩
        have hok := parse_eq_ok_iff.mpr ⟨s, parts, h, rfl⟩
        rw [hr] at hok
        nomatch hok
      · rintro ⟨x, hx⟩
        rw [parse_escape hx] at hr
        nomatch hr
    · rintro ⟨hnone, hplain⟩
      rcases parse_cases text with ⟨t, ht⟩ | ⟨-, hx⟩ | hr
      · obtain ⟨s, parts, h, -⟩ := parse_eq_ok_iff.mp ht
        exact absurd ⟨s, parts, h⟩ hnone
      · exact absurd hx hplain
      · exact hr

/-- A template with all its parts, read as the grammar says: the brace that opens within the format
belongs to it, and the zone that is named stays. -/
theorem parse_exact_long_zoned :
    parse "5%%-%date\x7byyyy'\x7b'\x7d\x7b Utc \x7d%%.gz" = .ok
        ⟨"5%%-%date\x7byyyy'\x7b'\x7d\x7b Utc \x7d%%.gz", "5%-".toList, "yyyy'\x7b'".toList,
          [.field (.year .full), .literal '{'], "%.gz".toList, .utc, true⟩ ∧
      parse "5%%d" = .error (.noDateSpecifier "5%%d") := by
  refine ⟨?_, ?_⟩
  · refine ((parse_exact _).1 _).mpr
      ⟨⟨"5%-".toList, true, .zoned "yyyy'\x7b'".toList " Utc ".toList .utc, "%.gz".toList⟩,
        [.field (.year .full), .literal '{'], ⟨?_, ?_, ?_⟩, ?_⟩
    · decide
    · exact ⟨fun h => (nomatch h), by decide, by decide, Or.inl (by decide)⟩
    · rfl
    · decide
  · exact (parse_exact _).2.2.2.1.mpr ⟨"5%d".toList, by decide⟩

end LogRotation.Template
