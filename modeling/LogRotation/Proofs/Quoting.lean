/-
  Any text stands for itself in a date format, once it is quoted.

  A text is put between quotes, with each of its own written twice.  Its quotes at the front are then
  read as pairs before the section opens, and those at the end just before it closes; since pairs mean a
  quote wherever they stand, all of the text is literal in the end.  A text of quotes alone never opens a
  section, and is the one that this does not hold of.

    * SYMBOLS   what is read of a quoted text, before it and behind it (`symbols_embedded`,
                `symbols_append`);
    * PIECES    quoted text parts the runs of letters on both sides (`pieces_append_quoted`);
    * DATES     a format with a quoted text in it has the parts of both sides, and the text between them
                (`parse_embedded`).

  Main statement: `quoting_is_verbatim`.
-/
import LogRotation.Proofs.Acceptance

namespace LogRotation.DateFormat

/-- A text as it is quoted: each quote twice, between quotes. -/
def embedded (text : List Char) : List Char := '\x27' :: (doubled text ++ ['\x27'])

theorem not_mem_embedded {text : List Char} {c : Char} (h : c ∉ text) (hc : c ≠ '\x27') :
    c ∉ embedded text := by
  intro hmem
  rcases List.mem_cons.mp hmem with he | hmem
  · exact hc he
  rcases List.mem_append.mp hmem with hmem | hmem
  · obtain ⟨d, hd, hmem⟩ := List.mem_flatMap.mp hmem
    split at hmem
    · simp [hc] at hmem
    · exact h (List.mem_singleton.mp hmem ▸ hd)
  · exact hc (List.mem_singleton.mp hmem)

/-! ## Symbols -/

theorem getLast?_ne_of_cons {c d : Char} {cs : List Char} (h : (c :: cs).getLast? ≠ some d) :
    cs.getLast? ≠ some d := by
  cases cs with
  | nil => nofun
  | cons c' cs => rwa [List.getLast?_cons_cons] at h

/-- **Reading goes on where it has stopped**, unless a quote there is one half of a pair. -/
theorem symbols_append {inside : Bool} {cs : List Char} (rest : List Char)
    (h : cs.getLast? ≠ some '\x27') : symbols inside (cs ++ rest) =
      ((symbols inside cs).1 ++ (symbols (symbols inside cs).2 rest).1,
        (symbols (symbols inside cs).2 rest).2) := by
  fun_induction symbols inside cs with
  | case1 => rfl
  | case2 inside cs ih =>
    have hrest := ih (getLast?_ne_of_cons (getLast?_ne_of_cons h))
    rw [List.cons_append, List.cons_append, symbols, hrest]
    rfl
  | case3 inside cs hpair ih =>
    have hrest := ih (getLast?_ne_of_cons h)
    have hhead : (cs ++ rest).head? ≠ some '\x27' := by
      cases cs with
      | nil => exact absurd rfl h
      | cons c cs =>
        rintro he
        obtain rfl : c = '\x27' := Option.some.inj he
        exact hpair cs rfl rfl
    rw [List.cons_append, symbols_turn inside hhead, hrest]
  | case4 c cs hpair hc ih =>
    have hrest := ih (getLast?_ne_of_cons h)
    rw [List.cons_append, symbols_pass true hc, hrest]
    rfl
  | case5 inside c cs hpair hc hout ih =>
    have hrest := ih (getLast?_ne_of_cons h)
    obtain rfl : inside = false := by simpa using hout
    rw [List.cons_append, symbols_pass false hc, hrest]
    rfl

/-- **A quoted text is read as it is.**  Quotes at its front are pairs before the section opens. -/
theorem symbols_embedded {text rest : List Char} (htext : ∃ c ∈ text, c ≠ '\x27')
    (hrest : rest.head? ≠ some '\x27') : symbols false (embedded text ++ rest) =
      (text.map .quoted ++ (symbols false rest).1, (symbols false rest).2) := by
  induction text with
  | nil =>
    obtain ⟨c, hc, -⟩ := htext
    nomatch hc
  | cons c text ih =>
    by_cases hc : c = '\x27'
    · subst hc
      have htail : ∃ c ∈ text, c ≠ '\x27' := by
        obtain ⟨d, hd, hne⟩ := htext
        exact ⟨d, (List.mem_cons.mp hd).resolve_left hne, hne⟩
      show symbols false ('\x27' :: '\x27' :: (embedded text ++ rest)) = _
      rw [symbols, ih htail]
      rfl
    · -- the first character that is no quote stands within the section
      have hsource : embedded (c :: text) ++ rest =
          '\x27' :: (doubled (c :: text) ++ '\x27' :: rest) := by simp [embedded]
      have hhead : (doubled (c :: text) ++ '\x27' :: rest).head? ≠ some '\x27' := by
        rw [doubled_cons, if_neg hc]
        exact fun he => hc (Option.some.inj he)
      rw [hsource, symbols_turn false hhead, Bool.not_false, symbols_doubled hrest]

/-! ## Pieces and parts -/

theorem joinLetter_append_literal (letter : Char) (ps : List Piece) (c : Char) (qs : List Piece) :
    joinLetter letter (ps ++ .literal c :: qs) = joinLetter letter ps ++ .literal c :: qs := by
  cases ps with
  | nil => rfl
  | cons p ps =>
    cases p with
    | literal d => rfl
    | run l n =>
      rw [List.cons_append, joinLetter, joinLetter]
      split <;> rfl

/-- No run goes on over quoted text. -/
theorem pieces_append_quoted (ss : List Symbol) (c : Char) (rest : List Symbol) :
    pieces (ss ++ .quoted c :: rest) = pieces ss ++ .literal c :: pieces rest := by
  induction ss with
  | nil => rfl
  | cons s ss ih =>
    cases s with
    | quoted d => rw [List.cons_append, pieces, ih, pieces, List.cons_append]
    | plain d =>
      rw [List.cons_append, pieces, ih, pieces]
      split
      · exact joinLetter_append_literal d _ c _
      · rfl

theorem parts_append {ps qs : List Piece} {a b : List Part} (ha : parts ps = .ok a)
    (hb : parts qs = .ok b) : parts (ps ++ qs) = .ok (a ++ b) := by
  induction ps generalizing a with
  | nil =>
    cases ha
    exact hb
  | cons p ps ih =>
    cases p with
    | literal c =>
      obtain ⟨a', ha', rfl⟩ := parts_literals [c] ha
      rw [List.cons_append, parts, ih ha']
      rfl
    | run letter length =>
      obtain ⟨a₁, a', ha₁, ha', rfl⟩ := parts_token (t := .letters letter length) ha
      cases ha₁ with
      | letters hfield =>
        rw [List.cons_append, parts, hfield, ih ha']
        rfl

theorem parts_map_literal (text : List Char) :
    parts (text.map .literal) = .ok (text.map .literal) := by
  induction text with
  | nil => rfl
  | cons c text ih =>
    rw [List.map_cons, parts, ih]
    rfl

theorem parse_of_closed {cs : List Char} {ps : List Part} (hclosed : (symbols false cs).2 = false)
    (hparts : parts (pieces (symbols false cs).1) = .ok ps) : parse cs = .ok ps := by
  rw [parse]
  dsimp only
  rw [hparts, hclosed]
  rfl

/-- **A quoted text is literal text** between the parts of what stands before and behind it. -/
theorem parse_embedded {text before after : List Char} {a b : List Part}
    (htext : ∃ c ∈ text, c ≠ '\x27') (hbefore : parse before = .ok a) (hafter : parse after = .ok b)
    (hlast : before.getLast? ≠ some '\x27') (hhead : after.head? ≠ some '\x27') :
    parse (before ++ embedded text ++ after) = .ok (a ++ text.map .literal ++ b) := by
  obtain ⟨hclosed, ha⟩ := closed_of_parse hbefore
  obtain ⟨hclosed', hb⟩ := closed_of_parse hafter
  have hread : symbols false (before ++ embedded text ++ after) =
      ((symbols false before).1 ++ (text.map .quoted ++ (symbols false after).1), false) := by
    rw [List.append_assoc, symbols_append _ hlast, hclosed, symbols_embedded htext hhead, hclosed']
  refine parse_of_closed (by rw [hread]) ?_
  obtain ⟨c, text, rfl⟩ : ∃ c text', text = c :: text' := by
    obtain ⟨c, hc, -⟩ := htext
    exact List.exists_cons_of_ne_nil (List.ne_nil_of_mem hc)
  have hpieces : pieces (symbols false (before ++ embedded (c :: text) ++ after)).1 =
      pieces (symbols false before).1 ++
        ((c :: text).map .literal ++ pieces (symbols false after).1) := by
    rw [hread]
    dsimp only
    rw [List.map_cons, List.cons_append, pieces_append_quoted, pieces_quoted]
    rfl
  rw [hpieces, List.append_assoc]
  exact parts_append ha (parts_append (parts_map_literal _) hb)

end LogRotation.DateFormat

/-! ## Names -/

namespace LogRotation.Template

open DateFormat (embedded)

theorem escape_of_not_mem {cs : List Char} (h : '%' ∉ cs) : escape cs = cs := by
  induction cs with
  | nil => rfl
  | cons c cs ih =>
    have hc : c ≠ '%' := fun he => h (he ▸ List.mem_cons_self)
    rw [escape, if_neg hc, ih fun hm => h (List.mem_cons_of_mem c hm)]

/-- A format without a closing brace is read in its block. -/
theorem parse_block {lead format : List Char} (hlead : '%' ∉ lead) (hformat : '}' ∉ format)
    (hblank : format.all Text.isBlank = false) {ps : List DateFormat.Part}
    (h : DateFormat.parse format = .ok ps) : ∃ t,
      parse (String.ofList (lead ++ '%' :: 'd' :: '{' :: (format ++ ['}']))) = .ok t ∧
        t.lead = lead ∧ t.parts = ps ∧ t.tail = [] ∧ t.zonePinned = false := by
  have hdate : (Blocks.format format).dateFormat = format := by
    rw [Blocks.dateFormat, hblank]
    rfl
  refine ⟨_, parse_eq_ok_iff.mpr ⟨⟨lead, false, .format format, []⟩, ps, ⟨?_, ?_, ?_⟩, rfl⟩,
    rfl, rfl, rfl, rfl⟩
  · rw [String.toList_ofList, Shape.text, escape_of_not_mem hlead]
    simp [Shape.afterName, Blocks.text, escape]
  · refine ⟨fun _ hate => ?_, hformat, fun he => ?_⟩
    · obtain ⟨rest, he⟩ := hate
      cases he
    · cases he
  · show DateFormat.parse (Blocks.format format).dateFormat = _
    rw [hdate, h]

/-- **Quoting is verbatim.**  Let a text have a character that is no quote.  Put between two formats that
are accepted, where no quote of theirs touches it, it makes a format that is accepted, whose date is
theirs with the text between them.  In a template the same holds as long as no closing brace ends the
format early: all else, percent signs and braces that open among it, stands for itself. -/
theorem quoting_is_verbatim {text before after : List Char} (htext : ∃ c ∈ text, c ≠ '\x27')
    {first second : List Char} (hbefore : Strftime.translate before = .ok first)
    (hafter : Strftime.translate after = .ok second)
    (hlast : before.getLast? ≠ some '\x27') (hhead : after.head? ≠ some '\x27') :
    (∃ program, Strftime.translate (before ++ embedded text ++ after) = .ok program ∧
      ∀ w, ∃ x y, Strftime.print? w first = some x ∧ Strftime.print? w second = some y ∧
        Strftime.print? w program = some (x ++ text ++ y)) ∧
    ∀ lead : List Char, '%' ∉ lead → '}' ∉ text → '}' ∉ before → '}' ∉ after → ∃ t,
      parse (String.ofList
        (lead ++ '%' :: 'd' :: '{' :: (before ++ embedded text ++ after ++ ['}']))) = .ok t ∧
      ∀ zone localTime instant, ∃ x y,
        Strftime.print? (.ofInstant zone localTime instant) first = some x ∧
        Strftime.print? (.ofInstant zone localTime instant) second = some y ∧
        ((t.withZone zone).render localTime instant).toList = lead ++ x ++ text ++ y := by
  obtain ⟨a, ha, hfirst⟩ := Strftime.exists_parts_of_translate hbefore
  obtain ⟨b, hb, hsecond⟩ := Strftime.exists_parts_of_translate hafter
  have hparse := DateFormat.parse_embedded htext ha hb hlast hhead
  -- what the format shows, part by part
  have hshow : ∀ w, DateFormat.render w (a ++ text.map .literal ++ b) =
      DateFormat.render w a ++ text ++ DateFormat.render w b := by
    intro w
    rw [DateFormat.render_append, DateFormat.render_append, DateFormat.render_literals]
  refine ⟨?_, fun lead hlead htext' hbefore' hafter' => ?_⟩
  · obtain ⟨program, -, hprogram, hprints⟩ := Strftime.translate_of_parse hparse
    refine ⟨program, hprogram, fun w => ⟨_, _, hfirst w, hsecond w, ?_⟩⟩
    rw [hprints, hshow]
  · have hblock : '}' ∉ before ++ embedded text ++ after := by
      simp [DateFormat.not_mem_embedded htext' (by decide), hbefore', hafter']
    have hblank : (before ++ embedded text ++ after).all Text.isBlank = false := by
      simp [embedded, Text.isBlank]
    obtain ⟨t, ht, hlead', hparts, htail, hpinned⟩ := parse_block hlead hblock hblank hparse
    refine ⟨t, ht, fun zone localTime instant => ⟨_, _, hfirst _, hsecond _, ?_⟩⟩
    rw [render, String.toList_ofList, renderChars_withZone, zone_withZone hpinned, hlead', hparts,
      htail, hshow, List.append_nil]
    simp only [List.append_assoc]

/-- A text that begins and ends with a quote, and has in it what would begin a placeholder, between a
percent sign and a field. -/
theorem quoting_is_verbatim_of_placeholder : ∃ first second t,
    Strftime.translate "yyyy%".toList = .ok first ∧ Strftime.translate "-HH".toList = .ok second ∧
    (∃ program, Strftime.translate "yyyy%'''%d\x7b''k'''-HH".toList = .ok program ∧
      ∀ w, ∃ x y, Strftime.print? w first = some x ∧ Strftime.print? w second = some y ∧
        Strftime.print? w program = some (x ++ "'%d\x7b'k'".toList ++ y)) ∧
    parse "app.%d\x7byyyy%'''%d\x7b''k'''-HH\x7d" = .ok t ∧
    (∀ zone localTime instant, ∃ x y,
      Strftime.print? (.ofInstant zone localTime instant) first = some x ∧
      Strftime.print? (.ofInstant zone localTime instant) second = some y ∧
      ((t.withZone zone).render localTime instant).toList =
        "app.".toList ++ x ++ "'%d\x7b'k'".toList ++ y) ∧
    (t.withZone .utc).renderMillis (.fixed 0) 25200000 = "app.1970%'%d\x7b'k'-07" := by
  have hyear : DateFormat.parse "yyyy%".toList = .ok [.field (.year .full), .literal '%'] := rfl
  have hhour : DateFormat.parse "-HH".toList = .ok [.literal '-', .field (.hour .padded)] := rfl
  obtain ⟨first, -, hfirst, -⟩ := Strftime.translate_of_parse hyear
  obtain ⟨second, -, hsecond, -⟩ := Strftime.translate_of_parse hhour
  have hparse : ∃ t, parse "app.%d\x7byyyy%'''%d\x7b''k'''-HH\x7d" = .ok t ∧
      (t.withZone .utc).renderMillis (.fixed 0) 25200000 = "app.1970%'%d\x7b'k'-07" := ⟨_, rfl, rfl⟩
  obtain ⟨t, ht, hname⟩ := hparse
  have htext : ∃ c ∈ "'%d\x7b'k'".toList, c ≠ '\x27' := ⟨'%', by decide⟩
  obtain ⟨hformat, htemplate⟩ :=
    quoting_is_verbatim htext hfirst hsecond (by decide) (by decide)
  obtain ⟨t', ht', hshown⟩ := htemplate "app.".toList (by decide) (by decide) (by decide) (by decide)
  obtain rfl : t = t' := Except.ok.inj (ht.symm.trans ht')
  exact ⟨first, second, t, hfirst, hsecond, hformat, ht, hshown, hname⟩

end LogRotation.Template
