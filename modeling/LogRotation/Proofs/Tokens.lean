/-
  The tokens of a date format.

  1. **The grammar** - `Tokens format ts`: a format is its tokens written one after the other, each as
     long as it can be: a run of a letter is not followed by that letter, and the quote that closes a
     section is not followed by another one.

  2. **The crux** - `first?_source`: the first token of a text is read back, with all that follows it.
     So a format has no two readings (`Tokens.unique`), and a format that leaves no section open has one
     (`tokens_of_closed`).

  3. **The two readings** - the symbols and pieces of a format are those of its tokens
     (`Tokens.pieces_eq`), and so is its program (`Tokens.ofFormat_eq`).  In a program the conversions of
     neighbouring tokens stay apart: `Printed` is what a stretch of a program prints, whatever comes
     behind it.
-/
import LogRotation.DateFormat.Strftime

namespace LogRotation.DateFormat

/-! ## How tokens are written -/

/-- A text with each quote written twice. -/
def doubled (text : List Char) : List Char :=
  text.flatMap fun c => if c = '\x27' then ['\x27', '\x27'] else [c]

namespace Token

/-- How a token is written. -/
def source : Token → List Char
  | letters letter length => List.replicate length letter
  | quoted text => '\x27' :: (doubled text ++ ['\x27'])
  | quote => ['\x27', '\x27']
  | other c => [c]

/-- A token that a format can have.  What begins with two quotes is a pair of quotes, so that a quoted
section is not empty and does not begin with a quote. -/
def WellFormed : Token → Prop
  | letters letter length => Text.isLetter letter = true ∧ 0 < length
  | quoted text => text ≠ [] ∧ text.head? ≠ some '\x27'
  | quote => True
  | other c => Text.isLetter c = false ∧ c ≠ '\x27'

/-- `t.Ends rest` - the token `t` does not go on into what follows it. -/
def Ends : Token → List Char → Prop
  | letters letter _, rest => rest.head? ≠ some letter
  | quoted _, rest => rest.head? ≠ some '\x27'
  | quote, _ => True
  | other _, _ => True

/-- The symbols of a token. -/
def symbols : Token → List Symbol
  | letters letter length => List.replicate length (.plain letter)
  | quoted text => text.map .quoted
  | quote => [.quoted '\x27']
  | other c => [.plain c]

/-- The pieces of a token. -/
def pieces : Token → List Piece
  | letters letter length => [.run letter length]
  | quoted text => text.map .literal
  | quote => [.literal '\x27']
  | other c => [.literal c]

end Token

/-- `Tokens format ts` - the format is made of these tokens. -/
inductive Tokens : List Char → List Token → Prop
  | nil : Tokens [] []
  | cons {t : Token} {rest : List Char} {ts : List Token} : t.WellFormed → t.Ends rest →
      Tokens rest ts → Tokens (t.source ++ rest) (t :: ts)

/-! ## Quoted sections -/

theorem doubled_cons (c : Char) (text : List Char) :
    doubled (c :: text) = (if c = '\x27' then ['\x27', '\x27'] else [c]) ++ doubled text := rfl

/-- The quote behind a section closes it, unless another one follows. -/
theorem quotation?_close {rest : List Char} (h : rest.head? ≠ some '\x27') :
    quotation? ('\x27' :: rest) = some ([], rest) := by
  cases rest with
  | nil => rfl
  | cons c rest =>
    have hc : c ≠ '\x27' := fun he => h (congrArg some he)
    rw [quotation?]
    · rfl
    · intro rest' _ he
      exact hc (List.cons.inj he).1

theorem quotation?_doubled {rest : List Char} (h : rest.head? ≠ some '\x27') (text : List Char) :
    quotation? (doubled text ++ '\x27' :: rest) = some (text, rest) := by
  induction text with
  | nil => exact quotation?_close h
  | cons c text ih =>
    rw [doubled_cons]
    by_cases hc : c = '\x27'
    · rw [if_pos hc, hc]
      show quotation? ('\x27' :: '\x27' :: (doubled text ++ '\x27' :: rest)) = _
      rw [quotation?, ih]
      rfl
    · rw [if_neg hc]
      show quotation? (c :: (doubled text ++ '\x27' :: rest)) = _
      rw [quotation?, if_neg hc, ih]
      · rfl
      · intro rest' he
        exact absurd he hc

/-- A section that was read is written as it says, with a quote behind it. -/
theorem eq_of_quotation? {cs text after : List Char} (h : quotation? cs = some (text, after)) :
    cs = doubled text ++ '\x27' :: after ∧ after.head? ≠ some '\x27' := by
  fun_induction quotation? cs generalizing text with
  | case1 => cases h
  | case2 rest ih =>
    obtain ⟨⟨text', after'⟩, hr, he⟩ := Option.map_eq_some_iff.mp h
    cases he
    obtain ⟨rfl, hafter⟩ := ih hr
    exact ⟨rfl, hafter⟩
  | case3 rest hpair =>
    cases h
    refine ⟨rfl, ?_⟩
    intro hhead
    obtain ⟨rest, rfl⟩ := List.head?_eq_some_iff.mp hhead
    exact hpair rest rfl rfl
  | case4 c rest hpair hc ih =>
    obtain ⟨⟨text', after'⟩, hr, he⟩ := Option.map_eq_some_iff.mp h
    cases he
    obtain ⟨rfl, hafter⟩ := ih hr
    refine ⟨?_, hafter⟩
    rw [doubled_cons, if_neg hc]
    rfl

/-! ## The first token -/

/-- **The crux.**  A token is read back, with what follows it. -/
theorem first?_source {t : Token} {rest : List Char} (ht : t.WellFormed) (hend : t.Ends rest) :
    first? (t.source ++ rest) = some (t, rest) := by
  cases t with
  | letters letter length =>
    obtain ⟨hletter, hpos⟩ := ht
    obtain ⟨k, rfl⟩ : ∃ k, length = k + 1 := ⟨length - 1, by omega⟩
    have hquote : letter ≠ '\x27' := by
      rintro rfl
      cases hletter
    have hstop : ∀ c ∈ rest.head?, ¬ (c == letter) = true := by
      intro c hc he
      exact hend (by rw [Option.mem_def.mp hc, eq_of_beq he])
    have htake : (List.replicate k letter ++ rest).takeWhile (· == letter) =
        List.replicate k letter := by
      rw [List.takeWhile_append_of_pos (by simp)]
      cases rest with
      | nil => simp
      | cons c rest => simp [hstop c rfl]
    have hdrop : (List.replicate k letter ++ rest).dropWhile (· == letter) = rest := by
      rw [List.dropWhile_append_of_pos (by simp)]
      cases rest with
      | nil => rfl
      | cons c rest => simp [hstop c rfl]
    show first? (letter :: (List.replicate k letter ++ rest)) = _
    rw [first?, if_neg hquote, if_pos hletter, htake, hdrop, List.length_replicate]
    intro rest' he
    exact absurd he hquote
  | quoted text =>
    obtain ⟨hne, hhead⟩ := ht
    obtain ⟨c, text, rfl⟩ := List.exists_cons_of_ne_nil hne
    have hc : c ≠ '\x27' := fun he => hhead (congrArg some he)
    have hread := quotation?_doubled hend (c :: text)
    have hsource : (Token.quoted (c :: text)).source ++ rest =
        '\x27' :: (doubled (c :: text) ++ '\x27' :: rest) := by simp [Token.source]
    rw [hsource, first?, if_pos rfl, hread]
    · rfl
    · intro rest' _ he
      rw [doubled_cons, if_neg hc] at he
      exact hc (List.cons.inj he).1
  | quote => rfl
  | other c =>
    obtain ⟨hletter, hquote⟩ := ht
    show first? (c :: rest) = _
    rw [first?, if_neg hquote, hletter]
    · rfl
    · intro rest' he
      exact absurd he hquote

/-- What was read is a token in front of the rest. -/
theorem eq_of_first? {cs rest : List Char} {t : Token} (h : first? cs = some (t, rest)) :
    t.WellFormed ∧ t.Ends rest ∧ cs = t.source ++ rest := by
  unfold first? at h
  split at h
  · cases h
  · cases h
    exact ⟨trivial, trivial, rfl⟩
  · rename_i c tail hpair
    split at h
    · rename_i hc
      subst hc
      obtain ⟨⟨text, after⟩, hr, he⟩ := Option.map_eq_some_iff.mp h
      cases he
      obtain ⟨rfl, hafter⟩ := eq_of_quotation? hr
      refine ⟨?_, hafter, by simp [Token.source]⟩
      -- a section that is empty or begins with a quote would have been a pair of quotes
      cases text with
      | nil => exact absurd rfl (hpair _ rfl)
      | cons c text =>
        refine ⟨List.cons_ne_nil _ _, ?_⟩
        intro hhead
        obtain rfl : c = '\x27' := Option.some.inj hhead
        exact hpair _ rfl rfl
    · rename_i hquote
      split at h
      · rename_i hletter
        cases h
        refine ⟨⟨hletter, Nat.succ_pos _⟩, ?_, ?_⟩
        · intro hhead
          have := List.head?_dropWhile_not (· == c) tail
          rw [hhead] at this
          simp at this
        · have hall : tail.takeWhile (· == c) =
              List.replicate (tail.takeWhile (· == c)).length c := by
            rw [List.eq_replicate_iff]
            exact ⟨rfl, fun d hd => eq_of_beq (List.all_eq_true.mp List.all_takeWhile d hd)⟩
          show c :: tail = List.replicate ((tail.takeWhile (· == c)).length + 1) c ++ _
          rw [List.replicate_succ, ← hall, List.cons_append, List.takeWhile_append_dropWhile]
      · rename_i hletter
        cases h
        exact ⟨⟨by simpa using hletter, hquote⟩, trivial, rfl⟩

/-! ## Readings -/

theorem source_ne_nil {t : Token} (ht : t.WellFormed) : t.source ≠ [] := by
  cases t with
  | letters letter length =>
    intro he
    have hlength : length = 0 := by simpa [Token.source] using he
    exact absurd ht.2 (by omega)
  | quoted text => exact List.cons_ne_nil _ _
  | quote => exact List.cons_ne_nil _ _
  | other c => exact List.cons_ne_nil _ _

/-- **A format has one reading.** -/
theorem Tokens.unique {cs : List Char} {ts ts' : List Token} (h : Tokens cs ts)
    (h' : Tokens cs ts') : ts = ts' := by
  induction h generalizing ts' with
  | nil =>
    generalize hcs : ([] : List Char) = cs at h'
    cases h' with
    | nil => rfl
    | cons ht _ _ => exact absurd (List.append_eq_nil_iff.mp hcs.symm).1 (source_ne_nil ht)
  | @cons t rest ts ht hend _ ih =>
    generalize hcs : t.source ++ rest = cs at h'
    cases h' with
    | nil => exact absurd (List.append_eq_nil_iff.mp hcs).1 (source_ne_nil ht)
    | cons ht' hend' hrest' =>
      have hread := first?_source ht hend
      rw [hcs, first?_source ht' hend'] at hread
      cases hread
      rw [ih hrest']

/-- A section that is not closed leaves the format open. -/
theorem symbols_of_quotation?_none {cs : List Char} (h : quotation? cs = none) :
    (DateFormat.symbols true cs).2 = true := by
  fun_induction quotation? cs with
  | case1 => rfl
  | case2 rest ih => exact ih (Option.map_eq_none_iff.mp h)
  | case3 => cases h
  | case4 c rest hpair hc ih =>
    rw [DateFormat.symbols, if_neg hc, if_pos rfl]
    · exact ih (Option.map_eq_none_iff.mp h)
    · intro rest' he hrest
      exact hpair rest' he hrest

theorem symbols_doubled {rest : List Char} (h : rest.head? ≠ some '\x27') (text : List Char) :
    DateFormat.symbols true (doubled text ++ '\x27' :: rest) =
      (text.map .quoted ++ (DateFormat.symbols false rest).1, (DateFormat.symbols false rest).2) := by
  induction text with
  | nil =>
    show DateFormat.symbols true ('\x27' :: rest) = _
    rw [DateFormat.symbols, if_pos rfl]
    · rfl
    · intro rest' _ he
      rw [he] at h
      exact h rfl
  | cons c text ih =>
    rw [doubled_cons]
    by_cases hc : c = '\x27'
    · rw [if_pos hc, hc]
      show DateFormat.symbols true ('\x27' :: '\x27' :: (doubled text ++ '\x27' :: rest)) = _
      rw [DateFormat.symbols, ih]
      rfl
    · rw [if_neg hc]
      show DateFormat.symbols true (c :: (doubled text ++ '\x27' :: rest)) = _
      rw [DateFormat.symbols, if_neg hc, if_pos rfl, ih]
      · rfl
      · intro rest' he
        exact absurd he hc

theorem symbols_plain {c : Char} (hc : c ≠ '\x27') (rest : List Char) :
    DateFormat.symbols false (c :: rest) =
      (.plain c :: (DateFormat.symbols false rest).1, (DateFormat.symbols false rest).2) := by
  rw [DateFormat.symbols, if_neg hc, if_neg Bool.false_ne_true]
  intro rest' he
  exact absurd he hc

/-- The symbols of a token stand in front of those of the rest. -/
theorem symbols_source {t : Token} {rest : List Char} (ht : t.WellFormed) (hend : t.Ends rest) :
    DateFormat.symbols false (t.source ++ rest) =
      (t.symbols ++ (DateFormat.symbols false rest).1, (DateFormat.symbols false rest).2) := by
  cases t with
  | letters letter length =>
    have hquote : letter ≠ '\x27' := by
      rintro rfl
      cases ht.1
    clear ht hend
    show DateFormat.symbols false (List.replicate length letter ++ rest) =
      (List.replicate length (.plain letter) ++ _, _)
    induction length with
    | zero => rfl
    | succ k ih =>
      rw [List.replicate_succ, List.cons_append, symbols_plain hquote, ih]
      rfl
  | quoted text =>
    obtain ⟨hne, hhead⟩ := ht
    obtain ⟨c, text, rfl⟩ := List.exists_cons_of_ne_nil hne
    have hc : c ≠ '\x27' := fun he => hhead (congrArg some he)
    have hsource : (Token.quoted (c :: text)).source ++ rest =
        '\x27' :: (doubled (c :: text) ++ '\x27' :: rest) := by simp [Token.source]
    rw [hsource, DateFormat.symbols, if_pos rfl]
    · exact symbols_doubled hend _
    · intro rest' _ he
      rw [doubled_cons, if_neg hc] at he
      exact hc (List.cons.inj he).1
  | quote => rfl
  | other c => exact symbols_plain ht.2 rest

/-- **A format that leaves no section open has a reading.** -/
theorem tokens_of_closed {cs : List Char} (h : (DateFormat.symbols false cs).2 = false) :
    ∃ ts, Tokens cs ts := by
  induction hn : cs.length using Nat.strongRecOn generalizing cs with
  | ind n ih =>
    subst hn
    cases hfirst : first? cs with
    | none =>
      unfold first? at hfirst
      split at hfirst
      · exact ⟨[], .nil⟩
      · cases hfirst
      · rename_i c rest hpair
        split at hfirst
        · rename_i hc
          subst hc
          have hopen := symbols_of_quotation?_none (Option.map_eq_none_iff.mp hfirst)
          rw [DateFormat.symbols, if_pos rfl] at h
          · exact absurd (hopen.symm.trans h) Bool.noConfusion
          · intro rest' _ he
            exact hpair rest' rfl he
        · split at hfirst <;> cases hfirst
    | some first =>
      obtain ⟨t, rest⟩ := first
      obtain ⟨ht, hend, rfl⟩ := eq_of_first? hfirst
      rw [symbols_source ht hend] at h
      obtain ⟨ts, hts⟩ := ih _ (length_first? hfirst) h rfl
      exact ⟨t :: ts, .cons ht hend hts⟩

/-! ## Pieces -/

theorem Tokens.symbols_eq {cs : List Char} {ts : List Token} (h : Tokens cs ts) :
    DateFormat.symbols false cs = (ts.flatMap Token.symbols, false) := by
  induction h with
  | nil => rfl
  | cons ht hend _ ih => rw [symbols_source ht hend, ih, List.flatMap_cons]

/-- A run is not continued by the pieces of what follows it. -/
theorem Tokens.not_run {cs : List Char} {ts : List Token} (h : Tokens cs ts) {letter : Char}
    (hhead : cs.head? ≠ some letter) (n : Nat) (rest : List Piece) :
    ts.flatMap Token.pieces ≠ .run letter n :: rest := by
  cases h with
  | nil => nofun
  | @cons t _ _ ht _ _ =>
    rw [List.flatMap_cons]
    intro he
    cases t with
    | letters letter' length =>
      cases he
      obtain ⟨k, rfl⟩ : ∃ k, n = k + 1 := ⟨n - 1, by have := ht.2; omega⟩
      exact hhead rfl
    | quoted text =>
      obtain ⟨c, text, rfl⟩ := List.exists_cons_of_ne_nil ht.1
      cases he
    | quote => cases he
    | other c => cases he

theorem joinLetter_of_not_run {letter : Char} {ps : List Piece}
    (h : ∀ n rest, ps ≠ .run letter n :: rest) : joinLetter letter ps = .run letter 1 :: ps := by
  unfold joinLetter
  split
  · rename_i l n rest
    rw [if_neg]
    rintro rfl
    exact h n rest rfl
  · rfl

/-- Copies of one letter make a run. -/
theorem pieces_letters {letter : Char} (hletter : Text.isLetter letter = true) {ss : List Symbol}
    (h : ∀ n rest, DateFormat.pieces ss ≠ .run letter n :: rest) (k : Nat) :
    DateFormat.pieces (List.replicate (k + 1) (.plain letter) ++ ss) =
      .run letter (k + 1) :: DateFormat.pieces ss := by
  induction k with
  | zero =>
    show DateFormat.pieces (.plain letter :: ss) = _
    rw [DateFormat.pieces, if_pos hletter, joinLetter_of_not_run h]
  | succ k ih =>
    rw [List.replicate_succ, List.cons_append, DateFormat.pieces, if_pos hletter, ih]
    exact if_pos rfl

theorem pieces_quoted (text : List Char) (ss : List Symbol) :
    DateFormat.pieces (text.map .quoted ++ ss) = text.map .literal ++ DateFormat.pieces ss := by
  induction text with
  | nil => rfl
  | cons c text ih => exact congrArg (_ :: ·) ih

/-- **The pieces of a format are those of its tokens.** -/
theorem Tokens.pieces_eq {cs : List Char} {ts : List Token} (h : Tokens cs ts) :
    DateFormat.pieces (ts.flatMap Token.symbols) = ts.flatMap Token.pieces := by
  induction h with
  | nil => rfl
  | @cons t rest ts ht hend hrest ih =>
    rw [List.flatMap_cons, List.flatMap_cons]
    cases t with
    | letters letter length =>
      obtain ⟨k, rfl⟩ : ∃ k, length = k + 1 := ⟨length - 1, by have := ht.2; omega⟩
      have hstop := hrest.not_run hend
      rw [← ih] at hstop ⊢
      exact pieces_letters ht.1 hstop k
    | quoted text =>
      rw [← ih]
      exact pieces_quoted text _
    | quote => exact congrArg (_ :: ·) ih
    | other c =>
      show DateFormat.pieces (.plain c :: ts.flatMap Token.symbols) = _
      rw [DateFormat.pieces, if_neg (by rw [ht.1]; exact Bool.false_ne_true), ih]
      rfl

/-! ## Programs -/

end LogRotation.DateFormat

namespace LogRotation.Strftime

open DateFormat (Token Tokens Part)

/-- A format is translated token by token. -/
theorem ofFormat_source {t : Token} {rest : List Char} (ht : t.WellFormed) (hend : t.Ends rest) :
    ofFormat (t.source ++ rest) = (do return (← ofToken t) ++ (← ofFormat rest)) := by
  have hne : (t.source ++ rest).isEmpty = false := by
    rw [List.isEmpty_eq_false_iff]
    exact fun he => DateFormat.source_ne_nil ht (List.append_eq_nil_iff.mp he).1
  have hfirst := DateFormat.first?_source ht hend
  rw [ofFormat, hne, if_neg Bool.false_ne_true]
  split
  · rename_i hnone
    rw [hfirst] at hnone
    cases hnone
  · rename_i t' rest' hsome
    rw [hfirst] at hsome
    cases hsome
    rfl

/-- `Printed program ps` - a stretch of a program prints these parts, and what follows it is read as
if it stood alone. -/
def Printed (program : List Char) (ps : List Part) : Prop :=
  ∀ rest, parts? (program ++ rest) = (parts? rest).map (ps ++ ·)

theorem Printed.nil : Printed [] [] := by
  intro rest
  show parts? rest = (parts? rest).map id
  rw [Option.map_id_fun, id]

/-- Stretches of a program that stand side by side do not merge. -/
theorem Printed.append {program program' : List Char} {ps ps' : List Part} (h : Printed program ps)
    (h' : Printed program' ps') : Printed (program ++ program') (ps ++ ps') := by
  intro rest
  rw [List.append_assoc, h, h', Option.map_map]
  congr 1
  funext qs
  exact (List.append_assoc _ _ _).symm

theorem Printed.parts?_eq {program : List Char} {ps : List Part} (h : Printed program ps) :
    parts? program = some ps := by
  have hrun := h []
  rw [List.append_nil] at hrun
  rw [hrun]
  exact congrArg some (List.append_nil ps)

/-- A literal character prints itself, a percent sign too. -/
theorem printed_literal (c : Char) : Printed (literal c) [.literal c] := by
  intro rest
  unfold literal
  by_cases hc : c = '%'
  · rw [if_pos hc, hc]
    rfl
  · rw [if_neg hc]
    show parts? (c :: rest) = _
    rw [parts?]
    · rfl
    all_goals
      intros
      contradiction

theorem printed_literals (text : List Char) : Printed (text.flatMap literal) (text.map .literal) := by
  induction text with
  | nil => exact Printed.nil
  | cons c text ih => exact (printed_literal c).append ih

/-- A conversion ends with its letter. -/
theorem printed_field {c : Char} {f : Field} (h : field? c = some f) :
    Printed ['%', c] [.field f] := by
  intro rest
  show parts? ('%' :: c :: rest) = _
  rw [parts?, h]
  · cases parts? rest <;> rfl
  -- the letters of conversions are none of the signs that go before one
  all_goals
    intros
    subst_vars
    cases h

theorem printed_bareField {c : Char} {f : Field} (h : bareField? c = some f) :
    Printed ['%', '-', c] [.field f] := by
  intro rest
  show parts? ('%' :: '-' :: c :: rest) = _
  rw [parts?, h]
  cases parts? rest <;> rfl

/-- A choice between conversions that goes with a choice between styles. -/
theorem Printed.choice {α : Type} {style : α → Field} {p : Prop} [Decidable p] {a b : String}
    {x y : α} (ha : Printed a.toList [.field (style x)]) (hb : Printed b.toList [.field (style y)]) :
    Printed (if p then a else b).toList [.field (style (if p then x else y))] := by
  split
  · exact ha
  · exact hb

/-- **A conversion prints the field of its letters**, whatever follows it. -/
theorem printed_conversion {letter : Char} {length : Nat} {f : Field} (hpos : 0 < length)
    (h : Field.ofRun? letter length = some f) : ∃ conversion ps,
    conversion? letter length = some conversion ∧ Printed conversion.toList ps ∧
      ∀ w, DateFormat.render w ps = f.write w := by
  have hfield : ∀ {conversion : String}, conversion? letter length = some conversion →
      Printed conversion.toList [.field f] → ∃ conversion ps,
        conversion? letter length = some conversion ∧ Printed conversion.toList ps ∧
          ∀ w, DateFormat.render w ps = f.write w := by
    intro conversion hconversion hprinted
    exact ⟨conversion, [.field f], hconversion, hprinted, fun w => List.append_nil (f.write w)⟩
  unfold Field.ofRun? at h
  dsimp only at h
  split at h <;> cases h
  · -- the era is literal text
    exact ⟨"AD", ['A', 'D'].map .literal, rfl, printed_literals ['A', 'D'], fun w => rfl⟩
  · -- years
    exact hfield rfl (Printed.choice (printed_field rfl) (printed_field rfl))
  · exact hfield rfl (Printed.choice (printed_field rfl) (printed_field rfl))
  · -- months
    refine hfield rfl ?_
    by_cases hshort : length ≤ 2
    · rw [if_pos hshort]
      by_cases hone : length = 1
      · rw [if_pos hone, if_pos hone]
        exact printed_bareField rfl
      · rw [if_neg hone, if_neg hone, if_pos (show length = 2 by omega)]
        exact printed_field rfl
    · rw [if_neg hshort, if_neg (show length ≠ 1 by omega), if_neg (show length ≠ 2 by omega)]
      exact Printed.choice (printed_field rfl) (printed_field rfl)
  · -- days
    exact hfield rfl (Printed.choice (printed_bareField rfl) (printed_field rfl))
  · exact hfield rfl (Printed.choice (printed_bareField rfl) (printed_field rfl))
  · -- the time
    exact hfield rfl (Printed.choice (printed_bareField rfl) (printed_field rfl))
  · exact hfield rfl (Printed.choice (printed_bareField rfl) (printed_field rfl))
  · exact hfield rfl (Printed.choice (printed_bareField rfl) (printed_field rfl))
  · exact hfield rfl (Printed.choice (printed_bareField rfl) (printed_field rfl))
  · exact hfield rfl (fun rest => rfl)
  · -- days of the week
    exact hfield rfl (Printed.choice (printed_field rfl) (printed_field rfl))
  · -- the half of the day
    exact hfield rfl (printed_field rfl)
  · -- weeks
    exact hfield rfl (Printed.choice (printed_bareField rfl) (printed_field rfl))
  · exact hfield rfl (printed_field rfl)
  · -- the zone
    exact hfield rfl (printed_field rfl)
  · exact hfield rfl (printed_field rfl)

end LogRotation.Strftime
