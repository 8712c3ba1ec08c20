/-
  Which date formats are accepted, and why the others are not.

  1. **Reading** - a format is gone over from left to right, from one `Spot` to the next: two quotes side
     by side are a quote, within a quoted section and outside, and a single one opens or closes a
     section.  A spot offends where an unquoted letter is no field, or where a section opens that is never
     closed (`Spot.Offends`); a format fails with the fault of the first spot that offends (`FailsWith`).

  2. **The crux** - `faultOf?` is the fault of a format in terms of its symbols.  It stays the same from
     one spot to the next as long as none offends (`fault?_eq_of_passes`), so it is that of the first one
     that does (`failsWith_iff`).

  3. **The two readers** - the parts and the program of a format fail with just that fault
     (`parse_eq_error_iff`, `ofFormat_eq_error_iff`).  A program is always one that can be run, so the last
     check of a translation refuses nothing (`translate_eq`).

  Main statement: `acceptance_is_exact`.
-/
import LogRotation.Proofs.Rendering
import Mathlib.Logic.Relation

namespace LogRotation.DateFormat

open Relation (ReflTransGen)

/-! ## Reading -/

/-- The letters that stand for fields. -/
def fieldLetters : List Char := "GyYMdDHhmsSEawuZz".toList

/-- A spot in a format: whether it lies within a quoted section, and what stands from there on. -/
structure Spot where
  quoted : Bool
  rest : List Char

namespace Spot

/-- One step of reading. -/
inductive Next : Spot → Spot → Prop
  | pair (quoted : Bool) (rest : List Char) : Next ⟨quoted, '\x27' :: '\x27' :: rest⟩ ⟨quoted, rest⟩
  | turn (quoted : Bool) {rest : List Char} : rest.head? ≠ some '\x27' →
      Next ⟨quoted, '\x27' :: rest⟩ ⟨!quoted, rest⟩
  | pass (quoted : Bool) {c : Char} (rest : List Char) : c ≠ '\x27' →
      Next ⟨quoted, c :: rest⟩ ⟨quoted, rest⟩

/-- `Offends s fault` - the format cannot be read on from here: an unquoted letter that is no field, or a
quote that opens a section to which all the rest belongs. -/
inductive Offends : Spot → Fault → Prop
  | letter {c : Char} {rest : List Char} : Text.isLetter c = true → c ∉ fieldLetters →
      Offends ⟨false, c :: rest⟩ (.unsupportedLetter c)
  | quote {text : List Char} : text.head? ≠ some '\x27' →
      Offends ⟨false, '\x27' :: doubled text⟩ .unterminatedQuote

/-- `Passes s t` - a step from a spot that does not offend. -/
def Passes (s t : Spot) : Prop := s.Next t ∧ ∀ fault, ¬ s.Offends fault

end Spot

/-- `Reaches format s` - the spot is come to when the format is read from its start. -/
def Reaches (format : List Char) (s : Spot) : Prop := ReflTransGen Spot.Next ⟨false, format⟩ s

/-- `FailsWith format fault` - the fault of the first spot that offends. -/
def FailsWith (format : List Char) (fault : Fault) : Prop :=
  ∃ s, ReflTransGen Spot.Passes ⟨false, format⟩ s ∧ s.Offends fault

/-! ## The symbols of a spot -/

theorem symbols_turn (inside : Bool) {rest : List Char} (h : rest.head? ≠ some '\x27') :
    symbols inside ('\x27' :: rest) = symbols (!inside) rest := by
  rw [symbols, if_pos rfl]
  rintro rest' _ rfl
  exact h rfl

/-- A character that is no quote is quoted within a section only. -/
theorem symbols_pass (inside : Bool) {c : Char} (hc : c ≠ '\x27') (rest : List Char) :
    symbols inside (c :: rest) =
      ((if inside then .quoted c else .plain c) :: (symbols inside rest).1,
        (symbols inside rest).2) := by
  rw [symbols, if_neg hc]
  · cases inside <;> rfl
  · intro rest' he
    exact absurd he hc

/-- Where all the rest belongs to a section, it is left open. -/
theorem symbols_doubled_end (text : List Char) :
    symbols true (doubled text) = (text.map .quoted, true) := by
  induction text with
  | nil => rfl
  | cons c text ih =>
    rw [doubled_cons]
    by_cases hc : c = '\x27'
    · rw [if_pos hc, hc]
      show symbols true ('\x27' :: '\x27' :: doubled text) = _
      rw [symbols, ih]
      rfl
    · rw [if_neg hc]
      show symbols true (c :: doubled text) = _
      rw [symbols_pass true hc, ih]
      rfl

theorem symbols_next {s t : Spot} (h : s.Next t) : ∃ marks, symbols s.quoted s.rest =
    (marks ++ (symbols t.quoted t.rest).1, (symbols t.quoted t.rest).2) := by
  cases h with
  | pair quoted rest => exact ⟨[.quoted '\x27'], by rw [symbols]; rfl⟩
  | turn quoted hrest => exact ⟨[], symbols_turn quoted hrest⟩
  | pass quoted rest hc => exact ⟨[_], symbols_pass quoted hc rest⟩

/-- What is still to be read stands at the end of what is read in all. -/
theorem symbols_of_reaches {s t : Spot} (h : ReflTransGen Spot.Next s t) : ∃ marks,
    symbols s.quoted s.rest =
      (marks ++ (symbols t.quoted t.rest).1, (symbols t.quoted t.rest).2) := by
  induction h using ReflTransGen.head_induction_on with
  | refl => exact ⟨[], rfl⟩
  | head hstep _ ih =>
    obtain ⟨marks, hmarks⟩ := symbols_next hstep
    obtain ⟨later, hlater⟩ := ih
    exact ⟨marks ++ later, by rw [hmarks, hlater, List.append_assoc]⟩

theorem Spot.Next.turn_of {inside : Bool} {rest : List Char}
    (h : ∀ rest', '\x27' = '\x27' → rest = '\x27' :: rest' → False) :
    Spot.Next ⟨inside, '\x27' :: rest⟩ ⟨!inside, rest⟩ := by
  refine .turn inside fun hhead => ?_
  obtain ⟨rest', rfl⟩ := List.head?_eq_some_iff.mp hhead
  exact h rest' rfl rfl

/-- Reading goes on to the end. -/
theorem reaches_end (inside : Bool) (cs : List Char) :
    ReflTransGen Spot.Next ⟨inside, cs⟩ ⟨(symbols inside cs).2, []⟩ := by
  fun_induction symbols inside cs with
  | case1 => exact .refl
  | case2 inside rest ih => exact ih.head (.pair inside rest)
  | case3 inside rest hpair ih => exact ih.head (.turn_of hpair)
  | case4 c rest _ hc ih => exact ih.head (.pass true rest hc)
  | case5 inside c rest _ hc hout ih =>
    obtain rfl : inside = false := by simpa using hout
    exact ih.head (.pass false rest hc)

/-- An unquoted character is come to. -/
theorem reaches_of_plain_mem {inside : Bool} {cs : List Char} {c : Char}
    (h : .plain c ∈ (symbols inside cs).1) :
    ∃ rest, ReflTransGen Spot.Next ⟨inside, cs⟩ ⟨false, c :: rest⟩ := by
  fun_induction symbols inside cs with
  | case1 => nomatch h
  | case2 inside rest ih =>
    rcases List.mem_cons.mp h with he | hm
    · nomatch he
    · obtain ⟨later, hlater⟩ := ih hm
      exact ⟨later, hlater.head (.pair inside rest)⟩
  | case3 inside rest hpair ih =>
    obtain ⟨later, hlater⟩ := ih h
    exact ⟨later, hlater.head (.turn_of hpair)⟩
  | case4 c' rest _ hc ih =>
    rcases List.mem_cons.mp h with he | hm
    · nomatch he
    · obtain ⟨later, hlater⟩ := ih hm
      exact ⟨later, hlater.head (.pass true rest hc)⟩
  | case5 inside c' rest _ hc hout ih =>
    obtain rfl : inside = false := by simpa using hout
    rcases List.mem_cons.mp h with he | hm
    · cases he
      exact ⟨rest, .refl⟩
    · obtain ⟨later, hlater⟩ := ih hm
      exact ⟨later, hlater.head (.pass false rest hc)⟩

theorem isLetter_ne_quote {c : Char} (h : Text.isLetter c = true) : c ≠ '\x27' := by
  rintro rfl
  cases h

/-- The unquoted letters of a format are those that are come to outside of sections. -/
theorem plain_mem_iff {format : List Char} {c : Char} (hc : c ≠ '\x27') :
    .plain c ∈ (symbols false format).1 ↔ ∃ rest, Reaches format ⟨false, c :: rest⟩ := by
  constructor
  · exact reaches_of_plain_mem
  · rintro ⟨rest, h⟩
    obtain ⟨marks, hmarks⟩ := symbols_of_reaches h
    rw [hmarks, symbols_pass false hc]
    exact List.mem_append_right _ List.mem_cons_self

/-- A format is left open if its end is come to within a section. -/
theorem open_iff {format : List Char} :
    (symbols false format).2 = true ↔ Reaches format ⟨true, []⟩ := by
  constructor
  · intro h
    have hend := reaches_end false format
    rwa [h] at hend
  · intro h
    obtain ⟨marks, hmarks⟩ := symbols_of_reaches h
    rw [hmarks]
    rfl

/-! ## The fault of a format -/

/-- The fault of what was read: its first unquoted letter that is no field, or else that it was left
open. -/
def faultOf? : List Symbol → Bool → Option Fault
  | [], unterminated => if unterminated then some .unterminatedQuote else none
  | .quoted _ :: rest, unterminated => faultOf? rest unterminated
  | .plain c :: rest, unterminated =>
    if Text.isLetter c = true ∧ c ∉ fieldLetters then some (.unsupportedLetter c)
    else faultOf? rest unterminated

/-- The fault of what stands from a spot on. -/
def Spot.fault? (s : Spot) : Option Fault :=
  faultOf? (symbols s.quoted s.rest).1 (symbols s.quoted s.rest).2

theorem faultOf?_quoted (text : List Char) (ss : List Symbol) (unterminated : Bool) :
    faultOf? (text.map .quoted ++ ss) unterminated = faultOf? ss unterminated := by
  induction text with
  | nil => rfl
  | cons c text ih => exact ih

theorem faultOf?_eq_none_iff {ss : List Symbol} {unterminated : Bool} :
    faultOf? ss unterminated = none ↔
      unterminated = false ∧ ∀ c, .plain c ∈ ss → Text.isLetter c = true → c ∈ fieldLetters := by
  induction ss with
  | nil => cases unterminated <;> simp [faultOf?]
  | cons s ss ih =>
    cases s with
    | quoted c => simp [faultOf?, ih]
    | plain c =>
      rw [faultOf?]
      split
      · rename_i hbad
        refine ⟨fun h => (nomatch h), fun h => ?_⟩
        exact absurd (h.2 c List.mem_cons_self hbad.1) hbad.2
      · rename_i hgood
        rw [ih]
        refine and_congr_right fun _ => ⟨fun h d hd hletter => ?_, fun h d hd => ?_⟩
        · rcases List.mem_cons.mp hd with he | hm
          · cases he
            by_contra hfield
            exact hgood ⟨hletter, hfield⟩
          · exact h d hm hletter
        · exact h d (List.mem_cons_of_mem _ hd)

/-- **Nothing is wrong with a format** that is not left open and has no unquoted letters but those of
fields. -/
theorem fault?_eq_none_iff {format : List Char} : Spot.fault? ⟨false, format⟩ = none ↔
    ¬ Reaches format ⟨true, []⟩ ∧ ∀ c rest, Reaches format ⟨false, c :: rest⟩ →
      Text.isLetter c = true → c ∈ fieldLetters := by
  rw [Spot.fault?, faultOf?_eq_none_iff, ← Bool.not_eq_true, open_iff]
  refine and_congr_right fun _ => ⟨fun h c rest hreach hletter => ?_, fun h c hc hletter => ?_⟩
  · exact h c ((plain_mem_iff (isLetter_ne_quote hletter)).mpr ⟨rest, hreach⟩) hletter
  · obtain ⟨rest, hreach⟩ := (plain_mem_iff (isLetter_ne_quote hletter)).mp hc
    exact h c rest hreach hletter

/-- A spot that offends is at fault itself. -/
theorem fault?_of_offends {s : Spot} {fault : Fault} (h : s.Offends fault) :
    s.fault? = some fault := by
  cases h with
  | letter hletter hfield =>
    rw [Spot.fault?, symbols_pass false (isLetter_ne_quote hletter)]
    exact if_pos ⟨hletter, hfield⟩
  | @quote text htext =>
    have hhead : (doubled text).head? ≠ some '\x27' := by
      cases text with
      | nil => nofun
      | cons c text =>
        have hc : c ≠ '\x27' := fun he => htext (congrArg some he)
        rw [doubled_cons, if_neg hc]
        exact fun he => hc (Option.some.inj he)
    rw [Spot.fault?, symbols_turn false hhead, Bool.not_false, symbols_doubled_end,
      ← List.append_nil (text.map Symbol.quoted), faultOf?_quoted]
    rfl

/-- **The crux.**  Behind a spot that does not offend, the fault is the same. -/
theorem fault?_eq_of_passes {s t : Spot} (h : s.Passes t) : s.fault? = t.fault? := by
  obtain ⟨hstep, hclear⟩ := h
  cases hstep with
  | pair quoted rest =>
    rw [Spot.fault?, symbols]
    rfl
  | turn quoted hrest => rw [Spot.fault?, symbols_turn quoted hrest, Spot.fault?]
  | @pass quoted c rest hc =>
    rw [Spot.fault?, symbols_pass quoted hc]
    cases quoted with
    | true => rfl
    | false =>
      refine if_neg fun hbad => ?_
      exact hclear _ (.letter hbad.1 hbad.2)

/-! ## The first spot that offends -/

/-- Within a section, reading has come from the quote that opened it. -/
theorem exists_opening {format : List Char} {s : Spot} (h : Reaches format s)
    (hinside : s.quoted = true) : ∃ text,
      Reaches format ⟨false, '\x27' :: (doubled text ++ s.rest)⟩ ∧
        (doubled text ++ s.rest).head? ≠ some '\x27' := by
  induction h with
  | refl => cases hinside
  | tail hbefore hstep ih =>
    cases hstep with
    | pair quoted rest =>
      obtain ⟨text, hopening, hhead⟩ := ih hinside
      have hmore : doubled (text ++ ['\x27']) ++ rest =
          doubled text ++ '\x27' :: '\x27' :: rest := by simp [doubled]
      exact ⟨text ++ ['\x27'], by rwa [hmore], by rwa [hmore]⟩
    | @turn quoted rest hrest =>
      obtain rfl : quoted = false := by simpa using hinside
      exact ⟨[], hbefore, hrest⟩
    | @pass quoted c rest hc =>
      obtain ⟨text, hopening, hhead⟩ := ih hinside
      have hmore : doubled (text ++ [c]) ++ rest = doubled text ++ c :: rest := by
        simp [doubled, hc]
      exact ⟨text ++ [c], by rwa [hmore], by rwa [hmore]⟩

/-- Where a spot is come to that offends, there is a first one. -/
theorem exists_first {s t : Spot} (h : ReflTransGen Spot.Next s t) {fault : Fault}
    (ht : t.Offends fault) : ∃ u fault', ReflTransGen Spot.Passes s u ∧ u.Offends fault' := by
  induction h using ReflTransGen.head_induction_on with
  | refl => exact ⟨t, fault, .refl, ht⟩
  | @head s _ hstep _ ih =>
    by_cases hs : ∃ fault', s.Offends fault'
    · obtain ⟨fault', hs⟩ := hs
      exact ⟨s, fault', .refl, hs⟩
    · obtain ⟨u, fault', hpath, hu⟩ := ih
      exact ⟨u, fault', hpath.head ⟨hstep, not_exists.mp hs⟩, hu⟩

theorem fault?_of_first {s t : Spot} (h : ReflTransGen Spot.Passes s t) {fault : Fault}
    (ht : t.Offends fault) : s.fault? = some fault := by
  induction h using ReflTransGen.head_induction_on with
  | refl => exact fault?_of_offends ht
  | head hstep _ ih => rw [fault?_eq_of_passes hstep, ih]

/-- **A format fails with the fault of its symbols.** -/
theorem failsWith_iff {format : List Char} {fault : Fault} :
    FailsWith format fault ↔ Spot.fault? ⟨false, format⟩ = some fault := by
  refine ⟨fun ⟨_, hpath, hs⟩ => fault?_of_first hpath hs, fun h => ?_⟩
  -- something is wrong, so a spot is come to that offends
  have hoffends : ∃ s fault', Reaches format s ∧ s.Offends fault' := by
    by_contra hnone
    have hfine : Spot.fault? ⟨false, format⟩ = none := by
      refine fault?_eq_none_iff.mpr ⟨fun hopen => ?_, fun c rest hreach hletter => ?_⟩
      · obtain ⟨text, hopening, hhead⟩ := exists_opening hopen rfl
        rw [List.append_nil] at hopening hhead
        refine hnone ⟨_, _, hopening, .quote fun htext => hhead ?_⟩
        obtain ⟨text, rfl⟩ := List.head?_eq_some_iff.mp htext
        rfl
      · by_contra hfield
        exact hnone ⟨_, _, hreach, .letter hletter hfield⟩
    rw [hfine] at h
    cases h
  obtain ⟨s, fault', hreach, hs⟩ := hoffends
  obtain ⟨u, first, hpath, hu⟩ := exists_first hreach hs
  have hfirst := fault?_of_first hpath hu
  rw [h] at hfirst
  cases hfirst
  exact ⟨u, hpath, hu⟩

/-! ## Parts -/

theorem ofRun?_eq_none_iff {letter : Char} {length : Nat} :
    Field.ofRun? letter length = none ↔ letter ∉ fieldLetters := by
  unfold Field.ofRun? fieldLetters
  dsimp only
  split <;> simp_all

theorem parts_literal_eq_error_iff {c : Char} {ps : List Piece} {fault : Fault} :
    parts (.literal c :: ps) = .error fault ↔ parts ps = .error fault := by
  rw [parts]
  cases parts ps <;> simp [bind, Except.bind, pure, Except.pure]

theorem parts_run_eq_error_iff {letter : Char} (h : letter ∈ fieldLetters) {length : Nat}
    {ps : List Piece} {fault : Fault} :
    parts (.run letter length :: ps) = .error fault ↔ parts ps = .error fault := by
  rw [parts]
  cases hfield : Field.ofRun? letter length with
  | none => exact absurd h (ofRun?_eq_none_iff.mp hfield)
  | some f => cases parts ps <;> simp [bind, Except.bind, pure, Except.pure]

theorem parts_run_unsupported {letter : Char} (h : letter ∉ fieldLetters) (length : Nat)
    (ps : List Piece) : parts (.run letter length :: ps) = .error (.unsupportedLetter letter) := by
  rw [parts, ofRun?_eq_none_iff.mpr h]

/-- A letter that goes before some pieces is a run or the start of one. -/
theorem joinLetter_cases (letter : Char) (ps : List Piece) :
    joinLetter letter ps = .run letter 1 :: ps ∨ ∃ n rest, ps = .run letter n :: rest ∧
      joinLetter letter ps = .run letter (n + 1) :: rest := by
  unfold joinLetter
  split
  · rename_i l n rest
    split
    · rename_i hl
      subst hl
      exact .inr ⟨n, rest, rfl, rfl⟩
    · exact .inl rfl
  · exact .inl rfl

theorem parts_joinLetter_eq_error_iff {letter : Char} (h : letter ∈ fieldLetters) {ps : List Piece}
    {fault : Fault} : parts (joinLetter letter ps) = .error fault ↔ parts ps = .error fault := by
  rcases joinLetter_cases letter ps with hjoin | ⟨n, rest, rfl, hjoin⟩
  · rw [hjoin, parts_run_eq_error_iff h]
  · rw [hjoin, parts_run_eq_error_iff h, parts_run_eq_error_iff h]

theorem parts_joinLetter_unsupported {letter : Char} (h : letter ∉ fieldLetters) (ps : List Piece) :
    parts (joinLetter letter ps) = .error (.unsupportedLetter letter) := by
  rcases joinLetter_cases letter ps with hjoin | ⟨n, rest, -, hjoin⟩
  · rw [hjoin, parts_run_unsupported h]
  · rw [hjoin, parts_run_unsupported h]

theorem parts_pieces_eq_error_iff {ss : List Symbol} {fault : Fault} :
    parts (pieces ss) = .error fault ↔ faultOf? ss false = some fault := by
  induction ss with
  | nil => exact ⟨fun h => (nomatch h), fun h => (nomatch h)⟩
  | cons s ss ih =>
    cases s with
    | quoted c => rw [pieces, parts_literal_eq_error_iff, ih, faultOf?]
    | plain c =>
      rw [pieces, faultOf?]
      by_cases hletter : Text.isLetter c = true
      · rw [if_pos hletter]
        by_cases hfield : c ∈ fieldLetters
        · rw [if_neg fun hbad => hbad.2 hfield, parts_joinLetter_eq_error_iff hfield, ih]
        · rw [if_pos ⟨hletter, hfield⟩, parts_joinLetter_unsupported hfield, Except.error.injEq,
            Option.some.injEq]
      · rw [if_neg hletter, if_neg fun hbad => hletter hbad.1, parts_literal_eq_error_iff, ih]

/-- Letters are looked at first, and then the quotes. -/
theorem faultOf?_true (ss : List Symbol) :
    faultOf? ss true = some ((faultOf? ss false).getD .unterminatedQuote) := by
  induction ss with
  | nil => rfl
  | cons s ss ih =>
    cases s with
    | quoted c => exact ih
    | plain c =>
      rw [faultOf?, faultOf?]
      split
      · rfl
      · exact ih

/-- **The reader of parts fails with the fault of the format.** -/
theorem parse_eq_error_iff {format : List Char} {fault : Fault} :
    parse format = .error fault ↔ FailsWith format fault := by
  rw [failsWith_iff, Spot.fault?, parse]
  dsimp only
  generalize symbols false format = read
  obtain ⟨ss, unterminated⟩ := read
  cases hparts : parts (pieces ss) with
  | error fault' =>
    have hfault := parts_pieces_eq_error_iff.mp hparts
    cases unterminated <;> simp [faultOf?_true, hfault, bind, Except.bind]
  | ok ps =>
    have hfault : faultOf? ss false = none := by
      rw [Option.eq_none_iff_forall_ne_some]
      intro fault' he
      rw [parts_pieces_eq_error_iff.mpr he] at hparts
      cases hparts
    cases unterminated <;> simp [faultOf?_true, hfault, bind, Except.bind, pure, Except.pure]

end LogRotation.DateFormat

/-! ## Programs -/

namespace LogRotation.Strftime

open DateFormat (Token Tokens Part FailsWith fieldLetters faultOf? Spot)

theorem conversion?_eq_none_iff {letter : Char} {length : Nat} :
    conversion? letter length = none ↔ letter ∉ fieldLetters := by
  unfold conversion? fieldLetters
  split <;> simp_all

/-- A token is at fault, or what follows it. -/
theorem faultOf?_token {t : Token} (ht : t.WellFormed) (ss : List DateFormat.Symbol)
    (unterminated : Bool) : faultOf? (t.symbols ++ ss) unterminated =
      match ofToken t with
      | .error fault => some fault
      | .ok _ => faultOf? ss unterminated := by
  cases t with
  | letters letter length =>
    obtain ⟨hletter, hpos⟩ := ht
    obtain ⟨k, rfl⟩ : ∃ k, length = k + 1 := ⟨length - 1, by omega⟩
    rw [ofToken]
    cases hconversion : conversion? letter (k + 1) with
    | none => exact if_pos ⟨hletter, conversion?_eq_none_iff.mp hconversion⟩
    | some conversion =>
      have hfield : letter ∈ fieldLetters := by
        by_contra hnot
        rw [conversion?_eq_none_iff.mpr hnot] at hconversion
        cases hconversion
      show faultOf? (List.replicate (k + 1) (.plain letter) ++ ss) unterminated = _
      clear hpos hconversion
      generalize k + 1 = n
      induction n with
      | zero => rfl
      | succ n ih =>
        rw [List.replicate_succ, List.cons_append, faultOf?, if_neg fun hbad => hbad.2 hfield]
        exact ih
  | quoted text => exact DateFormat.faultOf?_quoted text ss unterminated
  | quote => rfl
  | other c =>
    refine if_neg fun hbad => ?_
    rw [ht.1] at hbad
    exact absurd hbad.1 Bool.false_ne_true

/-- What belongs to a section to its very end has no single quote. -/
theorem eq_doubled_of_quotation?_none {cs : List Char} (h : DateFormat.quotation? cs = none) :
    ∃ text, cs = DateFormat.doubled text := by
  fun_induction DateFormat.quotation? cs with
  | case1 => exact ⟨[], rfl⟩
  | case2 rest ih =>
    obtain ⟨text, rfl⟩ := ih (Option.map_eq_none_iff.mp h)
    exact ⟨'\x27' :: text, rfl⟩
  | case3 => cases h
  | case4 c rest _ hc ih =>
    obtain ⟨text, rfl⟩ := ih (Option.map_eq_none_iff.mp h)
    refine ⟨c :: text, ?_⟩
    rw [DateFormat.doubled_cons, if_neg hc]
    rfl

/-- Where there is no token, there is nothing, or a section that is never closed. -/
theorem offends_of_first?_none {cs : List Char} (h : DateFormat.first? cs = none) :
    cs = [] ∨ Spot.Offends ⟨false, cs⟩ .unterminatedQuote := by
  unfold DateFormat.first? at h
  split at h
  · exact .inl rfl
  · cases h
  · rename_i c rest hpair
    split at h
    · rename_i hc
      subst hc
      obtain ⟨text, rfl⟩ := eq_doubled_of_quotation?_none (Option.map_eq_none_iff.mp h)
      refine .inr (.quote fun htext => ?_)
      obtain ⟨text, rfl⟩ := List.head?_eq_some_iff.mp htext
      exact hpair _ rfl rfl
    · split at h <;> cases h

/-- **The translation fails with the fault of the format.** -/
theorem ofFormat_eq_error_iff {format : List Char} {fault : DateFormat.Fault} :
    ofFormat format = .error fault ↔ FailsWith format fault := by
  rw [DateFormat.failsWith_iff]
  induction hn : format.length using Nat.strongRecOn generalizing format with
  | ind n ih =>
    subst hn
    cases hfirst : DateFormat.first? format with
    | none =>
      rcases offends_of_first?_none hfirst with rfl | hoffends
      · -- nothing is wrong with nothing
        rw [ofFormat]
        constructor
        · intro h
          cases h
        · intro h
          cases h
      · have hne : format.isEmpty = false := by cases hoffends with | quote => rfl
        rw [DateFormat.fault?_of_offends hoffends, ofFormat, hne, if_neg Bool.false_ne_true]
        split
        · rw [Except.error.injEq, Option.some.injEq]
        · rename_i hsome
          rw [hfirst] at hsome
          cases hsome
    | some first =>
      obtain ⟨t, rest⟩ := first
      obtain ⟨ht, hend, rfl⟩ := DateFormat.eq_of_first? hfirst
      have hrest := ih _ (DateFormat.length_first? hfirst) rfl
      rw [ofFormat_source ht hend, Spot.fault?, DateFormat.symbols_source ht hend,
        faultOf?_token ht]
      cases ofToken t with
      | error fault' => simp [bind, Except.bind]
      | ok program =>
        rw [Spot.fault?] at hrest
        rw [← hrest]
        cases ofFormat rest <;> simp [bind, Except.bind, pure, Except.pure]

/-! ## The last check -/

/-- An accepted format has a program, which prints what the parts of the format show. -/
theorem translate_of_parse {format : List Char} {ps : List Part}
    (h : DateFormat.parse format = .ok ps) : ∃ program, ofFormat format = .ok program ∧
      translate format = .ok program ∧
      ∀ w, print? w program = some (DateFormat.render w ps) := by
  obtain ⟨hclosed, hparts⟩ := DateFormat.closed_of_parse h
  obtain ⟨ts, hts⟩ := DateFormat.tokens_of_closed hclosed
  rw [hts.symbols_eq, hts.pieces_eq] at hparts
  obtain ⟨program, qs, hprogram, hprinted, hshown⟩ := printed_program hts hparts
  refine ⟨program, hprogram, ?_, fun w => ?_⟩
  · rw [translate, hprogram]
    dsimp only
    rw [hprinted.parts?_eq]
    exact if_pos rfl
  · rw [print?, hprinted.parts?_eq, Option.map_some, hshown]

/-- A format that is translated has parts, which show what its program prints. -/
theorem exists_parts_of_ofFormat {format program : List Char} (h : ofFormat format = .ok program) :
    ∃ ps, DateFormat.parse format = .ok ps ∧ translate format = .ok program ∧
      ∀ w, print? w program = some (DateFormat.render w ps) := by
  cases hparts : DateFormat.parse format with
  | error fault =>
    rw [ofFormat_eq_error_iff.mpr (DateFormat.parse_eq_error_iff.mp hparts)] at h
    cases h
  | ok ps =>
    obtain ⟨program', hprogram, htranslate, hprints⟩ := translate_of_parse hparts
    rw [h] at hprogram
    cases hprogram
    exact ⟨ps, rfl, htranslate, hprints⟩

/-- **The last check refuses nothing.** -/
theorem translate_eq (format : List Char) :
    translate format = (ofFormat format).mapError .fault := by
  cases hprogram : ofFormat format with
  | error fault => rw [translate, hprogram]; rfl
  | ok program =>
    obtain ⟨_, -, htranslate, -⟩ := exists_parts_of_ofFormat hprogram
    exact htranslate

theorem exists_parts_of_translate {format program : List Char}
    (h : translate format = .ok program) : ∃ ps, DateFormat.parse format = .ok ps ∧
      ∀ w, print? w program = some (DateFormat.render w ps) := by
  rw [translate_eq] at h
  cases hprogram : ofFormat format with
  | error fault =>
    rw [hprogram] at h
    cases h
  | ok program' =>
    rw [hprogram] at h
    cases h
    obtain ⟨ps, hps, -, hprints⟩ := exists_parts_of_ofFormat hprogram
    exact ⟨ps, hps, hprints⟩

theorem translate_eq_error_iff {format : List Char} {refusal : Refusal} :
    translate format = .error refusal ↔ ∃ fault, refusal = .fault fault ∧ FailsWith format fault := by
  rw [translate_eq]
  constructor
  · intro h
    cases hprogram : ofFormat format with
    | error fault =>
      rw [hprogram] at h
      cases h
      exact ⟨fault, rfl, ofFormat_eq_error_iff.mp hprogram⟩
    | ok program =>
      rw [hprogram] at h
      cases h
  · rintro ⟨fault, rfl, h⟩
    rw [ofFormat_eq_error_iff.mpr h]
    rfl

/-- **A format is accepted if nothing in it offends.** -/
theorem exists_translate_iff {format : List Char} : (∃ program, translate format = .ok program) ↔
    Spot.fault? ⟨false, format⟩ = none := by
  rw [Option.eq_none_iff_forall_ne_some]
  constructor
  · rintro ⟨program, h⟩ fault hfault
    rw [translate_eq_error_iff.mpr ⟨fault, rfl, DateFormat.failsWith_iff.mpr hfault⟩] at h
    cases h
  · intro h
    cases htranslate : translate format with
    | ok program => exact ⟨program, rfl⟩
    | error refusal =>
      obtain ⟨fault, -, hfails⟩ := translate_eq_error_iff.mp htranslate
      exact absurd (DateFormat.failsWith_iff.mp hfails) (h fault)

end LogRotation.Strftime

/-! ## Formats and templates -/

namespace LogRotation.DateFormat

/-- **Acceptance is exact.**  A format has a program just if it leaves no quoted section open and its
unquoted letters are those of fields; where it is refused, the fault is that of the first spot that
offends, and the reader of parts fails with that same fault.  The last check of a program refuses
nothing.  So each template that is accepted has a program, which prints the date of each of its names. -/
theorem acceptance_is_exact (format : List Char) :
    ((∃ program, Strftime.translate format = .ok program) ↔
      ¬ Reaches format ⟨true, []⟩ ∧ ∀ c rest, Reaches format ⟨false, c :: rest⟩ →
        Text.isLetter c = true → c ∈ fieldLetters) ∧
    (∀ refusal, Strftime.translate format = .error refusal ↔
      ∃ fault, refusal = .fault fault ∧ FailsWith format fault) ∧
    (∀ program, Strftime.ofFormat format = .ok program →
      Strftime.translate format = .ok program) ∧
    (∀ fault, parse format = .error fault ↔ FailsWith format fault) ∧
    ∀ text t, Template.parse text = .ok t → t.dateFormat = format → ∃ program,
      Strftime.translate format = .ok program ∧ ∀ mode localTime instant, ∃ date,
        Strftime.print? (.ofInstant (t.withZone mode).zone localTime instant) program = some date ∧
        ((t.withZone mode).render localTime instant).toList = t.lead ++ date ++ t.tail := by
  refine ⟨?_, fun _ => Strftime.translate_eq_error_iff, ?_, fun _ => parse_eq_error_iff, ?_⟩
  · rw [Strftime.exists_translate_iff, fault?_eq_none_iff]
  · intro program h
    rw [Strftime.translate_eq, h]
    rfl
  · rintro text t h rfl
    obtain ⟨program, -, hprogram, hprints⟩ := Strftime.translate_of_parse (Template.parse_dateFormat h)
    refine ⟨program, hprogram, fun mode localTime instant => ⟨_, hprints _, ?_⟩⟩
    rw [Template.render, String.toList_ofList, Template.renderChars_withZone]

/-- Pairs of quotes outside of sections and within one, which holds a percent sign and letters of no
field; the first of these letters that is not quoted is at fault, and not the quote behind it. -/
theorem acceptance_is_exact_of_quoted_letters : ∃ t,
    Template.parse "a-%d\x7byyyy''MM'%k'' q'S\x7d.gz" = .ok t ∧
    t.dateFormat = "yyyy''MM'%k'' q'S".toList ∧
    (∃ program, Strftime.translate "yyyy''MM'%k'' q'S".toList = .ok program ∧
      ∀ mode localTime instant, ∃ date,
        Strftime.print? (.ofInstant (t.withZone mode).zone localTime instant) program = some date ∧
        ((t.withZone mode).render localTime instant).toList = t.lead ++ date ++ t.tail) ∧
    (t.withZone .utc).renderMillis (.fixed 0) 999 = "a-1970'01%k' q999.gz" ∧
    FailsWith "yyyy''MM'%k'' q'k'S".toList (.unsupportedLetter 'k') := by
  have hparse : ∃ t, Template.parse "a-%d\x7byyyy''MM'%k'' q'S\x7d.gz" = .ok t ∧
      t.dateFormat = "yyyy''MM'%k'' q'S".toList ∧
      (t.withZone .utc).renderMillis (.fixed 0) 999 = "a-1970'01%k' q999.gz" := ⟨_, rfl, rfl, rfl⟩
  obtain ⟨t, ht, hformat, hname⟩ := hparse
  obtain ⟨-, -, -, -, htemplates⟩ := acceptance_is_exact "yyyy''MM'%k'' q'S".toList
  obtain ⟨-, -, -, hfaults, -⟩ := acceptance_is_exact "yyyy''MM'%k'' q'k'S".toList
  exact ⟨t, ht, hformat, htemplates _ t ht hformat, hname, (hfaults _).mp rfl⟩

end LogRotation.DateFormat
