/-
  What JSON texts are made of: blanks, numbers and strings.

  Beside each reader stands the part of the grammar (RFC 8259) that it reads, as a relation.  What the
  grammar writes is read in front of any rest that could not go on with it, and nothing else is read.

    * NUMBERS   `Number`, from its sign to its exponent (`number?_append`, `number_of_number?`);
    * STRINGS   `Spelled`, what the characters and escapes between two quotes write (`Spelled.read`,
                `spelled_of_string?`), which can write every text (`exists_spelled`);
    * TEXTS     `Means`, the text that a string stands for: half a pair of surrogates stands for none
                (`text?_eq_some_iff`).
-/
import LogRotation.Json.Value

namespace LogRotation.Json

/-! ## Blanks -/

/-- `Blanks cs` - nothing but blanks. -/
def Blanks (cs : List Char) : Prop := ∀ c ∈ cs, isBlank c = true

theorem Blanks.nil : Blanks [] := List.forall_mem_nil _

/-- Blanks are dropped up to the first character that is none. -/
theorem skip_append {ws : List Char} {c : Char} (cs : List Char) (hws : Blanks ws)
    (hc : isBlank c = false) : skip (ws ++ c :: cs) = c :: cs := by
  rw [skip, List.dropWhile_append_of_pos hws, List.dropWhile_cons_of_neg (by simp [hc])]

theorem skip_blanks {ws : List Char} (hws : Blanks ws) : skip ws = [] := by
  rw [← List.append_nil ws, skip, List.dropWhile_append_of_pos hws]
  rfl

/-- What is dropped is blanks. -/
theorem exists_blanks (cs : List Char) : ∃ ws, Blanks ws ∧ cs = ws ++ skip cs :=
  ⟨cs.takeWhile isBlank, fun c hc => List.all_eq_true.mp List.all_takeWhile c hc,
    List.takeWhile_append_dropWhile.symm⟩

/-! ## Digits -/

/-- `Digits cs` - one digit or more. -/
def Digits (cs : List Char) : Prop := cs ≠ [] ∧ ∀ c ∈ cs, Text.isDigit c = true

/-- `Past p cs` - what does not begin with a character of the class `p`. -/
def Past (p : Char → Prop) (cs : List Char) : Prop := ∀ c ∈ cs.head?, ¬ p c

theorem past_nil (p : Char → Prop) : Past p [] := nofun

theorem past_cons {p : Char → Prop} {c : Char} (cs : List Char) (hc : ¬ p c) : Past p (c :: cs) := by
  rintro d hd
  obtain rfl : c = d := Option.some.inj hd
  exact hc

/-- **A run of digits is taken to its end**, and only a run of digits is taken. -/
theorem digits?_eq_some_iff {cs ds rest : List Char} :
    digits? cs = some (ds, rest) ↔ Digits ds ∧ Past (Text.isDigit · = true) rest ∧ cs = ds ++ rest := by
  constructor
  · intro h
    rw [digits?] at h
    split at h
    · nomatch h
    · rename_i ds' hne
      obtain ⟨rfl, rfl⟩ := Prod.mk.inj (Option.some.inj h)
      refine ⟨⟨hne, fun c hc => List.all_eq_true.mp List.all_takeWhile c hc⟩, ?_,
        List.takeWhile_append_dropWhile.symm⟩
      intro c hc
      have hstop := List.head?_dropWhile_not Text.isDigit cs
      rw [Option.mem_def.mp hc] at hstop
      simpa using hstop
  · rintro ⟨⟨hne, hds⟩, hrest, rfl⟩
    have htake : (ds ++ rest).takeWhile Text.isDigit = ds ∧
        (ds ++ rest).dropWhile Text.isDigit = rest := by
      rw [List.takeWhile_append_of_pos hds, List.dropWhile_append_of_pos hds]
      cases rest with
      | nil => simp
      | cons c rest =>
        have hc : ¬ Text.isDigit c = true := hrest c rfl
        simp [hc]
    rw [digits?, htake.1, htake.2]
    obtain ⟨d, ds, rfl⟩ := List.exists_cons_of_ne_nil hne
    rfl

/-! ## Numbers -/

/-- `Whole cs` - a whole number without needless zeros in front. -/
inductive Whole : List Char → Prop
  | zero : Whole ['0']
  | other {c : Char} {ds : List Char} : c ≠ '0' → Digits (c :: ds) → Whole (c :: ds)

/-- `Fraction cs` - a fraction, or none. -/
inductive Fraction : List Char → Prop
  | absent : Fraction []
  | point {ds : List Char} : Digits ds → Fraction ('.' :: ds)

/-- `Exponent cs` - an exponent, or none. -/
inductive Exponent : List Char → Prop
  | absent : Exponent []
  | mark {c : Char} {plus ds : List Char} : c = 'e' ∨ c = 'E' → plus ∈ [[], ['+'], ['-']] →
      Digits ds → Exponent (c :: plus ++ ds)

/-- `Magnitude cs` - a number without its sign. -/
inductive Magnitude : List Char → Prop
  | mk {whole fraction exponent : List Char} : Whole whole → Fraction fraction → Exponent exponent →
      Magnitude (whole ++ (fraction ++ exponent))

/-- `Number cs` - a number. -/
inductive Number : List Char → Prop
  | positive {t : List Char} : Magnitude t → Number t
  | negative {t : List Char} : Magnitude t → Number ('-' :: t)

/-- Holds of the characters that go on with a number. -/
def Numeric (c : Char) : Prop := Text.isDigit c = true ∨ c = '.' ∨ c = 'e' ∨ c = 'E'

instance : DecidablePred Numeric := fun c =>
  inferInstanceAs (Decidable (Text.isDigit c = true ∨ c = '.' ∨ c = 'e' ∨ c = 'E'))

theorem whole?_append {whole rest : List Char} (h : Whole whole)
    (hrest : Past (Text.isDigit · = true) rest) : whole? (whole ++ rest) = some (whole, rest) := by
  cases h with
  | zero => rfl
  | other hc hds =>
    rw [List.cons_append, whole?]
    · exact digits?_eq_some_iff.mpr ⟨hds, hrest, rfl⟩
    · rintro rest he
      exact hc (List.cons.inj he).1

theorem whole_of_whole? {cs whole rest : List Char} (h : whole? cs = some (whole, rest)) :
    Whole whole ∧ cs = whole ++ rest := by
  rw [whole?.eq_def] at h
  split at h
  · obtain ⟨rfl, rfl⟩ := Prod.mk.inj (Option.some.inj h)
    exact ⟨.zero, rfl⟩
  · rename_i hzero
    obtain ⟨hds, -, rfl⟩ := digits?_eq_some_iff.mp h
    obtain ⟨c, ds, rfl⟩ := List.exists_cons_of_ne_nil hds.1
    refine ⟨.other ?_ hds, rfl⟩
    rintro rfl
    exact hzero _ rfl

theorem fraction?_append {fraction rest : List Char} (h : Fraction fraction)
    (hrest : Past (fun c => Text.isDigit c = true ∨ c = '.') rest) :
    fraction? (fraction ++ rest) = some (fraction, rest) := by
  cases h with
  | absent =>
    rw [List.nil_append, fraction?]
    rintro r rfl
    exact hrest '.' rfl (.inr rfl)
  | point hds =>
    rw [List.cons_append, fraction?,
      digits?_eq_some_iff.mpr ⟨hds, fun c hc hd => hrest c hc (.inl hd), rfl⟩]
    rfl

theorem fraction_of_fraction? {cs fraction rest : List Char}
    (h : fraction? cs = some (fraction, rest)) : Fraction fraction ∧ cs = fraction ++ rest := by
  rw [fraction?.eq_def] at h
  split at h
  · obtain ⟨⟨ds, r⟩, hds, he⟩ := Option.map_eq_some_iff.mp h
    obtain ⟨rfl, rfl⟩ := Prod.mk.inj he
    obtain ⟨hdigits, -, rfl⟩ := digits?_eq_some_iff.mp hds
    exact ⟨.point hdigits, rfl⟩
  · obtain ⟨rfl, rfl⟩ := Prod.mk.inj (Option.some.inj h)
    exact ⟨.absent, rfl⟩

theorem sign_append {plus ds : List Char} (hplus : plus ∈ [[], ['+'], ['-']]) (hds : Digits ds)
    (rest : List Char) : sign (plus ++ (ds ++ rest)) = (plus, ds ++ rest) := by
  obtain ⟨d, ds, rfl⟩ := List.exists_cons_of_ne_nil hds.1
  have hd : Text.isDigit d = true := hds.2 d List.mem_cons_self
  simp only [List.mem_cons, List.not_mem_nil, or_false] at hplus
  rcases hplus with rfl | rfl | rfl
  · rw [List.nil_append, List.cons_append, sign]
    all_goals
      rintro r he
      obtain ⟨rfl, -⟩ := List.cons.inj he
      exact absurd hd (by decide)
  · rfl
  · rfl

theorem sign_spec (cs : List Char) :
    (sign cs).1 ∈ [[], ['+'], ['-']] ∧ cs = (sign cs).1 ++ (sign cs).2 := by
  rw [sign.eq_def]
  split <;> simp

theorem exponent?_append {exponent rest : List Char} (h : Exponent exponent)
    (hrest : Past Numeric rest) : exponent? (exponent ++ rest) = some (exponent, rest) := by
  cases h with
  | absent =>
    cases rest with
    | nil => rfl
    | cons c rest =>
      have hc : ¬ (c = 'e' ∨ c = 'E') := fun he => hrest c rfl (.inr (.inr he))
      rw [List.nil_append, exponent?, if_neg hc]
  | mark hc hplus hds =>
    rw [List.cons_append, List.cons_append, List.append_assoc, exponent?, if_pos hc,
      sign_append hplus hds, digits?_eq_some_iff.mpr ⟨hds, fun c hc hd => hrest c hc (.inl hd), rfl⟩]
    rfl

theorem exponent_of_exponent? {cs exponent rest : List Char}
    (h : exponent? cs = some (exponent, rest)) : Exponent exponent ∧ cs = exponent ++ rest := by
  rw [exponent?.eq_def] at h
  split at h
  · rename_i c cs
    split at h
    · rename_i hc
      obtain ⟨⟨ds, r⟩, hds, he⟩ := Option.map_eq_some_iff.mp h
      obtain ⟨rfl, rfl⟩ := Prod.mk.inj he
      obtain ⟨hdigits, -, hcs⟩ := digits?_eq_some_iff.mp hds
      obtain ⟨hsign, hsource⟩ := sign_spec cs
      refine ⟨.mark hc hsign hdigits, ?_⟩
      rw [List.cons_append, List.cons_append, List.append_assoc, ← hcs, ← hsource]
    · obtain ⟨rfl, rfl⟩ := Prod.mk.inj (Option.some.inj h)
      exact ⟨.absent, rfl⟩
  · obtain ⟨rfl, rfl⟩ := Prod.mk.inj (Option.some.inj h)
    exact ⟨.absent, rfl⟩

/-- What follows the digits of a number and its fraction is told from them by its first character. -/
theorem Exponent.past {exponent rest : List Char} (h : Exponent exponent)
    (hrest : Past Numeric rest) :
    Past (fun c => Text.isDigit c = true ∨ c = '.') (exponent ++ rest) := by
  cases h with
  | absent => exact fun c hc hd => hrest c hc (hd.imp_right .inl)
  | mark hc =>
    refine past_cons _ ?_
    rcases hc with rfl | rfl <;> decide

theorem Fraction.past {fraction rest : List Char} (h : Fraction fraction)
    (hrest : Past (fun c => Text.isDigit c = true ∨ c = '.') rest) :
    Past (Text.isDigit · = true) (fraction ++ rest) := by
  cases h with
  | absent => exact fun c hc hd => hrest c hc (.inl hd)
  | point => exact past_cons _ (by decide)

theorem magnitude?_append {t rest : List Char} (h : Magnitude t) (hrest : Past Numeric rest) :
    magnitude? (t ++ rest) = some (t, rest) := by
  cases h with
  | mk hwhole hfraction hexponent =>
    have hpast := hexponent.past hrest
    rw [List.append_assoc, List.append_assoc, magnitude?, whole?_append hwhole (hfraction.past hpast)]
    dsimp only [Option.bind_eq_bind, Option.bind_some]
    rw [fraction?_append hfraction hpast]
    dsimp only [Option.bind_some]
    rw [exponent?_append hexponent hrest]
    dsimp only [Option.bind_some, Option.pure_def]
    rw [List.append_assoc]

theorem magnitude_of_magnitude? {cs t rest : List Char} (h : magnitude? cs = some (t, rest)) :
    Magnitude t ∧ cs = t ++ rest := by
  rw [magnitude?] at h
  obtain ⟨⟨whole, r⟩, hw, h⟩ := Option.bind_eq_some_iff.mp h
  obtain ⟨⟨fraction, r'⟩, hf, h⟩ := Option.bind_eq_some_iff.mp h
  obtain ⟨⟨exponent, r''⟩, he, h⟩ := Option.bind_eq_some_iff.mp h
  obtain ⟨rfl, rfl⟩ := Prod.mk.inj (Option.some.inj h)
  obtain ⟨hwhole, rfl⟩ := whole_of_whole? hw
  obtain ⟨hfraction, rfl⟩ := fraction_of_fraction? hf
  obtain ⟨hexponent, rfl⟩ := exponent_of_exponent? he
  rw [List.append_assoc whole]
  exact ⟨.mk hwhole hfraction hexponent, by simp⟩

/-- A number without a sign begins with a digit. -/
theorem Magnitude.head {t : List Char} (h : Magnitude t) :
    ∃ c rest, t = c :: rest ∧ Text.isDigit c = true := by
  obtain ⟨hwhole, -, -⟩ := h
  cases hwhole with
  | zero => exact ⟨_, _, rfl, rfl⟩
  | other _ hds => exact ⟨_, _, rfl, hds.2 _ List.mem_cons_self⟩

/-- **A number is read to its end** when nothing follows that could go on with it. -/
theorem number?_append {t rest : List Char} (h : Number t) (hrest : Past Numeric rest) :
    number? (t ++ rest) = some (t, rest) := by
  cases h with
  | positive ht =>
    have hread := magnitude?_append ht hrest
    obtain ⟨c, cs, rfl, hc⟩ := ht.head
    rw [List.cons_append] at hread ⊢
    rw [number?, hread]
    rintro r he
    obtain ⟨rfl, -⟩ := List.cons.inj he
    exact absurd hc (by decide)
  | negative ht =>
    rw [List.cons_append, number?, magnitude?_append ht hrest]
    rfl

theorem number_of_number? {cs t rest : List Char} (h : number? cs = some (t, rest)) :
    Number t ∧ cs = t ++ rest := by
  rw [number?.eq_def] at h
  split at h
  · obtain ⟨⟨t', r⟩, ht, he⟩ := Option.map_eq_some_iff.mp h
    obtain ⟨rfl, rfl⟩ := Prod.mk.inj he
    obtain ⟨hmagnitude, rfl⟩ := magnitude_of_magnitude? ht
    exact ⟨.negative hmagnitude, rfl⟩
  · obtain ⟨hmagnitude, rfl⟩ := magnitude_of_magnitude? h
    exact ⟨.positive hmagnitude, rfl⟩

/-! ## Strings -/

/-- The letters of the short escapes, each with what it writes. -/
def shortEscapes : List (Char × Char) :=
  [('"', '"'), ('\\', '\\'), ('/', '/'), ('b', '\x08'), ('f', '\x0c'), ('n', '\n'), ('r', '\r'),
    ('t', '\t')]

/-- `Hex a b c d n` - four hexadecimal digits write the number `n`. -/
def Hex (a b c d : Char) (n : Nat) : Prop := ∃ w x y z, Text.hexValue? a = some w ∧
  Text.hexValue? b = some x ∧ Text.hexValue? c = some y ∧ Text.hexValue? d = some z ∧
  n = 0x1000 * w + 0x100 * x + 0x10 * y + z

/-- `Spelled s cs` - between quotes, `cs` writes the elements `s` of a string. -/
inductive Spelled : List Element → List Char → Prop
  | nil : Spelled [] []
  | plain {c : Char} {s : List Element} {cs : List Char} : 32 ≤ c.toNat → c ≠ '"' → c ≠ '\\' →
      Spelled s cs → Spelled (.char c :: s) (c :: cs)
  | short {l c : Char} {s : List Element} {cs : List Char} : (l, c) ∈ shortEscapes →
      Spelled s cs → Spelled (.char c :: s) ('\\' :: l :: cs)
  | code {a b c d : Char} {n : Nat} {s : List Element} {cs : List Char} : Hex a b c d n →
      Spelled s cs → Spelled (unit n :: s) ('\\' :: 'u' :: a :: b :: c :: d :: cs)

theorem escaped?_eq_some_iff {l c : Char} : escaped? l = some c ↔ (l, c) ∈ shortEscapes := by
  constructor
  · intro h
    rw [escaped?.eq_def] at h
    split at h <;> simp only [Option.some.injEq, reduceCtorEq] at h <;> subst h <;> decide
  · intro h
    simp only [shortEscapes, List.mem_cons, Prod.mk.injEq, List.not_mem_nil, or_false] at h
    rcases h with ⟨rfl, rfl⟩ | ⟨rfl, rfl⟩ | ⟨rfl, rfl⟩ | ⟨rfl, rfl⟩ | ⟨rfl, rfl⟩ | ⟨rfl, rfl⟩ |
      ⟨rfl, rfl⟩ | ⟨rfl, rfl⟩ <;> rfl

theorem fourHex?_eq_some_iff {a b c d : Char} {n : Nat} {r : List Char} :
    fourHex? [a, b, c, d] = some (n, r) ↔ Hex a b c d n ∧ r = [] := by
  simp only [fourHex?, Hex, Option.bind_eq_bind, Option.bind_eq_some_iff, Option.pure_def,
    Option.some.injEq, Prod.mk.injEq]
  constructor
  · rintro ⟨w, hw, x, hx, y, hy, z, hz, hn, rfl⟩
    exact ⟨⟨w, x, y, z, hw, hx, hy, hz, by omega⟩, rfl⟩
  · rintro ⟨⟨w, x, y, z, hw, hx, hy, hz, hn⟩, rfl⟩
    exact ⟨w, hw, x, hx, y, hy, z, hz, by omega, rfl⟩

/-- **A string is read up to its closing quote.** -/
theorem Spelled.read {s : List Element} {cs : List Char} (h : Spelled s cs) (rest : List Char) :
    string? (cs ++ '"' :: rest) = some (s, rest) := by
  induction h with
  | nil => rfl
  | @plain c s cs hlow hquote hslash _ ih =>
    rw [List.cons_append, string?, if_neg (by omega), ih]
    · rfl
    · exact hquote
    · exact fun _ _ _ _ _ he => absurd he hslash
    · exact fun _ _ he => absurd he hslash
  | @short l c s cs hmem _ ih =>
    have hl : l ≠ 'u' := by
      rintro rfl
      have hu := escaped?_eq_some_iff.mpr hmem
      nomatch hu
    rw [List.cons_append, List.cons_append, string?, escaped?_eq_some_iff.mpr hmem]
    · dsimp only [Option.bind_eq_bind, Option.bind_some]
      rw [ih]
      rfl
    · exact fun _ _ _ _ _ he => absurd he hl
  | code hhex _ ih =>
    simp only [List.cons_append]
    rw [string?, fourHex?_eq_some_iff.mpr ⟨hhex, rfl⟩]
    dsimp only [Option.bind_eq_bind, Option.bind_some]
    rw [ih]
    rfl

theorem spelled_of_string? {cs : List Char} {s : List Element} {rest : List Char}
    (h : string? cs = some (s, rest)) : ∃ body, Spelled s body ∧ cs = body ++ '"' :: rest := by
  fun_induction string? cs generalizing s with
  | case1 => nomatch h
  | case2 r =>
    obtain ⟨rfl, rfl⟩ := Prod.mk.inj (Option.some.inj h)
    exact ⟨[], .nil, rfl⟩
  | case3 a b c d r ih =>
    obtain ⟨⟨n, _⟩, hn, h⟩ := Option.bind_eq_some_iff.mp h
    obtain ⟨⟨s', r'⟩, hs, h⟩ := Option.bind_eq_some_iff.mp h
    obtain ⟨rfl, rfl⟩ := Prod.mk.inj (Option.some.inj h)
    obtain ⟨body, hbody, rfl⟩ := ih hs
    exact ⟨_, .code (fourHex?_eq_some_iff.mp hn).1 hbody, rfl⟩
  | case4 l r _ ih =>
    obtain ⟨c, hc, h⟩ := Option.bind_eq_some_iff.mp h
    obtain ⟨⟨s', r'⟩, hs, h⟩ := Option.bind_eq_some_iff.mp h
    obtain ⟨rfl, rfl⟩ := Prod.mk.inj (Option.some.inj h)
    obtain ⟨body, hbody, rfl⟩ := ih hs
    exact ⟨_, .short (escaped?_eq_some_iff.mp hc) hbody, rfl⟩
  | case5 => nomatch h
  | case6 c r hquote _ hslash hlow ih =>
    obtain ⟨⟨s', r'⟩, hs, he⟩ := Option.map_eq_some_iff.mp h
    obtain ⟨rfl, rfl⟩ := Prod.mk.inj he
    obtain ⟨body, hbody, rfl⟩ := ih hs
    refine ⟨_, .plain (by omega) hquote ?_ hbody, rfl⟩
    -- a backslash would stand in front of another character, if only of the closing quote
    rintro rfl
    cases body with
    | nil => exact hslash _ _ rfl rfl
    | cons d body => exact hslash _ _ rfl rfl

theorem hex_digitChar {n : Nat} (h : n < 0x100) :
    Hex '0' '0' (n / 0x10).digitChar (n % 0x10).digitChar n := by
  have hvalue : ∀ k < 0x10, Text.hexValue? k.digitChar = some k := by decide
  exact ⟨0, 0, n / 0x10, n % 0x10, rfl, rfl, hvalue _ (by omega), hvalue _ (by omega), by omega⟩

/-- **Every text can be written.** -/
theorem exists_spelled (t : List Char) : ∃ cs, Spelled (t.map .char) cs := by
  induction t with
  | nil => exact ⟨[], .nil⟩
  | cons c t ih =>
    obtain ⟨cs, hcs⟩ := ih
    by_cases hplain : 32 ≤ c.toNat ∧ c ≠ '"' ∧ c ≠ '\\'
    · exact ⟨_, .plain hplain.1 hplain.2.1 hplain.2.2 hcs⟩
    · -- what must not stand for itself has an escape of two digits that matter
      have hlow : c.toNat < 0x100 := by
        refine Decidable.byContradiction fun hhigh => hplain ⟨by omega, ?_, ?_⟩
        all_goals
          rintro rfl
          exact hhigh (by decide)
      have hunit : unit c.toNat = .char c := by rw [unit, if_neg (by omega), Char.ofNat_toNat]
      exact ⟨_, hunit ▸ Spelled.code (hex_digitChar hlow) hcs⟩

/-! ## The text of a string -/

/-- `Means s t` - the elements `s` stand for the text `t`: each character for itself, and a pair of
surrogates for the character beyond U+FFFF that it is in UTF-16. -/
inductive Means : List Element → List Char → Prop
  | nil : Means [] []
  | char {c : Char} {s : List Element} {t : List Char} : Means s t → Means (.char c :: s) (c :: t)
  | pair {c : Char} {s : List Element} {t : List Char} : 0x10000 ≤ c.toNat → Means s t →
      Means (.surrogate (0xD800 + (c.toNat - 0x10000) / 0x400) ::
        .surrogate (0xDC00 + (c.toNat - 0x10000) % 0x400) :: s) (c :: t)

/-- `Proper s` - what is no character in `s` is a surrogate. -/
def Proper (s : List Element) : Prop := ∀ n, .surrogate n ∈ s → 0xD800 ≤ n ∧ n < 0xE000

theorem Spelled.proper {s : List Element} {cs : List Char} (h : Spelled s cs) : Proper s := by
  induction h with
  | nil => exact fun _ hn => nomatch hn
  | plain _ _ _ _ ih | short _ _ ih =>
    intro n hn
    rcases List.mem_cons.mp hn with he | hn
    · nomatch he
    · exact ih n hn
  | code _ _ ih =>
    intro n hn
    rcases List.mem_cons.mp hn with he | hn
    · rw [unit] at he
      split at he
      · cases he
        omega
      · nomatch he
    · exact ih n hn

theorem Means.text? {s : List Element} {t : List Char} (h : Means s t) : text? s = some t := by
  induction h with
  | nil => rfl
  | char _ ih =>
    rw [Json.text?, ih]
    rfl
  | @pair c s t hc _ ih =>
    have hvalid : c.toNat < 0xD800 ∨ 0xDFFF < c.toNat ∧ c.toNat < 0x110000 := c.valid
    have hn : 0x10000 + (0xD800 + (c.toNat - 0x10000) / 0x400 - 0xD800) * 0x400 +
        (0xDC00 + (c.toNat - 0x10000) % 0x400 - 0xDC00) = c.toNat := by omega
    rw [Json.text?, if_pos ⟨by omega, by omega⟩, ih, hn, Char.ofNat_toNat]
    rfl

theorem toNat_ofNat {n : Nat} (h : n.isValidChar) : (Char.ofNat n).toNat = n := by
  rw [Char.ofNat, dif_pos h]
  rfl

/-- **Surrogates are read as the pairs of UTF-16**, and where they do not come in pairs there is no
text. -/
theorem text?_eq_some_iff {s : List Element} {t : List Char} (hs : Proper s) :
    text? s = some t ↔ Means s t := by
  refine ⟨fun h => ?_, Means.text?⟩
  fun_induction Json.text? s generalizing t with
  | case1 =>
    cases h
    exact .nil
  | case2 c s ih =>
    obtain ⟨t', ht, rfl⟩ := Option.map_eq_some_iff.mp h
    exact .char (ih (fun n hn => hs n (List.mem_cons_of_mem _ hn)) ht)
  | case3 high low s hpair ih =>
    obtain ⟨t', ht, rfl⟩ := Option.map_eq_some_iff.mp h
    have hhigh := hs high (by simp)
    have hlow := hs low (by simp)
    -- the two halves make a number that is a character beyond U+FFFF
    obtain ⟨c, hc, hn⟩ : ∃ c, Char.ofNat (0x10000 + (high - 0xD800) * 0x400 + (low - 0xDC00)) = c ∧
        c.toNat = 0x10000 + (high - 0xD800) * 0x400 + (low - 0xDC00) :=
      ⟨_, rfl, toNat_ofNat (.inr (by omega))⟩
    have hfirst : 0xD800 + (c.toNat - 0x10000) / 0x400 = high := by omega
    have hsecond : 0xDC00 + (c.toNat - 0x10000) % 0x400 = low := by omega
    have hmeans := Means.pair (c := c) (by omega) (ih (fun n hn => hs n (by simp [hn])) ht)
    rwa [hfirst, hsecond, ← hc] at hmeans
  | case4 => nomatch h
  | case5 => nomatch h

end LogRotation.Json
