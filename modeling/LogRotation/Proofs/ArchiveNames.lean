/-
  What an archive name asks for does not hang on the time: detecting the compression once is enough.

  1. **Foreign words** - what a field writes begins with a digit, a sign or a capital letter, and
     has no dot (`Field.foreign_write`).  So it has nothing in common with an ending of an archive:
     it neither lies within `.gz` or `.zip` nor holds the beginning of one of them.

  2. **The crux** - `suffix_render_iff`: a rendered name ends like an archive exactly when the last
     parts of its template are those letters themselves.  The parts do not change with the time.

  3. **The consequence** - the kind found at activation is the kind of every later name, so taking
     its ending off and putting it back gives the name again (`strip_nameAt`), and a file is never
     compressed into itself.
-/
import LogRotation.Proofs.Calendar
import LogRotation.Proofs.Looks
import Mathlib.Data.List.Basic
import Mathlib.Data.List.Induction

namespace LogRotation

/-! ## Foreign words -/

/-- The letters of the endings of archives. -/
def archiveLetters : List Char := ['.', 'g', 'z', 'i', 'p']

/-- `Foreign word` - a word that can be no part of an ending of an archive. -/
def Foreign (word : List Char) : Prop :=
  (∃ c rest, word = c :: rest ∧ c ∉ archiveLetters) ∧ '.' ∉ word

theorem not_mem_archiveLetters_of_isDigit {c : Char} (h : c.isDigit = true) :
    c ∉ archiveLetters := by
  intro hm
  simp only [archiveLetters, List.mem_cons, List.not_mem_nil, or_false] at hm
  rcases hm with rfl | rfl | rfl | rfl | rfl <;> exact absurd h (by decide)

theorem dot_not_mem_of_isDigit {word : List Char} (h : ∀ c ∈ word, c.isDigit = true) :
    '.' ∉ word := fun hm => absurd (h '.' hm) (by decide)

theorem foreign_of_isDigit {word : List Char} (hne : word ≠ [])
    (h : ∀ c ∈ word, c.isDigit = true) : Foreign word := by
  obtain ⟨c, rest, rfl⟩ := List.exists_cons_of_ne_nil hne
  exact ⟨⟨c, rest, rfl, not_mem_archiveLetters_of_isDigit (h c List.mem_cons_self)⟩,
    dot_not_mem_of_isDigit h⟩

/-- A sign in front makes any word without a dot foreign. -/
theorem foreign_sign (negative : Prop) [Decidable negative] {word : List Char} (h : '.' ∉ word) :
    Foreign ((if negative then '-' else '+') :: word) := by
  by_cases hn : negative
  · rw [if_pos hn]
    exact ⟨⟨'-', word, rfl, by decide⟩, List.not_mem_cons_of_ne_of_not_mem (by decide) h⟩
  · rw [if_neg hn]
    exact ⟨⟨'+', word, rfl, by decide⟩, List.not_mem_cons_of_ne_of_not_mem (by decide) h⟩

/-! ## Digits -/

namespace Text

theorem isDigit_digit (n : Nat) : (digit n).isDigit = true := by
  have hlt : n % 10 < 10 := Nat.mod_lt n (by decide)
  unfold digit
  generalize n % 10 = d at hlt
  revert d
  decide

theorem isDigit_fixed {width n : Nat} : ∀ c ∈ fixed width n, c.isDigit = true := by
  induction width generalizing n with
  | zero => intro c hc; nomatch hc
  | succ w ih =>
    intro c hc
    rcases List.mem_append.mp hc with hc | hc
    · exact ih c hc
    · rw [List.mem_singleton.mp hc]
      exact isDigit_digit n

theorem isDigit_decimal {n : Nat} : ∀ c ∈ decimal n, c.isDigit = true :=
  fun _ hc => Nat.isDigit_of_mem_toDigits (by decide) (by decide) hc

theorem isDigit_atLeast {width n : Nat} : ∀ c ∈ atLeast width n, c.isDigit = true := by
  unfold atLeast
  split
  · exact isDigit_fixed
  · exact isDigit_decimal

theorem foreign_decimal (n : Nat) : Foreign (decimal n) :=
  foreign_of_isDigit Nat.toDigits_ne_nil isDigit_decimal

theorem foreign_fixed_succ (width n : Nat) : Foreign (fixed (width + 1) n) := by
  refine foreign_of_isDigit ?_ isDigit_fixed
  intro h
  have hlength := length_fixed (width + 1) n
  rw [h] at hlength
  nomatch hlength

theorem foreign_year (y : Int) : Foreign (year y) := by
  unfold year
  split
  · exact foreign_fixed_succ 3 _
  · exact foreign_sign _ (dot_not_mem_of_isDigit isDigit_atLeast)

theorem dot_not_mem_fixed (width n : Nat) : '.' ∉ fixed width n := dot_not_mem_of_isDigit isDigit_fixed

theorem foreign_offset (seconds : Int) : Foreign (offset seconds) := by
  refine foreign_sign _ ?_
  rw [List.mem_append]
  rintro (hm | hm)
  · exact dot_not_mem_fixed _ _ hm
  · exact dot_not_mem_fixed _ _ hm

theorem foreign_offsetInFull (seconds : Int) : Foreign (offsetInFull seconds) := by
  have hcolon : ∀ {cs : List Char}, '.' ∉ cs → '.' ∉ ':' :: cs := fun hcs hm =>
    (List.mem_cons.mp hm).elim (by decide) hcs
  refine foreign_sign _ ?_
  rw [List.mem_append, List.mem_append]
  rintro ((hm | hm) | hm)
  · exact dot_not_mem_fixed _ _ hm
  · exact hcolon (dot_not_mem_fixed _ _) hm
  · -- seconds of their own
    split at hm
    · exact List.not_mem_nil hm
    · exact hcolon (dot_not_mem_fixed _ _) hm

end Text

/-! ## What fields write -/

namespace Field

theorem foreign_number (style : NumberStyle) (width n : Nat) :
    Foreign (number style (width + 1) n) := by
  cases style with
  | bare => exact Text.foreign_decimal n
  | padded => exact Text.foreign_fixed_succ width n

theorem foreign_yearText (style : YearStyle) (y : Int) : Foreign (yearText style y) := by
  cases style with
  | full => exact Text.foreign_year y
  | lastTwo => exact Text.foreign_fixed_succ 1 _

instance (word : List Char) : Decidable (Foreign word) :=
  decidable_of_iff ((word.head?.any fun c => c ∉ archiveLetters) = true ∧ '.' ∉ word) (by
    unfold Foreign
    cases word <;> simp)

theorem foreign_monthName (style : NameStyle) {i : Nat} (h : i < 12) :
    Foreign (nameText style (Calendar.monthNames.getD i "")) := by
  revert h i
  cases style <;> decide

theorem foreign_weekdayName (style : NameStyle) {i : Nat} (h : i < 7) :
    Foreign (nameText style (Calendar.weekdayNames.getD i "")) := by
  revert h i
  cases style <;> decide

/-- **What a field writes is foreign to every ending of an archive.** -/
theorem foreign_write (w : WallClock) (f : Field) : Foreign (f.write w) := by
  have hmonth := Calendar.month_range w.day
  have hweekday := Calendar.weekday_range w.day
  cases f with
  | era => exact (by decide : Foreign ['A', 'D'])
  | year style | weekYear style => exact foreign_yearText style _
  | month style | day style | hour style | hourOfHalf style | minute style | second style
  | week style => exact foreign_number style 1 _
  | dayOfYear style => exact foreign_number style 2 _
  | monthName style => exact foreign_monthName style (by omega)
  | weekdayName style => exact foreign_weekdayName style (by omega)
  | millisecond => exact Text.foreign_fixed_succ 2 _
  | weekday => exact Text.foreign_decimal _
  | offset => exact Text.foreign_offset _
  | halfDay =>
    rw [write]
    split
    · decide
    · decide
  | zoneName =>
    rw [write]
    split
    · decide
    · exact Text.foreign_offsetInFull _

end Field

/-! ## The last parts of a template -/

/-- `Ending e` - the beginning of an ending of an archive. -/
def Ending (e : List Char) : Prop :=
  e <+: Compression.gzip.suffix.toList ∨ e <+: Compression.zip.suffix.toList

theorem Ending.of_append {e rest : List Char} (h : Ending (e ++ rest)) : Ending e := by
  rcases h with h | h
  · exact Or.inl ((List.prefix_append e rest).trans h)
  · exact Or.inr ((List.prefix_append e rest).trans h)

theorem Ending.mem_archiveLetters {e : List Char} (h : Ending e) : ∀ c ∈ e, c ∈ archiveLetters := by
  intro c hc
  rcases h with h | h
  · exact (by decide : Compression.gzip.suffix.toList ⊆ archiveLetters) (h.subset hc)
  · exact (by decide : Compression.zip.suffix.toList ⊆ archiveLetters) (h.subset hc)

theorem Ending.dot_mem {e : List Char} (h : Ending e) (hne : e ≠ []) : '.' ∈ e := by
  obtain ⟨c, rest, rfl⟩ := List.exists_cons_of_ne_nil hne
  rcases h with ⟨t, ht⟩ | ⟨t, ht⟩
  · rw [(List.cons.inj ht).1]
    exact List.mem_cons_self
  · rw [(List.cons.inj ht).1]
    exact List.mem_cons_self

/-- A text that ends in a foreign word does not end like an archive. -/
theorem Ending.not_suffix_of_foreign {e word : List Char} (h : Ending e) (hne : e ≠ [])
    (hword : Foreign word) (before : List Char) : ¬ e <:+ before ++ word := by
  intro hs
  obtain ⟨⟨c, rest, rfl, hc⟩, hdot⟩ := hword
  rcases List.suffix_or_suffix_of_suffix hs (List.suffix_append before (c :: rest)) with hs | hs
  · exact hdot (hs.subset (h.dot_mem hne))
  · exact hc (h.mem_archiveLetters c (hs.subset List.mem_cons_self))

theorem snoc_suffix_snoc {α : Type} {l m : List α} {a b : α} :
    l ++ [a] <:+ m ++ [b] ↔ l <:+ m ∧ a = b := by
  constructor
  · intro h
    rcases List.suffix_concat_iff.mp h with h | ⟨t, ht, hs⟩
    · nomatch (List.append_eq_nil_iff.mp h).2
    · obtain ⟨rfl, hab⟩ := List.append_inj' ht rfl
      exact ⟨hs, (List.cons.inj hab).1⟩
  · rintro ⟨h, rfl⟩
    exact List.suffix_concat_iff.mpr (Or.inr ⟨l, rfl, h⟩)

namespace DateFormat

/-- **The crux.**  A rendered text ends like an archive exactly when the last parts of the format
are those letters themselves, whatever the clock shows. -/
theorem suffix_render_iff (w : WallClock) (format : List Part) : ∀ {e : List Char}, Ending e →
    (e <:+ render w format ↔ e.map Part.literal <:+ format) := by
  induction format using List.reverseRecOn with
  | nil =>
    intro e _
    show e <:+ [] ↔ _
    rw [List.suffix_nil, List.suffix_nil, List.map_eq_nil_iff]
  | append_singleton before p ih =>
    intro e he
    have hrender : render w (before ++ [p]) = render w before ++ p.write w := by
      simp [render]
    rw [hrender]
    rcases List.eq_nil_or_concat' e with rfl | ⟨l, c, rfl⟩
    · exact ⟨fun _ => List.nil_suffix, fun _ => List.nil_suffix⟩
    · -- the last letter of the ending is written by the last part
      have hne : l ++ [c] ≠ [] := List.append_ne_nil_of_right_ne_nil l (List.cons_ne_nil c [])
      rw [List.map_append, List.map_singleton]
      cases p with
      | field f =>
        constructor
        · intro h
          exact absurd h (he.not_suffix_of_foreign hne (f.foreign_write w) _)
        · intro h
          nomatch (snoc_suffix_snoc.mp h).2
      | literal d =>
        show l ++ [c] <:+ render w before ++ [d] ↔ _
        rw [snoc_suffix_snoc, snoc_suffix_snoc, ih he.of_append, Part.literal.injEq]

end DateFormat

namespace Template

/-- All parts of a template, the literal text around its placeholder included. -/
def elements (t : Template) : List DateFormat.Part :=
  t.lead.map .literal ++ t.parts ++ t.tail.map .literal

theorem renderChars_eq_render (t : Template) (localTime : LocalTime) (instant : Instant) :
    t.renderChars localTime instant =
      DateFormat.render (.ofInstant t.zone localTime instant) t.elements := by
  rw [elements, DateFormat.render_append, DateFormat.render_append, DateFormat.render_literals,
    DateFormat.render_literals]
  rfl

/-- Whether a name ends like an archive is a question to its template. -/
theorem endsIn_renderMillis_iff (t : Template) (localTime : LocalTime) (millis : Int) {suffix : String}
    (he : Ending suffix.toList) :
    Compression.endsIn suffix (t.renderMillis localTime millis) = true ↔
      suffix.toList.map .literal <:+ t.elements := by
  rw [Compression.endsIn, List.isSuffixOf_iff_suffix, renderMillis, render, String.toList_ofList,
    renderChars_eq_render]
  exact DateFormat.suffix_render_iff _ _ he

/-- **The kind of compression does not hang on the time.** -/
theorem detect_renderMillis (t : Template) (localTime : LocalTime) (s u : Int) :
    Compression.detect (t.renderMillis localTime s) =
      Compression.detect (t.renderMillis localTime u) := by
  have hgzip : Compression.endsIn Compression.gzip.suffix (t.renderMillis localTime s) =
      Compression.endsIn Compression.gzip.suffix (t.renderMillis localTime u) := by
    rw [Bool.eq_iff_iff, endsIn_renderMillis_iff t localTime s (Or.inl (List.prefix_refl _)),
      endsIn_renderMillis_iff t localTime u (Or.inl (List.prefix_refl _))]
  have hzip : Compression.endsIn Compression.zip.suffix (t.renderMillis localTime s) =
      Compression.endsIn Compression.zip.suffix (t.renderMillis localTime u) := by
    rw [Bool.eq_iff_iff, endsIn_renderMillis_iff t localTime s (Or.inr (List.prefix_refl _)),
      endsIn_renderMillis_iff t localTime u (Or.inr (List.prefix_refl _))]
  rw [Compression.detect, hgzip, hzip]
  rfl

end Template

/-! ## The names of a policy -/

theorem Compression.endsIn_of_detect {kind : Compression} {name : String}
    (h : detect name = kind) (hkind : kind ≠ none) : endsIn kind.suffix name = true := by
  unfold detect at h
  split at h
  · rename_i hgz
    rw [← h]
    exact hgz
  · split at h
    · rename_i hzip
      rw [← h]
      exact hzip
    · exact absurd h.symm hkind

theorem Compression.suffix_ne_empty {kind : Compression} (h : kind ≠ none) : kind.suffix ≠ "" := by
  cases kind with
  | none => exact absurd rfl h
  | gzip => decide
  | zip => decide

namespace Policy

/-- `Settled p` - a policy whose compression is that of each of its names. -/
def Settled (p : Policy) : Prop := ∀ now, p.compression = .detect (p.nameAt now)

theorem Activated.settled {config : Config} {start : Int} {p : Policy}
    (h : Activated config start p) : p.Settled := by
  intro now
  rw [h.compression, h.lastName]
  exact Template.detect_renderMillis _ _ _ _

/-- The ending that is taken off a name is the one that it had. -/
theorem strip_nameAt {p : Policy} (h : p.Settled) (hp : p.compression ≠ .none) (now : Int) :
    p.compression.strip (p.nameAt now) ++ p.compression.suffix = p.nameAt now :=
  Compression.strip_append_suffix _ _ (Compression.endsIn_of_detect (h now).symm hp)

/-- All that a look may want done: a move, which compresses nothing, and the archiving of the last
name. -/
theorem mem_actions_rollover {p : Policy} {now : Int} {written : Bool} {format : ArchiveFormat}
    {source target : Path} {delete : Bool}
    (h : .compress format source target delete ∈
      (p.rollover now written).1.before ++ (p.rollover now written).1.background) :
    .compress format source target delete ∈ p.archiving := by
  unfold rollover at h
  split at h
  · rcases List.mem_append.mp h with h | h
    · -- done at once: a move, if anything
      dsimp only at h
      split at h
      · nomatch List.mem_singleton.mp h
      · nomatch h
    · -- left to the background
      dsimp only at h
      split at h
      · exact h
      · nomatch h
  · nomatch h

theorem mem_archiving {p : Policy} {format : ArchiveFormat} {source target : Path} {delete : Bool}
    (h : .compress format source target delete ∈ p.archiving) :
    p.compression ≠ .none ∧ source = p.baseOf p.lastName ∧ target = ⟨p.lastName⟩ := by
  unfold archiving at h
  split at h
  · nomatch h
  · rename_i kind hkind
    obtain ⟨-, hs, ht, -⟩ := Action.compress.inj (List.mem_singleton.mp h)
    refine ⟨fun hnone => ?_, hs, ht⟩
    rw [hnone] at hkind
    nomatch hkind

/-- `Grows kind source target` - the target is the source with the ending of the kind. -/
def Grows (kind : Compression) (source target : Path) : Prop :=
  target.text = source.text ++ kind.suffix ∧ target ≠ source

/-- What is archived after a look is the file of a name of the template, into that name. -/
theorem grows_of_mem_archiving {p : Policy} (hp : p.Settled) {last : Int}
    (hlast : p.lastName = p.nameAt last) {format : ArchiveFormat} {source target : Path}
    {delete : Bool} (h : .compress format source target delete ∈ p.archiving) :
    Grows p.compression source target := by
  obtain ⟨hkind, rfl, rfl⟩ := mem_archiving h
  have htext : p.compression.strip p.lastName ++ p.compression.suffix = p.lastName := by
    rw [hlast]
    exact strip_nameAt hp hkind last
  refine ⟨htext.symm, ?_⟩
  intro he
  -- a name that is its own base has an empty ending
  have hsame : p.lastName = p.compression.strip p.lastName := congrArg Path.text he
  rw [← hsame] at htext
  have hempty : p.compression.suffix.toList = [] := by
    have := congrArg String.toList htext
    rw [String.toList_append] at this
    exact List.append_right_eq_self.mp this
  exact Compression.suffix_ne_empty hkind (String.toList_eq_nil_iff.mp hempty)

/-- Every compression of a run is of a name of the template. -/
theorem grows_of_watchAll {visits : List (Int × FileSystem)} : ∀ {p : Policy}, p.Settled →
    (∃ last, p.lastName = p.nameAt last) → ∀ step ∈ p.watchAll visits,
    ∀ r, step.rollover = some r → ∀ format source target delete,
      .compress format source target delete ∈ r.before ++ r.background →
      Grows p.compression source target := by
  induction visits with
  | nil => intro p _ _ step hstep; nomatch hstep
  | cons v rest ih =>
    intro p hp ⟨last, hlast⟩ step hstep r hr format source target delete hmem
    obtain ⟨now, files⟩ := v
    rcases List.mem_cons.mp hstep with rfl | hstep
    · cases hr
      rw [lookOn_eq] at hmem
      exact grows_of_mem_archiving hp hlast (mem_actions_rollover hmem)
    · rw [lookOn_snd] at hstep
      exact ih (p := p.looked now) hp ⟨now, rfl⟩ step hstep r hr format source target delete hmem

/-- **Detecting the compression once is enough.**  Every name of a template asks for the same kind;
so a policy takes off each name the ending that it has, and whatever it wants compressed grows by
that ending and is another file. -/
theorem compression_is_settled :
    (∀ (text : String) (t : Template) (zone : Zone) (localTime : LocalTime) (s u : Int),
      Template.parse text = .ok t →
      Compression.detect ((t.withZone zone).renderMillis localTime s) =
        Compression.detect ((t.withZone zone).renderMillis localTime u)) ∧
    ∀ (localTime : LocalTime) (start : Int) (config : Config) (p : Policy),
      activate localTime config start = .ok p → p.compression ≠ .none →
      (∀ now, p.compression.strip (p.nameAt now) ++ p.compression.suffix = p.nameAt now) ∧
      ∀ visits : List (Int × FileSystem), ∀ step ∈ p.watchAll visits, ∀ r, step.rollover = some r →
        ∀ format source target delete,
          .compress format source target delete ∈ r.before ++ r.background →
          target.text = source.text ++ p.compression.suffix ∧ target ≠ source := by
  refine ⟨?_, ?_⟩
  · intro text t zone localTime s u _
    exact Template.detect_renderMillis _ _ _ _
  · intro localTime start config p hp hkind
    have hact := activate_ok hp
    refine ⟨strip_nameAt hact.settled hkind, ?_⟩
    intro visits
    exact grows_of_watchAll hact.settled ⟨start, hact.lastName⟩

/-- Months whose short names end in letters of an archive's ending make no archive, and the zip
archives of September and October lose and regain their own ending. -/
theorem compression_is_settled_by_month :
    (∀ t, Template.parse "a.%d{MMM}" = .ok t →
      Compression.detect ((t.withZone .utc).renderMillis (.fixed 0) 20995200000) =
        Compression.detect ((t.withZone .utc).renderMillis (.fixed 0) 23587200000)) ∧
    ∃ p, activate (.fixed 0) ⟨some "a.%d{MMM}.zip", none, .utc⟩ 20995200000 = .ok p ∧
      p.compression ≠ .none ∧
      p.compression.strip (p.nameAt 23587200000) ++ p.compression.suffix =
        p.nameAt 23587200000 := by
  refine ⟨fun t ht => compression_is_settled.1 _ t _ _ _ _ ht, ?_⟩
  have hp : activate (.fixed 0) ⟨some "a.%d{MMM}.zip", none, .utc⟩ 20995200000 = .ok
      ⟨⟨"a.%d{MMM}.zip", "a.".toList, "MMM".toList, [.field (.monthName .short)], ".zip".toList,
        .utc, false⟩, .fixed 0, none, .zip, "a.Sep.zip", 0⟩ := by rfl
  exact ⟨_, hp, by decide, (compression_is_settled.2 _ _ _ _ hp (by decide)).1 _⟩

end Policy

end LogRotation
