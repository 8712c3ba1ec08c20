/-
  One command line under another command.

  What may follow `check` may follow the other commands as well and is read in the same way there, so a
  command line that checks a configuration becomes one that uses it, or renders it, by its one word.

    * FLAGS    an option is known by its name or its letter, and may be allowed or not;
    * BEHIND   options that were read before others and get in the way of none;
    * WORDS    the place of the command's word in a command line.

  Main statement: `read_check`.
-/
import LogRotation.CommandLine.Commands

namespace LogRotation.CommandLine

/-! ## Flags -/

namespace Flag

theorem mem_all (f : Flag) : f ∈ all := by cases f <;> decide

theorem name_inj {f g : Flag} (h : f.name.toList = g.name.toList) : f = g := by
  revert h
  cases f <;> cases g <;> decide

theorem letter_inj {f g : Flag} {c : Char} (hf : f.letter? = some c) (hg : g.letter? = some c) :
    f = g := by
  have h : f.letter? = g.letter? ∧ f.letter?.isSome = true := ⟨hf.trans hg.symm, by rw [hf]; rfl⟩
  clear hf hg
  revert h
  cases f <;> cases g <;> decide

/-- A flag is found by what holds of it alone. -/
theorem find?_all_iff {p : Flag → Bool} (hone : ∀ f g, p f = true → p g = true → f = g) {f : Flag} :
    all.find? p = some f ↔ p f = true := by
  constructor
  · exact List.find?_some
  · intro hf
    cases hg : all.find? p with
    | none => exact absurd hf (List.find?_eq_none.mp hg f f.mem_all)
    | some g => rw [hone g f (List.find?_some hg) hf]

theorem ofName?_iff {place : Option Verb} {name : List Char} {f : Flag} :
    ofName? place name = some f ↔ f.name.toList = name ∧ allowed place f = true := by
  refine (find?_all_iff fun f g hf hg => ?_).trans (by rw [Bool.and_eq_true, beq_iff_eq])
  rw [Bool.and_eq_true, beq_iff_eq] at hf hg
  exact name_inj (hf.1.trans hg.1.symm)

theorem ofLetter?_iff {place : Option Verb} {c : Char} {f : Flag} :
    ofLetter? place c = some f ↔ f.letter? = some c ∧ allowed place f = true := by
  refine (find?_all_iff fun f g hf hg => ?_).trans (by rw [Bool.and_eq_true, beq_iff_eq])
  rw [Bool.and_eq_true, beq_iff_eq] at hf hg
  exact letter_inj hf.1 hg.1

/-- What may follow `check` may follow every command. -/
theorem allowed_of_check (verb : Verb) {f : Flag} (h : allowed (some .check) f = true) :
    allowed (some verb) f = true := by
  revert h
  cases verb <;> cases f <;> decide

end Flag

/-- An argument that does not begin with a hyphen is no option. -/
theorem Form.of_plain {argument : String} (h : ∀ c ∈ argument.toList.head?, c ≠ '-') :
    Form.of argument = .plain := by
  unfold Form.of
  split
  · rename_i he
    exact absurd rfl (h '-' (by rw [he]; rfl))
  · rename_i he
    exact absurd rfl (h '-' (by rw [he]; rfl))
  · rename_i he
    exact absurd rfl (h '-' (by rw [he]; rfl))
  · rfl

/-! ## Options behind others -/

namespace Given

/-- Options with others that were given before them. -/
def behind (g : Given) (first : List (Flag × String)) : Given := ⟨g.options ++ first⟩

theorem behind_nil (g : Given) : g.behind [] = g := congrArg mk (List.append_nil _)

/-- Holds of options that may follow `check`. -/
def Checks (g : Given) : Prop := ∀ o ∈ g.options, Flag.allowed (some .check) o.1 = true

variable {g g' : Given} {f : Flag} {value : String} {first : List (Flag × String)}

theorem add_ok_iff : g.add f value = .ok g' ↔ f ≠ .help ∧ f ≠ .version ∧
    (f = .verbose ∨ (g.has f || (f.takesPath && value.isEmpty)) = false) ∧
    g' = ⟨(f, value) :: g.options⟩ := by
  have hswap : g' = ⟨(f, value) :: g.options⟩ ↔ (⟨(f, value) :: g.options⟩ : Given) = g' := eq_comm
  have hguard : ∀ refused : Bool, (if refused = true then Except.error Stop.misuse
      else .ok (⟨(f, value) :: g.options⟩ : Given)) = .ok g' ↔
      refused = false ∧ (⟨(f, value) :: g.options⟩ : Given) = g' := by
    intro refused
    cases refused <;> simp
  rw [hswap]
  cases f with
  | help | version | verbose => simp [add]
  | pattern | active | utc | config | raw | instant | json => exact (hguard _).trans (by simp)

/-- Options that may not follow `check` hide none that may. -/
theorem has_behind (hfirst : ∀ o ∈ first, Flag.allowed (some .check) o.1 = false)
    (hf : Flag.allowed (some .check) f = true) : (g.behind first).has f = g.has f := by
  have hnone : first.any (·.1 == f) = false := by
    rw [List.any_eq_false]
    intro o ho heq
    have hnot := hfirst o ho
    rw [beq_iff_eq.mp heq, hf] at hnot
    cases hnot
  show (g.options ++ first).any _ = _
  rw [List.any_append, hnone, Bool.or_false]
  rfl

theorem add_behind (hfirst : ∀ o ∈ first, Flag.allowed (some .check) o.1 = false)
    (hf : Flag.allowed (some .check) f = true) (h : g.add f value = .ok g') :
    (g.behind first).add f value = .ok (g'.behind first) ∧ (g.Checks → g'.Checks) := by
  obtain ⟨hhelp, hversion, hnew, rfl⟩ := add_ok_iff.mp h
  constructor
  · rw [add_ok_iff, has_behind hfirst hf]
    exact ⟨hhelp, hversion, hnew, rfl⟩
  · rintro hg o ho
    rcases List.mem_cons.mp ho with rfl | ho
    · exact hf
    · exact hg o ho

end Given

section Behind

variable {first : List (Flag × String)} {g g' : Given} {waiting : Option Flag}

/-- What was read behind some options is what is read without them. -/
structure Behind (first : List (Flag × String)) (g g' : Given) (waiting : Option Flag)
    (read : Except Stop (Given × Option Flag)) : Prop where
  read : read = .ok (g'.behind first, waiting)
  checks : g.Checks → g'.Checks
  waiting : ∀ f ∈ waiting, Flag.allowed (some .check) f = true

/-- An option with its value. -/
theorem behind_add (hfirst : ∀ o ∈ first, Flag.allowed (some .check) o.1 = false) {f : Flag}
    (hf : Flag.allowed (some .check) f = true) {value : String}
    (h : (g.add f value).map (·, none) = .ok (g', waiting)) :
    Behind first g g' waiting (((g.behind first).add f value).map (·, none)) := by
  cases hadd : g.add f value with
  | error stop => rw [hadd] at h; cases h
  | ok g₁ =>
    rw [hadd] at h
    cases h
    obtain ⟨hbehind, hchecks⟩ := Given.add_behind hfirst hf hadd
    refine ⟨?_, hchecks, nofun⟩
    rw [hbehind]
    rfl

/-- An option that still waits for its value. -/
theorem behind_waiting {f : Flag} (hf : Flag.allowed (some .check) f = true)
    (h : (.ok (g, some f) : Except Stop (Given × Option Flag)) = .ok (g', waiting)) :
    Behind first g g' waiting (.ok (g.behind first, some f)) := by
  cases h
  refine ⟨rfl, id, ?_⟩
  rintro f' ⟨⟩
  exact hf

theorem readLetters_behind (verb : Verb) (hfirst : ∀ o ∈ first, Flag.allowed (some .check) o.1 = false)
    {letters : List Char} (h : readLetters (some .check) g letters = .ok (g', waiting)) :
    Behind first g g' waiting (readLetters (some verb) (g.behind first) letters) := by
  induction letters generalizing g with
  | nil =>
    cases h
    exact ⟨rfl, id, nofun⟩
  | cons c rest ih =>
    unfold readLetters at h ⊢
    cases hf : Flag.ofLetter? (some .check) c with
    | none => rw [hf] at h; cases h
    | some f =>
      obtain ⟨hletter, hallowed⟩ := Flag.ofLetter?_iff.mp hf
      rw [Flag.ofLetter?_iff.mpr ⟨hletter, Flag.allowed_of_check verb hallowed⟩]
      rw [hf] at h
      dsimp only at h ⊢
      by_cases hvalue : f.takesValue = true
      · -- the rest of the argument is the value
        rw [if_pos hvalue] at h ⊢
        split at h
        · exact behind_waiting hallowed h
        · exact behind_add hfirst hallowed h
        · exact behind_add hfirst hallowed h
      · rw [if_neg hvalue] at h ⊢
        cases hadd : g.add f "" with
        | error stop => rw [hadd] at h; cases h
        | ok g₁ =>
          rw [hadd] at h
          obtain ⟨hbehind, hchecks⟩ := Given.add_behind hfirst hallowed hadd
          obtain ⟨hread, hchecks', hwaiting⟩ := ih h
          rw [hbehind]
          exact ⟨hread, fun hg => hchecks' (hchecks hg), hwaiting⟩

theorem readOption_behind (verb : Verb) (hfirst : ∀ o ∈ first, Flag.allowed (some .check) o.1 = false)
    {form : Form} (h : readOption (some .check) g form = .ok (g', waiting)) :
    Behind first g g' waiting (readOption (some verb) (g.behind first) form) := by
  cases form with
  | separator | plain => cases h
  | short letters => exact readLetters_behind verb hfirst h
  | long name value =>
    unfold readOption at h ⊢
    dsimp only at h ⊢
    cases hf : Flag.ofName? (some .check) name with
    | none => rw [hf] at h; cases h
    | some f =>
      obtain ⟨hname, hallowed⟩ := Flag.ofName?_iff.mp hf
      rw [Flag.ofName?_iff.mpr ⟨hname, Flag.allowed_of_check verb hallowed⟩]
      rw [hf] at h
      dsimp only at h ⊢
      cases htakes : f.takesValue <;> cases value <;> rw [htakes] at h
      · exact behind_add hfirst hallowed h
      · cases h
      · exact behind_waiting hallowed h
      · exact behind_add hfirst hallowed h

/-- **The options after a command.**  What is read after `check` is read in the same way after another
command, also behind options that `check` does not have. -/
theorem readAfter_behind (verb : Verb) (hfirst : ∀ o ∈ first, Flag.allowed (some .check) o.1 = false)
    {arguments : List String} (hwaiting : ∀ f ∈ waiting, Flag.allowed (some .check) f = true)
    (h : readAfter .check g waiting arguments = .ok g') :
    readAfter verb (g.behind first) waiting arguments = .ok (g'.behind first) ∧
      (g.Checks → g'.Checks) := by
  induction arguments generalizing g waiting with
  | nil =>
    unfold readAfter at h ⊢
    by_cases hsome : waiting.isSome = true
    · rw [if_pos hsome] at h
      cases h
    · rw [if_neg hsome] at h ⊢
      cases h
      exact ⟨rfl, id⟩
  | cons argument rest ih =>
    have hnone : ∀ f ∈ (none : Option Flag), Flag.allowed (some .check) f = true := nofun
    have hoption : ∀ form,
        (readOption (some .check) g form >>= fun r => readAfter .check r.1 r.2 rest) = .ok g' →
        (readOption (some verb) (g.behind first) form >>= fun r => readAfter verb r.1 r.2 rest) =
          .ok (g'.behind first) ∧ (g.Checks → g'.Checks) := by
      intro form h
      cases hoption : readOption (some .check) g form with
      | error stop => rw [hoption] at h; cases h
      | ok read =>
        rw [hoption] at h
        obtain ⟨hbehind, hchecks, hwaiting⟩ := readOption_behind verb hfirst hoption
        obtain ⟨hread, hchecks'⟩ := ih hwaiting h
        rw [hbehind]
        exact ⟨hread, fun hg => hchecks' (hchecks hg)⟩
    unfold readAfter at h ⊢
    cases waiting with
    | some f =>
      -- the argument is the value of an option
      have hallowed := hwaiting f rfl
      cases hform : Form.of argument with
      | plain =>
        rw [hform] at h
        dsimp only at h ⊢
        cases hadd : g.add f argument with
        | error stop => rw [hadd] at h; cases h
        | ok g₁ =>
          rw [hadd] at h
          obtain ⟨hbehind, hchecks⟩ := Given.add_behind hfirst hallowed hadd
          have h : readAfter .check g₁ none rest = .ok g' := h
          obtain ⟨hread, hchecks'⟩ := ih hnone h
          rw [hbehind]
          exact ⟨hread, fun hg => hchecks' (hchecks hg)⟩
      | separator | long | short => rw [hform] at h; cases h
    | none =>
      cases hform : Form.of argument with
      | separator =>
        rw [hform] at h
        dsimp only at h ⊢
        by_cases hempty : rest.isEmpty = true
        · rw [if_pos hempty] at h ⊢
          cases h
          exact ⟨rfl, id⟩
        · rw [if_neg hempty] at h
          cases h
      | plain => rw [hform] at h; cases h
      | long | short =>
        rw [hform] at h
        exact hoption _ h

end Behind

/-! ## The word of a command -/

theorem eq_check_of_ofName? {word : String} (h : Verb.ofName? word = some .check) : word = "check" := by
  unfold Verb.ofName? at h
  split at h
  · cases h
  · split at h
    · assumption
    · split at h <;> cases h

/-- **The place of a command's word.**  Another word in its place begins another command, with the same
options before it. -/
theorem readBefore_check {g before after : Given} {arguments : List String}
    (h : readBefore g arguments = .ok ⟨.check, before, after⟩) :
    ∃ front back, arguments = front ++ "check" :: back ∧
      readAfter .check .nothing none back = .ok after ∧
      ∀ word verb rest, word ≠ "help" → Verb.ofName? word = some verb →
        readBefore g (front ++ word :: rest) =
          (readAfter verb .nothing none rest).map fun after => ⟨verb, before, after⟩ := by
  induction arguments generalizing g with
  | nil => cases h
  | cons argument rest ih =>
    unfold readBefore at h
    by_cases hhelp : argument = "help"
    · rw [if_pos hhelp] at h
      cases h
    · rw [if_neg hhelp] at h
      cases hverb : Verb.ofName? argument with
      | some verb =>
        -- the word is here
        rw [hverb] at h
        cases hafter : readAfter verb .nothing none rest with
        | error stop => dsimp only at h; rw [hafter] at h; cases h
        | ok a =>
          dsimp only at h
          rw [hafter] at h
          cases h
          refine ⟨[], rest, ?_, hafter, ?_⟩
          · rw [eq_check_of_ofName? hverb]
            rfl
          · intro word verb rest hword hname
            rw [List.nil_append, readBefore, if_neg hword, hname]
      | none =>
        rw [hverb] at h
        cases hoption : readOption none g (Form.of argument) with
        | error stop => dsimp only at h; rw [hoption] at h; cases h
        | ok read =>
          dsimp only at h
          rw [hoption] at h
          obtain ⟨front, back, rfl, hback, hother⟩ := ih h
          refine ⟨argument :: front, back, rfl, hback, ?_⟩
          intro word verb rest hword hname
          rw [List.cons_append, readBefore, if_neg hhelp, hverb, hoption]
          exact hother word verb rest hword hname

namespace Command

variable {s : Surroundings} {arguments : List String} {k : Command}

theorem instant_not_checked (text : String) :
    ∀ o ∈ [(Flag.instant, text)], Flag.allowed (some .check) o.1 = false := by
  intro o ho
  rw [List.mem_singleton.mp ho]
  rfl

/-- The instant that a rendering is asked for is read in front of all else. -/
theorem readAfter_instant {text : String} (htext : Form.of text = .plain) (back : List String) :
    readAfter .render .nothing none ("--at" :: text :: back) =
      readAfter .render (Given.nothing.behind [(.instant, text)]) none back := by
  have hoption : readAfter .render .nothing none ("--at" :: text :: back) =
      readAfter .render .nothing (some .instant) (text :: back) := by rfl
  have hvalue : ∀ read, readAfter .render (Given.nothing.behind [(.instant, text)]) none back = read →
      readAfter .render .nothing (some .instant) (text :: back) = read := by
    intro read hread
    unfold readAfter
    rw [htext]
    exact hread
  exact hoption.trans (hvalue _ rfl)

theorem value?_behind_instant (g : Given) (text : String) {f : Flag} (hf : f ≠ .instant) :
    (g.behind [(.instant, text)]).value? f = g.value? f := by
  have hlast : [(Flag.instant, text)].lookup f = none := by
    rw [List.lookup_eq_none_iff]
    intro o ho
    rw [List.mem_singleton.mp ho, bne_iff_ne]
    exact hf
  show (g.options ++ [(Flag.instant, text)]).lookup f = _
  rw [List.lookup_append, hlast, Option.or_none]
  rfl

theorem has_behind_instant (g : Given) (text : String) {f : Flag} (hf : f ≠ .instant) :
    (g.behind [(.instant, text)]).has f = g.has f := by
  have hlast : [(Flag.instant, text)].any (·.1 == f) = false := by
    rw [List.any_eq_false]
    intro o ho heq
    rw [List.mem_singleton.mp ho] at heq
    exact hf (beq_iff_eq.mp heq).symm
  show (g.options ++ [(Flag.instant, text)]).any _ = _
  rw [List.any_append, hlast, Bool.or_false]
  rfl

/-- The options of a policy do not tell of instants. -/
theorem ofGiven_behind (s : Surroundings) (g : Given) (text : String) :
    PolicyOptions.ofGiven s (g.behind [(.instant, text)]) = PolicyOptions.ofGiven s g := by
  unfold PolicyOptions.ofGiven
  rw [value?_behind_instant g text (by decide), value?_behind_instant g text (by decide),
    value?_behind_instant g text (by decide), has_behind_instant g text (by decide)]

theorem read_ok {a : Arguments} (h : Arguments.read arguments = .ok a) :
    read s arguments = .ok ⟨a.verb, .ofGiven s a.after, a.before.has .json || a.after.has .json,
      a.after.has .raw, a.after.value? .instant⟩ := by
  rw [read, h]
  rfl

/-- **A command line that checks**, with another word, runs; and it renders, with an instant. -/
theorem read_check (h : read s arguments = .ok k) (hverb : k.verb = .check) :
    ∃ front back, arguments = front ++ "check" :: back ∧
      read s (front ++ "run" :: back) = .ok { k with verb := .run } ∧
      ∀ text, Form.of text = .plain → read s (front ++ "render" :: "--at" :: text :: back) =
        .ok { k with verb := .render, instant := some text } := by
  cases hread : Arguments.read arguments with
  | error stop => rw [read, hread] at h; cases h
  | ok a =>
    obtain ⟨verb, before, after⟩ := a
    rw [read_ok hread] at h
    cases h
    have hverb : verb = .check := hverb
    subst hverb
    obtain ⟨front, back, rfl, hback, hother⟩ := readBefore_check hread
    have hwaiting : ∀ f ∈ (none : Option Flag), Flag.allowed (some .check) f = true := nofun
    refine ⟨front, back, rfl, ?_, fun text htext => ?_⟩
    · have hnone : ∀ o ∈ ([] : List (Flag × String)), Flag.allowed (some .check) o.1 = false := nofun
      have hrun := (readAfter_behind .run hnone hwaiting hback).1
      rw [Given.behind_nil, Given.behind_nil] at hrun
      have harguments : Arguments.read (front ++ "run" :: back) = .ok ⟨.run, before, after⟩ := by
        refine (hother "run" .run back (by decide) rfl).trans ?_
        rw [hrun]
        rfl
      exact read_ok harguments
    · obtain ⟨hrender, hchecks⟩ := readAfter_behind .render (instant_not_checked text) hwaiting hback
      have harguments : Arguments.read (front ++ "render" :: "--at" :: text :: back) =
          .ok ⟨.render, before, after.behind [(.instant, text)]⟩ := by
        refine (hother "render" .render _ (by decide) rfl).trans ?_
        rw [readAfter_instant htext, hrender]
        rfl
      -- there is no instant among the options of `check`
      have hnone : after.options.lookup .instant = none := by
        rw [List.lookup_eq_none_iff]
        intro o ho
        rw [bne_iff_ne]
        intro heq
        have hallowed := hchecks nofun o ho
        rw [← heq] at hallowed
        cases hallowed
      have hinstant : (after.behind [(.instant, text)]).value? .instant = some text := by
        show (after.options ++ [(Flag.instant, text)]).lookup .instant = _
        rw [List.lookup_append, hnone]
        rfl
      refine (read_ok harguments).trans ?_
      dsimp only
      rw [ofGiven_behind, has_behind_instant after text (by decide),
        has_behind_instant after text (by decide), hinstant]

end Command

end LogRotation.CommandLine
