/-
  What is handed to the background, when opening the next file may fail.

  What is to become of the file of a period is known to the call that found the period over, and to no
  other.  If that call opens the next file, it hands this over; if it does not, nobody ever does.

    * CALLS   a call hands over the archive of the period that it found over, or nothing;
    * RUNS    where no name comes back, no later call has anything to do with that archive.

  Main statement: `submitted_by_own_call`.
-/
import LogRotation.Proofs.Reopening

namespace LogRotation.Writer

variable {c : Conditions} {w : Writer} {world : World} {entries : List Entry}

/-! ## Calls -/

/-- What the calls of a run submitted, one after the other. -/
def submissions (ks : List Call) : List Action := ks.flatMap fun k => k.tale.submitted

/-- A call hands over what becomes of a period that is over if it found the old file and opened the next
one, and else nothing. -/
theorem submitted_call (c : Conditions) (e : Entry) (world : World)
    (hfixed : w.policy.fixedFile = none) : (World.tale c (e.write w) world w.outset).submitted =
      if Work.Handed w.policy e.now.millis (World.tale c (e.write w) world w.outset)
      then (w.policy.slotOf w.policy.lastName).archiving else [] := by
  rw [← Policy.archiving_eq]
  exact (rolled_call c e w world).1.handed hfixed rfl rfl

/-- The archive of a slot is made for one name. -/
theorem name_of_archiving {p : Policy} {name name' : String} {a : Action}
    (h : a ∈ (p.slotOf name).archiving) (h' : a ∈ (p.slotOf name').archiving) : name = name' := by
  cases hformat : p.compression.archive? with
  | none =>
    simp only [Slot.archiving, Policy.slotOf, hformat] at h
    cases h
  | some format =>
    simp only [Slot.archiving, Policy.slotOf, hformat, Option.map_some, List.mem_singleton] at h h'
    rw [h] at h'
    injection h' with _ _ htarget
    exact congrArg Path.text htarget

/-! ## Runs -/

/-- The periods that are over in a run are among its periods, and what is submitted is for them. -/
theorem periods_of_calls (c : Conditions) (entries : List Entry) (world : World)
    (hfixed : w.policy.fixedFile = none) :
    (∀ k ∈ calls c entries w world, Work.Crosses k.before.policy k.entry.now.millis →
      k.before.policy.lastName ∈ w.policy.periods (instants entries)) ∧
    (∀ k ∈ calls c entries w world, k.before.policy.slotOf = w.policy.slotOf) ∧
    ∀ a ∈ submissions (calls c entries w world),
      ∃ name ∈ w.policy.periods (instants entries), a ∈ (w.policy.slotOf name).archiving := by
  induction entries generalizing w world with
  | nil =>
    refine ⟨fun k hk => ?_, fun k hk => ?_, fun a ha => ?_⟩
    · cases hk
    · cases hk
    · cases ha
  | cons e rest ih =>
    obtain ⟨hrolled, -⟩ := rolled_call c e w world
    have hsubmitted := submitted_call c e world hfixed
    have hpolicy := hrolled.policy
    obtain ⟨hover, hslots, hsub⟩ := ih (World.run c (e.write w) world).2
      (by rw [hpolicy, Policy.fixedFile_after, hfixed])
    rw [hpolicy] at hover hslots hsub
    rw [Policy.slotOf_after] at hslots hsub
    have hmem : ∀ name ∈ (w.policy.after e.now.millis).periods (instants rest),
        name ∈ w.policy.periods (instants (e :: rest)) := fun _ => Policy.mem_periods_of_after
    have hlast := w.policy.lastName_mem_periods (instants (e :: rest))
    refine ⟨?_, ?_, ?_⟩
    · intro k hk hcrosses
      rcases List.mem_cons.mp hk with rfl | hk
      · exact hlast
      · exact hmem _ (hover k hk hcrosses)
    · intro k hk
      rcases List.mem_cons.mp hk with rfl | hk
      · rfl
      · exact hslots k hk
    · intro a ha
      rcases List.mem_append.mp ha with ha | ha
      · dsimp only at ha
        rw [hsubmitted] at ha
        split at ha
        · exact ⟨_, hlast, ha⟩
        · cases ha
      · obtain ⟨name, hname, harchiving⟩ := hsub a ha
        exact ⟨name, hmem name hname, harchiving⟩

theorem nodup_archiving (s : Slot) : s.archiving.Nodup := by
  unfold Slot.archiving
  split
  · exact List.nodup_nil
  · exact List.nodup_singleton _

/-- **Call after call.**  What becomes of a period that is over is submitted by the call that found it
over, or never. -/
theorem count_submissions (world : World) (hfixed : w.policy.fixedFile = none)
    (hfresh : (w.policy.periods (instants entries)).Nodup) :
    ∀ k ∈ calls c entries w world, Work.Crosses k.before.policy k.entry.now.millis →
      ∀ a ∈ (w.policy.slotOf k.before.policy.lastName).archiving,
        (submissions (calls c entries w world)).count a =
          if Work.Handed k.before.policy k.entry.now.millis k.tale then 1 else 0 := by
  induction entries generalizing w world with
  | nil =>
    intro k hk
    cases hk
  | cons e rest ih =>
    obtain ⟨hrolled, -⟩ := rolled_call c e w world
    have hsubmitted := submitted_call c e world hfixed
    have hpolicy := hrolled.policy
    have hfixed' : (World.run c (e.write w) world).1.2.policy.fixedFile = none := by
      rw [hpolicy, Policy.fixedFile_after, hfixed]
    obtain ⟨hover, hslots, hsub⟩ := periods_of_calls c rest
      (World.run c (e.write w) world).2 hfixed'
    have ih := ih (World.run c (e.write w) world).2 hfixed'
    rw [hpolicy] at hover hslots hsub ih
    rw [Policy.slotOf_after] at hslots hsub ih
    -- the period that this call finds over is none of the later ones
    have hfresh' : ((w.policy.after e.now.millis).periods (instants rest)).Nodup ∧
        (Work.Crosses w.policy e.now.millis →
          w.policy.lastName ∉ (w.policy.after e.now.millis).periods (instants rest)) := by
      change (w.policy.periods (e.now.millis :: instants rest)).Nodup at hfresh
      rw [Policy.periods] at hfresh
      split at hfresh
      · obtain ⟨hnot, hnodup⟩ := List.nodup_cons.mp hfresh
        exact ⟨hnodup, fun _ => hnot⟩
      · rename_i hnot
        refine ⟨hfresh, ?_⟩
        rintro ⟨hdue, hisOver⟩
        rw [hdue, hisOver] at hnot
        exact absurd rfl hnot
    intro k hk hcrosses a ha
    rw [calls, submissions, List.flatMap_cons, List.count_append]
    dsimp only
    rw [hsubmitted]
    rcases List.mem_cons.mp hk with rfl | hk
    · -- its own call: the later ones submit for other periods
      have hlater : (submissions (calls c rest (World.run c (e.write w) world).1.2
          (World.run c (e.write w) world).2)).count a = 0 := by
        rw [List.count_eq_zero]
        intro hmem
        obtain ⟨name, hname, harchiving⟩ := hsub a hmem
        rw [name_of_archiving harchiving ha] at hname
        exact hfresh'.2 hcrosses hname
      rw [submissions] at hlater
      rw [hlater, Nat.add_zero]
      split
      · exact List.count_eq_one_of_mem (nodup_archiving _) ha
      · rfl
    · -- a later call: this one submits for another period
      have hhere : (if Work.Handed w.policy e.now.millis (World.tale c (e.write w) world w.outset)
          then (w.policy.slotOf w.policy.lastName).archiving else []).count a = 0 := by
        rw [List.count_eq_zero]
        split
        · rename_i hhanded
          intro hmem
          have hname := hover k hk hcrosses
          rw [← name_of_archiving hmem ha] at hname
          exact hfresh'.2 hhanded.1 hname
        · exact List.not_mem_nil
      rw [hhere, Nat.zero_add]
      exact ih hfresh'.1 k hk hcrosses a ha

/-- **What becomes of a period is known to one call alone.**  Let no name recur.  Whatever fails: when a
call finds a period over, the archive of that period is submitted once in the whole run if this call found
the old file and opened the next one, and never otherwise. -/
theorem submitted_by_own_call {localTime : LocalTime} {start : Int} {config : Config} {p : Policy}
    (hp : Policy.activate localTime config start = .ok p) (derived : config.activeFile = none)
    (fresh : (p.periods (instants entries)).Nodup) {tail : Option LiveTail} {fs : FileSystem}
    {ks : List Call} (h : history c p tail entries fs = .ok ks) :
    ∀ k ∈ ks, Work.Crosses k.before.policy k.entry.now.millis →
      ∀ a ∈ (p.slotOf k.before.policy.lastName).archiving,
        (submissions ks).count a =
          if Work.Handed k.before.policy k.entry.now.millis k.tale then 1 else 0 := by
  obtain ⟨w, world, rfl, -, rfl⟩ := history_ok h
  have hfixed : w.policy.fixedFile = none := by
    rw [(Policy.activate_ok hp).fixedFile, derived]
  exact count_submissions world hfixed fresh

/-- A log of archives by the hour, where the second file cannot be opened at first, and the third can: of
two periods that are over, one is submitted. -/
theorem submitted_by_own_call_by_hour : ∃ p ks,
    Policy.activate (.fixed 0) ⟨some "app-%d{HH}.log.gz", none, .utc⟩ 0 = .ok p ∧
    history (refusing ⟨"app-01.log"⟩ 5) p none
      [.raw [97] ⟨0, 0⟩, .raw [98] ⟨3600, 0⟩, .raw [99] ⟨3601, 0⟩, .raw [100] ⟨7200, 0⟩] .blank =
        .ok ks ∧
    submissions ks = [.compress .gzip ⟨"app-01.log"⟩ ⟨"app-01.log.gz"⟩ true] ∧
    ∀ k ∈ ks, Work.Crosses k.before.policy k.entry.now.millis →
      ∀ a ∈ (p.slotOf k.before.policy.lastName).archiving,
        (submissions ks).count a =
          if Work.Handed k.before.policy k.entry.now.millis k.tale then 1 else 0 := by
  have hp : Policy.activate (.fixed 0) ⟨some "app-%d{HH}.log.gz", none, .utc⟩ 0 = .ok
      ⟨.archivedByHour, .fixed 0, none, .gzip, "app-00.log.gz", 0⟩ := by rfl
  obtain ⟨ks, hks, hsubmissions⟩ : ∃ ks, history (refusing ⟨"app-01.log"⟩ 5)
      ⟨.archivedByHour, .fixed 0, none, .gzip, "app-00.log.gz", 0⟩ none
      [.raw [97] ⟨0, 0⟩, .raw [98] ⟨3600, 0⟩, .raw [99] ⟨3601, 0⟩, .raw [100] ⟨7200, 0⟩] .blank =
        .ok ks ∧
      submissions ks = [.compress .gzip ⟨"app-01.log"⟩ ⟨"app-01.log.gz"⟩ true] := ⟨_, rfl, rfl⟩
  exact ⟨_, ks, hp, hks, hsubmissions, submitted_by_own_call hp rfl (by decide) hks⟩

/-- What becomes of a period may never be submitted: after a call that could not open the second file,
another one does and succeeds, and the first file is never made an archive. -/
theorem never_submitted : ∃ p ks,
    Policy.activate (.fixed 0) ⟨some "app-%d{HH}.log.gz", none, .utc⟩ 0 = .ok p ∧
    history (refusing ⟨"app-01.log"⟩ 5) p none
      [.raw [97] ⟨0, 0⟩, .raw [98] ⟨3600, 0⟩, .raw [99] ⟨3601, 0⟩] .blank = .ok ks ∧
    ks.map (fun k => (k.result.isOk, k.after.path.text)) =
      [(true, "app-00.log"), (false, "app-00.log"), (true, "app-01.log")] ∧
    submissions ks = [] ∧
    (World.run (refusing ⟨"app-01.log"⟩ 5) (session p none
      [.raw [97] ⟨0, 0⟩, .raw [98] ⟨3600, 0⟩, .raw [99] ⟨3601, 0⟩]).run
        (.ofFiles .blank)).2.files.bytesAt ⟨"app-00.log"⟩ = [97] := by
  have hp : Policy.activate (.fixed 0) ⟨some "app-%d{HH}.log.gz", none, .utc⟩ 0 = .ok
      ⟨.archivedByHour, .fixed 0, none, .gzip, "app-00.log.gz", 0⟩ := by rfl
  exact ⟨_, _, hp, rfl, rfl, rfl, rfl⟩

end LogRotation.Writer
