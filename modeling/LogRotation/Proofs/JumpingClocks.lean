/-
  A clock that jumps never takes a policy back to a second that it has looked at.

  1. **One look** - the next look is due at the first whole second after the instant of this one, before
     1970 as well as after it (`isLeast_nextSecond`).  Up to `lastLook` all of this is computed in 64
     bits, and no further (`nextSecond?_eq_some_iff`).

  2. **The invariant** - a look that takes place is due, and puts off the next one to a later second; so
     what is due never comes nearer (`put_off`).

  3. **The runs** - whatever the clock does, the seconds of the looks of a run increase
     (`pairwise_seconds`), since each of them is due when the one before it has put it off.

  Main statement: `looks_never_go_back`.
-/
import LogRotation.FileSystem.Tree
import LogRotation.Proofs.Looks
import Mathlib.Data.Int.Init
import Mathlib.Data.List.Pairwise
import Mathlib.Order.Bounds.Defs

namespace LogRotation.Policy

variable {p : Policy} {now : Int} {visits : List (Int × FileSystem)}

/-! ## One look -/

/-- The first whole second after an instant is the next one. -/
theorem isLeast_nextSecond (now : Int) : IsLeast {m | 1000 ∣ m ∧ now < m} (nextSecond now) := by
  unfold nextSecond checkInterval
  constructor
  · exact ⟨Int.dvd_mul_left _ _, by omega⟩
  · rintro m ⟨⟨n, rfl⟩, hm⟩
    omega

theorem lt_nextSecond (now : Int) : now < nextSecond now := (isLeast_nextSecond now).1.2

/-- An instant of another second than one before it is due after the look at that one. -/
theorem second_lt_of_nextSecond_le {later : Int} (h : nextSecond now ≤ later) :
    now / 1000 < later / 1000 := by
  unfold nextSecond checkInterval at h
  omega

/-- The whole numbers that 64 bits with a sign can hold. -/
def Fits (n : Int) : Prop := -9223372036854775808 ≤ n ∧ n ≤ 9223372036854775807

instance (n : Int) : Decidable (Fits n) := by unfold Fits; infer_instance

/-- A result that fits into 64 bits. -/
def fit? (n : Int) : Option Int := if Fits n then some n else none

/-- The start of the second after an instant, where each step on the way must fit into 64 bits. -/
def nextSecond? (now : Int) : Option Int := do
  let second ← fit? (now / checkInterval)
  let next ← fit? (second + 1)
  fit? (next * checkInterval)

/-- The last instant whose second has a next one that fits into 64 bits. -/
def lastLook : Int := 9223372036854774999

/-- **No step leaves 64 bits** up to the last instant for which that can be, and it does after it. -/
theorem nextSecond?_eq_some_iff (h : Fits now) :
    nextSecond? now = some (nextSecond now) ↔ now ≤ lastLook := by
  unfold Fits at h
  have hsecond : fit? (now / checkInterval) = some (now / checkInterval) := by
    refine if_pos ?_
    unfold Fits checkInterval
    omega
  have hnext : fit? (now / checkInterval + 1) = some (now / checkInterval + 1) := by
    refine if_pos ?_
    unfold Fits checkInterval
    omega
  have hfits : Fits (nextSecond now) ↔ now ≤ lastLook := by
    unfold Fits nextSecond checkInterval lastLook
    omega
  have hsteps : nextSecond? now = fit? (nextSecond now) := by
    simp only [nextSecond?, hsecond, hnext, Option.bind_eq_bind, Option.bind_some]
    rfl
  rw [hsteps, fit?, ← hfits]
  split
  · exact ⟨fun _ => ‹_›, fun _ => rfl⟩
  · exact ⟨nofun, fun hf => absurd hf ‹_›⟩

/-- `PutOff now next` - after a look at an instant, the next one is due at the first whole second after
it, which was computed in 64 bits. -/
structure PutOff (now next : Int) : Prop where
  least : IsLeast {m | 1000 ∣ m ∧ now < m} next
  computed : nextSecond? now = some next

theorem putOff_nextSecond (h : Fits now) (hlast : now ≤ lastLook) : PutOff now (nextSecond now) :=
  ⟨isLeast_nextSecond now, (nextSecond?_eq_some_iff h).mpr hlast⟩

/-! ## Runs -/

/-- The seconds of the looks of a run. -/
def lookedSeconds (steps : List Watched) : List Int :=
  (steps.filter fun k => k.rollover.isSome).map fun k => k.now / 1000

/-- A look that takes place is due, and the next one is not due before that. -/
theorem put_off (p : Policy) (visits : List (Int × FileSystem)) :
    ∀ k ∈ p.watch visits, p.nextCheck ≤ k.policy.nextCheck ∧
      (k.rollover.isSome = true → p.nextCheck ≤ k.now ∧ k.policy.nextCheck = nextSecond k.now) := by
  induction visits generalizing p with
  | nil => exact fun k hk => absurd hk List.not_mem_nil
  | cons v rest ih =>
    obtain ⟨now, files⟩ := v
    intro k hk
    rw [watch] at hk
    by_cases hdue : p.isDue now = true
    · have hnow : p.nextCheck ≤ now := of_decide_eq_true hdue
      have hnext : p.nextCheck ≤ nextSecond now := Int.le_trans hnow (Int.le_of_lt (lt_nextSecond now))
      rw [if_pos hdue, lookOn_snd] at hk
      rcases List.mem_cons.mp hk with rfl | hk
      · exact ⟨hnext, fun _ => ⟨hnow, rfl⟩⟩
      · obtain ⟨hle, hlook⟩ := ih (p.looked now) k hk
        have hle : nextSecond now ≤ k.policy.nextCheck := hle
        refine ⟨Int.le_trans hnext hle, fun hsome => ?_⟩
        obtain ⟨hlate, hafter⟩ := hlook hsome
        exact ⟨Int.le_trans hnext hlate, hafter⟩
    · -- the look is left out
      rw [if_neg hdue] at hk
      rcases List.mem_cons.mp hk with rfl | hk
      · exact ⟨Int.le_refl _, nofun⟩
      · exact ih p k hk

/-- Looks of a run that come later are at later seconds. -/
theorem pairwise_seconds (p : Policy) (visits : List (Int × FileSystem)) :
    (lookedSeconds (p.watch visits)).Pairwise (· < ·) := by
  induction visits generalizing p with
  | nil => exact .nil
  | cons v rest ih =>
    obtain ⟨now, files⟩ := v
    rw [watch]
    by_cases hdue : p.isDue now = true
    · rw [if_pos hdue, lookOn_snd]
      have hrest := ih (p.looked now)
      refine List.pairwise_cons.mpr ⟨?_, hrest⟩
      intro second hsecond
      obtain ⟨k, hk, rfl⟩ := List.mem_map.mp hsecond
      obtain ⟨hk, hsome⟩ := List.mem_filter.mp hk
      -- the later look was put off by this one
      obtain ⟨hlate, -⟩ := (put_off (p.looked now) rest k hk).2 hsome
      exact second_lt_of_nextSecond_le hlate
    · rw [if_neg hdue]
      exact ih p

/-- What is due never comes nearer. -/
theorem pairwise_nextCheck (p : Policy) (visits : List (Int × FileSystem)) :
    (p.nextCheck :: (p.watch visits).map fun k => k.policy.nextCheck).Pairwise (· ≤ ·) := by
  induction visits generalizing p with
  | nil => exact List.pairwise_singleton _ _
  | cons v rest ih =>
    obtain ⟨now, files⟩ := v
    refine List.pairwise_cons.mpr ⟨?_, ?_⟩
    · intro next hnext
      obtain ⟨k, hk, rfl⟩ := List.mem_map.mp hnext
      exact (put_off p _ k hk).1
    · rw [watch]
      by_cases hdue : p.isDue now = true
      · rw [if_pos hdue, lookOn_snd]
        exact ih (p.looked now)
      · rw [if_neg hdue]
        exact ih p

/-- The instants of a run are those that it was given. -/
theorem now_mem_of_watch (p : Policy) (visits : List (Int × FileSystem)) :
    ∀ k ∈ p.watch visits, k.now ∈ visits.map Prod.fst := by
  induction visits generalizing p with
  | nil => exact fun k hk => absurd hk List.not_mem_nil
  | cons v rest ih =>
    intro k hk
    rw [watch] at hk
    split at hk <;>
    · rcases List.mem_cons.mp hk with rfl | hk
      · exact List.mem_cons_self
      · exact List.mem_cons_of_mem _ (ih _ k hk)

/-- **A clock that jumps never goes back for a policy.**  Let a policy be asked at any instants in any
order whether it is due, and look where it is.  Then it looks at most once in each second, the seconds of
its looks increase, and what is due never comes nearer; after each look the next one is due at the first
whole second after it, with no step outside 64 bits.  A look that is not asked for by the clock puts off
the next one in the same way, from whatever policy and at whatever instant it is made. -/
theorem looks_never_go_back {localTime : LocalTime} {start : Int} {config : Config} {p : Policy}
    (hp : activate localTime config start = .ok p) (visits : List (Int × FileSystem))
    (hfits : ∀ v ∈ visits, Fits v.1 ∧ v.1 ≤ lastLook) :
    p.nextCheck = 0 ∧
    (∀ second, (lookedSeconds (p.watch visits)).count second ≤ 1) ∧
    (lookedSeconds (p.watch visits)).Pairwise (· < ·) ∧
    (p.nextCheck :: (p.watch visits).map fun k => k.policy.nextCheck).Pairwise (· ≤ ·) ∧
    (∀ k ∈ p.watch visits, k.rollover.isSome = true → PutOff k.now k.policy.nextCheck) ∧
    ∀ (q : Policy) (now : Int) (written : Bool), Fits now → now ≤ lastLook →
      PutOff now (q.rollover now written).2.nextCheck ∧
      ∀ x, (q.rollover now written).2.isDue x = true ↔ (q.rollover now written).2.nextCheck ≤ x := by
  have hseconds := p.pairwise_seconds visits
  refine ⟨(activate_ok hp).nextCheck, ?_, hseconds, p.pairwise_nextCheck visits, ?_, ?_⟩
  · have hnodup : (lookedSeconds (p.watch visits)).Nodup := hseconds.imp fun hlt => Int.ne_of_lt hlt
    exact List.nodup_iff_count.mp hnodup
  · intro k hk hsome
    obtain ⟨v, hv, hnow⟩ := List.mem_map.mp (p.now_mem_of_watch visits k hk)
    obtain ⟨hfit, hlast⟩ := hnow ▸ hfits v hv
    rw [((put_off p visits k hk).2 hsome).2]
    exact putOff_nextSecond hfit hlast
  · intro q now written hfit hlast
    rw [rollover_snd]
    exact ⟨putOff_nextSecond hfit hlast, fun x => decide_eq_true_iff⟩

/-- A clock that jumps from the last instant with a next second back to the first one of 64 bits, and on
to 1970: after the first look nothing is due any more. -/
theorem looks_never_go_back_from_the_end : ∃ p,
    activate (.fixed 0) ⟨some "a.%d", none, .utc⟩ 0 = .ok p ∧
    lookedSeconds (p.watch [(-1, .blank), (0, .blank), (999, .blank), (1000, .blank),
      (lastLook, .blank), (-9223372036854775808, .blank), (5000, .blank)]) =
      [0, 1, 9223372036854774] ∧
    (lookedSeconds (p.watch [(-1, .blank), (0, .blank), (999, .blank), (1000, .blank),
      (lastLook, .blank), (-9223372036854775808, .blank), (5000, .blank)])).Pairwise (· < ·) := by
  have hp : activate (.fixed 0) ⟨some "a.%d", none, .utc⟩ 0 = .ok
      ⟨⟨"a.%d", "a.".toList, "yyyy-MM-dd".toList,
        [.field (.year .full), .literal '-', .field (.month .padded), .literal '-',
          .field (.day .padded)], [], .utc, false⟩, .fixed 0, none, .none, "a.1970-01-01", 0⟩ := by rfl
  exact ⟨_, hp, by decide, (looks_never_go_back hp _ (by decide)).2.2.1⟩

end LogRotation.Policy
