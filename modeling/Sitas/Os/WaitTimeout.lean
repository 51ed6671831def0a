import Sitas.Executor.Readiness

/-! The timeout of the reactor's wait, in milliseconds. Times are in nanoseconds. -/
namespace Sitas.Os
open Sitas.Executor

def cIntMax : Nat := 2147483647

def timeoutToWaitMs : Option Nat → Int
  | some duration =>
    if duration = 0 then 0
    else
      let millis := duration / 1000000
      if millis > cIntMax then cIntMax
      else if duration % 1000000000 > 0 then min (millis + 1) cIntMax
      else millis
  | none => -1

variable {W : Type}

theorem nextDeadline_eq_iff {timers : TimerSet W} {deadline : Nat} :
    timers.nextDeadline = some deadline ↔
      IsLeast {d | ∃ t ∈ timers.timers, t.deadline = d} deadline := by
  rw [TimerSet.nextDeadline, List.min?_eq_some_iff]
  simp [IsLeast, lowerBounds]

/-- Without timers the wait has no timeout. Otherwise its timeout is the least number of
milliseconds that covers the time to the earliest deadline, bounded by the largest `c_int`. -/
def WaitRoundsUp (timers : TimerSet W) (now : Nat) : Prop :=
  (timers.timers = [] → timeoutToWaitMs (timers.timeUntilNext now) = -1) ∧
  ∀ deadline, IsLeast {d | ∃ t ∈ timers.timers, t.deadline = d} deadline →
    ∃ millis, IsLeast {m | deadline - now ≤ m * 1000000} millis ∧
      timeoutToWaitMs (timers.timeUntilNext now) = min millis cIntMax

theorem isLeast_millis (remaining : Nat) :
    IsLeast {m | remaining ≤ m * 1000000} ((remaining + 999999) / 1000000) := by
  refine ⟨?_, fun m hm => ?_⟩
  · change remaining ≤ _
    omega
  · change remaining ≤ _ at hm
    omega

theorem timeoutToWaitMs_eq_iff (remaining : Nat) :
    timeoutToWaitMs (some remaining) = min ((remaining + 999999) / 1000000 : Nat) cIntMax ↔
      remaining % 1000000 ≠ 0 ∨ remaining % 1000000000 = 0 ∨ cIntMax ≤ remaining / 1000000 := by
  rw [timeoutToWaitMs]
  unfold cIntMax
  dsimp only
  split_ifs <;> omega

/-- The wait rounds up unless the time to the earliest deadline is a whole number of
milliseconds that is not one of seconds: then it waits one more. -/
theorem waitRoundsUp_iff (timers : TimerSet W) (now : Nat) :
    WaitRoundsUp timers now ↔
      ∀ remaining, timers.timeUntilNext now = some remaining →
        remaining % 1000000 ≠ 0 ∨ remaining % 1000000000 = 0 ∨ cIntMax ≤ remaining / 1000000 := by
  have hnext : ∀ deadline, IsLeast {d | ∃ t ∈ timers.timers, t.deadline = d} deadline →
      timers.timeUntilNext now = some (deadline - now) := by
    intro deadline hleast
    rw [TimerSet.timeUntilNext, nextDeadline_eq_iff.mpr hleast, Option.map_some]
  constructor
  · rintro ⟨_, hrounds⟩ remaining hremaining
    obtain ⟨deadline, hdeadline, rfl⟩ := Option.map_eq_some_iff.mp hremaining
    obtain ⟨millis, hmillis, htimeout⟩ := hrounds deadline (nextDeadline_eq_iff.mp hdeadline)
    rw [hremaining, hmillis.unique (isLeast_millis _)] at htimeout
    exact (timeoutToWaitMs_eq_iff _).mp htimeout
  · intro hround
    refine ⟨fun hnone => ?_, fun deadline hleast => ⟨_, isLeast_millis _, ?_⟩⟩
    · simp [TimerSet.timeUntilNext, TimerSet.nextDeadline, hnone, timeoutToWaitMs]
    · rw [hnext deadline hleast]
      exact (timeoutToWaitMs_eq_iff _).mpr (hround _ (hnext deadline hleast))

private def timersAt (deadlines : List Nat) : TimerSet Unit :=
  ⟨deadlines.map fun d => ⟨d, d, ()⟩, deadlines.length⟩

/-- Of three timers the earliest is two and a half milliseconds away: the wait takes three. -/
theorem two_and_half_millis_round_up :
    WaitRoundsUp (timersAt [9000000, 7500000, 8000000]) 5000000 ∧
      timeoutToWaitMs ((timersAt [9000000, 7500000, 8000000]).timeUntilNext 5000000) = 3 :=
  ⟨(waitRoundsUp_iff _ _).mpr fun _ h => by cases h; decide, by decide⟩

/-- Five milliseconds are passed as six. -/
theorem five_millis_wait_six :
    timeoutToWaitMs ((timersAt [5000000]).timeUntilNext 0) = 6 ∧
      IsLeast {m | 5000000 - 0 ≤ m * 1000000} 5 ∧ ¬ WaitRoundsUp (timersAt [5000000]) 0 := by
  refine ⟨by decide, isLeast_millis _, fun h => ?_⟩
  obtain ⟨millis, hmillis, htimeout⟩ := h.2 5000000 (by simp [timersAt])
  rw [hmillis.unique (isLeast_millis _)] at htimeout
  exact absurd htimeout (by decide)

end Sitas.Os
