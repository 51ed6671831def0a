import Mathlib.Data.Option.Basic

/-! The lifecycle of a task. Futures and panic handlers are opaque values, times are
instants and durations on one clock. -/
namespace Sitas.Executor

inductive TaskWait where
  | unknown
  | timer (deadline : Nat)
  | readable (fd : Int)
  | writable (fd : Int)
  deriving DecidableEq, Repr

inductive TaskStatus where
  | queued
  | polling
  | waiting
  | completed
  | cancelled
  deriving DecidableEq, Repr

structure TaskState (F H : Type) where
  future : Option F
  panicHandler : Option H
  queued : Bool
  polling : Bool
  cancelRequested : Bool
  completed : Bool
  pollCount : Nat
  totalPollTime : Nat
  waitingFor : Option TaskWait
  lastScheduledAt : Option Nat
  lastPollStartedAt : Option Nat
  lastPollFinishedAt : Option Nat
  deriving DecidableEq, Repr

namespace TaskState
variable {F H : Type}

def new (future : F) (panicHandler : Option H) : TaskState F H where
  future := some future
  panicHandler := panicHandler
  queued := false
  polling := false
  cancelRequested := false
  completed := false
  pollCount := 0
  totalPollTime := 0
  waitingFor := none
  lastScheduledAt := none
  lastPollStartedAt := none
  lastPollFinishedAt := none

def takeFutureForPoll (s : TaskState F H) (pollStartedAt : Nat) : Option F × TaskState F H :=
  let s := { s with queued := false }
  match s.future with
  | none => (none, s)
  | some future =>
    (some future, { s with
      future := none
      polling := true
      waitingFor := none
      lastPollStartedAt := some pollStartedAt
      pollCount := s.pollCount + 1 })

def finishReady (s : TaskState F H) (pollDuration pollFinishedAt : Nat) : TaskState F H :=
  { s with
    polling := false
    completed := true
    waitingFor := none
    totalPollTime := s.totalPollTime + pollDuration
    lastPollFinishedAt := some pollFinishedAt }

/-- The flag tells that the poll was cancelled and the future is dropped here. -/
def finishPending (s : TaskState F H) (future : F) (pollDuration pollFinishedAt : Nat) :
    Bool × TaskState F H :=
  let s := { s with
    polling := false
    totalPollTime := s.totalPollTime + pollDuration
    lastPollFinishedAt := some pollFinishedAt
    waitingFor := some (s.waitingFor.getD .unknown) }
  if s.cancelRequested then (true, { s with completed := true, waitingFor := none })
  else (false, { s with future := some future })

def finishPanicked (s : TaskState F H) (pollDuration pollFinishedAt : Nat) :
    Option H × TaskState F H :=
  (s.panicHandler, { s with
    polling := false
    future := none
    completed := true
    waitingFor := none
    totalPollTime := s.totalPollTime + pollDuration
    lastPollFinishedAt := some pollFinishedAt
    panicHandler := none })

def markQueued (s : TaskState F H) (now : Nat) : Bool × TaskState F H :=
  if s.queued || (s.future.isNone && !s.polling) then (false, s)
  else (true, { s with queued := true, waitingFor := none, lastScheduledAt := some now })

/-- Nothing is left to cancel, the cancellation takes effect after the current poll,
or the future is dropped here. -/
def cancel (s : TaskState F H) : Option Bool × TaskState F H :=
  if s.future.isNone && !s.polling then (none, s)
  else if s.polling then (some false, { s with cancelRequested := true })
  else
    (some true, { s with
      cancelRequested := true
      future := none
      queued := false
      completed := true
      waitingFor := none })

def dropFuture (s : TaskState F H) : TaskState F H :=
  if s.polling then { s with cancelRequested := true }
  else
    { s with
      cancelRequested := true
      future := none
      queued := false
      completed := true
      waitingFor := none }

def clearQueued (s : TaskState F H) : TaskState F H := { s with queued := false }

def setWaitingFor (s : TaskState F H) (waitingFor : TaskWait) : TaskState F H :=
  if s.polling && !s.completed then { s with waitingFor := some waitingFor } else s

def status (s : TaskState F H) : TaskStatus :=
  if s.completed && s.cancelRequested then .cancelled
  else if s.completed then .completed
  else if s.polling then .polling
  else if s.queued then .queued
  else .waiting

/-- The future stands in the state unless it is being polled or the task has ended. -/
structure Lifecycle (s : TaskState F H) : Prop where
  ended : s.completed = true → s.polling = false ∧ s.future = none
  polling : s.polling = true → s.future = none
  alive : s.completed = false → s.polling = false → s.future.isSome = true

/-- What a task is for those outside its state: it waits with its future in place, is
being polled, or has ended. -/
inductive Phase where
  | waiting
  | polling
  | ended
  deriving DecidableEq, Repr

def phase (s : TaskState F H) : Phase :=
  if s.completed then .ended else if s.polling then .polling else .waiting

theorem lifecycle_new (future : F) (handler : Option H) : Lifecycle (new future handler) :=
  ⟨nofun, nofun, fun _ _ => rfl⟩

variable {s : TaskState F H}

section
variable (s : TaskState F H)

theorem takeFutureForPoll_panicHandler (now : Nat) :
    (s.takeFutureForPoll now).2.panicHandler = s.panicHandler := by
  simp only [takeFutureForPoll]
  split <;> rfl

theorem takeFutureForPoll_cancelRequested (now : Nat) :
    (s.takeFutureForPoll now).2.cancelRequested = s.cancelRequested := by
  simp only [takeFutureForPoll]
  split <;> rfl

theorem finishPending_panicHandler (future : F) (d now : Nat) :
    (s.finishPending future d now).2.panicHandler = s.panicHandler := by
  rw [finishPending]
  split <;> rfl

theorem finishPending_cancelRequested (future : F) (d now : Nat) :
    (s.finishPending future d now).2.cancelRequested = s.cancelRequested := by
  rw [finishPending]
  split <;> rfl

theorem finishPending_queued (future : F) (d now : Nat) :
    (s.finishPending future d now).2.queued = s.queued := by
  rw [finishPending]
  split <;> rfl

end

theorem markQueued_panicHandler (now : Nat) :
    (s.markQueued now).2.panicHandler = s.panicHandler := by
  rw [markQueued]
  split <;> rfl

theorem setWaitingFor_panicHandler (w : TaskWait) :
    (s.setWaitingFor w).panicHandler = s.panicHandler := by
  rw [setWaitingFor]
  split <;> rfl

theorem dropFuture_panicHandler : s.dropFuture.panicHandler = s.panicHandler := by
  rw [dropFuture]
  split <;> rfl

theorem dropFuture_cancelRequested : s.dropFuture.cancelRequested = true := by
  rw [dropFuture]
  split <;> rfl

theorem queued_of_cancel (h : s.cancel.2.queued = true) : s.queued = true := by
  rw [cancel] at h
  split at h
  · exact h
  · split at h
    · exact h
    · cases h

theorem phase_eq_ended : s.phase = .ended ↔ s.completed = true := by
  cases hc : s.completed <;> cases hp : s.polling <;> simp [phase, hc, hp]

theorem takeFutureForPoll_of_some {now : Nat} {future : F}
    (h : (s.takeFutureForPoll now).1 = some future) :
    s.future = some future ∧ (s.takeFutureForPoll now).2 = { s with
      queued := false
      future := none
      polling := true
      waitingFor := none
      lastPollStartedAt := some now
      pollCount := s.pollCount + 1 } := by
  cases hf : s.future <;> simp_all [takeFutureForPoll]

theorem takeFutureForPoll_of_none {now : Nat} (h : (s.takeFutureForPoll now).1 = none) :
    s.future = none ∧ (s.takeFutureForPoll now).2 = { s with queued := false } := by
  cases hf : s.future <;> simp_all [takeFutureForPoll]

theorem markQueued_of_true {now : Nat} (h : (s.markQueued now).1 = true) :
    s.queued = false ∧ (s.future.isSome = true ∨ s.polling = true) ∧ (s.markQueued now).2 =
      { s with queued := true, waitingFor := none, lastScheduledAt := some now } := by
  rw [markQueued] at h ⊢
  split at h
  · cases h
  next hfree =>
    rw [if_neg hfree]
    cases hq : s.queued <;> cases hf : s.future <;> cases hp : s.polling <;> simp_all

theorem markQueued_of_false {now : Nat} (h : (s.markQueued now).1 = false) :
    (s.markQueued now).2 = s ∧ (s.queued = true ∨ (s.future = none ∧ s.polling = false)) := by
  rw [markQueued] at h ⊢
  split at h
  next hmarked =>
    rw [if_pos hmarked]
    refine ⟨rfl, ?_⟩
    simpa using hmarked
  · cases h

namespace Lifecycle

section
variable (h : Lifecycle s)
include h

theorem not_completed (hlive : s.future.isSome = true ∨ s.polling = true) :
    s.completed = false := by
  by_contra hc
  obtain ⟨hpoll, hfuture⟩ := h.ended (Bool.of_not_eq_false hc)
  simp [hpoll, hfuture] at hlive

theorem phase_eq_polling : s.phase = .polling ↔ s.polling = true := by
  cases hc : s.completed <;> cases hp : s.polling <;> simp [phase, hc, hp]
  have hnot := (h.ended hc).1
  rw [hp] at hnot
  cases hnot

theorem phase_eq_waiting : s.phase = .waiting ↔ s.future.isSome = true ∧ s.polling = false := by
  cases hc : s.completed <;> cases hp : s.polling
  · simp [phase, hc, hp, h.alive hc hp]
  · simp [phase, hc, hp]
  · simp [phase, hc, (h.ended hc).2]
  · simp [phase, hc]

theorem takeFutureForPoll (now : Nat) :
    Lifecycle (s.takeFutureForPoll now).2 ∧
      ((s.takeFutureForPoll now).1.isSome = true →
        s.phase = .waiting ∧ (s.takeFutureForPoll now).2.phase = .polling) ∧
      ((s.takeFutureForPoll now).1 = none → (s.takeFutureForPoll now).2.phase = s.phase) := by
  simp only [TaskState.takeFutureForPoll]
  split
  · exact ⟨⟨h.ended, h.polling, h.alive⟩, nofun, fun _ => rfl⟩
  next future hf =>
    have hpolling : s.polling = false := by
      by_contra hp
      rw [h.polling (Bool.of_not_eq_false hp)] at hf
      cases hf
    have hcompleted : s.completed = false := by
      by_contra hc
      rw [(h.ended (Bool.of_not_eq_false hc)).2] at hf
      cases hf
    refine ⟨⟨?_, fun _ => rfl, nofun⟩, fun _ => ⟨?_, ?_⟩, nofun⟩
    · intro hc
      rw [hcompleted] at hc
      cases hc
    · simp [phase, hcompleted, hpolling]
    · simp [phase, hcompleted]

theorem finishReady (hp : s.polling = true) (d now : Nat) :
    Lifecycle (s.finishReady d now) ∧ (s.finishReady d now).phase = .ended :=
  ⟨⟨fun _ => ⟨rfl, h.polling hp⟩, nofun, nofun⟩, rfl⟩

/-- A pending poll ends the task exactly if a cancellation was requested. -/
theorem finishPending (hp : s.polling = true) (future : F) (d now : Nat) :
    Lifecycle (s.finishPending future d now).2 ∧
      (s.finishPending future d now).1 = s.cancelRequested ∧
      (s.finishPending future d now).2.phase = if s.cancelRequested then .ended else .waiting := by
  have hcompleted : s.completed = false := by
    by_contra hc
    have hnot := (h.ended (Bool.of_not_eq_false hc)).1
    rw [hp] at hnot
    cases hnot
  cases hr : s.cancelRequested with
  | true =>
    simp only [TaskState.finishPending, hr, if_true]
    exact ⟨⟨fun _ => ⟨rfl, h.polling hp⟩, nofun, nofun⟩, trivial, rfl⟩
  | false =>
    simp only [TaskState.finishPending, hr, Bool.false_eq_true, if_false]
    refine ⟨⟨fun hc => ?_, nofun, fun _ _ => rfl⟩, trivial, by simp [phase, hcompleted]⟩
    rw [show s.completed = true from hc] at hcompleted
    cases hcompleted

end

end Lifecycle

theorem finishPanicked_ended (s : TaskState F H) (d now : Nat) :
    Lifecycle (s.finishPanicked d now).2 ∧ (s.finishPanicked d now).2.phase = .ended :=
  ⟨⟨fun _ => ⟨rfl, rfl⟩, nofun, nofun⟩, rfl⟩

namespace Lifecycle

section
variable (h : Lifecycle s)
include h

theorem markQueued (now : Nat) :
    Lifecycle (s.markQueued now).2 ∧ (s.markQueued now).2.phase = s.phase := by
  rw [TaskState.markQueued]
  split
  · exact ⟨h, rfl⟩
  · exact ⟨⟨h.ended, h.polling, h.alive⟩, rfl⟩

theorem setWaitingFor (w : TaskWait) :
    Lifecycle (s.setWaitingFor w) ∧ (s.setWaitingFor w).phase = s.phase := by
  rw [TaskState.setWaitingFor]
  split
  · exact ⟨⟨h.ended, h.polling, h.alive⟩, rfl⟩
  · exact ⟨h, rfl⟩

theorem cancel : Lifecycle s.cancel.2 := by
  rw [TaskState.cancel]
  split
  · exact h
  · split
    · exact ⟨h.ended, h.polling, h.alive⟩
    next hp =>
      exact ⟨fun _ => ⟨Bool.eq_false_iff.mpr hp, rfl⟩, fun _ => rfl, nofun⟩

theorem cancel_ended (hp : s.phase = .ended) : s.cancel = (none, s) := by
  obtain ⟨hpoll, hfuture⟩ := h.ended (phase_eq_ended.mp hp)
  simp [TaskState.cancel, hpoll, hfuture]

theorem cancel_polling (hp : s.phase = .polling) :
    s.cancel = (some false, { s with cancelRequested := true }) := by
  simp [TaskState.cancel, h.phase_eq_polling.mp hp]

theorem cancel_waiting (hp : s.phase = .waiting) :
    s.cancel.1 = some true ∧ s.cancel.2.phase = .ended ∧ s.cancel.2.cancelRequested = true := by
  obtain ⟨hfuture, hpoll⟩ := h.phase_eq_waiting.mp hp
  have hsome : s.future.isNone = false := by
    rw [← Option.not_isSome, hfuture]
    rfl
  simp [TaskState.cancel, hsome, hpoll, phase]

theorem cancel_live (hp : s.phase ≠ .ended) :
    s.cancel.1.isSome = true ∧ s.cancel.2.phase ≠ .waiting ∧
      s.cancel.2.cancelRequested = true := by
  cases hphase : s.phase with
  | ended => exact absurd hphase hp
  | polling =>
    rw [h.cancel_polling hphase]
    refine ⟨rfl, ?_, rfl⟩
    change s.phase ≠ .waiting
    rw [hphase]
    nofun
  | waiting =>
    obtain ⟨hres, hend, hreq⟩ := h.cancel_waiting hphase
    rw [hres, hend]
    exact ⟨rfl, nofun, hreq⟩

theorem dropFuture : Lifecycle s.dropFuture ∧
    s.dropFuture.phase = if s.phase = .polling then .polling else .ended := by
  by_cases hp : s.polling = true
  · rw [TaskState.dropFuture, if_pos hp, if_pos (h.phase_eq_polling.mpr hp)]
    exact ⟨⟨h.ended, h.polling, h.alive⟩, h.phase_eq_polling.mpr hp⟩
  · rw [TaskState.dropFuture, if_neg hp, if_neg (mt h.phase_eq_polling.mp hp)]
    exact ⟨⟨fun _ => ⟨Bool.eq_false_iff.mpr hp, rfl⟩, fun _ => rfl, nofun⟩, rfl⟩

end

end Lifecycle
end TaskState
end Sitas.Executor
