import Sitas.Executor.Join

namespace Sitas.Executor
open Sitas.Lib

namespace JoinState
variable {T P W : Type}

theorem poll_ready_iff (s : JoinState T P W) (w : W) (r : Except (JoinError P) T) :
    (s.poll w).2 = .ready r ↔ s.result = some r := by
  cases h : s.result with
  | none => simp [poll_of_none h]
  | some r' => simp [poll_of_some h]

theorem complete_result_eq (s : JoinState T P W) (r : Except (JoinError P) T) :
    (s.complete r).1.result = some (s.result.getD r) := by
  cases h : s.result <;> simp [complete, h]

end JoinState

namespace JoinedTask
variable {F T P W : Type}

/-- A poll of the handle would return the result. -/
def Yields (s : JoinedTask F T P W) (w : W) (r : Except (JoinError P) T) : Prop :=
  (s.join.poll w).2 = .ready r

/-- The event is not a poll of the handle that returns a result. -/
def Silent (s : JoinedTask F T P W) (a : JoinEvent T P W) : Prop :=
  ∀ w r, a = .pollHandle w → ¬ s.Yields w r

section
variable [DecidableEq W] {s t u : JoinedTask F T P W} {r : Except (JoinError P) T}

private theorem result_executor {now : Nat} (h : s.join.result = some r)
    (hst : s.executor now s.exec = some t) : t.join.result = some r := by
  cases he : s.exec with
  | idle | polling f started =>
    rw [he] at hst
    cases hst
  | completing output started | handling payload =>
    rw [he] at hst
    cases hst
    rw [JoinState.complete_result_eq, h, Option.getD_some]
  | notifyOutput w started | returned started | notifyPanic w =>
    rw [he] at hst
    cases hst
    exact h

/-- A stored result is changed by nothing but the await that takes it. -/
theorem result_step {a : JoinEvent T P W} (h : s.join.result = some r) (hok : s.Silent a)
    (hst : s.step a = some t) : t.join.result = some r := by
  cases a with
  | executor now => exact result_executor h hst
  | complete =>
    obtain ⟨_, rfl⟩ := guarded hst
    rw [JoinState.complete_result_eq, h, Option.getD_some]
  | pollHandle w => exact absurd ((s.join.poll_ready_iff w r).mpr h) (hok w r rfl)
  | pollTask now | output value | pending now | panic payload now | abort | dropHandle =>
    rw [step] at hst
    split at hst <;> cases hst
    exact h
  | wake i =>
    obtain ⟨w, _, rfl⟩ := Option.map_eq_some_iff.mp hst
    exact h
  | dropFuture | markQueued now | clearQueued | setWaitingFor wait =>
    cases hst
    exact h

theorem result_of_reach (hr : Reach step Silent t u) (h : t.join.result = some r) :
    u.join.result = some r :=
  hr.invariant h fun _ _ _ hs hok hst => result_step hs hok hst

theorem result_of_complete (hst : s.step .complete = some t) :
    t.join.result = some (s.join.result.getD (.error .canceled)) := by
  obtain ⟨_, rfl⟩ := guarded hst
  exact JoinState.complete_result_eq _ _

/-- The next await that yields after a successful abort yields `Canceled` exactly if
the abort, when it completed the join, found no result or the one of another abort. -/
theorem abort_yields_canceled_iff (w : W) (hst : s.step .complete = some t) :
    (∀ u r, Reach step Silent t u → u.Yields w r → r = .error .canceled) ↔
      s.join.result = none ∨ s.join.result = some (.error .canceled) := by
  have hres := result_of_complete hst
  constructor
  · intro h
    have hnow := h t _ .start ((t.join.poll_ready_iff w _).mpr hres)
    cases hs : s.join.result with
    | none => exact .inl rfl
    | some r =>
      rw [hs, Option.getD_some] at hnow
      rw [hnow]
      exact .inr rfl
  · intro h u r hr hy
    have hcanceled : t.join.result = some (.error .canceled) := by
      rcases h with h | h <;> rw [hres, h] <;> rfl
    have hu := result_of_reach hr hcanceled
    rw [(u.join.poll_ready_iff w r).mp hy] at hu
    exact Option.some.inj hu

end

private def abortedRun : List (JoinEvent Nat Nat Nat) := [.markQueued 0, .pollTask 1, .abort]

theorem abort_in_poll_yields_canceled : ∃ s t : JoinedTask Unit Nat Nat Nat,
    run step (spawned ()) abortedRun = some s ∧ s.step .complete = some t ∧
      ∀ u r, Reach step Silent t u → u.Yields 3 r → r = .error .canceled := by
  let s : JoinedTask Unit Nat Nat Nat := (run step (spawned ()) abortedRun).get rfl
  refine ⟨s, _, rfl, rfl, ?_⟩
  exact (abort_yields_canceled_iff (s := s) 3 rfl).mpr (.inl rfl)

/-- The future has published its output when the task is aborted: the next await yields the output.
-/
theorem aborted_handle_yields_output : ∃ s t : JoinedTask Unit Nat Nat Nat,
    run step (spawned ()) [.markQueued 0, .pollTask 1, .output 7, .executor 2] = some s ∧
      s.task.cancel.1 = some false ∧ run step s [.abort, .complete] = some t ∧
      t.aborted = true ∧ t.Yields 3 (.ok 7) :=
  ⟨_, _, rfl, rfl, rfl, rfl, rfl⟩

end JoinedTask
end Sitas.Executor
