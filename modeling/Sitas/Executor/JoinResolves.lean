import Sitas.Executor.JoinOutcome

/-! When the handle of an ended task resolves: the phases of the task follow the
executor thread, each way of ending but one answers the join state, and a waker taken
from it is held by the operation that will invoke it. -/
namespace Sitas.Executor.JoinedTask
open Sitas.Lib List TaskState Parking JoinState
variable {F T P W : Type}

def held (s : JoinedTask F T P W) : List W :=
  s.join.waker.toList ++ s.wakes ++ s.exec.waker.toList

structure Notified (s : JoinedTask F T P W) : Prop where
  answered : s.Answered → s.join.waker = none
  waiting : ∀ w, s.parked.waker () = some w → s.parked.Woken () ∨ w ∈ s.held

structure Accounted (s : JoinedTask F T P W) : Prop where
  follows : Follows s.task s.exec
  outcome : Outcome s
  notified : Notified s

private theorem notified_spawned (future : F) : Notified (spawned future : JoinedTask F T P W) :=
  ⟨fun _ => rfl, nofun⟩

theorem Outcome.resolved_iff {s : JoinedTask F T P W} (h : Outcome s) (hn : Notified s)
    (hq : s.Quiescent) (hc : s.task.completed = true) : s.Resolved ↔ s.droppedByClose = false := by
  obtain ⟨hidle, haborting, hwakes⟩ := hq
  have hended := phase_eq_ended.mpr hc
  constructor
  · intro hr
    by_contra hd
    exact (h.dropped (Bool.of_not_eq_false hd)).2.2.2 hr.1
  · intro hd
    have hanswered : s.Answered := by
      rcases h.ended hended hd with hab | ⟨payload, hp⟩ | ha
      · omega
      · cases hidle.symm.trans hp
      · exact ha
    refine ⟨hanswered, fun hw => ?_⟩
    obtain ⟨w, hw⟩ := Option.ne_none_iff_exists'.mp hw
    rcases hn.waiting w hw with hwoken | hheld
    · exact hwoken
    · rw [held, hn.answered hanswered, hwakes, hidle] at hheld
      cases hheld

section Frames
variable {s u : JoinedTask F T P W}

private theorem Notified.pass (h : Notified s) (hans : u.Answered → u.join.waker = none)
    (hparked : ∀ w, u.parked.waker () = some w → s.parked.waker () = some w)
    (hwoken : s.parked.Woken () → u.parked.Woken ())
    (hheld : ∀ w, u.parked.waker () = some w → w ∈ s.held → u.parked.Woken () ∨ w ∈ u.held) :
    Notified u := by
  refine ⟨hans, fun w hw => ?_⟩
  rcases h.waiting w (hparked w hw) with hwk | hin
  · exact .inl (hwoken hwk)
  · exact hheld w hw hin

private theorem Notified.keep (h : Notified s) (hjoin : u.join = s.join) (htaken : u.taken = s.taken)
    (hparked : u.parked = s.parked) (hheld : u.held = s.held) : Notified u := by
  refine h.pass ?_ (by rw [hparked]; exact fun _ hw => hw) (by rw [hparked]; exact id) ?_
  · rw [Answered, hjoin, htaken]
    exact h.answered
  · intro w _ hin
    rw [hheld]
    exact .inr hin

private theorem complete_waker (join : JoinState T P W) (r : Except (JoinError P) T)
    (h : join.result.isSome = true → join.waker = none) :
    (join.complete r).1.waker = none ∧ (join.complete r).2 = join.waker := by
  rw [complete]
  split
  next hr =>
    exact ⟨h hr, (h hr).symm⟩
  · exact ⟨rfl, rfl⟩

end Frames

section Steps
variable [DecidableEq W] {s u : JoinedTask F T P W} {now : Nat} {a : JoinEvent T P W}

private theorem notified_executor (h : Notified s) (hst : s.executor now s.exec = some u) :
    Notified u := by
  have hcomplete := fun r => complete_waker s.join r fun hr => h.answered (.inl hr)
  cases he : s.exec with
  | idle | polling f t => rw [he] at hst; cases hst
  | completing output t | handling payload =>
    rw [he] at hst
    cases hst
    refine h.pass (fun _ => (hcomplete _).1) (fun _ hw => hw) id fun w _ hin => .inr ?_
    rw [held, he] at hin
    simp only [held, ExecPc.waker, hcomplete]
    simpa [ExecPc.waker, or_comm] using hin
  | notifyOutput waker t | notifyPanic waker =>
    rw [he] at hst
    cases hst
    refine h.pass h.answered (fun w hw => ?_) (fun hw => hw.wake _) fun w hw hin => ?_
    · rwa [waker_wake] at hw
    · rw [waker_wake] at hw
      rw [held, he] at hin
      rcases mem_append.mp hin with hin | hin
      · exact .inr (mem_append_left _ hin)
      · exact .inl (woken_of_mem hw hin)
  | returned t =>
    rw [he] at hst
    cases hst
    exact h.keep rfl rfl rfl (by rw [held, held, he]; rfl)

private theorem notified_pollHandle {w : W} (h : Notified s)
    (hst : s.step (.pollHandle w) = some u) : Notified u := by
  rw [step] at hst
  split at hst
  · cases hr : s.join.result with
    | some result =>
      rw [poll_of_some hr] at hst
      cases hst
      refine ⟨fun _ => h.answered (.inl (by rw [hr]; rfl)), fun v hv => ?_⟩
      rw [waker_leave, if_pos rfl] at hv
      cases hv
    | none =>
      rename_i hguard
      rw [poll_of_none hr] at hst
      cases hst
      refine ⟨fun ha => ?_, fun v hv => ?_⟩
      · rcases ha with ha | (ha : s.taken = true)
        · rw [show ({ s.join with waker := some w } : JoinState T P W).result = none from hr] at ha
          cases ha
        · simp [ha] at hguard
      · rw [waker_park, if_pos rfl] at hv
        cases hv
        exact .inr (mem_append_left _ (mem_append_left _ (mem_singleton.mpr rfl)))
  · cases hst

private theorem notified_step (h : Notified s) (hst : s.step a = some u) : Notified u := by
  have hfirst : s.join.result.isSome = true → s.join.waker = none := fun hr => h.answered (.inl hr)
  cases a with
  | pollTask now =>
    rw [step] at hst
    split at hst <;> cases hst
    rename_i he
    refine h.keep rfl rfl rfl ?_
    rw [held, held, he]
    dsimp only
    split <;> rfl
  | output value | pending now =>
    rw [step] at hst
    split at hst <;> cases hst
    rename_i future t he
    exact h.keep rfl rfl rfl (by rw [held, held, he]; rfl)
  | panic payload now =>
    rw [step] at hst
    split at hst <;> cases hst
    rename_i future t he
    refine h.keep rfl rfl rfl ?_
    rw [held, held, he]
    dsimp only
    split <;> rfl
  | executor now => exact notified_executor h hst
  | abort =>
    obtain ⟨_, rfl⟩ := guarded hst
    exact h.keep rfl rfl rfl rfl
  | dropHandle =>
    obtain ⟨_, rfl⟩ := guarded hst
    refine ⟨h.answered, fun w hw => ?_⟩
    rw [waker_leave, if_pos rfl] at hw
    cases hw
  | complete =>
    obtain ⟨_, rfl⟩ := guarded hst
    obtain ⟨hnone, hpass⟩ := complete_waker s.join (.error .canceled) hfirst
    refine h.pass (fun _ => hnone) (fun _ hw => hw) id fun w _ hin => .inr ?_
    simp only [held, hnone, hpass]
    simpa [held, or_comm, or_assoc, or_left_comm] using hin
  | wake i =>
    obtain ⟨v, hv, rfl⟩ := Option.map_eq_some_iff.mp hst
    refine h.pass h.answered (fun w hw => ?_) (fun hw => hw.wake _) fun w hw hin => ?_
    · rwa [waker_wake] at hw
    · rw [waker_wake] at hw
      by_cases hwv : w = v
      · exact .inl (woken_of_mem hw (mem_singleton.mpr hwv))
      · refine .inr ?_
        have hkept : w ∈ s.wakes → w ∈ s.wakes.eraseIdx i := fun hmem =>
          (mem_eraseIdx_iff_getElem?).mpr (by
            obtain ⟨j, hj⟩ := mem_iff_getElem?.mp hmem
            exact ⟨j, fun hji => hwv (Option.some.inj ((hji ▸ hj).symm.trans hv)), hj⟩)
        simp only [held, mem_append] at hin ⊢
        rcases hin with (hin | hin) | hin
        · exact .inl (.inl hin)
        · exact .inl (.inr (hkept hin))
        · exact .inr hin
  | pollHandle w => exact notified_pollHandle h hst
  | dropFuture | markQueued now | clearQueued | setWaitingFor wait =>
    cases hst
    exact h.keep rfl rfl rfl rfl

/-- Once a task with a handle has ended and nothing is in progress, its handle resolves
exactly if the future was not dropped by the scheduler's close. -/
theorem handle_resolves_iff (future : F)
    (h : Reachable step (spawned future : JoinedTask F T P W) s) (hq : s.Quiescent)
    (hc : s.task.completed = true) : s.Resolved ↔ s.droppedByClose = false := by
  have hinv : Accounted s := by
    refine h.invariant
      ⟨follows_spawned future, outcome_spawned future, notified_spawned future⟩ ?_
    intro s a u hs _ hst
    exact ⟨follows_step hs.follows hst, outcome_step hs.follows hs.outcome hst,
      notified_step hs.notified hst⟩
  exact hinv.outcome.resolved_iff hinv.notified hq hc

private def panicRun : List (JoinEvent Nat Nat Nat) :=
  [.pollHandle 7, .markQueued 0, .pollTask 1, .panic 5 2, .executor 3, .executor 4]

theorem panicked_handle_resolves : ∃ s : JoinedTask Unit Nat Nat Nat,
    run step (spawned ()) panicRun = some s ∧ s.task.completed = true ∧ s.Resolved := by
  refine ⟨_, rfl, rfl, ?_⟩
  exact (handle_resolves_iff () (reachable_of_run panicRun rfl) ⟨rfl, rfl, rfl⟩ rfl).mpr rfl

/-- The executor is dropped while the handle of a queued task is awaited: the await is never woken.
-/
theorem closed_task_handle_hangs : ∃ s : JoinedTask Unit Nat Nat Nat,
    run step (spawned ()) [.markQueued 0, .pollHandle 7, .dropFuture] = some s ∧ s.Quiescent ∧
      s.task.completed = true ∧ s.parked.waker () = some 7 ∧ ¬ s.Resolved := by
  refine ⟨_, rfl, ⟨rfl, rfl, rfl⟩, rfl, rfl, fun h => ?_⟩
  rcases h.1 with hr | ht
  · cases hr
  · cases ht

end Steps
end Sitas.Executor.JoinedTask
