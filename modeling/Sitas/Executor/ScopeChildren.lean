import Sitas.Executor.AbortResult
import Sitas.Executor.JoinResolves
import Sitas.Executor.Scope

namespace Sitas.Executor

namespace TaskState
variable {F H : Type} (s : TaskState F H)

theorem takeFutureForPoll_completed (now : Nat) :
    (s.takeFutureForPoll now).2.completed = s.completed := by
  simp only [takeFutureForPoll]
  split <;> rfl

theorem finishPending_completed (future : F) (d now : Nat) (h : s.completed = true) :
    (s.finishPending future d now).2.completed = true := by
  rw [finishPending]
  split
  · rfl
  · exact h

theorem markQueued_ending (now : Nat) : (s.markQueued now).2.completed = s.completed ∧
    (s.markQueued now).2.cancelRequested = s.cancelRequested := by
  rw [markQueued]
  split <;> exact ⟨rfl, rfl⟩

theorem setWaitingFor_ending (w : TaskWait) : (s.setWaitingFor w).completed = s.completed ∧
    (s.setWaitingFor w).cancelRequested = s.cancelRequested := by
  rw [setWaitingFor]
  split <;> exact ⟨rfl, rfl⟩

theorem cancel_ending : (s.completed = true → s.cancel.2.completed = true) ∧
    (s.cancelRequested = true → s.cancel.2.cancelRequested = true) := by
  rw [cancel]
  split
  · exact ⟨id, id⟩
  · split
    · exact ⟨id, fun _ => rfl⟩
    · exact ⟨fun _ => rfl, fun _ => rfl⟩

theorem dropFuture_completed (h : s.completed = true) : s.dropFuture.completed = true := by
  rw [dropFuture]
  split
  · exact h
  · rfl

variable {s}

theorem Lifecycle.cancel_over (h : Lifecycle s) :
    s.cancel.2.completed = true ∨ s.cancel.2.cancelRequested = true := by
  by_cases hp : s.phase = .ended
  · rw [h.cancel_ended hp]
    exact .inl (phase_eq_ended.mp hp)
  · exact .inr (h.cancel_live hp).2.2

end TaskState

def ExecPc.hasOutput {F T P W : Type} : ExecPc F T P W → Bool
  | .completing _ _ | .notifyOutput _ _ | .returned _ => true
  | _ => false

namespace JoinedTask
variable {F T P W : Type}

/-- What no step undoes, and where an output comes from. -/
structure Frame (s t : JoinedTask F T P W) (e : JoinEvent T P W) : Prop where
  completed : s.task.completed = true → t.task.completed = true
  requested : s.task.cancelRequested = true → t.task.cancelRequested = true
  returning : s.exec.hasOutput = true → t.exec.hasOutput = true ∨ t.task.completed = true
  returns : t.exec.hasOutput = true →
    s.exec.hasOutput = true ∨ ∃ value future startedAt, e = .output value ∧
      s.exec = .polling future startedAt
  result : ∀ value, t.join.result = some (.ok value) →
    s.join.result = some (.ok value) ∨ s.exec.hasOutput = true
  handle : t.handle = s.handle ∨ e = .dropHandle ∧ t.handle = false ∧ t.task = s.task.cancel.2

variable {s t : JoinedTask F T P W}

private theorem Frame.of_task {e : JoinEvent T P W}
    (hcompleted : s.task.completed = true → t.task.completed = true)
    (hrequested : s.task.cancelRequested = true → t.task.cancelRequested = true)
    (hexec : t.exec = s.exec) (hjoin : t.join.result = s.join.result)
    (hhandle : t.handle = s.handle ∨
      e = .dropHandle ∧ t.handle = false ∧ t.task = s.task.cancel.2) : Frame s t e :=
  ⟨hcompleted, hrequested, fun h => .inl (hexec ▸ h), fun h => .inl (hexec ▸ h),
    fun _ h => .inl (hjoin ▸ h), hhandle⟩

private theorem Frame.of_poll {e : JoinEvent T P W}
    (hcompleted : s.task.completed = true → t.task.completed = true)
    (hrequested : s.task.cancelRequested = true → t.task.cancelRequested = true)
    (hbefore : s.exec.hasOutput = false) (hafter : t.exec.hasOutput = false)
    (hjoin : ∀ value, t.join.result = some (.ok value) → s.join.result = some (.ok value))
    (hhandle : t.handle = s.handle) : Frame s t e := by
  refine ⟨hcompleted, hrequested, fun h => ?_, fun h => ?_, fun value h => .inl (hjoin value h),
    .inl hhandle⟩
  · rw [hbefore] at h
    cases h
  · rw [hafter] at h
    cases h

private theorem ok_of_complete_error {join : JoinState T P W} {error : JoinError P} {value : T}
    (h : (join.complete (.error error)).1.result = some (.ok value)) :
    join.result = some (.ok value) := by
  rw [JoinState.complete_result_eq] at h
  cases hr : join.result with
  | none =>
    rw [hr] at h
    cases h
  | some r =>
    rw [hr] at h
    exact h

variable [DecidableEq W]

private theorem frame_executor {now : Nat} (hst : s.executor now s.exec = some t) :
    Frame s t (.executor now) := by
  cases he : s.exec with
  | idle | polling f started =>
    rw [he] at hst
    cases hst
  | completing output started =>
    rw [he] at hst
    cases hst
    exact ⟨id, id, fun _ => .inl rfl, fun _ => .inl (by rw [he]; rfl),
      fun _ _ => .inr (by rw [he]; rfl), .inl rfl⟩
  | notifyOutput w started =>
    rw [he] at hst
    cases hst
    exact ⟨id, id, fun _ => .inl rfl, fun _ => .inl (by rw [he]; rfl), fun _ h => .inl h, .inl rfl⟩
  | returned started =>
    rw [he] at hst
    cases hst
    exact ⟨fun _ => rfl, id, fun _ => .inr rfl, fun h => (Bool.false_ne_true h).elim,
      fun _ h => .inl h, .inl rfl⟩
  | handling payload =>
    rw [he] at hst
    cases hst
    exact .of_poll id id (by rw [he]; rfl) rfl (fun _ => ok_of_complete_error) rfl
  | notifyPanic w =>
    rw [he] at hst
    cases hst
    exact .of_poll id id (by rw [he]; rfl) rfl (fun _ => id) rfl

private theorem frame_pollTask {now : Nat} (hst : s.step (.pollTask now) = some t) :
    Frame s t (.pollTask now) := by
  rw [step] at hst
  split at hst
  next he =>
    cases hst
    refine .of_poll (fun h => ?_) (fun h => ?_) (by rw [he]; rfl) ?_ (fun _ => id) rfl
    · exact (s.task.takeFutureForPoll_completed now).trans h
    · exact (s.task.takeFutureForPoll_cancelRequested now).trans h
    · cases (s.task.takeFutureForPoll now).1 <;> rfl
  next => cases hst

theorem frame_step {e : JoinEvent T P W} (hst : s.step e = some t) : Frame s t e := by
  cases e with
  | pollTask now => exact frame_pollTask hst
  | output value =>
    rw [step] at hst
    split at hst
    next future startedAt he =>
      cases hst
      exact ⟨id, id, fun _ => .inl rfl, fun _ => .inr ⟨value, future, startedAt, rfl, he⟩,
        fun _ h => .inl h, .inl rfl⟩
    next => cases hst
  | pending now =>
    rw [step] at hst
    split at hst
    next future startedAt he =>
      cases hst
      exact .of_poll (s.task.finishPending_completed future _ now)
        (fun h => (s.task.finishPending_cancelRequested future _ now).trans h)
        (by rw [he]; rfl) rfl (fun _ => id) rfl
    next => cases hst
  | panic payload now =>
    rw [step] at hst
    split at hst
    next future startedAt he =>
      cases hst
      exact .of_poll (fun _ => rfl) id (by rw [he]; rfl) (by split <;> rfl) (fun _ => id) rfl
    next => cases hst
  | executor now => exact frame_executor hst
  | abort =>
    obtain ⟨_, rfl⟩ := Lib.guarded hst
    exact .of_task s.task.cancel_ending.1 s.task.cancel_ending.2 rfl rfl (.inl rfl)
  | dropHandle =>
    obtain ⟨_, rfl⟩ := Lib.guarded hst
    exact .of_task s.task.cancel_ending.1 s.task.cancel_ending.2 rfl rfl (.inr ⟨rfl, rfl, rfl⟩)
  | complete =>
    obtain ⟨_, rfl⟩ := Lib.guarded hst
    exact ⟨id, id, .inl, .inl, fun _ h => .inl (ok_of_complete_error h), .inl rfl⟩
  | wake i =>
    obtain ⟨w, _, rfl⟩ := Option.map_eq_some_iff.mp hst
    exact .of_task id id rfl rfl (.inl rfl)
  | pollHandle w =>
    obtain ⟨_, hst⟩ := Option.ite_none_right_eq_some.mp hst
    cases hr : s.join.result with
    | none =>
      rw [JoinState.poll_of_none hr] at hst
      cases hst
      exact .of_task id id rfl rfl (.inl rfl)
    | some r =>
      rw [JoinState.poll_of_some hr] at hst
      cases hst
      refine ⟨id, id, .inl, .inl, fun _ h => ?_, .inl rfl⟩
      cases h
  | dropFuture =>
    cases hst
    exact .of_task s.task.dropFuture_completed (fun _ => TaskState.dropFuture_cancelRequested)
      rfl rfl (.inl rfl)
  | markQueued now =>
    cases hst
    obtain ⟨hc, hr⟩ := s.task.markQueued_ending now
    exact .of_task hc.trans hr.trans rfl rfl (.inl rfl)
  | clearQueued =>
    cases hst
    exact .of_task id id rfl rfl (.inl rfl)
  | setWaitingFor wait =>
    cases hst
    obtain ⟨hc, hr⟩ := s.task.setWaitingFor_ending wait
    exact .of_task hc.trans hr.trans rfl rfl (.inl rfl)

end JoinedTask

namespace Child
variable {F P W : Type}

structure Tracked (c : Child F P W) : Prop where
  follows : JoinedTask.Follows c.joined.task c.joined.exec
  concluded : c.fate ≠ none → c.joined.task.completed = true ∨ c.joined.exec.hasOutput = true
  output : c.joined.exec.hasOutput = true → c.fate = some .returned
  result : c.joined.join.result = some (.ok ()) → c.fate = some .returned
  released : c.joined.handle = false →
    c.joined.task.completed = true ∨ c.joined.task.cancelRequested = true

theorem tracked_spawned (future : F) : Tracked (⟨.spawned future, none⟩ : Child F P W) := by
  refine ⟨JoinedTask.follows_spawned future, fun h => ?_, fun h => ?_, fun h => ?_, fun h => ?_⟩
  · exact absurd rfl h
  · cases h
  · cases h
  · cases h

variable [DecidableEq W] {c d : Child F P W} {e : JoinEvent Unit P W}

theorem step_cases (hst : c.step e = some d) :
    c.joined.step e = some d.joined ∧ d.fate = c.fate.or (decided c.joined d.joined e) := by
  obtain ⟨t, ht, rfl⟩ := Option.map_eq_some_iff.mp hst
  exact ⟨ht, rfl⟩

/-- A fate that a step decides comes with the end of the task or with its output. -/
theorem decided_over {s t : JoinedTask F Unit P W} (hst : s.step e = some t)
    (h : decided s t e ≠ none) : t.task.completed = true ∨ t.exec.hasOutput = true := by
  have hdropped : (if t.task.completed && !s.task.completed then some Fate.dropped else none) ≠ none →
      t.task.completed = true := fun hne => by
    by_contra hc
    rw [if_neg (by simp [hc])] at hne
    exact hne rfl
  cases e with
  | output value =>
    rw [JoinedTask.step] at hst
    split at hst
    next => cases hst; exact .inr rfl
    next => cases hst
  | panic payload now =>
    rw [JoinedTask.step] at hst
    split at hst
    next => cases hst; exact .inl rfl
    next => cases hst
  | _ => exact .inl (hdropped h)

theorem fate_step {fate : Fate} (hst : c.step e = some d) (h : c.fate = some fate) :
    d.fate = some fate := by
  rw [(step_cases hst).2, h]
  rfl

theorem Tracked.step (h : Tracked c) (hst : c.step e = some d) : Tracked d := by
  obtain ⟨hjoined, hfate⟩ := step_cases hst
  have hframe := JoinedTask.frame_step hjoined
  refine ⟨JoinedTask.follows_step h.follows hjoined, fun hne => ?_, fun hout => ?_, fun hres => ?_,
    fun hreleased => ?_⟩
  · by_cases hnone : c.fate = none
    · rw [hfate, hnone] at hne
      exact decided_over hjoined hne
    · rcases h.concluded hnone with hc | hout
      · exact .inl (hframe.completed hc)
      · exact (hframe.returning hout).symm
  · rcases hframe.returns hout with hbefore | ⟨value, future, startedAt, rfl, hexec⟩
    · exact fate_step hst (h.output hbefore)
    · have hpolling := h.follows.polling.mpr (by rw [hexec]; rfl)
      have hnone : c.fate = none := by
        by_contra hne
        rcases h.concluded hne with hc | hout
        · rw [TaskState.phase_eq_ended.mpr hc] at hpolling
          cases hpolling
        · rw [hexec] at hout
          cases hout
      rw [hfate, hnone]
      rfl
  · rcases hframe.result () hres with hbefore | hout
    · exact fate_step hst (h.result hbefore)
    · exact fate_step hst (h.output hout)
  · rcases hframe.handle with hsame | ⟨-, -, htask⟩
    · rcases h.released (hsame ▸ hreleased) with hc | hr
      · exact .inl (hframe.completed hc)
      · exact .inr (hframe.requested hr)
    · rw [htask]
      exact h.follows.lifecycle.cancel_over

end Child

end Sitas.Executor
