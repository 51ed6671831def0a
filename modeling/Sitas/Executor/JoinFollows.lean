import Mathlib.Data.List.Basic
import Sitas.Executor.Join

namespace Sitas.Executor.JoinedTask
open Sitas.Lib TaskState JoinState
variable {F T P W : Type}

structure Follows (task : TaskState F Unit) (exec : ExecPc F T P W) : Prop where
  lifecycle : task.Lifecycle
  polling : task.phase = .polling ↔ exec.inPoll = true
  handler : task.phase ≠ .ended → task.panicHandler = some ()
  handling : exec.inHandler = true → task.phase = .ended

theorem follows_spawned (future : F) :
    Follows (spawned future : JoinedTask F T P W).task (spawned future : JoinedTask F T P W).exec :=
  ⟨lifecycle_new future _, ⟨nofun, nofun⟩, fun _ => rfl, nofun⟩

section Frames
variable {task next : TaskState F Unit} {exec exec' : ExecPc F T P W}

private theorem follows_keep (h : Follows task exec) (hl : next.Lifecycle)
    (hp : next.phase = task.phase) (hh : next.panicHandler = task.panicHandler)
    (hpoll : exec'.inPoll = exec.inPoll)
    (hhandler : exec'.inHandler = true → exec.inHandler = true) : Follows next exec' := by
  refine ⟨hl, ?_, ?_, ?_⟩
  · rw [hp, hpoll]
    exact h.polling
  · rw [hp, hh]
    exact h.handler
  · rw [hp]
    exact fun hx => h.handling (hhandler hx)

private theorem follows_ended (hl : next.Lifecycle) (hp : next.phase = .ended)
    (hpoll : exec'.inPoll = false) : Follows next exec' := by
  refine ⟨hl, ?_, fun hne => absurd hp hne, fun _ => hp⟩
  rw [hp, hpoll]
  exact ⟨nofun, nofun⟩

theorem Follows.idle_of_waiting (h : Follows task exec) (hw : task.phase = .waiting) :
    exec = .idle := by
  have hpoll : ¬ exec.inPoll = true := fun hx => by
    rw [h.polling.mpr hx] at hw
    cases hw
  have hhandler : ¬ exec.inHandler = true := fun hx => by
    rw [h.handling hx] at hw
    cases hw
  cases exec <;> first | rfl | exact absurd rfl hpoll | exact absurd rfl hhandler

private theorem follows_cancel (h : Follows task exec) : Follows task.cancel.2 exec := by
  have hl := h.lifecycle.cancel
  cases hp : task.phase with
  | ended =>
    have heq := h.lifecycle.cancel_ended hp
    exact follows_keep h hl (by rw [heq]) (by rw [heq]) rfl id
  | polling =>
    have heq := h.lifecycle.cancel_polling hp
    exact follows_keep h hl (by rw [heq]; rfl) (by rw [heq]) rfl id
  | waiting =>
    have hidle := h.idle_of_waiting hp
    exact follows_ended hl (h.lifecycle.cancel_waiting hp).2.1 (by rw [hidle]; rfl)

private theorem follows_dropFuture (h : Follows task exec) : Follows task.dropFuture exec := by
  obtain ⟨hl, hphase⟩ := h.lifecycle.dropFuture
  by_cases hp : task.phase = .polling
  · rw [if_pos hp] at hphase
    exact follows_keep h hl (hphase.trans hp.symm) dropFuture_panicHandler rfl id
  · rw [if_neg hp] at hphase
    exact follows_ended hl hphase (Bool.eq_false_iff.mpr (mt h.polling.mpr hp))

end Frames

section Steps
variable [DecidableEq W] {s u : JoinedTask F T P W} {now : Nat} {a : JoinEvent T P W}
  (h : Follows s.task s.exec)
include h

private theorem follows_executor (hst : s.executor now s.exec = some u) :
    Follows u.task u.exec := by
  have hpoll := h.polling
  have hhandling := h.handling
  cases he : s.exec with
  | idle | polling f t => rw [he] at hst; cases hst
  | completing output t | notifyOutput w t | notifyPanic w =>
    rw [he] at hst hpoll
    cases hst
    exact ⟨h.lifecycle, hpoll, h.handler, nofun⟩
  | returned t =>
    rw [he] at hst hpoll
    cases hst
    obtain ⟨hl, hend⟩ := h.lifecycle.finishReady
      (h.lifecycle.phase_eq_polling.mp (hpoll.mpr rfl)) (now - t) now
    exact follows_ended hl hend rfl
  | handling payload =>
    rw [he] at hst hpoll hhandling
    cases hst
    exact ⟨h.lifecycle, hpoll, h.handler, fun _ => hhandling rfl⟩

private theorem follows_pollTask (hst : s.step (.pollTask now) = some u) :
    Follows u.task u.exec := by
  obtain ⟨hl, hsome, hnone⟩ := h.lifecycle.takeFutureForPoll now
  rw [step] at hst
  split at hst
  next he =>
    cases hst
    have hh := s.task.takeFutureForPoll_panicHandler now
    cases hr : (s.task.takeFutureForPoll now).1 with
    | none => exact follows_keep h hl (hnone hr) hh (by rw [he]) nofun
    | some future =>
      obtain ⟨hwaiting, hpolling⟩ := hsome (by rw [hr]; rfl)
      refine ⟨hl, ⟨fun _ => rfl, fun _ => hpolling⟩, fun _ => ?_, nofun⟩
      exact hh.trans (h.handler (by simp [hwaiting]))
  · cases hst

private theorem follows_pending (hst : s.step (.pending now) = some u) : Follows u.task u.exec := by
  rw [step] at hst
  split at hst
  next future t he =>
    cases hst
    have hpolling := h.polling.mpr (by rw [he]; rfl)
    obtain ⟨hl, hflag, hphase⟩ := h.lifecycle.finishPending
      (h.lifecycle.phase_eq_polling.mp hpolling) future (now - t) now
    cases hr : s.task.cancelRequested with
    | true =>
      rw [hr, if_pos rfl] at hphase
      exact follows_ended hl hphase rfl
    | false =>
      rw [hr, if_neg Bool.false_ne_true] at hphase
      have hh := s.task.finishPending_panicHandler future (now - t) now
      refine ⟨hl, ?_, fun _ => hh.trans (h.handler (by simp [hpolling])), nofun⟩
      change (s.task.finishPending future (now - t) now).2.phase = .polling ↔ false = true
      rw [hphase]
      exact ⟨nofun, nofun⟩
  · cases hst

theorem follows_step (hst : s.step a = some u) : Follows u.task u.exec := by
  cases a with
  | pollTask now => exact follows_pollTask h hst
  | output value =>
    rw [step] at hst
    split at hst <;> cases hst
    rename_i future t he
    exact follows_keep h h.lifecycle rfl rfl (by rw [he]; rfl) nofun
  | pending now => exact follows_pending h hst
  | panic payload now =>
    rw [step] at hst
    split at hst <;> cases hst
    obtain ⟨hl, hend⟩ := s.task.finishPanicked_ended (now - _) now
    exact follows_ended hl hend (by split <;> rfl)
  | executor now => exact follows_executor h hst
  | abort | dropHandle =>
    obtain ⟨_, rfl⟩ := guarded hst
    exact follows_cancel h
  | complete =>
    obtain ⟨_, rfl⟩ := guarded hst
    exact h
  | wake i =>
    obtain ⟨w, _, rfl⟩ := Option.map_eq_some_iff.mp hst
    exact h
  | pollHandle w =>
    rw [step] at hst
    split at hst
    · split at hst <;> cases hst <;> exact h
    · cases hst
  | dropFuture =>
    cases hst
    exact follows_dropFuture h
  | markQueued now =>
    cases hst
    obtain ⟨hl, hp⟩ := h.lifecycle.markQueued now
    exact follows_keep h hl hp (markQueued_panicHandler now) rfl id
  | clearQueued =>
    cases hst
    exact ⟨⟨h.lifecycle.ended, h.lifecycle.polling, h.lifecycle.alive⟩, h.polling, h.handler,
      h.handling⟩
  | setWaitingFor wait =>
    cases hst
    obtain ⟨hl, hp⟩ := h.lifecycle.setWaitingFor wait
    exact follows_keep h hl hp (setWaitingFor_panicHandler wait) rfl id

end Steps

end Sitas.Executor.JoinedTask
