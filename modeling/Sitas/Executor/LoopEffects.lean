import Sitas.Executor.ReadyTasks
import Sitas.Executor.RunLoop

namespace Sitas.Executor
open Sitas.Lib List SchedulerTaskSet Option

namespace LoopPc

def polled : LoopPc → Option Nat
  | .inTask id _ _ => some id
  | _ => none

end LoopPc

namespace LoopEvent
variable {F : Type}

def drives : LoopEvent F → Bool
  | .advance _ | .dispatch _ _ | .reactor _ _ _ _ | .rootPending | .rootReturns | .rootPanics
  | .taskReturns _ | .taskPending _ _ | .taskPanics _ => true
  | _ => false

def finishedAt : LoopEvent F → Option Nat
  | .taskReturns now | .taskPending _ now | .taskPanics now => some now
  | _ => none

def cancels : LoopEvent F → Bool
  | .cancel _ => true
  | _ => false

end LoopEvent

namespace RunLoop
open Scheduler
variable {F : Type} {s t : RunLoop F} {e : LoopEvent F}

structure Valid (s : RunLoop F) : Prop where
  sound : s.scheduler.Sound
  polling : ∀ id, s.scheduler.phaseOf id = some .polling ↔ s.pc.polled = some id

/-- A task is taken from the ready queues. It is polled unless it has ended. -/
structure Took (s t : RunLoop F) (id : Nat) : Prop where
  next : s.scheduler.tasks.nextTask = some (id, t.scheduler.tasks)
  idle : s.pc.polled = none
  cells : ∀ other cell, s.scheduler.cells other = some cell →
    ∃ next, t.scheduler.cells other = some next ∧ next.group = cell.group
  outcome : t.pc.polled = some id ∨ (t.pc.polled = none ∧ s.scheduler.phaseOf id = some .ended ∧
    t.scheduler.phaseOf = s.scheduler.phaseOf)

structure Finished (s t : RunLoop F) (id startedAt now : Nat) (cell : TaskCell F) : Prop where
  polled : s.pc.polled = some id
  found : s.scheduler.cells id = some cell
  idle : t.pc.polled = none
  groups : t.scheduler.tasks.groups =
    (s.scheduler.tasks.recordTaskPoll cell.group (now - startedAt)).groups

inductive Effect (s : RunLoop F) (e : LoopEvent F) (t : RunLoop F) : Prop
  | kept (kept : Kept (e.cancels = false) s.scheduler t.scheduler)
      (polled : t.pc.polled = s.pc.polled)
  | took (id : Nat) (took : Took s t id)
  | finished (id startedAt budget now : Nat) (cell : TaskCell F)
      (pc : s.pc = .inTask id startedAt budget) (time : e.finishedAt = some now)
      (finished : Finished s t id startedAt now cell)

section Effects

theorem polled_top (mode : LoopMode) : (top mode).polled = none := by
  cases mode <;> rfl

section
variable (h : Valid s)
include h

theorem Valid.of_kept {c : Prop} (hk : Kept c s.scheduler t.scheduler)
    (hp : t.pc.polled = s.pc.polled) : Valid t :=
  ⟨hk.sound, fun id => (hk.polling id).trans (hp ▸ h.polling id)⟩

private theorem effect_move {scheduler : Scheduler F} {pc : LoopPc}
    (hk : Kept (e.cancels = false) s.scheduler scheduler) (hp : pc.polled = s.pc.polled) :
    Valid { s with scheduler := scheduler, pc := pc } ∧
      Effect s e { s with scheduler := scheduler, pc := pc } :=
  ⟨h.of_kept hk hp, .kept hk hp⟩

theorem took_pollNext {id : Nat} {tasks : SchedulerTaskSet} (hidle : s.pc.polled = none)
    (hnext : s.scheduler.tasks.nextTask = some (id, tasks)) (now budget : Nat) :
    Valid (s.pollNext now (budget + 1)) ∧ Took s (s.pollNext now (budget + 1)) id := by
  obtain ⟨hsound, cell, hcell⟩ := h.sound.take hnext
  rw [pollNext, hnext]
  dsimp only
  rw [hcell]
  obtain ⟨hl, hlive, hdead⟩ := (h.sound.lifecycle id cell hcell).takeFutureForPoll now
  have hafter := hsound.setState hcell hl
  have hcells := exists_setState (s := { s.scheduler with tasks := tasks }) hcell
    (cell.state.takeFutureForPoll now).2
  have hnone : ∀ other, s.scheduler.phaseOf other ≠ some .polling := by
    intro other hp
    cases hidle.symm.trans ((h.polling other).mp hp)
  dsimp only
  split
  next hsome =>
    refine ⟨⟨hafter, fun other => ?_⟩, ⟨hnext, hidle, hcells, .inl rfl⟩⟩
    rw [phaseOf_setState, (hlive hsome).2, LoopPc.polled]
    split
    next heq =>
      exact ⟨fun _ => congrArg some heq.symm, fun _ => rfl⟩
    next hne =>
      exact ⟨fun hp => absurd hp (hnone other), fun heq => absurd (some.inj heq).symm hne⟩
  next hsome =>
    have hgone := not_isSome_iff_eq_none.mp hsome
    have hphase : (({ s.scheduler with tasks := tasks } : Scheduler F).setState id cell
        (cell.state.takeFutureForPoll now).2).phaseOf = s.scheduler.phaseOf := by
      funext other
      rw [phaseOf_setState, hdead hgone]
      split
      next heq =>
        rw [heq, phaseOf_eq hcell]
      · rfl
    have hended : cell.state.phase = .ended := by
      cases hp : cell.state.phase with
      | ended => rfl
      | polling => exact absurd ((phaseOf_eq hcell).trans (congrArg some hp)) (hnone id)
      | waiting =>
        have hfuture := ((h.sound.lifecycle id cell hcell).phase_eq_waiting.mp hp).1
        rw [(TaskState.takeFutureForPoll_of_none hgone).1] at hfuture
        cases hfuture
    refine ⟨⟨hafter, fun other => ?_⟩, ⟨hnext, hidle, hcells, .inr ⟨rfl, ?_, hphase⟩⟩⟩
    · rw [hphase]
      exact ⟨fun hp => absurd hp (hnone other), fun heq => absurd heq.symm (some_ne_none _)⟩
    · rw [phaseOf_eq hcell, hended]

private theorem effect_pollNext {budget : Nat} (hpc : s.pc = .poll budget) (now : Nat) :
    Valid (s.pollNext now budget) ∧ Effect s e (s.pollNext now budget) := by
  have hidle : s.pc.polled = none := by rw [hpc]; rfl
  have hend : Valid { s with pc := .timers } ∧ Effect s e { s with pc := .timers } :=
    effect_move h (.refl h.sound) hidle.symm
  cases budget with
  | zero => exact hend
  | succ budget =>
    cases hnext : s.scheduler.tasks.nextTask with
    | none =>
      rw [pollNext, hnext]
      exact hend
    | some r =>
      obtain ⟨hvalid, htook⟩ := took_pollNext h hidle hnext now budget
      exact ⟨hvalid, .took r.1 htook⟩

private theorem effect_advance {now : Nat} (hst : s.advance now s.pc = some t) :
    Valid t ∧ Effect s (.advance now) t := by
  cases hpc : s.pc with
  | rootCheck =>
    rw [hpc, advance] at hst
    split at hst <;> cases hst
    · exact effect_move h (kept_same h.sound rfl le_rfl rfl) (by rw [hpc]; rfl)
    · exact effect_move h (.refl h.sound) (by rw [hpc]; rfl)
  | poll budget =>
    rw [hpc] at hst
    cases hst
    exact effect_pollNext h hpc now
  | timers =>
    rw [hpc] at hst
    cases hst
    exact effect_move h (kept_wakeExpiredTimers h.sound now) (by rw [hpc]; rfl)
  | check =>
    rw [hpc, advance] at hst
    split at hst
    · cases hst
      exact effect_move h (.refl h.sound) (by rw [hpc]; rfl)
    · split at hst <;> cases hst
      · exact effect_move h (.refl h.sound) (by rw [hpc, polled_top]; rfl)
      · exact effect_move h (.refl h.sound) (by rw [hpc]; rfl)
  | inRoot | inTask id startedAt budget | dispatch | wait | stopped =>
    rw [hpc] at hst
    cases hst

private theorem effect_finishPoll {now : Nat}
    {finish : Nat → TaskState F Unit → Bool × TaskState F Unit} (htime : e.finishedAt = some now)
    (hfinish : ∀ d (state : TaskState F Unit), state.Lifecycle → state.polling = true →
      (finish d state).2.Lifecycle ∧ (finish d state).2.phase ≠ .polling)
    (hst : s.finishPoll now finish = some t) : Valid t ∧ Effect s e t := by
  rw [finishPoll] at hst
  split at hst
  next id startedAt budget hpc =>
    cases hst
    have hpolled : s.pc.polled = some id := by rw [hpc]; rfl
    obtain ⟨cell, hcell, hphase⟩ := map_eq_some_iff.mp ((h.polling id).mpr hpolled)
    have hlife := h.sound.lifecycle id cell hcell
    obtain ⟨hl, hp⟩ := hfinish (now - startedAt) cell.state hlife (hlife.phase_eq_polling.mp hphase)
    obtain ⟨hsound, hgroups, hphases⟩ := h.sound.endPoll hcell hl
    refine ⟨⟨hsound, fun other => ?_⟩,
      .finished id startedAt budget now cell hpc htime ⟨hpolled, hcell, rfl, hgroups⟩⟩
    refine ⟨fun hpoll => ?_, fun heq => absurd heq.symm (some_ne_none _)⟩
    rw [hphases] at hpoll
    split at hpoll
    · exact absurd (some.inj hpoll) hp
    next hne =>
      exact absurd (some.inj (hpolled.symm.trans ((h.polling other).mp hpoll))).symm hne
  · cases hst

theorem effect_step (hst : s.step e = some t) : Valid t ∧ Effect s e t := by
  cases e with
  | advance now => exact effect_advance h hst
  | dispatch completions now =>
    rw [step] at hst
    split at hst <;> cases hst
    rename_i hpc
    exact effect_move h (kept_wakeAll h.sound now completions) (by rw [hpc]; rfl)
  | reactor readable writable completions now =>
    rw [step] at hst
    split at hst <;> cases hst
    rename_i hpc
    have hwoken := kept_wakeAll (c := True) h.sound now completions
    have hreadable := hwoken.trans (kept_wakeReadableFds hwoken.sound readable now)
    have hwritable := hreadable.trans (kept_wakeWritableFds hreadable.sound writable now)
    have hkept := hwritable.trans (kept_wakeExpiredTimers hwritable.sound now)
    have hpolled : (top s.mode).polled = s.pc.polled := by rw [hpc, polled_top]; rfl
    exact ⟨h.of_kept hkept hpolled, .kept (hkept.mono fun _ => trivial) hpolled⟩
  | rootPending | rootReturns | rootPanics =>
    rw [step] at hst
    split at hst <;> cases hst
    rename_i hpc
    exact effect_move h (.refl h.sound) (by rw [hpc]; rfl)
  | taskReturns now =>
    rw [step] at hst
    refine effect_finishPoll h rfl (fun d state hl hp => ?_) hst
    obtain ⟨hnext, hended⟩ := hl.finishReady hp d now
    exact ⟨hnext, by rw [hended]; decide⟩
  | taskPending future now =>
    rw [step] at hst
    refine effect_finishPoll h rfl (fun d state hl hp => ?_) hst
    obtain ⟨hnext, _, hphase⟩ := hl.finishPending hp future d now
    refine ⟨hnext, ?_⟩
    rw [hphase]
    split <;> decide
  | taskPanics now =>
    rw [step] at hst
    refine effect_finishPoll h rfl (fun d state hl hp => ?_) hst
    obtain ⟨hnext, hended⟩ := state.finishPanicked_ended d now
    exact ⟨hnext, by rw [hended]; decide⟩
  | pollLeaf leaf now =>
    obtain ⟨r, hr, rfl⟩ := map_eq_some_iff.mp hst
    obtain ⟨waker, _, hpoll⟩ := bind_eq_some_iff.mp hr
    exact effect_move h (Leaf.kept_poll h.sound hpoll) rfl
  | dropLeaf leaf =>
    cases hst
    exact effect_move h (Leaf.kept_drop h.sound leaf) rfl
  | wake waker now =>
    cases hst
    exact effect_move h (kept_wake h.sound now waker) rfl
  | spawn future panicHandler group now =>
    cases hst
    exact effect_move h (kept_spawn h.sound future panicHandler group now) rfl
  | cloneSpawner | requestStop =>
    cases hst
    exact effect_move h (kept_same h.sound rfl le_rfl rfl) rfl
  | cancel id =>
    cases hst
    exact effect_move h ((kept_cancel h.sound id).mono fun hcalm => Bool.false_ne_true hcalm.symm) rfl

end

end Effects

end RunLoop
end Sitas.Executor
