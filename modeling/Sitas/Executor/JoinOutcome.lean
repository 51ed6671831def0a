import Sitas.Executor.JoinFollows

namespace Sitas.Executor.JoinedTask
open Sitas.Lib TaskState JoinState
variable {F T P W : Type}

structure Outcome (s : JoinedTask F T P W) : Prop where
  ended : s.task.phase = .ended → s.droppedByClose = false →
    0 < s.aborting ∨ (∃ payload, s.exec = .handling payload) ∨ s.Answered
  delivered : s.exec.delivered = true → s.Answered
  aborted : s.aborted = true → s.task.cancelRequested = true ∧ s.task.phase ≠ .waiting ∧
    (0 < s.aborting ∨ s.Answered)
  fresh : s.aborted = false → s.aborting = 0 ∧
    (s.exec.undecided = true → s.task.phase ≠ .ended → ¬ s.Answered)
  dropped : s.droppedByClose = true → s.task.phase = .ended ∧ s.exec = .idle ∧
    s.aborted = false ∧ ¬ s.Answered

theorem outcome_spawned (future : F) : Outcome (spawned future : JoinedTask F T P W) :=
  ⟨nofun, nofun, nofun, fun _ => ⟨rfl, fun _ _ ha => ha.elim nofun nofun⟩, nofun⟩

section Frames
variable {task : TaskState F Unit} {s : JoinedTask F T P W}

private theorem Outcome.not_aborted (h : Outcome s) (hp : s.task.phase = .waiting) :
    s.aborted = false := by
  by_contra ha
  exact (h.aborted (Bool.of_not_eq_false ha)).2.1 hp

private theorem outcome_keep (h : Outcome s)
    (hp : task.phase = s.task.phase)
    (hr : s.task.cancelRequested = true → task.cancelRequested = true) :
    Outcome { s with task := task } := by
  refine ⟨?_, h.delivered, ?_, ?_, ?_⟩
  · intro he
    exact h.ended (hp.symm.trans he)
  · intro ha
    obtain ⟨hreq, hw, hans⟩ := h.aborted ha
    exact ⟨hr hreq, fun he => hw (hp.symm.trans he), hans⟩
  · intro ha
    obtain ⟨hnone, hfresh⟩ := h.fresh ha
    exact ⟨hnone, fun hu he => hfresh hu fun hx => he (hp.trans hx)⟩
  · intro hd
    obtain ⟨he, hrest⟩ := h.dropped hd
    exact ⟨hp.trans he, hrest⟩

/-- A result arrives in the join state. From now on the handle is answered. -/
private theorem outcome_answer (h : Outcome s) {join : JoinState T P W}
    (exec : ExecPc F T P W) (wakes : List W) (n : Nat)
    (hans : { s with join := join, exec := exec, wakes := wakes, aborting := n }.Answered)
    (hn : s.aborted = false → n = 0) (hu : exec.undecided = true → 0 < s.aborting)
    (hidle : s.exec = .idle → 0 < s.aborting) :
    Outcome { s with join := join, exec := exec, wakes := wakes, aborting := n } := by
  refine ⟨fun _ _ => .inr (.inr hans), fun _ => hans, ?_, ?_, ?_⟩
  · intro ha
    obtain ⟨hreq, hw, _⟩ := h.aborted ha
    exact ⟨hreq, hw, .inr hans⟩
  · intro ha
    refine ⟨hn ha, fun hx => ?_⟩
    have hpos := hu hx
    have hzero := (h.fresh ha).1
    omega
  · intro hd
    obtain ⟨_, hx, ha, _⟩ := h.dropped hd
    have hpos := hidle hx
    have hzero := (h.fresh ha).1
    omega

private theorem complete_result (join : JoinState T P W) (r : Except (JoinError P) T) :
    (join.complete r).1.result.isSome = true := by
  rw [complete]
  split
  · assumption
  · rfl

private theorem outcome_cancel (hf : Follows s.task s.exec) (h : Outcome s) : Outcome s.cancel := by
  by_cases hp : s.task.phase = .ended
  · have heq : s.cancel = s := by
      simp only [cancel, hf.lifecycle.cancel_ended hp, Option.isSome_none, Bool.or_false,
        Bool.false_eq_true, if_false]
    rw [heq]
    exact h
  · obtain ⟨hsome, hphase, hreq⟩ := hf.lifecycle.cancel_live hp
    have haborting : s.cancel.aborting = s.aborting + 1 := by simp only [cancel, hsome, if_true]
    have haborted : s.cancel.aborted = true := by simp only [cancel, hsome, Bool.or_true]
    refine ⟨fun _ _ => .inl (by omega), h.delivered, fun _ => ⟨hreq, hphase, .inl (by omega)⟩, ?_, ?_⟩
    · intro ha
      rw [haborted] at ha
      cases ha
    · intro hd
      exact absurd (h.dropped hd).1 hp

private theorem outcome_dropFuture (hf : Follows s.task s.exec) (h : Outcome s) :
    Outcome { s with
      task := s.task.dropFuture
      droppedByClose := s.droppedByClose || (s.task.future.isSome && !s.task.polling) } := by
  have hphase := hf.lifecycle.dropFuture.2
  have hflag : (s.task.future.isSome && !s.task.polling) = true ↔ s.task.phase = .waiting := by
    rw [hf.lifecycle.phase_eq_waiting, Bool.and_eq_true, Bool.not_eq_true']
  cases hp : s.task.phase with
  | waiting =>
    rw [hp] at hphase
    have hidle := hf.idle_of_waiting hp
    have hnot := h.not_aborted hp
    have hfresh := (h.fresh hnot).2 (by rw [hidle]; rfl) (by simp [hp])
    rw [hflag.mpr hp, Bool.or_true]
    refine ⟨nofun, h.delivered, ?_, ?_, fun _ => ⟨hphase, hidle, hnot, hfresh⟩⟩
    · intro (ha : s.aborted = true)
      rw [hnot] at ha
      cases ha
    · intro _
      exact ⟨(h.fresh hnot).1, fun _ hne => absurd hphase hne⟩
  | polling | ended =>
    have hsame : s.task.dropFuture.phase = s.task.phase := by
      rw [hphase, hp]
      rfl
    have hoff : (s.task.future.isSome && !s.task.polling) = false := by
      rw [Bool.eq_false_iff, Ne, hflag, hp]
      simp
    rw [hoff, Bool.or_false]
    exact outcome_keep h hsame fun _ => dropFuture_cancelRequested

end Frames

section Steps
variable [DecidableEq W] {s u : JoinedTask F T P W} {now : Nat} {a : JoinEvent T P W}

section
variable (hf : Follows s.task s.exec)
include hf

private theorem outcome_executor (h : Outcome s) (hst : s.executor now s.exec = some u) :
    Outcome u := by
  have hdelivered := h.delivered
  have hended := h.ended
  have hhandling := hf.handling
  have hlive : s.droppedByClose = true → s.exec = .idle := fun hd => (h.dropped hd).2.1
  cases he : s.exec with
  | idle | polling f t => rw [he] at hst; cases hst
  | completing output t | handling payload =>
    rw [he] at hst
    cases hst
    exact outcome_answer h _ s.wakes s.aborting (.inl (complete_result _ _))
      (fun ha => (h.fresh ha).1) nofun (by simp [he])
  | notifyOutput w t =>
    rw [he] at hst hdelivered hlive
    cases hst
    exact ⟨fun _ _ => .inr (.inr (hdelivered rfl)), fun _ => hdelivered rfl, h.aborted,
      fun ha => ⟨(h.fresh ha).1, nofun⟩, fun hd => nomatch hlive hd⟩
  | returned t =>
    rw [he] at hst hdelivered hlive
    cases hst
    refine ⟨fun _ _ => .inr (.inr (hdelivered rfl)), nofun, ?_, ?_, fun hd => nomatch hlive hd⟩
    · intro ha
      exact ⟨(h.aborted ha).1, nofun, .inr (hdelivered rfl)⟩
    · intro ha
      exact ⟨(h.fresh ha).1, fun _ hne => absurd rfl hne⟩
  | notifyPanic w =>
    rw [he] at hst hended hhandling hlive
    cases hst
    refine ⟨?_, nofun, h.aborted, ?_, fun hd => nomatch hlive hd⟩
    · intro hp hd
      rcases hended hp hd with hab | ⟨payload, hx⟩ | ha
      · exact .inl hab
      · cases hx
      · exact .inr (.inr ha)
    · intro ha
      exact ⟨(h.fresh ha).1, fun _ hne => absurd (hhandling rfl) hne⟩

private theorem outcome_pollTask (h : Outcome s) (hst : s.step (.pollTask now) = some u) :
    Outcome u := by
  obtain ⟨_, hsome, hnone⟩ := hf.lifecycle.takeFutureForPoll now
  rw [step] at hst
  split at hst
  next he =>
    cases hst
    have hr := s.task.takeFutureForPoll_cancelRequested now
    cases hx : (s.task.takeFutureForPoll now).1 with
    | none =>
      have hkeep := outcome_keep h (hnone hx) fun hreq => hr.trans hreq
      rw [he] at hkeep
      exact hkeep
    | some future =>
      obtain ⟨hwaiting, hpolling⟩ := hsome (by rw [hx]; rfl)
      have hnot := h.not_aborted hwaiting
      have hfresh := (h.fresh hnot).2 (by rw [he]; rfl) (by simp [hwaiting])
      refine ⟨?_, by rintro ⟨⟩, ?_, fun _ => ⟨(h.fresh hnot).1, fun _ _ => hfresh⟩, ?_⟩
      · intro hp
        cases hpolling.symm.trans hp
      · intro (ha : s.aborted = true)
        rw [hnot] at ha
        cases ha
      · intro hd
        cases hwaiting.symm.trans (h.dropped hd).1
  · cases hst

private theorem outcome_pending (h : Outcome s) (hst : s.step (.pending now) = some u) :
    Outcome u := by
  rw [step] at hst
  split at hst
  next future t he =>
    cases hst
    have hpolling := hf.polling.mpr (by rw [he]; rfl)
    obtain ⟨_, hflag, hphase⟩ := hf.lifecycle.finishPending
      (hf.lifecycle.phase_eq_polling.mp hpolling) future (now - t) now
    have hkept : s.droppedByClose = false := by
      by_contra hd
      cases he.symm.trans (h.dropped (Bool.of_not_eq_false hd)).2.1
    have hreq := s.task.finishPending_cancelRequested future (now - t) now
    rw [hflag, hkept, Bool.false_or]
    cases hr : s.task.cancelRequested with
    | true =>
      rw [hr, if_pos rfl] at hphase
      refine ⟨?_, by rintro ⟨⟩, ?_, ?_, ?_⟩
      · intro _ (hd : (true && !s.aborted) = false)
        have ha : s.aborted = true := by simpa using hd
        exact ((h.aborted ha).2.2).imp_right .inr
      · intro ha
        exact ⟨hreq.trans hr, fun hw => (by cases hphase.symm.trans hw), (h.aborted ha).2.2⟩
      · intro ha
        exact ⟨(h.fresh ha).1, fun _ hne => absurd hphase hne⟩
      · intro (hd : (true && !s.aborted) = true)
        have ha : s.aborted = false := by simpa using hd
        exact ⟨hphase, rfl, ha, (h.fresh ha).2 (by rw [he]; rfl) (by simp [hpolling])⟩
    | false =>
      rw [hr, if_neg Bool.false_ne_true] at hphase
      have hnot : s.aborted = false := by
        by_contra ha
        cases hr.symm.trans (h.aborted (Bool.of_not_eq_false ha)).1
      have hfresh := (h.fresh hnot).2 (by rw [he]; rfl) (by simp [hpolling])
      refine ⟨?_, by rintro ⟨⟩, ?_, fun _ => ⟨(h.fresh hnot).1, fun _ _ => hfresh⟩, by rintro ⟨⟩⟩
      · intro hp
        cases hphase.symm.trans hp
      · intro (ha : s.aborted = true)
        rw [hnot] at ha
        cases ha
  · cases hst

private theorem outcome_panic {payload : P} (h : Outcome s)
    (hst : s.step (.panic payload now) = some u) : Outcome u := by
  rw [step] at hst
  split at hst
  next future t he =>
    cases hst
    have hpolling := hf.polling.mpr (by rw [he]; rfl)
    have hhandler : (s.task.finishPanicked (now - t) now).1 = some () :=
      hf.handler (by simp [hpolling])
    rw [hhandler]
    refine ⟨fun _ _ => .inr (.inl ⟨payload, rfl⟩), by rintro ⟨⟩, ?_, ?_, ?_⟩
    · intro ha
      exact ⟨(h.aborted ha).1, by rintro ⟨⟩, (h.aborted ha).2.2⟩
    · intro ha
      exact ⟨(h.fresh ha).1, by rintro ⟨⟩⟩
    · intro hd
      cases he.symm.trans (h.dropped hd).2.1
  · cases hst

end

private theorem outcome_pollHandle {w : W} (h : Outcome s)
    (hst : s.step (.pollHandle w) = some u) : Outcome u := by
  rw [step] at hst
  split at hst
  · cases hr : s.join.result with
    | some result =>
      rw [poll_of_some hr] at hst
      cases hst
      have hold : s.Answered := .inl (by rw [hr]; rfl)
      refine ⟨fun _ _ => .inr (.inr (.inr rfl)), fun _ => .inr rfl, ?_, ?_, ?_⟩
      · intro ha
        exact ⟨(h.aborted ha).1, (h.aborted ha).2.1, .inr (.inr rfl)⟩
      · intro ha
        exact ⟨(h.fresh ha).1, fun hu hne => absurd hold ((h.fresh ha).2 hu hne)⟩
      · intro hd
        exact absurd hold (h.dropped hd).2.2.2
    | none =>
      rw [poll_of_none hr] at hst
      cases hst
      exact ⟨h.ended, h.delivered, h.aborted, h.fresh, h.dropped⟩
  · cases hst

theorem outcome_step (hf : Follows s.task s.exec) (h : Outcome s)
    (hst : s.step a = some u) : Outcome u := by
  cases a with
  | pollTask now => exact outcome_pollTask hf h hst
  | output value =>
    rw [step] at hst
    split at hst <;> cases hst
    rename_i future t he
    have hpolling := hf.polling.mpr (by rw [he]; rfl)
    refine ⟨?_, by rintro ⟨⟩, h.aborted, fun ha => ⟨(h.fresh ha).1, by rintro ⟨⟩⟩, ?_⟩
    · intro hp
      cases hpolling.symm.trans hp
    · intro hd
      cases he.symm.trans (h.dropped hd).2.1
  | pending now => exact outcome_pending hf h hst
  | panic payload now => exact outcome_panic hf h hst
  | executor now => exact outcome_executor hf h hst
  | abort =>
    obtain ⟨_, rfl⟩ := guarded hst
    exact outcome_cancel hf h
  | dropHandle =>
    obtain ⟨_, rfl⟩ := guarded hst
    have hc := outcome_cancel hf h
    exact ⟨hc.ended, hc.delivered, hc.aborted, hc.fresh, hc.dropped⟩
  | complete =>
    obtain ⟨hpos, rfl⟩ := guarded hst
    refine outcome_answer h s.exec _ _ (.inl (complete_result _ _)) ?_ (fun _ => hpos)
      fun _ => hpos
    intro ha
    have hzero := (h.fresh ha).1
    omega
  | wake i =>
    obtain ⟨w, _, rfl⟩ := Option.map_eq_some_iff.mp hst
    exact ⟨h.ended, h.delivered, h.aborted, h.fresh, h.dropped⟩
  | pollHandle w => exact outcome_pollHandle h hst
  | dropFuture =>
    cases hst
    exact outcome_dropFuture hf h
  | markQueued now =>
    cases hst
    refine outcome_keep h (hf.lifecycle.markQueued now).2 ?_
    rw [markQueued]
    split <;> exact id
  | clearQueued =>
    cases hst
    exact outcome_keep h rfl id
  | setWaitingFor wait =>
    cases hst
    refine outcome_keep h (hf.lifecycle.setWaitingFor wait).2 ?_
    rw [setWaitingFor]
    split <;> exact id

end Steps

end Sitas.Executor.JoinedTask
