import Sitas.Executor.Waits
import Sitas.Lib.Runs

/-! The executor's run loops. Futures do what they like while they are polled, other
threads wake tasks at any time, and the reactor answers with any descriptors. -/
namespace Sitas.Executor
open Sitas.Lib

def readyPollBudget : Nat := 64

inductive LoopMode where
  | run
  | runUntil
  deriving DecidableEq, Repr

inductive LoopPc where
  | rootCheck
  | inRoot
  | poll (budget : Nat)
  | inTask (id : Nat) (startedAt : Nat) (budget : Nat)
  | timers
  | dispatch
  | check
  | wait
  | stopped
  deriving DecidableEq, Repr

structure RunLoop (F : Type) where
  mode : LoopMode
  scheduler : Scheduler F
  pc : LoopPc
  polls : Nat
  consulted : Bool
  gaps : List Nat

inductive LoopEvent (F : Type) where
  | advance (now : Nat)
  | dispatch (completions : List TaskWaker) (now : Nat)
  | reactor (readable writable : List Int) (completions : List TaskWaker) (now : Nat)
  | rootPending
  | rootReturns
  | rootPanics
  | taskReturns (now : Nat)
  | taskPending (future : F) (now : Nat)
  | taskPanics (now : Nat)
  | pollLeaf (leaf : Leaf) (now : Nat)
  | dropLeaf (leaf : Leaf)
  | wake (waker : TaskWaker) (now : Nat)
  | spawn (future : F) (panicHandler : Option Unit) (group now : Nat)
  | cloneSpawner
  | requestStop
  | cancel (id : Nat)

namespace RunLoop
variable {F : Type}

def top : LoopMode → LoopPc
  | .run => .poll readyPollBudget
  | .runUntil => .rootCheck

def start (mode : LoopMode) (scheduler : Scheduler F) : RunLoop F :=
  ⟨mode, scheduler, top mode, 0, false, []⟩

def current (s : RunLoop F) : Option TaskWaker :=
  match s.pc with
  | .inRoot => some .root
  | .inTask id _ _ => some (.task id)
  | _ => none

def leaves (s : RunLoop F) : Bool :=
  s.mode = .run && (s.scheduler.tasks.isDrained || s.scheduler.stopping)

def skipsReactor (s : RunLoop F) : Bool :=
  match s.mode with
  | .run => s.scheduler.tasks.hasReadyTasks
  | .runUntil => s.scheduler.rootReady || s.scheduler.tasks.hasReadyTasks

def pollNext (s : RunLoop F) (now : Nat) : Nat → RunLoop F
  | 0 => { s with pc := .timers }
  | budget + 1 =>
    match s.scheduler.tasks.nextTask with
    | none => { s with pc := .timers }
    | some (id, tasks) =>
      let scheduler := { s.scheduler with tasks := tasks }
      match scheduler.cells id with
      | none => { s with scheduler := scheduler, pc := .poll budget }
      | some cell =>
        let r := cell.state.takeFutureForPoll now
        let scheduler := scheduler.setState id cell r.2
        if r.1.isSome then
          { s with scheduler := scheduler, pc := .inTask id now budget, polls := s.polls + 1 }
        else { s with scheduler := scheduler, pc := .poll budget }

def finishPoll (s : RunLoop F) (now : Nat)
    (finish : Nat → TaskState F Unit → Bool × TaskState F Unit) : Option (RunLoop F) :=
  match s.pc with
  | .inTask id startedAt budget =>
    let duration := now - startedAt
    some { s with scheduler := s.scheduler.endPoll id duration (finish duration), pc := .poll budget }
  | _ => none

def advance (s : RunLoop F) (now : Nat) : LoopPc → Option (RunLoop F)
  | .rootCheck =>
    if s.scheduler.rootReady then
      some { s with scheduler := { s.scheduler with rootReady := false }, pc := .inRoot }
    else some { s with pc := .poll readyPollBudget }
  | .poll budget => some (s.pollNext now budget)
  | .timers => some { s with scheduler := s.scheduler.wakeExpiredTimers now, pc := .dispatch }
  | .check =>
    if s.leaves then some { s with pc := .stopped }
    else if s.skipsReactor then some { s with pc := top s.mode }
    else some { s with pc := .wait }
  | _ => none

def withScheduler (s : RunLoop F) (scheduler : Scheduler F) : RunLoop F :=
  { s with scheduler := scheduler }

def step (s : RunLoop F) : LoopEvent F → Option (RunLoop F)
  | .advance now => s.advance now s.pc
  | .dispatch completions now =>
    match s.pc with
    | .dispatch => some { s with scheduler := s.scheduler.wakeAll now completions, pc := .check }
    | _ => none
  | .reactor readable writable completions now =>
    match s.pc with
    | .wait =>
      let scheduler := s.scheduler.wakeAll now completions
      let scheduler := (scheduler.wakeReadableFds readable now).wakeWritableFds writable now
      some { s with
        scheduler := scheduler.wakeExpiredTimers now
        pc := top s.mode
        polls := 0
        consulted := true
        gaps := if s.consulted then s.polls :: s.gaps else s.gaps }
    | _ => none
  | .rootPending =>
    match s.pc with
    | .inRoot => some { s with pc := .poll readyPollBudget }
    | _ => none
  | .rootReturns | .rootPanics =>
    match s.pc with
    | .inRoot => some { s with pc := .stopped }
    | _ => none
  | .taskReturns now => s.finishPoll now fun d state => (true, state.finishReady d now)
  | .taskPending future now => s.finishPoll now fun d state => state.finishPending future d now
  | .taskPanics now => s.finishPoll now fun d state => (true, (state.finishPanicked d now).2)
  | .pollLeaf leaf now =>
    (s.current.bind fun waker => leaf.poll s.scheduler now waker).map fun r =>
      s.withScheduler r.2.2
  | .dropLeaf leaf => some (s.withScheduler (leaf.drop s.scheduler))
  | .wake waker now => some (s.withScheduler (s.scheduler.wake now waker))
  | .spawn future panicHandler group now =>
    some (s.withScheduler (s.scheduler.spawn future panicHandler group now).2)
  | .cloneSpawner => some (s.withScheduler (Leaf.spawner.create s.scheduler))
  | .requestStop => some (s.withScheduler { s.scheduler with stopping := true })
  | .cancel id => some (s.withScheduler (s.scheduler.cancel id).2)

/-- At most one batch of task polls lies between two consultations of the reactor, and
since the last one. -/
def WithinBudget (s : RunLoop F) : Prop :=
  s.polls ≤ readyPollBudget ∧ ∀ gap ∈ s.gaps, gap ≤ readyPollBudget

/-- The check after a batch does not send the loop round again past the reactor. -/
def Consults (s : RunLoop F) : LoopEvent F → Prop
  | .advance _ =>
    match s.pc with
    | .check => s.leaves = true ∨ s.skipsReactor = false
    | _ => True
  | _ => True

instance (s : RunLoop F) (a : LoopEvent F) : Decidable (s.Consults a) := by
  unfold Consults
  split
  · split <;> infer_instance
  · infer_instance

def remaining : LoopPc → Nat
  | .rootCheck | .inRoot => readyPollBudget
  | .poll budget | .inTask _ _ budget => budget
  | _ => 0

/-- The polls made since the last consultation and those still ahead in this round
stay within one budget. -/
structure Paced (s : RunLoop F) : Prop where
  round : s.polls + remaining s.pc ≤ readyPollBudget
  gaps : ∀ gap ∈ s.gaps, gap ≤ readyPollBudget

theorem Paced.withinBudget {s : RunLoop F} (h : Paced s) : s.WithinBudget :=
  ⟨Nat.le_trans (Nat.le_add_right _ _) h.round, h.gaps⟩

theorem remaining_top (mode : LoopMode) : remaining (top mode) = readyPollBudget := by
  cases mode <;> rfl

private theorem paced_start (mode : LoopMode) (scheduler : Scheduler F) :
    Paced (start mode scheduler) := by
  refine ⟨?_, nofun⟩
  change 0 + remaining (top mode) ≤ readyPollBudget
  simp only [remaining_top, Nat.zero_add, Nat.le_refl]

section Steps
variable {s t : RunLoop F}

private theorem paced_move (h : Paced s) (scheduler : Scheduler F) {pc : LoopPc}
    (hpc : remaining pc ≤ remaining s.pc) : Paced { s with scheduler := scheduler, pc := pc } := by
  have hround := h.round
  refine ⟨?_, h.gaps⟩
  change s.polls + remaining pc ≤ readyPollBudget
  omega

private theorem paced_pollNext {budget : Nat} (h : Paced s) (hpc : s.pc = .poll budget)
    (now : Nat) : Paced (s.pollNext now budget) := by
  have hround := h.round
  rw [hpc] at hround
  cases budget with
  | zero => exact paced_move h s.scheduler (Nat.zero_le _)
  | succ budget =>
    have hless : remaining (.poll budget) ≤ remaining s.pc := by
      rw [hpc]
      exact Nat.le_succ budget
    rw [pollNext]
    split
    · exact paced_move h s.scheduler (Nat.zero_le _)
    · dsimp only
      split
      · exact paced_move h _ hless
      · split
        · refine ⟨?_, h.gaps⟩
          change s.polls + (budget + 1) ≤ readyPollBudget at hround
          change s.polls + 1 + budget ≤ readyPollBudget
          omega
        · exact paced_move h _ hless

private theorem paced_advance {now : Nat} (h : Paced s) (hok : s.Consults (.advance now))
    (hst : s.advance now s.pc = some t) : Paced t := by
  rw [Consults] at hok
  cases hpc : s.pc with
  | rootCheck =>
    rw [hpc, advance] at hst
    split at hst <;> cases hst <;> exact paced_move h _ (by rw [hpc]; exact le_rfl)
  | poll budget =>
    rw [hpc] at hst
    cases hst
    exact paced_pollNext h hpc now
  | timers =>
    rw [hpc] at hst
    cases hst
    exact paced_move h _ (Nat.zero_le _)
  | check =>
    rw [hpc] at hok hst
    rw [advance] at hst
    split at hst
    · cases hst
      exact paced_move h s.scheduler (Nat.zero_le _)
    next hstay =>
      rw [hok.resolve_left hstay, if_neg Bool.false_ne_true] at hst
      cases hst
      exact paced_move h s.scheduler (Nat.zero_le _)
  | inRoot | inTask id startedAt budget | dispatch | wait | stopped =>
    rw [hpc] at hst
    cases hst

private theorem paced_finishPoll {now : Nat}
    {finish : Nat → TaskState F Unit → Bool × TaskState F Unit} (h : Paced s)
    (hst : s.finishPoll now finish = some t) : Paced t := by
  rw [finishPoll] at hst
  split at hst
  next id startedAt budget hpc =>
    cases hst
    exact paced_move h _ (by rw [hpc]; exact le_rfl)
  · cases hst

private theorem paced_reactor {readable writable : List Int} {completions : List TaskWaker}
    {now : Nat} (h : Paced s)
    (hst : s.step (.reactor readable writable completions now) = some t) : Paced t := by
  rw [step] at hst
  split at hst
  · cases hst
    refine ⟨?_, ?_⟩
    · change 0 + remaining (top s.mode) ≤ readyPollBudget
      simp only [remaining_top, Nat.zero_add, Nat.le_refl]
    · intro gap (hgap : gap ∈ if s.consulted then s.polls :: s.gaps else s.gaps)
      split at hgap
      · rcases List.mem_cons.mp hgap with rfl | hgap
        · exact h.withinBudget.1
        · exact h.gaps gap hgap
      · exact h.gaps gap hgap
  · cases hst

private theorem paced_step {a : LoopEvent F} (h : Paced s) (hok : s.Consults a)
    (hst : s.step a = some t) : Paced t := by
  cases a with
  | advance now => exact paced_advance h hok hst
  | reactor readable writable completions now => exact paced_reactor h hst
  | dispatch completions now =>
    rw [step] at hst
    split at hst <;> cases hst
    exact paced_move h _ (Nat.zero_le _)
  | rootPending =>
    rw [step] at hst
    split at hst <;> cases hst
    rename_i hpc
    exact paced_move h s.scheduler (by rw [hpc]; exact le_rfl)
  | rootReturns | rootPanics =>
    rw [step] at hst
    split at hst <;> cases hst
    exact paced_move h s.scheduler (Nat.zero_le _)
  | taskReturns now | taskPending future now | taskPanics now =>
    rw [step] at hst
    exact paced_finishPoll h hst
  | pollLeaf leaf now =>
    obtain ⟨r, _, rfl⟩ := Option.map_eq_some_iff.mp hst
    exact ⟨h.round, h.gaps⟩
  | dropLeaf leaf | wake waker now | spawn future panicHandler group now | cloneSpawner | requestStop
  | cancel id =>
    cases hst
    exact ⟨h.round, h.gaps⟩

/-- A run loop that never goes round past the reactor makes at most one budget of task
polls between two consultations. -/
theorem polls_within_budget (mode : LoopMode) (scheduler : Scheduler F)
    (h : Reach step Consults (start mode scheduler) s) : s.WithinBudget :=
  (h.invariant (paced_start mode scheduler) fun _ _ _ => paced_step).withinBudget

end Steps

private def waitReadable : List (LoopEvent Unit) :=
  [.advance 0, .pollLeaf (.readable 5 none) 0, .taskPending () 0, .advance 0, .advance 0, .dispatch [] 0,
    .advance 0, .reactor [5] [] [] 0]

theorem waiting_task_within_budget : ∃ s : RunLoop Unit,
    run step (start .run .new) (.spawn () none 0 0 :: waitReadable ++ waitReadable) = some s ∧
      s.gaps = [1] ∧ s.WithinBudget := by
  refine ⟨_, rfl, rfl, ?_⟩
  exact polls_within_budget .run .new
    (reach_of_run (.spawn () none 0 0 :: waitReadable ++ waitReadable) (by decide) rfl)

/-- The polls of one batch of a task that wakes itself each time, and the check after
the batch, which sends the loop round again. -/
private def selfWakingBatch : List (LoopEvent Unit) :=
  (List.replicate readyPollBudget
    [.advance 0, .wake (.task 0) 0, .taskPending () 0]).flatten ++
    [.advance 0, .advance 0, .dispatch [] 0, .advance 0]

theorem self_waking_exceeds_budget : ∃ s : RunLoop Unit,
    run step (start .run .new)
      (.spawn () none 0 0 :: waitReadable ++ selfWakingBatch ++ waitReadable) = some s ∧
      s.gaps = [65] ∧ ¬ s.WithinBudget := by
  have hgaps : (run step (start .run .new)
      (.spawn () none 0 0 :: waitReadable ++ selfWakingBatch ++ waitReadable)).map gaps =
        some [65] := by decide +kernel
  obtain ⟨s, hrun, hs⟩ := Option.map_eq_some_iff.mp hgaps
  refine ⟨s, hrun, hs, ?_⟩
  intro h
  have hle : 65 ≤ readyPollBudget := h.2 65 (hs ▸ List.mem_singleton.mpr rfl)
  exact absurd hle (by decide)

end RunLoop
end Sitas.Executor
