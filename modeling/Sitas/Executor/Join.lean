import Sitas.Executor.TaskState
import Sitas.Lib.Parking
import Sitas.Lib.Runs

/-! A task spawned with a handle: the executor polling it, any number of aborts, the
pending await of the handle, and the scheduler's close. -/
namespace Sitas.Executor
open Sitas.Lib

inductive JoinError (P : Type) where
  | canceled
  | panic (payload : P)
  deriving DecidableEq, Repr

structure JoinState (T P W : Type) where
  result : Option (Except (JoinError P) T)
  waker : Option W

namespace JoinState
variable {T P W : Type}

/-- The locked part of `complete_join`, with the waker it invokes after unlocking. -/
def complete (s : JoinState T P W) (result : Except (JoinError P) T) : JoinState T P W × Option W :=
  if s.result.isSome then (s, none) else (⟨some result, none⟩, s.waker)

def poll (s : JoinState T P W) (waker : W) : JoinState T P W × Poll (Except (JoinError P) T) :=
  match s.result with
  | some result => ({ s with result := none }, .ready result)
  | none => ({ s with waker := some waker }, .pending)

theorem poll_of_none {s : JoinState T P W} (h : s.result = none) (w : W) :
    s.poll w = ({ s with waker := some w }, .pending) := by
  rw [poll, h]

theorem poll_of_some {s : JoinState T P W} {r : Except (JoinError P) T} (h : s.result = some r)
    (w : W) : s.poll w = ({ s with result := none }, .ready r) := by
  rw [poll, h]

end JoinState

/-- The executor thread in `Task::poll`. The spawned future completes the join before
it returns; the panic handler does so after the task has been marked completed. -/
inductive ExecPc (F T P W : Type) where
  | idle
  | polling (future : F) (startedAt : Nat)
  | completing (output : T) (startedAt : Nat)
  | notifyOutput (waker : Option W) (startedAt : Nat)
  | returned (startedAt : Nat)
  | handling (payload : P)
  | notifyPanic (waker : Option W)

def ExecPc.inPoll {F T P W : Type} : ExecPc F T P W → Bool
  | .polling _ _ | .completing _ _ | .notifyOutput _ _ | .returned _ => true
  | _ => false

def ExecPc.delivered {F T P W : Type} : ExecPc F T P W → Bool
  | .notifyOutput _ _ | .returned _ => true
  | _ => false

def ExecPc.undecided {F T P W : Type} : ExecPc F T P W → Bool
  | .idle | .polling _ _ => true
  | _ => false

def ExecPc.inHandler {F T P W : Type} : ExecPc F T P W → Bool
  | .handling _ | .notifyPanic _ => true
  | _ => false

def ExecPc.waker {F T P W : Type} : ExecPc F T P W → Option W
  | .notifyOutput w _ | .notifyPanic w => w
  | _ => none

structure JoinedTask (F T P W : Type) where
  task : TaskState F Unit
  join : JoinState T P W
  exec : ExecPc F T P W
  /-- Aborts that cancelled the task and have not yet completed the join. -/
  aborting : Nat
  /-- Wakers taken from the join state and not yet invoked. -/
  wakes : List W
  handle : Bool
  /-- The await of the handle, if its last poll returned pending. -/
  parked : Parking Unit W
  taken : Bool
  aborted : Bool
  /-- The future was dropped because the scheduler closed. -/
  droppedByClose : Bool

inductive JoinEvent (T P W : Type) where
  | pollTask (now : Nat)
  | output (value : T)
  | pending (now : Nat)
  | panic (payload : P) (now : Nat)
  | executor (now : Nat)
  | abort
  | dropHandle
  | complete
  | wake (i : Nat)
  | pollHandle (waker : W)
  | dropFuture
  | markQueued (now : Nat)
  | clearQueued
  | setWaitingFor (wait : TaskWait)

namespace JoinedTask
variable {F T P W : Type}

def spawned (future : F) : JoinedTask F T P W where
  task := .new future (some ())
  join := ⟨none, none⟩
  exec := .idle
  aborting := 0
  wakes := []
  handle := true
  parked := .empty
  taken := false
  aborted := false
  droppedByClose := false

/-- The locked part of an abort. Only a successful cancel goes on to complete the join. -/
def cancel (s : JoinedTask F T P W) : JoinedTask F T P W :=
  let cancelled := s.task.cancel.1.isSome
  { s with
    task := s.task.cancel.2
    aborting := if cancelled then s.aborting + 1 else s.aborting
    aborted := s.aborted || cancelled }

/-- The next access of the executor thread after the future has returned or panicked. -/
def executor [DecidableEq W] (s : JoinedTask F T P W) (now : Nat) :
    ExecPc F T P W → Option (JoinedTask F T P W)
  | .idle | .polling _ _ => none
  | .completing output startedAt =>
    let r := s.join.complete (.ok output)
    some { s with join := r.1, exec := .notifyOutput r.2 startedAt }
  | .notifyOutput waker startedAt =>
    some { s with parked := s.parked.wake waker.toList, exec := .returned startedAt }
  | .returned startedAt =>
    some { s with task := s.task.finishReady (now - startedAt) now, exec := .idle }
  | .handling payload =>
    let r := s.join.complete (.error (.panic payload))
    some { s with join := r.1, exec := .notifyPanic r.2 }
  | .notifyPanic waker => some { s with parked := s.parked.wake waker.toList, exec := .idle }

/-- A handle is not polled again after it returned ready. -/
def step [DecidableEq W] (s : JoinedTask F T P W) :
    JoinEvent T P W → Option (JoinedTask F T P W)
  | .pollTask now =>
    match s.exec with
    | .idle =>
      let r := s.task.takeFutureForPoll now
      some { s with
        task := r.2
        exec := match r.1 with
          | some future => .polling future now
          | none => .idle }
    | _ => none
  | .output value =>
    match s.exec with
    | .polling _ startedAt => some { s with exec := .completing value startedAt }
    | _ => none
  | .pending now =>
    match s.exec with
    | .polling future startedAt =>
      let r := s.task.finishPending future (now - startedAt) now
      some { s with
        task := r.2
        exec := .idle
        droppedByClose := s.droppedByClose || (r.1 && !s.aborted) }
    | _ => none
  | .panic payload now =>
    match s.exec with
    | .polling _ startedAt =>
      let r := s.task.finishPanicked (now - startedAt) now
      some { s with task := r.2, exec := if r.1.isSome then .handling payload else .idle }
    | _ => none
  | .executor now => s.executor now s.exec
  | .abort => if s.handle then some s.cancel else none
  | .dropHandle =>
    if s.handle then some { s.cancel with handle := false, parked := s.parked.leave () } else none
  | .complete =>
    if 0 < s.aborting then
      let r := s.join.complete (.error .canceled)
      some { s with join := r.1, aborting := s.aborting - 1, wakes := s.wakes ++ r.2.toList }
    else none
  | .wake i =>
    s.wakes[i]?.map fun w => { s with parked := s.parked.wake [w], wakes := s.wakes.eraseIdx i }
  | .pollHandle w =>
    if s.handle && !s.taken then
      match s.join.poll w with
      | (join, .ready _) => some { s with join := join, taken := true, parked := s.parked.leave () }
      | (join, .pending) => some { s with join := join, parked := s.parked.park () w }
    else none
  | .dropFuture =>
    some { s with
      task := s.task.dropFuture
      droppedByClose := s.droppedByClose || (s.task.future.isSome && !s.task.polling) }
  | .markQueued now => some { s with task := (s.task.markQueued now).2 }
  | .clearQueued => some { s with task := s.task.clearQueued }
  | .setWaitingFor wait => some { s with task := s.task.setWaitingFor wait }

def Quiescent (s : JoinedTask F T P W) : Prop :=
  s.exec = .idle ∧ s.aborting = 0 ∧ s.wakes = []

/-- The join state holds a result or gave it out. -/
def Answered (s : JoinedTask F T P W) : Prop := s.join.result.isSome = true ∨ s.taken = true

/-- The handle resolves, and a pending await of it has been woken. -/
def Resolved (s : JoinedTask F T P W) : Prop :=
  s.Answered ∧ (s.parked.waker () ≠ none → s.parked.Woken ())

end JoinedTask
end Sitas.Executor
