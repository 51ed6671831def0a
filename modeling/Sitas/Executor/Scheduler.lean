import Sitas.Executor.Readiness
import Sitas.Executor.TaskSet
import Sitas.Executor.TaskState

/-! The scheduler with the tasks it drives. Each operation is one critical section
followed by the wake-ups it makes after unlocking. -/
namespace Sitas.Executor
open Function

/-- A waker of the root future or of a task. The latter is a strong reference to it. -/
inductive TaskWaker where
  | root
  | task (id : Nat)
  deriving DecidableEq, Repr

def TaskWaker.task? : TaskWaker → Option Nat
  | .root => none
  | .task id => some id

/-- The part of a task that scheduling reads and changes. -/
structure TaskCell (F : Type) where
  group : Nat
  state : TaskState F Unit

structure Scheduler (F : Type) where
  tasks : SchedulerTaskSet
  timers : TimerSet TaskWaker
  interests : ReadinessInterests TaskWaker
  stopping : Bool
  cells : Nat → Option (TaskCell F)
  rootReady : Bool

namespace Scheduler
variable {F : Type}

def new : Scheduler F := ⟨.new, .new, .new, false, fun _ => none, true⟩

def setState (s : Scheduler F) (id : Nat) (cell : TaskCell F) (state : TaskState F Unit) :
    Scheduler F :=
  { s with cells := Function.update s.cells id (some { cell with state := state }) }

/-- The references to tasks that the scheduler holds, in the order in which closing
drops them. -/
def references (s : Scheduler F) : List Nat :=
  (s.timers.timers.map TimerEntry.waker ++ s.interests.reads.interests.map IoInterest.waker ++
    s.interests.writes.interests.map IoInterest.waker).filterMap TaskWaker.task? ++
  s.tasks.queued

/-- Wakes of a task that is queued already, or has ended, are coalesced. -/
def scheduleExisting (s : Scheduler F) (id now : Nat) : Scheduler F :=
  match s.cells id with
  | none => s
  | some cell =>
    let r := cell.state.markQueued now
    if r.1 then
      match s.tasks.scheduleExisting cell.group id with
      | .ok tasks => { s.setState id cell r.2 with tasks := tasks }
      | .error _ => s.setState id cell r.2.clearQueued
    else s

def wake (s : Scheduler F) (now : Nat) : TaskWaker → Scheduler F
  | .root => { s with rootReady := true }
  | .task id => s.scheduleExisting id now

def wakeAll (s : Scheduler F) (now : Nat) (wakers : List TaskWaker) : Scheduler F :=
  wakers.foldl (fun s w => s.wake now w) s

def wakeExpiredTimers (s : Scheduler F) (now : Nat) : Scheduler F :=
  { s with timers := (s.timers.expired now).2 }.wakeAll now (s.timers.expired now).1

def wakeReadableFds (s : Scheduler F) (fds : List Int) (now : Nat) : Scheduler F :=
  let r := s.interests.reads.wakeReady fds
  { s with interests := { s.interests with reads := r.2 } }.wakeAll now r.1

def wakeWritableFds (s : Scheduler F) (fds : List Int) (now : Nat) : Scheduler F :=
  let r := s.interests.writes.wakeReady fds
  { s with interests := { s.interests with writes := r.2 } }.wakeAll now r.1

/-- Spawning a task. A rejected one has used up an identifier, and nothing refers to it
any more. -/
def spawn (s : Scheduler F) (future : F) (panicHandler : Option Unit) (group now : Nat) :
    Except SpawnError Nat × Scheduler F :=
  let id := s.tasks.nextTaskId
  let tasks := { s.tasks with nextTaskId := id + 1 }
  let state := ((TaskState.new future panicHandler).markQueued now).2
  match tasks.scheduleNew (fun t => (s.cells t).isSome) group id with
  | .ok tasks =>
    (.ok id, { s with tasks := tasks, cells := Function.update s.cells id (some ⟨group, state⟩) })
  | .error e => (.error e, { s with tasks := tasks })

/-- Note what the task being polled waits for. Its own waker tells which task that is. -/
def setCurrentTaskWaitingFor (s : Scheduler F) (wait : TaskWait) : TaskWaker → Scheduler F
  | .root => s
  | .task id =>
    match s.cells id with
    | none => s
    | some cell => s.setState id cell (cell.state.setWaitingFor wait)

def allocateTimerId (s : Scheduler F) : Nat × Scheduler F :=
  (s.timers.allocateId.1, { s with timers := s.timers.allocateId.2 })

def allocateReadInterestId (s : Scheduler F) : Nat × Scheduler F :=
  let r := s.interests.reads.allocateId
  (r.1, { s with interests := { s.interests with reads := r.2 } })

def allocateWriteInterestId (s : Scheduler F) : Nat × Scheduler F :=
  let r := s.interests.writes.allocateId
  (r.1, { s with interests := { s.interests with writes := r.2 } })

def insertTimer (s : Scheduler F) (id deadline : Nat) (waker : TaskWaker) : Scheduler F :=
  { s with timers := (s.timers.register id deadline waker).2 }

def insertReadInterest (s : Scheduler F) (id : Nat) (fd : Int) (waker : TaskWaker) : Scheduler F :=
  { s with interests := { s.interests with reads := s.interests.reads.register id fd waker } }

def insertWriteInterest (s : Scheduler F) (id : Nat) (fd : Int) (waker : TaskWaker) : Scheduler F :=
  { s with interests := { s.interests with writes := s.interests.writes.register id fd waker } }

def registerTimer (s : Scheduler F) (id deadline : Nat) (waker : TaskWaker) : Scheduler F :=
  (s.setCurrentTaskWaitingFor (.timer deadline) waker).insertTimer id deadline waker

def registerReadInterest (s : Scheduler F) (id : Nat) (fd : Int) (waker : TaskWaker) :
    Scheduler F :=
  (s.setCurrentTaskWaitingFor (.readable fd) waker).insertReadInterest id fd waker

def registerWriteInterest (s : Scheduler F) (id : Nat) (fd : Int) (waker : TaskWaker) :
    Scheduler F :=
  (s.setCurrentTaskWaitingFor (.writable fd) waker).insertWriteInterest id fd waker

def takeReadyReadInterest (s : Scheduler F) (id : Nat) : Bool × Scheduler F :=
  let r := s.interests.reads.takeReady id
  (r.1, { s with interests := { s.interests with reads := r.2 } })

def takeReadyWriteInterest (s : Scheduler F) (id : Nat) : Bool × Scheduler F :=
  let r := s.interests.writes.takeReady id
  (r.1, { s with interests := { s.interests with writes := r.2 } })

def removeTimer (s : Scheduler F) (id : Nat) : Scheduler F :=
  { s with timers := s.timers.remove id }

def removeReadInterest (s : Scheduler F) (id : Nat) : Scheduler F :=
  { s with interests := { s.interests with reads := s.interests.reads.remove id } }

def removeWriteInterest (s : Scheduler F) (id : Nat) : Scheduler F :=
  { s with interests := { s.interests with writes := s.interests.writes.remove id } }

/-- The poll of a task ends and is charged to its group. The flag of `finish` tells that
the task has ended. -/
def endPoll (s : Scheduler F) (id pollDuration : Nat)
    (finish : TaskState F Unit → Bool × TaskState F Unit) : Scheduler F :=
  match s.cells id with
  | none => s
  | some cell =>
    let r := finish cell.state
    let s := s.setState id cell r.2
    let tasks := if r.1 then s.tasks.finishTask else s.tasks
    { s with tasks := tasks.recordTaskPoll cell.group pollDuration }

/-- Cancelling a task. A future that is dropped here is handed to the caller. -/
def cancel (s : Scheduler F) (id : Nat) : Option F × Scheduler F :=
  match s.cells id with
  | none => (none, s)
  | some cell =>
    let r := cell.state.cancel
    let s := s.setState id cell r.2
    if r.1 = some true then (cell.state.future, { s with tasks := s.tasks.finishTask })
    else (none, s)

/-- The same tasks exist, and no identifier has been given out. -/
structure SameTasks (s t : Scheduler F) : Prop where
  exists_eq : ∀ id, (t.cells id).isSome = (s.cells id).isSome
  nextTaskId : t.tasks.nextTaskId = s.tasks.nextTaskId

section Frame
variable {s t u : Scheduler F}

theorem SameTasks.refl (s : Scheduler F) : SameTasks s s := ⟨fun _ => rfl, rfl⟩

theorem SameTasks.trans (h : SameTasks s t) (h' : SameTasks t u) : SameTasks s u :=
  ⟨fun id => (h'.exists_eq id).trans (h.exists_eq id), h'.nextTaskId.trans h.nextTaskId⟩

theorem setState_cells (s : Scheduler F) (id : Nat) (cell : TaskCell F)
    (state : TaskState F Unit) :
    (s.setState id cell state).cells =
      update s.cells id (some { cell with state := state }) := rfl

theorem sameTasks_setState {id : Nat} {cell : TaskCell F} (hcell : s.cells id = some cell)
    (state : TaskState F Unit) : SameTasks s (s.setState id cell state) := by
  refine ⟨?_, rfl⟩
  intro t
  rw [setState_cells]
  by_cases ht : t = id
  · subst ht
    rw [update_self, hcell]
    rfl
  · rw [update_of_ne ht]

section
variable (s : Scheduler F)

theorem sameTasks_scheduleExisting (id now : Nat) : SameTasks s (s.scheduleExisting id now) := by
  rw [scheduleExisting]
  cases hcell : s.cells id with
  | none => exact .refl s
  | some cell =>
    dsimp only
    split
    · split
      next tasks hok =>
        have hnext : tasks.nextTaskId = s.tasks.nextTaskId := by
          rw [SchedulerTaskSet.scheduleExisting] at hok
          split at hok <;> cases hok
          rfl
        exact ⟨(sameTasks_setState hcell _).exists_eq, hnext⟩
      · exact sameTasks_setState hcell _
    · exact .refl s

theorem sameTasks_wake (now : Nat) (waker : TaskWaker) : SameTasks s (s.wake now waker) := by
  cases waker with
  | root => exact ⟨fun _ => rfl, rfl⟩
  | task id => exact sameTasks_scheduleExisting s id now

theorem sameTasks_wakeAll (now : Nat) (wakers : List TaskWaker) :
    SameTasks s (s.wakeAll now wakers) := by
  induction wakers generalizing s with
  | nil => exact .refl s
  | cons waker wakers ih => exact (sameTasks_wake s now waker).trans (ih _)

theorem sameTasks_wakeExpiredTimers (now : Nat) : SameTasks s (s.wakeExpiredTimers now) := by
  have h := sameTasks_wakeAll { s with timers := (s.timers.expired now).2 } now
    (s.timers.expired now).1
  exact ⟨h.exists_eq, h.nextTaskId⟩

theorem sameTasks_wakeReadableFds (fds : List Int) (now : Nat) :
    SameTasks s (s.wakeReadableFds fds now) := by
  have h := sameTasks_wakeAll
    { s with interests := { s.interests with reads := (s.interests.reads.wakeReady fds).2 } } now
    (s.interests.reads.wakeReady fds).1
  exact ⟨h.exists_eq, h.nextTaskId⟩

theorem sameTasks_wakeWritableFds (fds : List Int) (now : Nat) :
    SameTasks s (s.wakeWritableFds fds now) := by
  have h := sameTasks_wakeAll
    { s with interests := { s.interests with writes := (s.interests.writes.wakeReady fds).2 } } now
    (s.interests.writes.wakeReady fds).1
  exact ⟨h.exists_eq, h.nextTaskId⟩

theorem sameTasks_setCurrentTaskWaitingFor (wait : TaskWait) (waker : TaskWaker) :
    SameTasks s (s.setCurrentTaskWaitingFor wait waker) := by
  cases waker with
  | root => exact .refl s
  | task id =>
    rw [setCurrentTaskWaitingFor]
    cases hcell : s.cells id with
    | none => exact .refl s
    | some cell => exact sameTasks_setState hcell _

theorem sameTasks_endPoll (id pollDuration : Nat)
    (finish : TaskState F Unit → Bool × TaskState F Unit) :
    SameTasks s (s.endPoll id pollDuration finish) := by
  rw [endPoll]
  cases hcell : s.cells id with
  | none => exact .refl s
  | some cell =>
    refine ⟨(sameTasks_setState hcell _).exists_eq, ?_⟩
    rw [SchedulerTaskSet.recordTaskPoll_nextTaskId]
    split <;> rfl

theorem sameTasks_cancel (id : Nat) : SameTasks s (s.cancel id).2 := by
  rw [cancel]
  cases hcell : s.cells id with
  | none => exact .refl s
  | some cell =>
    have h := sameTasks_setState hcell cell.state.cancel.2
    dsimp only
    split <;> exact ⟨h.exists_eq, h.nextTaskId⟩

end

def Bounded (s : Scheduler F) : Prop :=
  ∀ id, (s.cells id).isSome = true → id < s.tasks.nextTaskId

theorem Bounded.of_same (h : Bounded s) (hst : SameTasks s t) : Bounded t := by
  intro id hid
  rw [hst.nextTaskId]
  exact h id (hst.exists_eq id ▸ hid)

theorem Bounded.spawn (h : Bounded s) (future : F) (panicHandler : Option Unit)
    (group now : Nat) : Bounded (s.spawn future panicHandler group now).2 := by
  have hold : ∀ id, (s.cells id).isSome = true → id < s.tasks.nextTaskId + 1 :=
    fun id hid => Nat.lt_succ_of_lt (h id hid)
  rw [Scheduler.spawn]
  dsimp only
  split
  next tasks hok =>
    intro id hid
    rw [SchedulerTaskSet.scheduleNew_nextTaskId hok]
    by_cases hnew : id = s.tasks.nextTaskId
    · exact hnew ▸ Nat.lt_succ_self _
    · change (update s.cells s.tasks.nextTaskId _ id).isSome = true at hid
      rw [update_of_ne hnew] at hid
      exact hold id hid
  · exact hold

end Frame

end Scheduler
end Sitas.Executor
