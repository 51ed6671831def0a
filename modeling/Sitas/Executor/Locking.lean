import Sitas.Executor.Backpressure
import Sitas.Executor.Join
import Sitas.Executor.Waits
import Sitas.Lib.Entries
import Sitas.Lib.Locks
import Sitas.Mailbox.SharedMailbox

/-! The executor's code as critical sections of the scheduler's mutex and of the mutexes
of the task states. Mailboxes, permits and join states have mutexes of their own, under
which nothing else is called, and each of their sections is one step. Thread 0 drives the
executor. The last reference to a task is dropped by closing, or by a thread that holds none
of these mutexes. -/
namespace Sitas.Executor.Locking
open Sitas.Lib Sitas.Lib.Locks Sitas.Mailbox Backpressure

inductive Mutex where
  | scheduler
  | task (id : Nat)
  deriving DecidableEq, Repr

/-- The futures and handles that a task's future is made of. -/
inductive Part where
  | wait (leaf : Leaf)
  | send (mailbox : Nat) (message : Option Nat)
  | sender (mailbox : Nat)
  | receiver (mailbox : Nat)
  | permit (guard : Nat)
  | acquire (guard waitId : Nat) (registered : Bool)
  | handle (task : Nat)

structure Running where
  id : Nat
  startedAt : Nat
  parts : List Part

structure Shared where
  now : Nat
  scheduler : Scheduler (List Part)
  mailboxes : Nat → SharedMailbox Nat TaskWaker
  guards : Nat → BackpressureInner TaskWaker
  joins : Nat → JoinState Unit Unit TaskWaker
  running : Option Running

inductive TaskStep where
  | markQueued
  | markQueuedNew
  | clearQueued
  | setWaitingFor (wait : TaskWait)
  | takeFuture
  | finishReady (poll : Running)
  | finishPending (poll : Running)
  | finishPanicked (poll : Running)
  | abort
  | dropFuture

inductive SchedulerStep where
  | scheduleExisting (id : Nat)
  | scheduleNew (id : Nat)
  | allocateTask (parts : List Part) (panicHandler : Option Unit) (group : Nat)
  | nextTask
  | finishTask
  | recordTaskPoll (group pollDuration : Nat)
  | createLeaf (leaf : Leaf)
  | prepareLeaf (index : Nat)
  | insertLeaf (index : Nat)
  | dropLeaf (leaf : Leaf)
  | expireTimers
  | wakeReadable (fds : List Int)
  | wakeWritable (fds : List Int)
  /-- Nothing outside the scheduler refers to these tasks. -/
  | close (unheld : List Nat)

/-- Sections of the other mutexes, which take wakers out to be invoked. -/
inductive Release where
  | wakeOneSender (mailbox : Nat)
  | dropSender (mailbox : Nat)
  | closeReceiver (mailbox : Nat)
  | permit (guard : Nat)
  | waiter (guard waitId : Nat)
  | completeJoin (task : Nat) (result : Except (JoinError Unit) Unit)

inductive Action where
  | task (id : Nat) (step : TaskStep)
  | scheduler (step : SchedulerStep)
  | release (release : Release)
  | wakeRoot

def Action.mutex : Action → Option Mutex
  | .task id _ => some (.task id)
  | .scheduler _ => some .scheduler
  | .release _ | .wakeRoot => none

def wakeAction : TaskWaker → Action
  | .root => .wakeRoot
  | .task id => .task id .markQueued

def Part.drop : Part → List Action
  | .wait leaf => if leaf.locks then [.scheduler (.dropLeaf leaf)] else []
  | .send mailbox message =>
    if message.isSome then [.release (.wakeOneSender mailbox)] else []
  | .sender mailbox => [.release (.dropSender mailbox)]
  | .receiver mailbox => [.release (.closeReceiver mailbox)]
  | .permit guard => [.release (.permit guard)]
  | .acquire guard waitId registered =>
    if registered then [.release (.waiter guard waitId)] else []
  | .handle task => [.task task .abort]

def dropParts (parts : List Part) : List Action := parts.flatMap Part.drop

namespace Shared

def fresh : Shared where
  now := 0
  scheduler := .new
  mailboxes _ := .new 0 1
  guards _ := ⟨1, 0, [], 0⟩
  joins _ := ⟨none, none⟩
  running := none

def setState (s : Shared) (id : Nat) (cell : TaskCell (List Part))
    (state : TaskState (List Part) Unit) : Shared :=
  { s with scheduler := s.scheduler.setState id cell state }

def setTasks (s : Shared) (tasks : SchedulerTaskSet) : Shared :=
  { s with scheduler := { s.scheduler with tasks := tasks } }

def setMailbox (s : Shared) (mailbox : Nat) (state : SharedMailbox Nat TaskWaker) : Shared :=
  { s with mailboxes := Function.update s.mailboxes mailbox state }

def setGuard (s : Shared) (guard : Nat) (inner : BackpressureInner TaskWaker) : Shared :=
  { s with guards := Function.update s.guards guard inner }

def setJoin (s : Shared) (task : Nat) (join : JoinState Unit Unit TaskWaker) : Shared :=
  { s with joins := Function.update s.joins task join }

/-- The data after a release, and the wakers taken out. -/
def release (s : Shared) : Release → Shared × List TaskWaker
  | .wakeOneSender mailbox =>
    let r := (s.mailboxes mailbox).wakeOneSender
    (s.setMailbox mailbox r.1, r.2)
  | .dropSender mailbox =>
    let r := (s.mailboxes mailbox).dropSender
    (s.setMailbox mailbox r.1, r.2)
  | .closeReceiver mailbox =>
    let r := (s.mailboxes mailbox).closeReceiver
    (s.setMailbox mailbox r.1, r.2)
  | .permit guard =>
    let inner := s.guards guard
    (s.setGuard guard { inner with inFlight := inner.inFlight - 1, waiters := [] },
      inner.waiters.map Prod.snd)
  | .waiter guard waitId =>
    let inner := s.guards guard
    (s.setGuard guard { inner with waiters := inner.waiters.filter (·.1 ≠ waitId) }, [])
  | .completeJoin task result =>
    let r := (s.joins task).complete result
    (s.setJoin task r.1, r.2.toList)

/-- The future that an abort, a cancelled poll or `drop_future` drops is destroyed before the
task is unlocked. -/
def execTask (s : Shared) (id : Nat) (cell : TaskCell (List Part)) :
    TaskStep → Effect Action Shared
  | .markQueued =>
    let r := cell.state.markQueued s.now
    ⟨s.setState id cell r.2, [], if r.1 then [.scheduler (.scheduleExisting id)] else []⟩
  | .markQueuedNew =>
    let r := cell.state.markQueued s.now
    ⟨s.setState id cell r.2, [], if r.1 then [.scheduler (.scheduleNew id)] else []⟩
  | .clearQueued => ⟨s.setState id cell cell.state.clearQueued, [], []⟩
  | .setWaitingFor wait => ⟨s.setState id cell (cell.state.setWaitingFor wait), [], []⟩
  | .takeFuture =>
    let r := cell.state.takeFutureForPoll s.now
    ⟨{ s.setState id cell r.2 with running := r.1.map fun parts => ⟨id, s.now, parts⟩ }, [], []⟩
  | .finishReady poll =>
    let duration := s.now - poll.startedAt
    ⟨s.setState id cell (cell.state.finishReady duration s.now), [],
      .scheduler .finishTask :: dropParts poll.parts ++
        [.scheduler (.recordTaskPoll cell.group duration)]⟩
  | .finishPending poll =>
    let duration := s.now - poll.startedAt
    let r := cell.state.finishPending poll.parts duration s.now
    let record := .scheduler (.recordTaskPoll cell.group duration)
    if r.1 then
      ⟨s.setState id cell r.2, dropParts poll.parts, [.scheduler .finishTask, record]⟩
    else ⟨s.setState id cell r.2, [], [record]⟩
  | .finishPanicked poll =>
    let duration := s.now - poll.startedAt
    let r := cell.state.finishPanicked duration s.now
    let handler :=
      if r.1.isSome then [.release (.completeJoin id (.error (.panic ())))] else []
    ⟨s.setState id cell r.2, [],
      handler ++ .scheduler .finishTask :: dropParts poll.parts ++
        [.scheduler (.recordTaskPoll cell.group duration)]⟩
  | .abort =>
    let r := cell.state.cancel
    let complete := .release (.completeJoin id (.error .canceled))
    match r.1 with
    | none => ⟨s, [], []⟩
    | some false => ⟨s.setState id cell r.2, [], [complete]⟩
    | some true =>
      ⟨s.setState id cell r.2, dropParts (cell.state.future.getD []),
        [.scheduler .finishTask, complete]⟩
  | .dropFuture =>
    let dropped := if cell.state.polling then [] else cell.state.future.getD []
    ⟨s.setState id cell cell.state.dropFuture, dropParts dropped, []⟩

/-- The section of `schedule_existing`. A rejected task is locked inside. -/
def scheduleExisting (s : Shared) (id : Nat) (cell : TaskCell (List Part)) : Effect Action Shared :=
  match s.scheduler.tasks.scheduleExisting cell.group id with
  | .ok tasks => ⟨s.setTasks tasks, [], []⟩
  | .error _ => ⟨s, [.task id .clearQueued], []⟩

/-- The section of `schedule_new`. The spawner drops a rejected task afterwards. -/
def scheduleNew (s : Shared) (id : Nat) (cell : TaskCell (List Part)) : Effect Action Shared :=
  match s.scheduler.tasks.scheduleNew (fun t => (s.scheduler.cells t).isSome) cell.group id with
  | .ok tasks => ⟨s.setTasks tasks, [], []⟩
  | .error _ =>
    ⟨{ s with scheduler := { s.scheduler with
        cells := Function.update s.scheduler.cells id none } },
      [.task id .clearQueued], dropParts (cell.state.future.getD [])⟩

def allocateTask (s : Shared) (parts : List Part) (panicHandler : Option Unit) (group : Nat) :
    Effect Action Shared :=
  let id := s.scheduler.tasks.nextTaskId
  let cell := some ⟨group, .new parts panicHandler⟩
  let scheduler := { s.scheduler with
    tasks := { s.scheduler.tasks with nextTaskId := id + 1 }
    cells := Function.update s.scheduler.cells id cell }
  ⟨{ s with scheduler := scheduler }.setJoin id ⟨none, none⟩, [], [.task id .markQueuedNew]⟩

def prepareLeaf (s : Shared) (poll : Running) (index : Nat) (leaf : Leaf) : Effect Action Shared :=
  match leaf.prepare s.scheduler s.now with
  | none => ⟨s, [], []⟩
  | some (answer, leaf, scheduler) =>
    let parts := poll.parts.set index (.wait leaf)
    ⟨{ s with scheduler := scheduler, running := some { poll with parts := parts } }, [],
      match answer with
      | .ready _ => []
      | .pending => [.task poll.id (.setWaitingFor leaf.wait), .scheduler (.insertLeaf index)]⟩

def leafAt (s : Shared) (index : Nat) : Option (Running × Leaf) :=
  s.running.bind fun poll =>
    match poll.parts[index]? with
    | some (.wait leaf) => some (poll, leaf)
    | _ => none

def futureOf (s : Shared) (id : Nat) : List Part :=
  ((s.scheduler.cells id).bind fun cell => cell.state.future).getD []

/-- The tasks that closing frees while it clears timers, interests and queues. -/
def lastReferences (s : Shared) (unheld : List Nat) : List Nat :=
  freed (fun id => if id ∈ unheld then 0 else 1) s.scheduler.references

def execScheduler (s : Shared) : SchedulerStep → Effect Action Shared
  | .scheduleExisting id =>
    (s.scheduler.cells id).elim ⟨s, [], []⟩ fun cell => s.scheduleExisting id cell
  | .scheduleNew id => (s.scheduler.cells id).elim ⟨s, [], []⟩ fun cell => s.scheduleNew id cell
  | .allocateTask parts panicHandler group => s.allocateTask parts panicHandler group
  | .nextTask =>
    match s.scheduler.tasks.nextTask with
    | none => ⟨s, [], []⟩
    | some (id, tasks) => ⟨s.setTasks tasks, [], [.task id .takeFuture]⟩
  | .finishTask => ⟨s.setTasks s.scheduler.tasks.finishTask, [], []⟩
  | .recordTaskPoll group duration =>
    ⟨s.setTasks (s.scheduler.tasks.recordTaskPoll group duration), [], []⟩
  | .createLeaf leaf => ⟨{ s with scheduler := leaf.create s.scheduler }, [], []⟩
  | .prepareLeaf index =>
    (s.leafAt index).elim ⟨s, [], []⟩ fun r => s.prepareLeaf r.1 index r.2
  | .insertLeaf index =>
    (s.leafAt index).elim ⟨s, [], []⟩ fun r =>
      ⟨{ s with scheduler := r.2.insert s.scheduler (.task r.1.id) }, [], []⟩
  | .dropLeaf leaf => ⟨{ s with scheduler := leaf.drop s.scheduler }, [], []⟩
  | .expireTimers =>
    let r := s.scheduler.timers.expired s.now
    ⟨{ s with scheduler := { s.scheduler with timers := r.2 } }, [], r.1.map wakeAction⟩
  | .wakeReadable fds =>
    let r := s.scheduler.interests.reads.wakeReady fds
    ⟨{ s with scheduler := { s.scheduler with
        interests := { s.scheduler.interests with reads := r.2 } } }, [], r.1.map wakeAction⟩
  | .wakeWritable fds =>
    let r := s.scheduler.interests.writes.wakeReady fds
    ⟨{ s with scheduler := { s.scheduler with
        interests := { s.scheduler.interests with writes := r.2 } } }, [], r.1.map wakeAction⟩
  | .close unheld =>
    let r := s.scheduler.tasks.close
    let gone := s.lastReferences unheld
    ⟨{ s with scheduler := { s.scheduler with
        timers := s.scheduler.timers.clear
        interests := s.scheduler.interests.clear
        tasks := r.2
        cells := fun id => if id ∈ gone then none else s.scheduler.cells id } },
      gone.flatMap fun id => dropParts (s.futureOf id),
      (r.1.filter (· ∉ gone)).map fun id => .task id .dropFuture⟩

def exec (s : Shared) : Action → Effect Action Shared
  | .task id step =>
    (s.scheduler.cells id).elim ⟨s, [], []⟩ fun cell => s.execTask id cell step
  | .scheduler step => s.execScheduler step
  | .release r => ⟨(s.release r).1, [], (s.release r).2.map wakeAction⟩
  | .wakeRoot => ⟨{ s with scheduler := { s.scheduler with rootReady := true } }, [], []⟩

end Shared

inductive FutureOp where
  | come (part : Part)
  | tryAcquire (guard : Nat)
  | acquire (guard : Nat)
  | poll (index : Nat)
  | drop (index : Nat)
  | output
  | returns
  | pending
  | panics

namespace Shared

def setParts (s : Shared) (poll : Running) (parts : List Part) : Shared :=
  { s with running := some { poll with parts := parts } }

def pollAcquire (s : Shared) (poll : Running) (index guard waitId : Nat) (registered : Bool) :
    Shared :=
  let inner := s.guards guard
  if inner.inFlight < inner.capacity then
    (s.setGuard guard { inner with inFlight := inner.inFlight + 1 }).setParts poll
      (poll.parts ++ [.permit guard])
  else if registered then s
  else
    let waiters := inner.waiters ++ [(waitId, .task poll.id)]
    (s.setGuard guard { inner with waiters := waiters }).setParts poll
      (poll.parts.set index (.acquire guard waitId true))

/-- Poll a part of the future. The scheduler is locked by waits alone. -/
def pollPart (s : Shared) (poll : Running) (index : Nat) : Part → Option (Shared × List Action)
  | .wait .spawner | .sender _ | .permit _ => none
  | .wait (.sleep deadline none) =>
    if deadline ≤ s.now then some (s, []) else some (s, [.scheduler (.prepareLeaf index)])
  | .wait _ => some (s, [.scheduler (.prepareLeaf index)])
  | .send mailbox message =>
    ((s.mailboxes mailbox).pollSend message (.task poll.id)).map fun r =>
      ((s.setMailbox mailbox r.1).setParts poll (poll.parts.set index (.send mailbox r.2.1)),
        r.2.2.2.map wakeAction)
  | .receiver mailbox =>
    let r := (s.mailboxes mailbox).pollRecv (.task poll.id)
    some (s.setMailbox mailbox r.1, r.2.2.map wakeAction)
  | .acquire guard waitId registered =>
    some (s.pollAcquire poll index guard waitId registered, [])
  | .handle task => some (s.setJoin task ((s.joins task).poll (.task poll.id)).1, [])

def future (s : Shared) (poll : Running) : FutureOp → Option (Shared × List Action)
  | .come part =>
    some (s.setParts poll (poll.parts ++ [part]),
      match part with
      | .wait .spawner => [.scheduler (.createLeaf .spawner)]
      | _ => [])
  | .tryAcquire guard =>
    let inner := s.guards guard
    if inner.inFlight < inner.capacity then
      some ((s.setGuard guard { inner with inFlight := inner.inFlight + 1 }).setParts poll
        (poll.parts ++ [.permit guard]), [])
    else some (s, [])
  | .acquire guard =>
    let inner := s.guards guard
    some ((s.setGuard guard { inner with nextWaitId := inner.nextWaitId + 1 }).setParts poll
      (poll.parts ++ [.acquire guard inner.nextWaitId false]), [])
  | .poll index => poll.parts[index]?.bind fun part => s.pollPart poll index part
  | .drop index =>
    poll.parts[index]?.map fun part => (s.setParts poll (poll.parts.eraseIdx index), part.drop)
  | .output => some (s, [.release (.completeJoin poll.id (.ok ()))])
  | .returns => some ({ s with running := none }, [.task poll.id (.finishReady poll)])
  | .pending => some ({ s with running := none }, [.task poll.id (.finishPending poll)])
  | .panics => some ({ s with running := none }, [.task poll.id (.finishPanicked poll)])

end Shared

section Missing
variable {α : Type} {s : Shared} {o : Option α} {f : α → Effect Action Shared} {a : Action}

theorem exists_of_mem_inside (h : a ∈ (o.elim ⟨s, [], []⟩ f).inside) : ∃ x, a ∈ (f x).inside := by
  cases o with
  | none => cases h
  | some x => exact ⟨x, h⟩

theorem exists_of_mem_after (h : a ∈ (o.elim ⟨s, [], []⟩ f).after) : ∃ x, a ∈ (f x).after := by
  cases o with
  | none => cases h
  | some x => exact ⟨x, h⟩

end Missing

def program : Program Mutex Action Shared := ⟨Action.mutex, Shared.exec⟩

abbrev Machine := Threads Mutex Action Shared

inductive Event where
  | advance (thread : Nat)
  | tick
  | wake (thread id : Nat)
  | abort (thread id : Nat)
  | spawn (thread : Nat) (parts : List Part) (panicHandler : Option Unit) (group : Nat)
  | trySend (thread mailbox message : Nat)
  | tryRecv (thread mailbox : Nat)
  | future (op : FutureOp)
  | pollNext
  | expireTimers
  | wakeFds (readable writable : List Int)
  | close (unheld : List Nat)
  /-- The last reference to a task is dropped. -/
  | release (thread id : Nat)

namespace Machine

def idle (data : Shared) : Machine := ⟨data, fun _ => none, fun _ => []⟩

def drive (s : Machine) (calls : List Action) : Option Machine :=
  if s.data.running.isNone then begin s 0 s.data calls else none

def step (s : Machine) : Event → Option Machine
  | .advance i => program.advance s i (s.work i)
  | .tick => some { s with data := { s.data with now := s.data.now + 1 } }
  | .wake i id => begin s i s.data [.task id .markQueued]
  | .abort i id => begin s i s.data [.task id .abort]
  | .spawn i parts panicHandler group =>
    begin s i s.data [.scheduler (.allocateTask parts panicHandler group)]
  | .trySend i mailbox message =>
    let r := (s.data.mailboxes mailbox).trySend message
    begin s i (s.data.setMailbox mailbox r.1) (r.2.2.map wakeAction)
  | .tryRecv i mailbox =>
    let r := (s.data.mailboxes mailbox).tryRecv
    begin s i (s.data.setMailbox mailbox r.1) (r.2.2.map wakeAction)
  | .future op =>
    s.data.running.bind fun poll =>
      (s.data.future poll op).bind fun r => begin s 0 r.1 r.2
  | .pollNext => s.drive [.scheduler .nextTask]
  | .expireTimers => s.drive [.scheduler .expireTimers]
  | .wakeFds readable writable =>
    s.drive [.scheduler (.wakeReadable readable), .scheduler (.wakeWritable writable)]
  | .close unheld => s.drive [.scheduler (.close unheld)]
  | .release i id =>
    if id ∉ s.data.scheduler.references ∧ s.data.running.all (·.id != id) then
      begin s i { s.data with scheduler.cells := Function.update s.data.scheduler.cells id none }
        (dropParts (s.data.futureOf id))
    else none

def sections (thread n : Nat) : List Event := List.replicate (3 * n) (.advance thread)

/-- A step moves one thread, begins new work on an idle one, or lets time pass. -/
theorem step_cases {s t : Machine} {e : Event} (h : s.step e = some t) :
    (∃ i, e = .advance i ∧ program.advance s i (s.work i) = some t) ∨
      (∃ i data calls, begin s i data calls = some t) ∨
      (t.work = s.work ∧ t.owner = s.owner) := by
  cases e with
  | advance i => exact .inl ⟨i, rfl, h⟩
  | tick =>
    cases h
    exact .inr (.inr ⟨rfl, rfl⟩)
  | wake i id | abort i id | spawn i parts panicHandler group | trySend i mailbox message
  | tryRecv i mailbox => exact .inr (.inl ⟨i, _, _, h⟩)
  | future op =>
    obtain ⟨poll, _, h⟩ := Option.bind_eq_some_iff.mp h
    obtain ⟨r, _, h⟩ := Option.bind_eq_some_iff.mp h
    exact .inr (.inl ⟨0, _, _, h⟩)
  | pollNext | expireTimers | wakeFds readable writable | close unheld =>
    rw [step, drive] at h
    split at h
    · exact .inr (.inl ⟨0, _, _, h⟩)
    · cases h
  | release i id =>
    obtain ⟨_, h⟩ := Option.ite_none_right_eq_some.mp h
    exact .inr (.inl ⟨i, _, _, h⟩)

end Machine
end Sitas.Executor.Locking
