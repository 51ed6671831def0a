import Sitas.Lib.Runs

/-! The `no_std` executor of one shard: the ready queue shared with the task wakers, the
interest table of the reactor handles, and `run` between its atomic accesses. Another
thread's `mark_ready` is the locked marking followed by the reactor wake. -/
namespace Sitas.Runtime
open Sitas.Lib

def defaultPollBudget : Nat := 64

structure ReadyQueue where
  queue : List Nat
  queued : List Bool
  deriving DecidableEq, Repr

namespace ReadyQueue

def markReady (ready : ReadyQueue) (task : Nat) : ReadyQueue :=
  if ready.queued[task]? = some false then
    ⟨ready.queue ++ [task], ready.queued.set task true⟩
  else ready

def takeReady (ready : ReadyQueue) : Option (Nat × ReadyQueue) :=
  match ready.queue with
  | [] => none
  | task :: queue => some (task, ⟨queue, ready.queued.set task false⟩)

def hasReady (ready : ReadyQueue) : Bool :=
  !ready.queue.isEmpty

end ReadyQueue

def swapRemove {α : Type} (entries : List α) (index : Nat) : List α :=
  match entries.getLast? with
  | none => []
  | some last => (entries.set index last).dropLast

/-- The interest table. A waker belongs to a task of this executor or to nobody here. -/
abbrev IoInterests (H : Type) := List (H × Option Nat)

namespace IoInterests
variable {H : Type} [DecidableEq H]

def registerReadable (io : IoInterests H) (handle : H) (waker : Option Nat) : IoInterests H :=
  match io.findIdx? fun entry => entry.1 = handle with
  | some index => io.set index (handle, waker)
  | none => io ++ [(handle, waker)]

def readHandles (io : IoInterests H) : List H :=
  io.map Prod.fst

def takeReadable (io : IoInterests H) (handle : H) : Option (Option Nat × IoInterests H) :=
  match io.findIdx? fun entry => entry.1 = handle with
  | some index => io[index]?.map fun entry => (entry.2, swapRemove io index)
  | none => none

end IoInterests

inductive TaskAction (H : Type) where
  | wake (task : Nat)
  | register (handle : H) (waker : Option Nat)
  deriving DecidableEq, Repr

/-- The thread of the executor before its next access. While a future is polled the
actions it still performs and its result are kept here. -/
inductive RunPhase (H : Type) where
  | idle
  | top
  | polling (polled : Nat)
  | running (task polled : Nat) (actions : List (TaskAction H)) (ready : Bool)
  | posting (task polled : Nat) (actions : List (TaskAction H)) (ready : Bool)
  | checkReady
  | readHandles
  | waiting (read : List H)
  | draining (handles : List H)
  | drainPosting (handles : List H)
  | returned
  deriving DecidableEq, Repr

namespace RunPhase
variable {H : Type}

def current : RunPhase H → Option Nat
  | .running task _ _ _ | .posting task _ _ _ => some task
  | _ => none

def Blocking : RunPhase H → Prop
  | .readHandles | .waiting _ => True
  | _ => False

def InRun (phase : RunPhase H) : Prop :=
  phase ≠ .idle ∧ phase ≠ .returned

end RunPhase

structure ShardExecutor (H : Type) where
  ready : ReadyQueue
  /-- A reactor wake that no wait has consumed. -/
  reactorWoken : Bool
  io : IoInterests H
  tasks : List Bool
  live : Nat
  pollBudget : Nat
  phase : RunPhase H
  /-- Wakes of other threads between the marking and the reactor wake. -/
  wakesInProgress : Nat
  /-- Whether each task was woken after it was last taken from the queue. -/
  woken : Nat → Bool
  polls : List Nat
  /-- Calls of `poll_task` since `run` was called or the reactor was last consulted. -/
  sinceWait : Nat

inductive ShardEvent (H : Type) where
  | spawn
  | run
  | wake (task : Nat)
  | post
  | register (handle : H) (waker : Option Nat)
  | poll (actions : List (TaskAction H)) (ready : Bool)
  | proceed
  | waited (readable : List H)
  | waitFailed (consumed : Bool)
  deriving DecidableEq, Repr

namespace ShardExecutor
variable {H : Type}

def new : ShardExecutor H where
  ready := ⟨[], []⟩
  reactorWoken := false
  io := []
  tasks := []
  live := 0
  pollBudget := defaultPollBudget
  phase := .idle
  wakesInProgress := 0
  woken := fun _ => false
  polls := []
  sinceWait := 0

def withPollBudget (s : ShardExecutor H) (pollBudget : Nat) : ShardExecutor H :=
  { s with pollBudget := max pollBudget 1 }

def markReady (s : ShardExecutor H) (task : Nat) : ShardExecutor H :=
  { s with
    ready := s.ready.markReady task
    woken := fun i => if i = task then true else s.woken i }

/-- The wakes of other threads cannot reach the new task before its own `mark_ready`.
After a `run` that returned, the executor is ready for the next one. -/
def spawn (s : ShardExecutor H) : ShardExecutor H :=
  { { s with
      tasks := s.tasks ++ [true]
      ready := ⟨s.ready.queue, s.ready.queued ++ [false]⟩
      live := s.live + 1 }.markReady s.tasks.length with
    reactorWoken := true
    phase := .idle }

def pollTask (s : ShardExecutor H) (task polled : Nat) (actions : List (TaskAction H))
    (ready : Bool) : ShardExecutor H :=
  if s.tasks[task]? = some true then
    { s with
      tasks := s.tasks.set task false
      polls := s.polls ++ [task]
      phase := .running task polled actions ready }
  else { s with phase := .polling (polled + 1) }

def poll (s : ShardExecutor H) (actions : List (TaskAction H)) (ready : Bool) :
    Option (ShardExecutor H) :=
  match s.phase with
  | .polling polled =>
    if polled < s.pollBudget then
      s.ready.takeReady.map fun (task, queue) =>
        { s with
          ready := queue
          woken := fun i => if i = task then false else s.woken i
          sinceWait := s.sinceWait + 1 }.pollTask task polled actions ready
    else none
  | _ => none

variable [DecidableEq H]

/-- `wake_readable` for the first of the reported handles. -/
def wakeReadable (s : ShardExecutor H) (handle : H) (handles : List H) : ShardExecutor H :=
  match s.io.takeReadable handle with
  | some (some task, io) => { { s with io }.markReady task with phase := .drainPosting handles }
  | some (none, io) => { s with io, phase := .draining handles }
  | none => { s with phase := .draining handles }

def proceed (s : ShardExecutor H) : Option (ShardExecutor H) :=
  match s.phase with
  | .idle | .waiting _ | .returned => none
  | .top => some { s with phase := if 0 < s.live then .polling 0 else .returned }
  | .polling polled =>
    if polled < s.pollBudget ∧ s.ready.hasReady then none
    else some { s with phase := if s.live = 0 then .returned else .checkReady }
  | .running task polled (.wake other :: actions) ready =>
    some { s.markReady other with phase := .posting task polled actions ready }
  | .running task polled (.register handle waker :: actions) ready =>
    some { s with
      io := s.io.registerReadable handle waker
      phase := .running task polled actions ready }
  | .running _ polled [] true =>
    some { s with live := s.live - 1, phase := .polling (polled + 1) }
  | .running task polled [] false =>
    some { s with tasks := s.tasks.set task true, phase := .polling (polled + 1) }
  | .posting task polled actions ready =>
    some { s with reactorWoken := true, phase := .running task polled actions ready }
  | .checkReady => some { s with phase := if s.ready.hasReady then .top else .readHandles }
  | .readHandles =>
    some { s with phase := .waiting s.io.readHandles, sinceWait := 0 }
  | .draining [] => some { s with phase := .top }
  | .draining (handle :: handles) => some (s.wakeReadable handle handles)
  | .drainPosting handles => some { s with reactorWoken := true, phase := .draining handles }

/-- A successful wait consumes the wake and reports handles, a failed one leads back to the head of
the loop. -/
def waitReturns (s : ShardExecutor H) (result : Except Bool (List H)) : Option (ShardExecutor H) :=
  match s.phase, result with
  | .waiting _, .ok readable => some { s with reactorWoken := false, phase := .draining readable }
  | .waiting _, .error consumed =>
    some { s with reactorWoken := s.reactorWoken && !consumed, phase := .top }
  | _, _ => none

def step (s : ShardExecutor H) : ShardEvent H → Option (ShardExecutor H)
  | .spawn => if s.phase = .idle ∨ s.phase = .returned then some s.spawn else none
  | .run =>
    if s.phase = .idle ∨ s.phase = .returned then
      some { s with phase := .top, sinceWait := 0 }
    else none
  | .wake task => some { s.markReady task with wakesInProgress := s.wakesInProgress + 1 }
  | .post =>
    if 0 < s.wakesInProgress then
      some { s with wakesInProgress := s.wakesInProgress - 1, reactorWoken := true }
    else none
  | .register handle waker => some { s with io := s.io.registerReadable handle waker }
  | .poll actions ready => s.poll actions ready
  | .proceed => s.proceed
  | .waited readable => s.waitReturns (.ok readable)
  | .waitFailed consumed => s.waitReturns (.error consumed)

/-- Which tasks have not completed: the slots, with the future being polled put back. -/
def unfinished (s : ShardExecutor H) : List Bool :=
  match s.phase.current with
  | some task => s.tasks.set task true
  | none => s.tasks

variable {s t : ShardExecutor H}

/-- What `proceed` can do, one case for each access of `run`. -/
inductive Proceeds (s : ShardExecutor H) : ShardExecutor H → Prop
  | enter : s.phase = .top → 0 < s.live → Proceeds s { s with phase := .polling 0 }
  | finish : s.phase.current = none → s.live = 0 → Proceeds s { s with phase := .returned }
  | leave {polled : Nat} : s.phase = .polling polled →
      ¬ (polled < s.pollBudget ∧ s.ready.hasReady = true) → s.live ≠ 0 →
      Proceeds s { s with phase := .checkReady }
  | wake {task polled other : Nat} {actions : List (TaskAction H)} {ready : Bool} :
      s.phase = .running task polled (.wake other :: actions) ready →
      Proceeds s { s.markReady other with phase := .posting task polled actions ready }
  | register {task polled : Nat} {handle : H} {waker : Option Nat}
      {actions : List (TaskAction H)} {ready : Bool} :
      s.phase = .running task polled (.register handle waker :: actions) ready →
      Proceeds s { s with
        io := s.io.registerReadable handle waker
        phase := .running task polled actions ready }
  | complete {task polled : Nat} : s.phase = .running task polled [] true →
      Proceeds s { s with live := s.live - 1, phase := .polling (polled + 1) }
  | suspend {task polled : Nat} : s.phase = .running task polled [] false →
      Proceeds s { s with tasks := s.tasks.set task true, phase := .polling (polled + 1) }
  | post {task polled : Nat} {actions : List (TaskAction H)} {ready : Bool} :
      s.phase = .posting task polled actions ready →
      Proceeds s { s with reactorWoken := true, phase := .running task polled actions ready }
  | again : s.phase = .checkReady → s.ready.hasReady = true → Proceeds s { s with phase := .top }
  | park : s.phase = .checkReady → s.ready.hasReady = false →
      Proceeds s { s with phase := .readHandles }
  | wait : s.phase = .readHandles →
      Proceeds s { s with phase := .waiting s.io.readHandles, sinceWait := 0 }
  | drained : s.phase = .draining [] → Proceeds s { s with phase := .top }
  | drain {handle : H} {handles : List H} : s.phase = .draining (handle :: handles) →
      Proceeds s (s.wakeReadable handle handles)
  | drainPost {handles : List H} : s.phase = .drainPosting handles →
      Proceeds s { s with reactorWoken := true, phase := .draining handles }

theorem wakeReadable_cases (s : ShardExecutor H) (handle : H) (handles : List H) :
    (∃ task io, s.io.takeReadable handle = some (some task, io) ∧
      s.wakeReadable handle handles =
        { { s with io }.markReady task with phase := .drainPosting handles }) ∨
    (∃ io, s.io.takeReadable handle = some (none, io) ∧
      s.wakeReadable handle handles = { s with io, phase := .draining handles }) ∨
    s.wakeReadable handle handles = { s with phase := .draining handles } := by
  unfold wakeReadable
  split
  next task io htake => exact .inl ⟨task, io, htake, rfl⟩
  next io htake => exact .inr (.inl ⟨io, htake, rfl⟩)
  next => exact .inr (.inr rfl)

theorem proceeds_of_proceed (hst : s.proceed = some t) : Proceeds s t := by
  cases hphase : s.phase with
  | idle | waiting _ | returned => simp only [proceed, hphase, reduceCtorEq] at hst
  | top =>
    simp only [proceed, hphase] at hst
    cases hst
    split
    next hlive => exact .enter hphase hlive
    next hlive => exact .finish (by rw [hphase]; rfl) (Nat.eq_zero_of_not_pos hlive)
  | polling polled =>
    simp only [proceed, hphase] at hst
    obtain ⟨hend, ⟨⟩⟩ := Option.ite_none_left_eq_some.mp hst
    split
    next hlive => exact .finish (by rw [hphase]; rfl) hlive
    next hlive => exact .leave hphase hend hlive
  | running task polled actions ready =>
    cases actions with
    | nil =>
      cases ready <;> simp only [proceed, hphase] at hst <;> cases hst
      · exact .suspend hphase
      · exact .complete hphase
    | cons action actions =>
      cases action <;> simp only [proceed, hphase] at hst <;> cases hst
      · exact .wake hphase
      · exact .register hphase
  | posting task polled actions ready =>
    simp only [proceed, hphase] at hst
    cases hst
    exact .post hphase
  | checkReady =>
    simp only [proceed, hphase] at hst
    cases hst
    split
    next hready => exact .again hphase hready
    next hready => exact .park hphase (Bool.eq_false_iff.mpr hready)
  | readHandles =>
    simp only [proceed, hphase] at hst
    cases hst
    exact .wait hphase
  | draining handles =>
    cases handles <;> simp only [proceed, hphase] at hst <;> cases hst
    · exact .drained hphase
    · exact .drain hphase
  | drainPosting handles =>
    simp only [proceed, hphase] at hst
    cases hst
    exact .drainPost hphase

end ShardExecutor

end Sitas.Runtime
