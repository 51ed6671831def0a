import Sitas.Executor.RunLoop
import Sitas.Lib.Locks

/-! The executor thread and any number of threads that spawn, wake, abort, clone and drop
spawners, wake the root future or request a stop. Every critical section is one step.
What a future, a destructor, a panic handler or a fired timer calls while the executor
thread runs it appears among the calls of the other threads. -/
namespace Sitas.Executor.Interleaving
open Sitas.Lib

inductive Access (F : Type) where
  | allocateTask (future : F) (panicHandler : Option Unit) (group : Nat)
  | markNew (id : Nat)
  | scheduleNew (id : Nat)
  | markExisting (id : Nat)
  | scheduleExisting (id : Nat)
  | cancel (id : Nat)
  /-- The scheduler does not see which task is finished; the identifier tells whose end
  the section belongs to. -/
  | finishTask (id : Nat)
  | addSpawner
  | removeSpawner
  | createSchedulingGroup (shares : Nat)
  | requestStop
  | markReady (root : Nat)
  | close
  | dropFuture (id : Nat)
  | wakeReactor

structure Shared (F : Type) where
  tasks : SchedulerTaskSet
  cells : Nat → Option (TaskCell F)
  stopping : Bool
  /-- The root waker of the latest `run_until`, and whether it is marked ready. -/
  root : Nat
  rootReady : Bool
  /-- A reactor wake has been posted and not yet consumed. -/
  wakePending : Bool
  totalSpawnedTasks : Nat
  totalCompletedTasks : Nat
  spawners : Nat
  /-- The tasks that were taken into the ready queues by their spawn. -/
  accepted : List Nat
  /-- The tasks on whose behalf `finish_task` was invoked, once for each invocation. -/
  finished : List Nat
  /-- The task has been woken since its last poll began. -/
  woken : Nat → Bool

namespace Shared
variable {F : Type}

def new : Shared F where
  tasks := .new
  cells _ := none
  stopping := false
  root := 0
  rootReady := false
  wakePending := false
  totalSpawnedTasks := 0
  totalCompletedTasks := 0
  spawners := 1
  accepted := []
  finished := []
  woken _ := false

def setState (s : Shared F) (id : Nat) (cell : TaskCell F) (state : TaskState F Unit) : Shared F :=
  { s with cells := Function.update s.cells id (some { cell with state := state }) }

def onTask (s : Shared F) (id : Nat)
    (access : TaskCell F → TaskState F Unit × List (Access F)) : Shared F × List (Access F) :=
  match s.cells id with
  | none => (s, [])
  | some cell => (s.setState id cell (access cell).1, (access cell).2)

/-- The sections that follow in the same call are returned. -/
def perform (s : Shared F) (now : Nat) (alive : Nat → Bool) : Access F → Shared F × List (Access F)
  | .allocateTask future panicHandler group =>
    let id := s.tasks.nextTaskId
    ({ s with
        tasks := { s.tasks with nextTaskId := id + 1 }
        cells := Function.update s.cells id (some ⟨group, .new future panicHandler⟩) },
      [.markNew id])
  | .markNew id =>
    s.onTask id fun cell =>
      let r := cell.state.markQueued now
      (r.2, if r.1 then [.scheduleNew id] else [])
  | .scheduleNew id =>
    match s.cells id with
    | none => (s, [])
    | some cell =>
      match s.tasks.scheduleNew alive cell.group id with
      | .ok tasks =>
        ({ s with
            tasks := tasks
            totalSpawnedTasks := s.totalSpawnedTasks + 1
            accepted := s.accepted ++ [id] },
          [.wakeReactor])
      | .error _ => (s.setState id cell cell.state.clearQueued, [])
  | .markExisting id =>
    { s with woken := Function.update s.woken id true }.onTask id fun cell =>
      let r := cell.state.markQueued now
      (r.2, if r.1 then [.scheduleExisting id] else [])
  | .scheduleExisting id =>
    match s.cells id with
    | none => (s, [])
    | some cell =>
      match s.tasks.scheduleExisting cell.group id with
      | .ok tasks => ({ s with tasks := tasks }, [.wakeReactor])
      | .error _ => (s.setState id cell cell.state.clearQueued, [])
  | .cancel id =>
    s.onTask id fun cell =>
      (cell.state.cancel.2,
        match cell.state.cancel.1 with
        | none => []
        | some false => [.wakeReactor]
        | some true => [.finishTask id, .wakeReactor])
  | .finishTask id =>
    ({ s with
        tasks := s.tasks.finishTask
        totalCompletedTasks := s.totalCompletedTasks + 1
        finished := s.finished ++ [id] },
      if s.tasks.finishTask.isDrained then [.wakeReactor] else [])
  | .addSpawner => ({ s with tasks := s.tasks.addSpawner, spawners := s.spawners + 1 }, [])
  | .removeSpawner =>
    ({ s with tasks := s.tasks.removeSpawner },
      if s.tasks.removeSpawner.spawnerCount = 0 then [.wakeReactor] else [])
  | .createSchedulingGroup shares =>
    (if shares = 0 then s else { s with tasks := (s.tasks.createSchedulingGroup shares).2 }, [])
  | .requestStop => ({ s with stopping := true }, [.wakeReactor])
  | .markReady root =>
    ({ s with rootReady := s.rootReady || decide (root = s.root) }, [.wakeReactor])
  | .close =>
    ({ s with tasks := s.tasks.close.2 }, s.tasks.close.1.map .dropFuture ++ [.wakeReactor])
  | .dropFuture id => s.onTask id fun cell => (cell.state.dropFuture, [])
  | .wakeReactor => ({ s with wakePending := true }, [])

end Shared

inductive Stage (F : Type) where
  | outside
  | takeRoot
  | inRoot
  | next (budget : Nat)
  | popped (id budget : Nat)
  | inTask (id startedAt budget : Nat)
  | ending (id pollDuration budget : Nat) (sections : List (Access F))
  | checkDrained
  | checkStopping
  | checkRoot
  | checkReady
  | wait

structure Executing (F : Type) where
  shared : Shared F
  mode : LoopMode
  stage : Stage F
  /-- The executor value has been dropped, which closes the scheduler. -/
  dropped : Bool
  calls : List (List (Access F))

/-- A call that some thread makes. Only the futures given out by a spawn that succeeded
can be woken and aborted. -/
inductive Call (F : Type) where
  | spawn (future : F) (panicHandler : Option Unit) (group : Nat)
  | createSchedulingGroup (shares : Nat)
  | wake (id : Nat)
  | abort (id : Nat)
  | cloneSpawner
  | dropSpawner
  | requestStop
  | wakeRoot (root : Nat)
  | dropExecutor

inductive Event (F : Type) where
  | call (call : Call F)
  | thread (i now : Nat) (alive : Nat → Bool)
  | start (mode : LoopMode)
  | advance (now : Nat) (alive : Nat → Bool)
  | rootPending
  | rootEnds
  | taskReturns (now : Nat)
  | taskPending (future : F) (now : Nat)
  | taskPanics (now : Nat)
  /-- The reactor wait returns, and consumes a posted wake if it saw one. -/
  | reactor (woke : Bool)

def Stage.resting {F : Type} : Stage F → Bool
  | .next _ | .popped _ _ | .inTask _ _ _ | .ending _ _ _ _ => false
  | _ => true

namespace Event
variable {F : Type}

def loops : Event F → Bool
  | .start _ | .advance _ _ | .rootPending | .rootEnds | .reactor _ => true
  | _ => false

def endsPoll : Event F → Bool
  | .taskReturns _ | .taskPending _ _ | .taskPanics _ => true
  | _ => false

end Event

namespace Executing
variable {F : Type}

def new : Executing F := ⟨.new, .run, .outside, false, []⟩

def top : LoopMode → Stage F
  | .run => .next readyPollBudget
  | .runUntil => .takeRoot

def checks : LoopMode → Stage F
  | .run => .checkDrained
  | .runUntil => .checkRoot

def enter (s : Executing F) (sections : List (Access F)) : Executing F :=
  { s with calls := s.calls ++ [sections] }

def call (s : Executing F) : Call F → Option (Executing F)
  | .spawn future panicHandler group =>
    if 0 < s.shared.spawners then some (s.enter [.allocateTask future panicHandler group]) else none
  | .createSchedulingGroup shares =>
    if 0 < s.shared.spawners then some (s.enter [.createSchedulingGroup shares]) else none
  | .wake id => if id ∈ s.shared.accepted then some (s.enter [.markExisting id]) else none
  | .abort id => if id ∈ s.shared.accepted then some (s.enter [.cancel id]) else none
  | .cloneSpawner => if 0 < s.shared.spawners then some (s.enter [.addSpawner]) else none
  | .dropSpawner =>
    if 0 < s.shared.spawners then
      some ({ s with shared := { s.shared with spawners := s.shared.spawners - 1 } }.enter
        [.removeSpawner])
    else none
  | .requestStop => some (s.enter [.requestStop])
  | .wakeRoot root => some (s.enter [.markReady root])
  | .dropExecutor =>
    match s.stage, s.dropped with
    | .outside, false => some ({ s with dropped := true }.enter [.close])
    | _, _ => none

def takeFuture (s : Executing F) (now id budget : Nat) : Executing F :=
  match s.shared.cells id with
  | none => { s with stage := .next budget }
  | some cell =>
    let r := cell.state.takeFutureForPoll now
    let shared := s.shared.setState id cell r.2
    if r.1.isSome then
      { s with
        shared := { shared with woken := Function.update shared.woken id false }
        stage := .inTask id now budget }
    else { s with shared := shared, stage := .next budget }

def recordTaskPoll (s : Executing F) (id pollDuration : Nat) : SchedulerTaskSet :=
  match s.shared.cells id with
  | none => s.shared.tasks
  | some cell => s.shared.tasks.recordTaskPoll cell.group pollDuration

/-- The next section of the executor thread between polls. Fired timers and dispatched
completions wake tasks between a batch and the checks after it. -/
def advance (s : Executing F) (now : Nat) (alive : Nat → Bool) : Stage F → Option (Executing F)
  | .takeRoot =>
    if s.shared.rootReady then
      some { s with shared := { s.shared with rootReady := false }, stage := .inRoot }
    else some { s with stage := .next readyPollBudget }
  | .next 0 => some { s with stage := checks s.mode }
  | .next (budget + 1) =>
    match s.shared.tasks.nextTask with
    | none => some { s with stage := checks s.mode }
    | some (id, tasks) =>
      some { s with shared := { s.shared with tasks := tasks }, stage := .popped id budget }
  | .popped id budget => some (s.takeFuture now id budget)
  | .ending id pollDuration budget [] =>
    some { s with
      shared := { s.shared with tasks := s.recordTaskPoll id pollDuration }
      stage := .next budget }
  | .ending id pollDuration budget (a :: sections) =>
    let r := s.shared.perform now alive a
    some { s with shared := r.1, stage := .ending id pollDuration budget (r.2 ++ sections) }
  | .checkDrained =>
    some { s with stage := if s.shared.tasks.isDrained then .outside else .checkStopping }
  | .checkStopping =>
    some { s with stage := if s.shared.stopping then .outside else .checkReady }
  | .checkRoot => some { s with stage := if s.shared.rootReady then top s.mode else .checkReady }
  | .checkReady =>
    some { s with stage := if s.shared.tasks.hasReadyTasks then top s.mode else .wait }
  | .outside | .inRoot | .inTask _ _ _ | .wait => none

/-- The future of a task gives back control. The flag of `finish` tells that the task has
ended; `after` follows the section that finishes it. -/
def finishPoll (s : Executing F) (now : Nat) (after : List (Access F))
    (finish : Nat → TaskState F Unit → Bool × TaskState F Unit) : Option (Executing F) :=
  match s.stage with
  | .inTask id startedAt budget =>
    (s.shared.cells id).map fun cell =>
      let r := finish (now - startedAt) cell.state
      { s with
        shared := s.shared.setState id cell r.2
        stage := .ending id (now - startedAt) budget (if r.1 then .finishTask id :: after else []) }
  | _ => none

def step (s : Executing F) : Event F → Option (Executing F)
  | .call call => s.call call
  | .thread i now alive =>
    (Calls.next s.calls i).map fun next =>
      let r := s.shared.perform now alive next.1
      { s with shared := r.1, calls := s.calls.set i (r.2 ++ next.2) }
  | .start mode =>
    match s.stage, s.dropped with
    | .outside, false =>
      some { s with
        mode := mode
        stage := top mode
        shared := match mode with
          | .run => s.shared
          | .runUntil => { s.shared with root := s.shared.root + 1, rootReady := true } }
    | _, _ => none
  | .advance now alive => s.advance now alive s.stage
  | .rootPending =>
    match s.stage with
    | .inRoot => some { s with stage := .next readyPollBudget }
    | _ => none
  | .rootEnds =>
    match s.stage with
    | .inRoot => some { s with stage := .outside }
    | _ => none
  | .taskReturns now => s.finishPoll now [] fun d state => (true, state.finishReady d now)
  | .taskPending future now =>
    s.finishPoll now [.wakeReactor] fun d state => state.finishPending future d now
  | .taskPanics now => s.finishPoll now [] fun d state => (true, (state.finishPanicked d now).2)
  | .reactor woke =>
    match s.stage with
    | .wait =>
      if woke && !s.shared.wakePending then none
      else
        some { s with
          shared := { s.shared with wakePending := s.shared.wakePending && !woke }
          stage := top s.mode }
    | _ => none

inductive Steps (s : Executing F) : Event F → Executing F → Prop where
  | called {call : Call F} {t : Executing F} (h : s.call call = some t) : Steps s (.call call) t
  | performed {i now : Nat} {alive : Nat → Bool} {a : Access F} {rest : List (Access F)}
    (h : Calls.next s.calls i = some (a, rest)) : Steps s (.thread i now alive) { s with
      shared := (s.shared.perform now alive a).1
      calls := s.calls.set i ((s.shared.perform now alive a).2 ++ rest) }
  /-- The loop moves on outside a batch of polls, or begins one. -/
  | looped {e : Event F} (mode : LoopMode) (stage : Stage F) (root : Nat)
    (rootReady wakePending : Bool) (he : e.loops = true) (hs : s.stage.resting = true)
    (ht : stage.resting = true ∨ stage = .next readyPollBudget)
    (hd : s.stage = .outside → s.dropped = false) : Steps s e { s with
      shared := { s.shared with root := root, rootReady := rootReady, wakePending := wakePending }
      mode := mode, stage := stage }
  | exhausted {now budget : Nat} {alive : Nat → Bool} (hs : s.stage = .next budget) :
    Steps s (.advance now alive) { s with stage := checks s.mode }
  | picked {now budget id : Nat} {alive : Nat → Bool} {tasks : SchedulerTaskSet}
    (hs : s.stage = .next (budget + 1)) (h : s.shared.tasks.nextTask = some (id, tasks)) :
    Steps s (.advance now alive)
      { s with shared := { s.shared with tasks := tasks }, stage := .popped id budget }
  | took {now id budget : Nat} {alive : Nat → Bool} (hs : s.stage = .popped id budget) :
    Steps s (.advance now alive) (s.takeFuture now id budget)
  | recorded {now id pollDuration budget : Nat} {alive : Nat → Bool}
    (hs : s.stage = .ending id pollDuration budget []) : Steps s (.advance now alive) { s with
      shared := { s.shared with tasks := s.recordTaskPoll id pollDuration }
      stage := .next budget }
  | sectioned {now id pollDuration budget : Nat} {alive : Nat → Bool} {a : Access F}
    {sections : List (Access F)} (hs : s.stage = .ending id pollDuration budget (a :: sections)) :
    Steps s (.advance now alive) { s with
      shared := (s.shared.perform now alive a).1
      stage := .ending id pollDuration budget ((s.shared.perform now alive a).2 ++ sections) }
  | polled {e : Event F} {t : Executing F} (he : e.endsPoll = true) (h : s.step e = some t) :
    Steps s e t

section Inversion
variable {s t : Executing F} {e : Event F}

theorem call_frame {c : Call F} (h : s.call c = some t) :
    (t.shared.cells = s.shared.cells ∧ t.shared.tasks = s.shared.tasks) ∧ t.stage = s.stage ∧
      t.shared.accepted = s.shared.accepted := by
  cases c with
  | requestStop | wakeRoot root =>
    cases h
    exact ⟨⟨rfl, rfl⟩, rfl, rfl⟩
  | spawn | createSchedulingGroup | wake | abort | cloneSpawner | dropSpawner =>
    obtain ⟨_, rfl⟩ := guarded h
    exact ⟨⟨rfl, rfl⟩, rfl, rfl⟩
  | dropExecutor =>
    simp only [call] at h
    split at h
    · cases h
      exact ⟨⟨rfl, rfl⟩, rfl, rfl⟩
    · cases h

theorem top_resting (mode : LoopMode) :
    (top mode : Stage F).resting = true ∨ (top mode : Stage F) = .next readyPollBudget := by
  cases mode
  · exact .inr rfl
  · exact .inl rfl

theorem checks_resting (mode : LoopMode) : (checks mode : Stage F).resting = true := by
  cases mode <;> rfl

private theorem steps_of_advance {now : Nat} {alive : Nat → Bool}
    (h : s.advance now alive s.stage = some t) : Steps s (.advance now alive) t := by
  cases hstage : s.stage with
  | outside | inRoot | inTask id startedAt budget | wait =>
    rw [hstage] at h
    cases h
  | takeRoot =>
    rw [hstage, advance] at h
    split at h <;> cases h
    · exact .looped _ _ s.shared.root false s.shared.wakePending rfl (by rw [hstage]; rfl) (.inl rfl)
        (by rw [hstage]; nofun)
    · exact .looped _ _ s.shared.root s.shared.rootReady s.shared.wakePending rfl
        (by rw [hstage]; rfl) (.inr rfl) (by rw [hstage]; nofun)
  | checkDrained | checkStopping | checkRoot | checkReady =>
    rw [hstage] at h
    cases h
    refine .looped _ _ s.shared.root s.shared.rootReady s.shared.wakePending rfl
      (by rw [hstage]; rfl) ?_ (by rw [hstage]; nofun)
    split
    · first | exact .inl rfl | exact top_resting s.mode
    · exact .inl rfl
  | popped id budget =>
    rw [hstage] at h
    cases h
    exact .took hstage
  | next budget =>
    rw [hstage] at h
    cases budget with
    | zero =>
      cases h
      exact .exhausted hstage
    | succ budget =>
      rw [advance] at h
      split at h <;> cases h
      · exact .exhausted hstage
      next hnext =>
        exact .picked hstage hnext
  | ending id pollDuration budget sections =>
    rw [hstage] at h
    cases sections with
    | nil =>
      cases h
      exact .recorded hstage
    | cons a sections =>
      cases h
      exact .sectioned hstage

theorem steps_of_step (h : s.step e = some t) : Steps s e t := by
  cases e with
  | call call => exact .called h
  | thread i now alive =>
    obtain ⟨⟨a, rest⟩, hnext, rfl⟩ := Option.map_eq_some_iff.mp h
    exact .performed hnext
  | advance now alive => exact steps_of_advance h
  | taskReturns now | taskPending future now | taskPanics now => exact .polled rfl h
  | start mode =>
    simp only [step] at h
    split at h <;> cases h
    rename_i hstage hdropped
    cases mode with
    | run =>
      exact .looped _ _ s.shared.root s.shared.rootReady s.shared.wakePending rfl
        (by rw [hstage]; rfl) (.inr rfl) fun _ => hdropped
    | runUntil =>
      exact .looped _ _ (s.shared.root + 1) true s.shared.wakePending rfl
        (by rw [hstage]; rfl) (.inl rfl) fun _ => hdropped
  | rootPending | rootEnds =>
    simp only [step] at h
    split at h <;> cases h
    rename_i hstage
    exact .looped _ _ s.shared.root s.shared.rootReady s.shared.wakePending rfl
      (by rw [hstage]; rfl) (by first | exact .inr rfl | exact .inl rfl) (by rw [hstage]; nofun)
  | reactor woke =>
    simp only [step] at h
    split at h
    next hstage =>
      split at h <;> cases h
      exact .looped _ _ s.shared.root s.shared.rootReady _ rfl (by rw [hstage]; rfl)
        (top_resting s.mode) (by rw [hstage]; nofun)
    · cases h

end Inversion
end Executing
end Sitas.Executor.Interleaving
