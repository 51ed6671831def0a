import Sitas.Executor.Backpressure
import Sitas.Executor.Interleaving

/-! Spawners with a backpressure guard, beside users of clones of the guard. A spawn takes
its permit before the task exists; from then on the wrapper around the task's future owns
it, so that it is dropped with that future. -/
namespace Sitas.Executor.Interleaving
open Sitas.Lib

section Model
variable {F : Type}

def Stage.polled : Stage F → Option Nat
  | .inTask id _ _ => some id
  | _ => none

def Executing.polled (s : Executing F) : Option Nat := s.stage.polled

def Executing.current (s : Executing F) : Event F → Option (Access F × (Nat → Bool))
  | .thread i _ alive => (Calls.next s.calls i).map fun next => (next.1, alive)
  | .advance _ alive =>
    match s.stage with
    | .ending _ _ _ (a :: _) => some (a, alive)
    | _ => none
  | _ => none

def Shared.futureDrop (s : Shared F) : Access F → Option Nat
  | .cancel id => if (s.cells id).any (·.state.cancel.1 == some true) then some id else none
  | .dropFuture id => if (s.cells id).any (·.state.future.isSome) then some id else none
  | _ => none

/-- The task whose future an event drops. -/
def Executing.futureDrop (s : Executing F) : Event F → Option Nat
  | .taskReturns _ | .taskPanics _ => s.polled
  | .taskPending _ _ =>
    s.polled.filter fun id => (s.shared.cells id).any (·.state.cancelRequested)
  | e => (s.current e).bind fun a => s.shared.futureDrop a.1

def Executing.allocation (s : Executing F) (e : Event F) : Option (Nat × F) :=
  match s.current e with
  | some (.allocateTask future _ _, _) => some (s.shared.tasks.nextTaskId, future)
  | _ => none

/-- The new task that an event fails to schedule. -/
def Executing.rejection (s : Executing F) (e : Event F) : Option Nat :=
  match s.current e with
  | some (.scheduleNew id, alive) =>
    (s.shared.cells id).bind fun cell =>
      match s.shared.tasks.scheduleNew alive cell.group id with
      | .ok _ => none
      | .error _ => some id
  | _ => none

def Executing.ended (s : Executing F) (id : Nat) : Option Bool :=
  (s.shared.cells id).map (·.state.completed)

end Model
end Sitas.Executor.Interleaving

namespace Sitas.Executor.Backpressure
variable {W : Type}

def Pc.expects : Pc W → Option Nat
  | .tryExchange current | .pollExchange _ _ current => some current
  | _ => none

def Guard.acquires (g : Guard W) (t : Nat) : Bool :=
  (g.threads t).expects == some g.inner.inFlight

end Sitas.Executor.Backpressure

namespace Sitas.Executor.Permits
open Sitas.Lib Interleaving

/-- The async block of `spawn_inner`: a future and whether it holds a permit of the guard. -/
structure Wrapped (F : Type) where
  permit : Bool
  future : F
  deriving DecidableEq, Repr

structure SpawnRequest (F : Type) where
  future : F
  panicHandler : Option Unit
  group : Nat

/-- Who holds a permit. A dropped one is held by its destructor. -/
inductive Owner where
  | user
  | spawning
  | task (id : Nat)
  | dropping
  deriving DecidableEq, Repr

structure Backpressured (F W : Type) where
  guard : Backpressure.Guard W
  exec : Executing (Wrapped F)
  spawns : List (Nat × SpawnRequest F)
  backed : Nat → Bool
  /-- The tasks to which no reference is left. -/
  freed : List Nat
  /-- The tasks spawned with a permit whose future has been dropped, once for each drop. -/
  dropped : List Nat
  owners : List Owner

inductive PermitEvent (F W : Type) where
  | guard (event : Backpressure.Event W)
  | spawn (thread : Nat) (request : SpawnRequest F)
  | acquire (thread : Nat)
  | exec (event : Interleaving.Event (Wrapped F))
  | free (id : Nat)
  | dropPermit (thread : Nat)

namespace Backpressured
variable {F W : Type}

def start (inner : Backpressure.BackpressureInner W) : Backpressured F W :=
  ⟨.start inner, .new, [], fun _ => false, [], [], []⟩

/-- A new task takes over the permit of its spawn. -/
def allocate (s : Backpressured F W) (id : Nat) (w : Wrapped F) : Backpressured F W :=
  { s with
    backed := Function.update s.backed id w.permit
    owners := if w.permit then s.owners.erase .spawning ++ [.task id] else s.owners }

def lose (s : Backpressured F W) (id : Nat) : Backpressured F W :=
  if s.backed id && !s.freed.contains id then
    { s with
      dropped := s.dropped ++ [id]
      owners := s.owners.erase (.task id) ++ [.dropping] }
  else s

def free (s : Backpressured F W) (id : Nat) : Backpressured F W :=
  let s := if s.exec.ended id == some false then s.lose id else s
  { s with freed := id :: s.freed }

def transfer (s : Backpressured F W) (e : Interleaving.Event (Wrapped F))
    (exec : Executing (Wrapped F)) : Backpressured F W :=
  let t := (s.exec.allocation e).elim { s with exec } fun a => { s with exec }.allocate a.1 a.2
  (s.exec.futureDrop e).elim t t.lose

def settle (s : Backpressured F W) (e : Interleaving.Event (Wrapped F))
    (exec : Executing (Wrapped F)) : Backpressured F W :=
  (s.exec.rejection e).elim (s.transfer e exec) (s.transfer e exec).free

/-- The events of the executor that other threads can bring about without the guard: they
spawn without a permit, hold a reference to a task they wake or abort, and keep a spawner
that is in use. A pending poll gives back the wrapper it was given. -/
def admits (s : Backpressured F W) : Interleaving.Event (Wrapped F) → Bool
  | .call (.spawn w _ _) => !w.permit
  | .call .dropSpawner => s.spawns.isEmpty || decide (1 < s.exec.shared.spawners)
  | .call (.wake id) | .call (.abort id) => !s.freed.contains id
  | .taskPending w _ => s.exec.polled.all fun id => w.permit == s.backed id
  | _ => true

def unreferenced (s : Backpressured F W) (id : Nat) : Bool :=
  !s.exec.shared.tasks.queued.contains id && s.exec.polled != some id &&
    (match s.exec.stage with
      | .popped i _ => i != id
      | _ => true) &&
    (Calls.due s.exec.calls).all fun
      | .markNew i | .scheduleNew i | .markExisting i | .scheduleExisting i | .cancel i => i != id
      | _ => true

variable [DecidableEq W]

def use (s : Backpressured F W) (e : Backpressure.Event W) : Option (Backpressured F W) :=
  match e with
  | .call t op =>
    if (s.spawns.lookup t).isNone then
      match op with
      | .dropPermit =>
        if .user ∈ s.owners then
          (s.guard.step e).map fun guard => { s with guard, owners := s.owners.erase .user }
        else none
      | _ => (s.guard.step e).map fun guard => { s with guard }
    else none
  | .advance t =>
    if (s.spawns.lookup t).isNone then
      (s.guard.step e).map fun guard =>
        { s with guard, owners := if s.guard.acquires t then s.owners ++ [.user] else s.owners }
    else none

/-- An access of a spawn's `try_acquire`. With a permit the spawn goes on to create its
task, at capacity it returns the backpressure error. -/
def acquire (s : Backpressured F W) (t : Nat) : Option (Backpressured F W) := do
  let r ← s.spawns.lookup t
  let guard ← s.guard.step (.advance t)
  if s.guard.acquires t then
    let exec ← s.exec.call (.spawn ⟨true, r.future⟩ r.panicHandler r.group)
    some { s with
      guard, exec
      spawns := s.spawns.filter (·.1 != t)
      owners := s.owners ++ [.spawning] }
  else
    match guard.threads t with
    | .idle => some { s with guard, spawns := s.spawns.filter (·.1 != t) }
    | _ => some { s with guard }

def step (s : Backpressured F W) : PermitEvent F W → Option (Backpressured F W)
  | .guard e => s.use e
  | .spawn t r =>
    if (s.spawns.lookup t).isNone && decide (0 < s.exec.shared.spawners) then
      (s.guard.step (.call t .tryAcquire)).map fun guard =>
        { s with guard, spawns := (t, r) :: s.spawns }
    else none
  | .acquire t => s.acquire t
  | .exec e => if s.admits e then (s.exec.step e).map (s.settle e) else none
  | .free id =>
    if (s.exec.ended id).isSome && !s.freed.contains id && s.unreferenced id then some (s.free id)
    else none
  | .dropPermit t =>
    if (s.spawns.lookup t).isNone && s.owners.contains .dropping then
      (s.guard.step (.call t .dropPermit)).map fun guard =>
        { s with guard, owners := s.owners.erase .dropping }
    else none

end Backpressured
end Sitas.Executor.Permits
