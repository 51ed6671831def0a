import Sitas.Executor.Scheduler
import Sitas.Lib.Parking

/-! The futures that wait on the scheduler, and the spawners that futures own. -/
namespace Sitas.Executor
open Sitas.Lib

/-- A part of a future that refers back to the scheduler. The identifier of a wait is
there once the wait has been polled. -/
inductive Leaf where
  | sleep (deadline : Nat) (timerId : Option Nat)
  | readable (fd : Int) (interestId : Option Nat)
  | writable (fd : Int) (interestId : Option Nat)
  | spawner
  deriving DecidableEq, Repr

namespace Leaf
variable {F : Type}

def prepareSleep (s : Scheduler F) (now deadline : Nat) (timerId : Option Nat) :
    Poll Unit × Leaf × Scheduler F :=
  if deadline ≤ now then
    (.ready (), .sleep deadline none, timerId.elim s s.removeTimer)
  else
    let r := timerId.elim s.allocateTimerId fun id => (id, s)
    (.pending, .sleep deadline (some r.1), r.2)

def prepareReadable (s : Scheduler F) (fd : Int) (interestId : Option Nat) :
    Poll Unit × Leaf × Scheduler F :=
  let r := interestId.elim s.allocateReadInterestId fun id => (id, s)
  let taken := r.2.takeReadyReadInterest r.1
  (if taken.1 then .ready () else .pending, .readable fd (some r.1), taken.2)

def prepareWritable (s : Scheduler F) (fd : Int) (interestId : Option Nat) :
    Poll Unit × Leaf × Scheduler F :=
  let r := interestId.elim s.allocateWriteInterestId fun id => (id, s)
  let taken := r.2.takeReadyWriteInterest r.1
  (if taken.1 then .ready () else .pending, .writable fd (some r.1), taken.2)

/-- What a poll does before it registers the waker. A spawner is not a future. -/
def prepare (s : Scheduler F) (now : Nat) : Leaf → Option (Poll Unit × Leaf × Scheduler F)
  | .sleep deadline id => some (prepareSleep s now deadline id)
  | .readable fd id => some (prepareReadable s fd id)
  | .writable fd id => some (prepareWritable s fd id)
  | .spawner => none

def wait : Leaf → TaskWait
  | .sleep deadline _ => .timer deadline
  | .readable fd _ => .readable fd
  | .writable fd _ => .writable fd
  | .spawner => .unknown

def insert (s : Scheduler F) (waker : TaskWaker) : Leaf → Scheduler F
  | .sleep deadline (some id) => s.insertTimer id deadline waker
  | .readable fd (some id) => s.insertReadInterest id fd waker
  | .writable fd (some id) => s.insertWriteInterest id fd waker
  | _ => s

def register (s : Scheduler F) (waker : TaskWaker) : Leaf → Scheduler F
  | .sleep deadline (some id) => s.registerTimer id deadline waker
  | .readable fd (some id) => s.registerReadInterest id fd waker
  | .writable fd (some id) => s.registerWriteInterest id fd waker
  | _ => s

def poll (s : Scheduler F) (now : Nat) (waker : TaskWaker) (leaf : Leaf) :
    Option (Poll Unit × Leaf × Scheduler F) :=
  (leaf.prepare s now).map fun r =>
    match r.1 with
    | .ready _ => r
    | .pending => (.pending, r.2.1, r.2.1.register r.2.2 waker)

/-- Cloning a spawner counts it. Creating a wait touches nothing. -/
def create (s : Scheduler F) : Leaf → Scheduler F
  | .spawner => { s with tasks := s.tasks.addSpawner }
  | _ => s

/-- A wait that has not been polled yet, or a spawner. -/
def fresh : Leaf → Bool
  | .sleep _ id | .readable _ id | .writable _ id => id.isNone
  | .spawner => true

def drop (s : Scheduler F) : Leaf → Scheduler F
  | .sleep _ id => id.elim s s.removeTimer
  | .readable _ id => id.elim s s.removeReadInterest
  | .writable _ id => id.elim s s.removeWriteInterest
  | .spawner => { s with tasks := s.tasks.removeSpawner }

def locks : Leaf → Bool
  | .sleep _ id | .readable _ id | .writable _ id => id.isSome
  | .spawner => true

variable {s : Scheduler F} {leaf : Leaf}

open Scheduler

theorem sameTasks_drop (s : Scheduler F) (leaf : Leaf) : SameTasks s (leaf.drop s) := by
  cases leaf with
  | sleep _ id | readable _ id | writable _ id =>
    cases id <;> exact ⟨fun _ => rfl, rfl⟩
  | spawner => exact ⟨fun _ => rfl, rfl⟩

theorem sameTasks_create (s : Scheduler F) (leaf : Leaf) : SameTasks s (leaf.create s) := by
  cases leaf <;> exact ⟨fun _ => rfl, rfl⟩

private theorem sameTasks_prepareSleep (s : Scheduler F) (now deadline : Nat)
    (id : Option Nat) : SameTasks s (prepareSleep s now deadline id).2.2 := by
  rw [prepareSleep]
  split
  · exact sameTasks_drop s (.sleep deadline id)
  · cases id <;> exact ⟨fun _ => rfl, rfl⟩

theorem sameTasks_prepare {now : Nat} {r : Poll Unit × Leaf × Scheduler F}
    (h : leaf.prepare s now = some r) : SameTasks s r.2.2 := by
  cases leaf with
  | sleep deadline id =>
    cases h
    exact sameTasks_prepareSleep s now deadline id
  | readable fd id | writable fd id =>
    cases h
    cases id <;> exact ⟨fun _ => rfl, rfl⟩
  | spawner => cases h

theorem sameTasks_register (s : Scheduler F) (waker : TaskWaker) (leaf : Leaf) :
    SameTasks s (leaf.register s waker) := by
  cases leaf with
  | sleep deadline id =>
    cases id with
    | none => exact .refl s
    | some id => exact { sameTasks_setCurrentTaskWaitingFor s (.timer deadline) waker with }
  | readable fd id =>
    cases id with
    | none => exact .refl s
    | some id => exact { sameTasks_setCurrentTaskWaitingFor s (.readable fd) waker with }
  | writable fd id =>
    cases id with
    | none => exact .refl s
    | some id => exact { sameTasks_setCurrentTaskWaitingFor s (.writable fd) waker with }
  | spawner => exact .refl s

theorem sameTasks_poll {now : Nat} {waker : TaskWaker} {r : Poll Unit × Leaf × Scheduler F}
    (h : leaf.poll s now waker = some r) : SameTasks s r.2.2 := by
  obtain ⟨p, hp, rfl⟩ := Option.map_eq_some_iff.mp h
  have hprepare := sameTasks_prepare hp
  split
  · exact hprepare
  · exact hprepare.trans (sameTasks_register _ waker _)

end Leaf
end Sitas.Executor
