import Sitas.Executor.Join

/-! Collective joins: `join_all_shards` and `join_all_shards_timeout` await shard-tagged handles in
order. The tasks deliver their results and finish at any time. -/
namespace Sitas.Runtime
open Sitas.Lib Sitas.Executor

/-- A task and the join state it shares with its handle. -/
structure JoinCell (T P : Type) where
  completed : Bool
  canceled : Bool
  result : Option (Except (JoinError P) T)
  delivered : Option (Except (JoinError P) T)
  deriving DecidableEq

namespace JoinCell
variable {T P : Type}

def spawned : JoinCell T P := ⟨false, false, none, none⟩

/-- `JoinHandle::abort`, which is also its drop: a task that has neither completed nor been
cancelled is cancelled, and its join completes unless it has a result. -/
def abort (c : JoinCell T P) : JoinCell T P :=
  if c.completed || c.canceled then c
  else { c with canceled := true, result := c.result <|> some (.error .canceled) }

def settled (c : JoinCell T P) : Bool := c.completed || c.canceled

def deliver (c : JoinCell T P) (r : Except (JoinError P) T) : JoinCell T P :=
  { c with result := c.result <|> some r, delivered := some r }

@[simp] theorem settled_abort (c : JoinCell T P) : c.abort.settled = true := by
  rw [abort]
  split
  · assumption
  · simp [settled]

@[simp] theorem delivered_abort (c : JoinCell T P) : c.abort.delivered = c.delivered := by
  rw [abort]
  split <;> rfl

end JoinCell

inductive JoinAllError (P : Type) where
  | join (shard : Nat) (error : JoinError P)
  | timedOut (shard : Nat)
  deriving DecidableEq

inductive JoinAllPhase (T P : Type) where
  | next
  /-- The handle was granted a wait, whose timer does not run yet. -/
  | granted (i remaining : Nat)
  /-- The handle is awaited, up to the deadline of its timer if it has one. -/
  | waiting (i : Nat) (deadline : Option Nat)
  | returned (result : Except (JoinAllError P) (List (Nat × T)))
  | dropped
  deriving DecidableEq

/-- The handles are named by their position in the input, and `popped` of them have been taken
out of the queue. -/
structure JoinAll (T P : Type) where
  shards : List Nat
  /-- The overall deadline, of `join_all_shards_timeout` only. -/
  deadline : Option Nat
  now : Nat
  cells : Nat → JoinCell T P
  popped : Nat
  outputs : List (Nat × T)
  phase : JoinAllPhase T P
  /-- The waits granted to the handles, with the time of the grant. -/
  grants : List (Nat × Nat)

inductive JoinAllEvent (T P : Type) where
  | tick (elapsed : Nat)
  | deliver (i : Nat) (r : Except (JoinError P) T)
  | complete (i : Nat)
  /-- The collective future runs up to its next access to a handle or the clock. -/
  | poll
  | drop

namespace JoinAll
variable {T P : Type}

def start (shards : List Nat) (deadline : Option Nat) (now : Nat) : JoinAll T P :=
  ⟨shards, deadline, now, fun _ => .spawned, 0, [], .next, []⟩

def joinAllShards (shards : List Nat) (now : Nat) : JoinAll T P := start shards none now

/-- The deadline is set by the first poll, which is at `now`. -/
def joinAllShardsTimeout (shards : List Nat) (duration now : Nat) : JoinAll T P :=
  start shards (some (now + duration)) now

def joinAll (shards : List Nat) (timeout : Option Nat) (now : Nat) : JoinAll T P :=
  match timeout with
  | none => joinAllShards shards now
  | some duration => joinAllShardsTimeout shards duration now

def abortFrom (s : JoinAll T P) (i : Nat) : JoinAll T P :=
  { s with cells := fun j => if i ≤ j then (s.cells j).abort else s.cells j }

def fail (s : JoinAll T P) (i : Nat) (e : JoinAllError P) : JoinAll T P :=
  { s.abortFrom i with phase := .returned (.error e) }

def popFront (s : JoinAll T P) (shard : Nat) : JoinAll T P :=
  let i := s.popped
  let t := { s with popped := i + 1 }
  match s.deadline with
  | none => { t with phase := .waiting i none }
  | some deadline =>
    let remaining := deadline - s.now
    if remaining = 0 then t.fail i (.timedOut shard)
    else { t with phase := .granted i remaining, grants := s.grants ++ [(s.now, remaining)] }

/-- The handle has its result. It is taken, and the handle is dropped. -/
def joined (s : JoinAll T P) (i shard : Nat) (r : Except (JoinError P) T) : JoinAll T P :=
  let taken := { s with
    cells := Function.update s.cells i { s.cells i with result := none }.abort }
  match r with
  | .ok output => { taken with outputs := s.outputs ++ [(shard, output)], phase := .next }
  | .error e => taken.fail i (.join shard e)

/-- A poll of the awaited handle, then of its timer. -/
def pollHandle (s : JoinAll T P) (i shard : Nat) (deadline : Option Nat) : JoinAll T P :=
  match (s.cells i).result with
  | some r => s.joined i shard r
  | none => if deadline.any (· ≤ s.now) then s.fail i (.timedOut shard) else s

def poll (s : JoinAll T P) : Option (JoinAll T P) :=
  match s.phase with
  | .next =>
    match s.shards[s.popped]? with
    | none => some { s with phase := .returned (.ok s.outputs) }
    | some shard => some (s.popFront shard)
  | .granted i remaining => some { s with phase := .waiting i (some (s.now + remaining)) }
  | .waiting i deadline => (s.shards[i]?).map fun shard => s.pollHandle i shard deadline
  | .returned _ | .dropped => none

def owned (s : JoinAll T P) : Nat :=
  match s.phase with
  | .granted i _ | .waiting i _ => i
  | _ => s.popped

def step (s : JoinAll T P) : JoinAllEvent T P → Option (JoinAll T P)
  | .tick elapsed => some { s with now := s.now + elapsed }
  | .deliver i r =>
    if (s.cells i).delivered = none then
      some { s with cells := Function.update s.cells i ((s.cells i).deliver r) }
    else none
  | .complete i =>
    some { s with cells := Function.update s.cells i { s.cells i with completed := true } }
  | .poll => s.poll
  | .drop =>
    match s.phase with
    | .returned _ | .dropped => none
    | _ => some { s.abortFrom s.owned with phase := .dropped }

end JoinAll
end Sitas.Runtime
