import Sitas.Lib.Runs

/-! Shard-local values: one cell per shard of a sharded executor, reached from
the shard that is current on the calling thread or through a task submitted to
the cell's own shard. Several sharded executors may run in one process. -/
namespace Sitas.Runtime.Ownership
open Sitas.Lib List Option

abbrev ShardId := Nat

inductive ShardLocalAccessError where
  | notOnShard
  | invalidShardId (id : Nat)
  deriving DecidableEq, Repr

inductive ShardedSpawnError where
  | invalidShardId (id : Nat)
  | stopped (shard : ShardId)
  deriving DecidableEq, Repr

/-- The two assertions of `with_mut`. -/
inductive AccessPanic where
  | wrongShard
  | reentrant
  deriving DecidableEq, Repr

structure ShardLocalCell (T : Type) where
  owner : ShardId
  borrowed : Bool
  value : T
  deriving DecidableEq, Repr

variable {T : Type}

/-- The cell while the operation runs, unless an assertion fails first. -/
def ShardLocalCell.withMut (current : Option ShardId) (c : ShardLocalCell T) :
    Except AccessPanic (ShardLocalCell T) :=
  if current = some c.owner then
    if c.borrowed then .error .reentrant else .ok { c with borrowed := true }
  else .error .wrongShard

/-- The operation ended, by returning or by unwinding, and the guard was dropped. -/
def ShardLocalCell.release (value : T) (c : ShardLocalCell T) : ShardLocalCell T :=
  { c with borrowed := false, value }

/-- The submitter is named by the runtime it submits to. -/
structure ShardLocal (T : Type) where
  submitter : Nat
  shards : List (ShardLocalCell T)
  deriving DecidableEq, Repr

def ShardLocal.new (submitter shardCount : Nat) (makeValue : ShardId → T) : ShardLocal T :=
  ⟨submitter, (List.range shardCount).map fun idx => ⟨idx, false, makeValue idx⟩⟩

def ShardLocal.cellFor (l : ShardLocal T) (shard : ShardId) :
    Except ShardedSpawnError (ShardLocalCell T) :=
  l.shards[shard]?.elim (.error (.invalidShardId shard)) .ok

def ShardLocal.cellForCurrent (l : ShardLocal T) (shard : ShardId) :
    Except ShardLocalAccessError (ShardLocalCell T) :=
  l.shards[shard]?.elim (.error (.invalidShardId shard)) .ok

/-- The lookups of `with_current` and `with_current_result` in front of the operation. -/
def ShardLocal.currentCell (l : ShardLocal T) (current : Option ShardId) :
    Except ShardLocalAccessError (ShardId × ShardLocalCell T) :=
  match current with
  | none => .error .notOnShard
  | some shard => (l.cellForCurrent shard).map fun c => (shard, c)

/-- A thread: the runtime and shard whose executor it runs, the thread-local
`CURRENT_EXECUTOR_SHARD`, and the cells its running operations hold, innermost first. -/
structure Thread where
  home : Option (Nat × ShardId)
  current : Option ShardId
  running : List (Nat × ShardId)
  deriving DecidableEq, Repr

/-- A shard of a runtime: whether its spawner is gone, and the submitted tasks
its executor has not polled, each with the handle and the cell it accesses. -/
structure Shard where
  stopped : Bool
  tasks : List (Nat × ShardId)
  deriving DecidableEq, Repr

/-- Runtimes, threads and handles are named by their positions. -/
structure Process (T : Type) where
  runtimes : List (List Shard)
  threads : List Thread
  locals : List (ShardLocal T)
  deriving DecidableEq, Repr

inductive Event (T : Type) where
  | spawnThread
  | start (shardCount : Nat)
  | newLocal (runtime : Nat) (makeValue : ShardId → T)
  | withCurrent (thread loc : Nat)
  | withOn (loc : Nat) (shard : ShardId)
  | pollTask (thread pos : Nat)
  | dropTask (runtime : Nat) (shard : ShardId) (pos : Nat)
  | endOperation (thread : Nat) (value : T)
  | stop (runtime : Nat) (shard : ShardId)
  | exit (thread : Nat)

structure Access where
  thread : Nat
  loc : Nat
  cell : ShardId
  deriving DecidableEq, Repr

inductive Outcome where
  | done
  | invalidShardCount
  | failed (error : ShardLocalAccessError)
  | rejected (error : ShardedSpawnError)
  | panicked (panic : AccessPanic)
  | running (access : Access)
  deriving DecidableEq, Repr

def Outcome.reachesCell : Outcome → Bool
  | .running _ | .panicked _ => true
  | _ => false

namespace Process

def new : Process T := ⟨[], [], []⟩

def home (s : Process T) (thread : Nat) : Option (Nat × ShardId) :=
  s.threads[thread]?.bind Thread.home

def submitter (s : Process T) (loc : Nat) : Option Nat := s.locals[loc]?.map ShardLocal.submitter

def updateCell (s : Process T) (loc : Nat) (shard : ShardId)
    (f : ShardLocalCell T → ShardLocalCell T) : Process T :=
  { s with locals := s.locals.modify loc fun l => { l with shards := l.shards.modify shard f } }

def updateThread (s : Process T) (thread : Nat) (f : Thread → Thread) : Process T :=
  { s with threads := s.threads.modify thread f }

def updateShard (s : Process T) (runtime : Nat) (shard : ShardId) (f : Shard → Shard) : Process T :=
  { s with runtimes := s.runtimes.modify runtime fun shards => shards.modify shard f }

def enter (s : Process T) (a : Access) (current : Option ShardId) (c : ShardLocalCell T) :
    Process T × Outcome :=
  match c.withMut current with
  | .error panic => (s, .panicked panic)
  | .ok c' => ((s.updateCell a.loc a.cell fun _ => c').updateThread a.thread
      fun t => { t with running := (a.loc, a.cell) :: t.running }, .running a)

/-- One event of the process. Threads of several runtimes interleave arbitrarily;
an operation stays on its thread until `endOperation` and may call in turn. -/
def respond (s : Process T) : Event T → Option (Process T × Outcome)
  | .spawnThread => some ({ s with threads := s.threads ++ [⟨none, none, []⟩] }, .done)
  | .start shardCount =>
    if shardCount = 0 then some (s, .invalidShardCount)
    else some ({ s with
      runtimes := s.runtimes ++ [List.replicate shardCount ⟨false, []⟩]
      threads := s.threads ++ (List.range shardCount).map fun shard =>
        ⟨some (s.runtimes.length, shard), some shard, []⟩ }, .done)
  | .newLocal runtime makeValue => do
    let shards ← s.runtimes[runtime]?
    some ({ s with locals := s.locals ++ [.new runtime shards.length makeValue] }, .done)
  | .withCurrent thread loc => do
    let t ← s.threads[thread]?
    let l ← s.locals[loc]?
    match l.currentCell t.current with
    | .error e => some (s, .failed e)
    | .ok (shard, c) => some (s.enter ⟨thread, loc, shard⟩ t.current c)
  | .withOn loc shard => do
    let l ← s.locals[loc]?
    match l.cellFor shard with
    | .error e => some (s, .rejected e)
    | .ok _ =>
      let sh ← s.runtimes[l.submitter]?.bind fun shards => shards[shard]?
      if sh.stopped then some (s, .rejected (.stopped shard))
      else some (s.updateShard l.submitter shard fun sh =>
        { sh with tasks := sh.tasks ++ [(loc, shard)] }, .done)
  | .pollTask thread pos => do
    let t ← s.threads[thread]?
    let (runtime, shard) ← t.home
    let sh ← s.runtimes[runtime]?.bind fun shards => shards[shard]?
    let (loc, cell) ← sh.tasks[pos]?
    let l ← s.locals[loc]?
    let c ← l.shards[cell]?
    if t.running = [] ∧ t.current.isSome then
      some ((s.updateShard runtime shard fun sh => { sh with tasks := sh.tasks.eraseIdx pos }).enter
        ⟨thread, loc, cell⟩ t.current c)
    else none
  | .dropTask runtime shard pos =>
    some (s.updateShard runtime shard fun sh => { sh with tasks := sh.tasks.eraseIdx pos }, .done)
  | .endOperation thread value => do
    let t ← s.threads[thread]?
    let (loc, cell) ← t.running.head?
    some ((s.updateCell loc cell (·.release value)).updateThread thread
      fun t => { t with running := t.running.tail }, .done)
  | .stop runtime shard => some (s.updateShard runtime shard ({ · with stopped := true }), .done)
  | .exit thread => do
    let t ← s.threads[thread]?
    if t.running = [] then some (s.updateThread thread ({ · with current := none }), .done)
    else none

def step (s : Process T) (e : Event T) : Option (Process T) := (s.respond e).map Prod.fst

end Process
end Sitas.Runtime.Ownership
