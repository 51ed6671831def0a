import Sitas.Executor.SignalWaiters
import Sitas.Lib.Runs

/-! The accept loops of the TCP servers. Each of them races an accept on the
listener against a stop token, over and over until the token wins or an accept
fails. -/
namespace Sitas.Tcp
open Sitas.Lib Sitas.Executor

/-- One poll of a future that acts on a state. `within` is a poll that has not
returned after the accept calls counted for it. -/
inductive Progress (σ α : Type) where
  | ready (value : α) (state : σ)
  | pending (state : σ)
  | within (state : σ)
  deriving DecidableEq, Repr

namespace Progress
variable {σ α β : Type}

def state : Progress σ α → σ
  | .ready _ s | .pending s | .within s => s

def map (f : α → β) : Progress σ α → Progress σ β
  | .ready a s => .ready (f a) s
  | .pending s => .pending s
  | .within s => .within s

end Progress

inductive RaceOutput (α β : Type) where
  | first (output : α)
  | second (output : β)
  deriving DecidableEq, Repr

/-- The second future is polled only if the first one is pending. -/
def Race.poll {σ α β : Type} (first : σ → Progress σ α) (second : σ → Progress σ β) (s : σ) :
    Progress σ (RaceOutput α β) :=
  match first s with
  | .ready a s => .ready (.first a) s
  | .within s => .within s
  | .pending s => (second s).map .second

inductive AcceptFault (E : Type) where
  | interrupted
  | failed (error : E)
  deriving DecidableEq, Repr

abbrev ShardId := Nat

inductive ShardedTcpEvent (E S : Type) where
  | connectionLimitRejected (shard : ShardId)
  | acceptError (shard : Option ShardId) (kind : E)
  | handlerSubmitError (shard : ShardId) (error : S)
  deriving DecidableEq, Repr

/-- The accept task's listener, signals and handlers. The backlog holds the
connections not yet accepted, each with what making its stream non-blocking will
return. `calls` bounds the accept calls that are made before other threads move on,
`faults` are the errors the kernel gives to the first of them. `waiting` says that the
accept future awaits readability, `readable` that the reactor has reported it. -/
structure Server (C E S W : Type) where
  backlog : List (C × Except E Unit)
  calls : Nat
  faults : List (AcceptFault E)
  waiting : Bool
  readable : Bool
  stop : StopState W
  handlerError : NotifyState W
  accepted : List C
  handlers : List C
  counts : List Nat
  events : List (ShardedTcpEvent E S)

inductive Leave (E S : Type) where
  | stopped
  | acceptFailed (error : E)
  | spawnFailed (error : S)
  deriving DecidableEq, Repr

variable {C E S W : Type}

/-- The loop of `accept_async` from its call of `accept`. A call without an error takes
the oldest connection of the backlog. A first poll of the readability future registers its
interest and is pending. -/
def acceptCalls (s : Server C E S W) :
    Nat → List (AcceptFault E) → Progress (Server C E S W) (Except E C)
  | 0, faults => .within { s with calls := 0, faults, waiting := false }
  | calls + 1, .interrupted :: faults => acceptCalls s calls faults
  | calls + 1, .failed e :: faults => .ready (.error e) { s with calls, faults, waiting := false }
  | calls + 1, [] =>
    match s.backlog with
    | [] => .pending { s with calls, faults := [], waiting := true }
    | (c, nonblocking) :: backlog =>
      .ready (nonblocking.map fun _ => c)
        { s with
          backlog, calls, faults := [], waiting := false
          accepted := s.accepted ++ [c] }

def acceptAsync (s : Server C E S W) : Progress (Server C E S W) (Except E C) :=
  if s.waiting && !s.readable then .pending s
  else acceptCalls { s with readable := false } s.calls s.faults

inductive Status (E S : Type) where
  | idle
  | polling
  | left (how : Leave E S)
  deriving DecidableEq, Repr

structure Serving (C E S W : Type) where
  server : Server C E S W
  status : Status E S
  waker : Option W

inductive ServeEvent (C E W : Type) where
  | stop
  | handlerFailed
  | readable
  | handlerDone (shard : ShardId)
  | arrive (conn : C) (nonblocking : Except E Unit)
  | poll (waker : W) (calls : Nat) (faults : List (AcceptFault E))
  | resume (calls : Nat) (faults : List (AcceptFault E))

/-- What an accept loop races the accept against, what it does with a connection
and with an error. A handler that cannot be spawned may end the loop. -/
structure LoopBody (C E S W : Type) where
  second : W → Server C E S W → Progress (Server C E S W) Unit
  handle : C → Server C E S W → Except S Unit × Server C E S W
  failed : E → Server C E S W → Server C E S W

def acceptLoop (body : LoopBody C E S W) (w : W) :
    Nat → Server C E S W → Progress (Server C E S W) (Leave E S)
  | 0, s => .within s
  | fuel + 1, s =>
    match Race.poll acceptAsync (body.second w) s with
    | .ready (.first (.ok c)) s =>
      match body.handle c s with
      | (.ok _, s) => acceptLoop body w fuel s
      | (.error e, s) => .ready (.spawnFailed e) s
    | .ready (.first (.error e)) s => .ready (.acceptFailed e) (body.failed e s)
    | .ready (.second _) s => .ready .stopped s
    | .pending s => .pending s
    | .within s => .within s

def spawnTcpHandler (spawn : C → Except S Unit) (c : C) (s : Server C E S W) :
    Except S Unit × Server C E S W :=
  match spawn c with
  | .ok _ => (.ok (), { s with handlers := s.handlers ++ [c] })
  | .error e => (.error e, s)

def tryAcquire (counts : List Nat) (shard : ShardId) (limit : Nat) : Option (List Nat) :=
  counts[shard]?.bind fun current =>
    if limit ≤ current then none else some (counts.modify shard (· + 1))

def releasePermit (counts : List Nat) (shard : ShardId) : List Nat := counts.modify shard (· - 1)

/-- Hand a connection to a shard under the shard's connection limit. A rejected handler is
dropped with its permit. -/
def submitHandler (shard : ShardId) (limit : Nat) (submit : C → Except S Unit) (c : C)
    (s : Server C E S W) : Server C E S W :=
  match tryAcquire s.counts shard limit with
  | none => { s with events := s.events ++ [.connectionLimitRejected shard] }
  | some counts =>
    match submit c with
    | .ok _ => { s with counts, handlers := s.handlers ++ [c] }
    | .error e =>
      { s with
        counts := releasePermit counts shard
        events := s.events ++ [.handlerSubmitError shard e] }

inductive AcceptLoop (C S : Type) where
  | untilStopped (spawn : C → Except S Unit)
  | untilStoppedScoped (spawn : C → Except S Unit)
  | reuseport (shard : ShardId) (limit : Nat) (submit : C → Except S Unit)
  | singleAccept (hash : C → Nat) (shardCount limit : Nat) (submit : ShardId → C → Except S Unit)

def Serving.new (shardCount : Nat) : Serving C E S W :=
  ⟨⟨[], 0, [], false, false, .new, .new, [], [], List.replicate shardCount 0, []⟩, .idle, none⟩

section Signals
variable [DecidableEq W]

def pollStop (w : W) (s : Server C E S W) : Progress (Server C E S W) Unit :=
  match StopToken.poll s.stop w with
  | (.ready _, stop) => .ready () { s with stop }
  | (.pending, stop) => .pending { s with stop }

def pollHandlerError (w : W) (s : Server C E S W) : Progress (Server C E S W) Unit :=
  match Notified.poll s.handlerError w with
  | (.ready _, handlerError) => .ready () { s with handlerError }
  | (.pending, handlerError) => .pending { s with handlerError }

def serveTcpUntilStoppedWith (spawn : C → Except S Unit) : LoopBody C E S W where
  second := pollStop
  handle := spawnTcpHandler spawn
  failed := fun _ s => s

def serveTcpUntilStoppedScopedWith (spawn : C → Except S Unit) : LoopBody C E S W where
  second := fun w s => (Race.poll (pollStop w) (pollHandlerError w) s).map fun _ => ()
  handle := spawnTcpHandler spawn
  failed := fun _ s => s

def startWithReuseport (shard : ShardId) (limit : Nat) (submit : C → Except S Unit) :
    LoopBody C E S W where
  second := pollStop
  handle := fun c s => (.ok (), submitHandler shard limit submit c s)
  failed := fun e s => { s with events := s.events ++ [.acceptError (some shard) e] }

def startWithSingleAccept (hash : C → Nat) (shardCount limit : Nat)
    (submit : ShardId → C → Except S Unit) : LoopBody C E S W where
  second := pollStop
  handle := fun c s =>
    let target := hash c % shardCount
    (.ok (), submitHandler target limit (submit target) c s)
  failed := fun e s => { s with events := s.events ++ [.acceptError none e] }

def AcceptLoop.body : AcceptLoop C S → LoopBody C E S W
  | .untilStopped spawn => serveTcpUntilStoppedWith spawn
  | .untilStoppedScoped spawn => serveTcpUntilStoppedScopedWith spawn
  | .reuseport shard limit submit => startWithReuseport shard limit submit
  | .singleAccept hash shardCount limit submit => startWithSingleAccept hash shardCount limit submit

namespace Serving

def advance (loop : AcceptLoop C S) (s : Serving C E S W) (w : W) (calls : Nat)
    (faults : List (AcceptFault E)) : Serving C E S W :=
  let progress := acceptLoop loop.body w (calls + 1) { s.server with calls, faults }
  ⟨progress.state, match progress with
    | .ready how _ => .left how
    | .pending _ => .idle
    | .within _ => .polling, some w⟩

/-- A poll may be cut at any of its accept calls, so that connections arrive and the
signals are raised by other threads while it goes on. -/
def step (loop : AcceptLoop C S) (s : Serving C E S W) : ServeEvent C E W → Option (Serving C E S W)
  | .stop => some { s with server.stop := (StopSource.stop s.server.stop).2.2 }
  | .handlerFailed =>
    some { s with server.handlerError := (Notify.notifyWaiters s.server.handlerError).2.2 }
  | .readable => some { s with server.readable := s.server.waiting }
  | .handlerDone shard =>
    some { s with server.counts := releasePermit s.server.counts shard }
  | .arrive c nonblocking =>
    some { s with server.backlog := s.server.backlog ++ [(c, nonblocking)] }
  | .poll w calls faults =>
    if s.status matches .idle then some (s.advance loop w calls faults) else none
  | .resume calls faults =>
    if s.status matches .polling then s.waker.map fun w => s.advance loop w calls faults else none

end Serving
end Signals
end Sitas.Tcp
