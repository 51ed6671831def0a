import Sitas.Lib.Runs
import Sitas.Runtime.Reply

/-! The generic sharded service: a thread for each shard that processes the commands of a
bounded mailbox, the submission methods, and `shutdown`. -/
namespace Sitas.Runtime
open Sitas.Lib

/-- What `process` does: the new state, what it does with reply channels (a value is sent, or
the sender is dropped), and whether the loop of the shard goes on. -/
structure Processed (S V : Type) where
  state : S
  replies : List (Nat × Option V)
  continues : Bool

/-- An implementation of the trait. Reply senders are given by their channel, and a `process`
without result panics. -/
structure ShardService (S C V : Type) where
  initialState : Nat → S
  process : S → C → Option (Processed S V)
  stopCommand : Nat → C
  /-- The senders in a command and in a state, which are dropped with it. -/
  senders : C → List Nat
  held : S → List Nat

/-- A shard thread. It has no state once it has ended; its receiver is then dropped. -/
structure ServiceShard (S C : Type) where
  mailbox : List C
  state : Option S
  panicked : Bool

inductive HandleCall (C : Type) where
  | request (build : Nat → C)
  | tryRequest (build : Nat → C)
  | fail (e : ShardError)

/-- The public submission methods. Builders get the sender of a new reply channel. -/
inductive Method (C : Type) where
  | send (shard : Nat) (command : C)
  | trySend (shard : Nat) (command : C)
  | request (shard : Nat) (build : Nat → C)
  | tryRequest (shard : Nat) (build : Nat → C)
  | requestStopped (shard : Nat) (build : Nat → C)
  | sendAll (makeCommand : Nat → C)
  | trySendAll (makeCommand : Nat → C)
  | requestAll (request : Nat → HandleCall C)
  | shardHandle (shard : Nat)

inductive Source (C : Type) where
  | given (command : C)
  | made (command : Unit → C)
  | built (build : Nat → C)
  | failed (e : ShardError)

structure Submission (C : Type) where
  shard : Nat
  source : Source C
  blocking : Bool
  disconnected : ShardError

inductive Output (V : Type) where
  | done
  | replies (channels : List Nat)
  | value (v : V)
  | handle (shard : Nat)
  deriving DecidableEq, Repr

inductive CallPhase (C V : Type) where
  | submitting (todo : List (Submission C)) (replies : List Nat)
  | sending (submission : Submission C) (command : C) (todo : List (Submission C))
      (replies : List Nat)
  | waiting (reply : Nat)
  | returned (result : Except ShardError (Output V))

structure ServiceCall (C V : Type) where
  method : Method C
  phase : CallPhase C V

def ServiceCall.result {C V : Type} (c : ServiceCall C V) : Option (Except ShardError (Output V)) :=
  match c.phase with
  | .returned result => some result
  | _ => none

inductive StopPhase where
  | idle
  | stopping (shard : Nat) (result : Except ShardError Unit)
  | sending (shard reply : Nat) (result : Except ShardError Unit)
  | awaiting (shard reply : Nat) (result : Except ShardError Unit)
  | joining (threads : List Nat) (stopped joined : Except ShardError Unit)
  deriving DecidableEq

structure Sharded (S C V : Type) where
  capacity : Nat
  shards : List (ServiceShard S C)
  joins : List Nat
  stopped : Bool
  cells : List (ReplyState V Empty)
  shutdown : StopPhase
  results : List (Except ShardError Unit)
  calls : List (ServiceCall C V)
  /-- The calls that invoked a closure of their caller, and those that put a command into a
  mailbox, in order. -/
  invoked : List Nat
  enqueued : List Nat

inductive ShardedEvent (C : Type) where
  | call (method : Method C)
  | client (call : Nat)
  | recv (shard : Nat)
  | shutdown
  | proceed

namespace Sharded
variable {S C V : Type}

def start (service : ShardService S C V) (shardCount capacity : Nat) : Sharded S C V where
  capacity := capacity
  shards := (List.range shardCount).map fun i => ⟨[], some (service.initialState i), false⟩
  joins := List.range shardCount
  stopped := false
  cells := []
  shutdown := .idle
  results := []
  calls := []
  invoked := []
  enqueued := []

section Methods
variable (s : Sharded S C V)

def shardCount : Nat := s.shards.length

def ensureRunning : Except ShardError Unit :=
  if s.stopped then .error .shardStopped else .ok ()

def getById (id : Nat) : Except ShardError Nat :=
  if id < s.shardCount then .ok id else .error (.invalidShardId id)

def shard (id : Nat) : Except ShardError Nat := do
  s.ensureRunning
  s.getById id

def handleSubmission (shard : Nat) : HandleCall C → Submission C
  | .request build => ⟨shard, .built build, true, .sendFailed⟩
  | .tryRequest build => ⟨shard, .built build, false, .sendFailed⟩
  | .fail e => ⟨shard, .failed e, true, .sendFailed⟩

/-- What a method does up to its first submission. `send_all` and `try_send_all` iterate over
the handles without a check. -/
def enter : Method C → CallPhase C V
  | .send id command => submitTo id (.given command) true .sendFailed
  | .trySend id command => submitTo id (.given command) false .sendFailed
  | .request id build => submitTo id (.built build) true .sendFailed
  | .tryRequest id build => submitTo id (.built build) false .sendFailed
  | .requestStopped id build => submitTo id (.built build) true .shardStopped
  | .sendAll make => .submitting (submitAll make true) []
  | .trySendAll make => .submitting (submitAll make false) []
  | .requestAll request =>
    match s.ensureRunning with
    | .error e => .returned (.error e)
    | .ok () =>
      .submitting ((List.range s.shardCount).map fun i => handleSubmission i (request i)) []
  | .shardHandle id =>
    match s.shard id with
    | .error e => .returned (.error e)
    | .ok i => .returned (.ok (.handle i))
where
  submitTo (id : Nat) (source : Source C) (blocking : Bool) (disconnected : ShardError) :
      CallPhase C V :=
    match s.shard id with
    | .error e => .returned (.error e)
    | .ok i => .submitting [⟨i, source, blocking, disconnected⟩] []
  submitAll (make : Nat → C) (blocking : Bool) : List (Submission C) :=
    (List.range s.shardCount).map fun i => ⟨i, .made fun _ => make i, blocking, .sendFailed⟩

def finish (replies : List Nat) : Method C → CallPhase C V
  | .requestStopped _ _ =>
    match replies with
    | reply :: _ => .waiting reply
    | [] => .returned (.ok .done)
  | .request _ _ | .tryRequest _ _ | .requestAll _ => .returned (.ok (.replies replies))
  | _ => .returned (.ok .done)

def setPhase (id : Nat) (phase : CallPhase C V) : Sharded S C V :=
  { s with calls := s.calls.modify id fun call => { call with phase } }

def settleReply (cells : List (ReplyState V Empty)) (reply : Nat × Option V) :
    List (ReplyState V Empty) :=
  cells.modify reply.1 fun cell =>
    match reply.2 with
    | some v => (ReplySender.send cell v).1
    | none => (ReplySender.drop cell).1

def dropSenders (channels : List Nat) : Sharded S C V :=
  { s with cells := (channels.map fun reply => (reply, none)).foldl settleReply s.cells }

/-- The next submission of a call: its closure is invoked, with a new reply channel if it
builds a request. -/
def submit (id : Nat) (todo : List (Submission C)) (replies : List Nat)
    (submission : Submission C) : Sharded S C V :=
  match submission.source with
  | .given command => s.setPhase id (.sending submission command todo replies)
  | .made command =>
    { s with invoked := s.invoked ++ [id] }.setPhase id
      (.sending submission (command ()) todo replies)
  | .built build =>
    { s with invoked := s.invoked ++ [id], cells := s.cells ++ [replyChannel] }.setPhase id
      (.sending submission (build s.cells.length) todo (replies ++ [s.cells.length]))
  | .failed e => { s with invoked := s.invoked ++ [id] }.setPhase id (.returned (.error e))

def push (shard : Nat) (command : C) : Sharded S C V :=
  { s with shards := s.shards.modify shard fun sh => { sh with mailbox := sh.mailbox ++ [command] } }

/-- `send` and `try_send` of the mailbox, which drop a command they do not accept. A blocking
send to a full mailbox waits. -/
def deliver (service : ShardService S C V) (id : Nat) (submission : Submission C) (command : C) (todo : List (Submission C))
    (replies : List Nat) : Option (Sharded S C V) :=
  s.shards[submission.shard]?.bind fun sh =>
    match sh.state with
    | none =>
      some ((s.dropSenders (service.senders command)).setPhase id
        (.returned (.error submission.disconnected)))
    | some _ =>
      if sh.mailbox.length < s.capacity then
        some ({ s.push submission.shard command with enqueued := s.enqueued ++ [id] }.setPhase id
          (.submitting todo replies))
      else if submission.blocking then none
      else
        some ((s.dropSenders (service.senders command)).setPhase id
          (.returned (.error .mailboxFull)))

def wait (id reply : Nat) : Option (Sharded S C V) :=
  s.cells[reply]?.bind fun cell =>
    match Reply.wait cell with
    | (none, _) => none
    | (some (.error e), _) => some (s.setPhase id (.returned (.error e)))
    | (some (.ok v), cell) =>
      some ({ s with cells := s.cells.set reply cell }.setPhase id (.returned (.ok (.value v))))

def client (service : ShardService S C V) (id : Nat) : Option (Sharded S C V) :=
  s.calls[id]?.bind fun call =>
    match call.phase with
    | .submitting [] replies => some (s.setPhase id (finish replies call.method))
    | .submitting (submission :: todo) replies => some (s.submit id todo replies submission)
    | .sending submission command todo replies => s.deliver service id submission command todo replies
    | .waiting reply => s.wait id reply
    | .returned _ => none

end Methods

section Threads
variable (service : ShardService S C V) (s : Sharded S C V)

def endThread (shard : Nat) (state : S) (commands : List C) (panicked : Bool) : Sharded S C V :=
  { s.dropSenders (service.held state ++ commands.flatMap service.senders) with
    shards := s.shards.set shard ⟨[], none, panicked⟩ }

def recv (shard : Nat) : Option (Sharded S C V) :=
  s.shards[shard]?.bind fun sh =>
    match sh.state, sh.mailbox with
    | some state, command :: mailbox =>
      match service.process state command with
      | none => some (s.endThread service shard state (command :: mailbox) true)
      | some processed =>
        let s := { s with cells := processed.replies.foldl settleReply s.cells }
        if processed.continues then
          some { s with shards := s.shards.set shard ⟨mailbox, some processed.state, false⟩ }
        else some (s.endThread service shard processed.state mailbox false)
    | _, _ => none

/-- `shutdown` takes the service by exclusive reference: no call is in progress. -/
def begin : Option (Sharded S C V) :=
  if s.shutdown ≠ .idle ∨ s.calls.any fun call => call.result.isNone then none
  else if s.stopped then some { s with results := s.results ++ [.ok ()] }
  else some { s with stopped := true, shutdown := .stopping 0 (.ok ()) }

def proceed : Option (Sharded S C V) :=
  match s.shutdown with
  | .idle => none
  | .stopping shard result =>
    if shard < s.shardCount then
      some { s with cells := s.cells ++ [replyChannel]
                    shutdown := .sending shard s.cells.length result }
    else some { s with joins := [], shutdown := .joining s.joins result (.ok ()) }
  | .sending shard reply result =>
    s.shards[shard]?.bind fun sh =>
      match sh.state with
      | none => some { s.dropSenders (service.senders (service.stopCommand reply)) with
          shutdown := .stopping (shard + 1) (.error .shardStopped) }
      | some _ =>
        if sh.mailbox.length < s.capacity then
          some { s.push shard (service.stopCommand reply) with
            shutdown := .awaiting shard reply result }
        else none
  | .awaiting shard reply result =>
    s.cells[reply]?.bind fun cell =>
      match Reply.wait cell with
      | (none, _) => none
      | (some (.error e), _) => some { s with shutdown := .stopping (shard + 1) (.error e) }
      | (some (.ok _), cell) =>
        some { s with cells := s.cells.set reply cell, shutdown := .stopping (shard + 1) result }
  | .joining [] stopped joined =>
    some { s with results := s.results ++ [stopped.bind fun _ => joined], shutdown := .idle }
  | .joining (shard :: threads) stopped joined =>
    s.shards[shard]?.bind fun sh =>
      match sh.state with
      | some _ => none
      | none => some { s with
          shutdown := .joining threads stopped
            (if sh.panicked then .error .threadJoinFailed else joined) }

/-- The method calls share the service, so none is made while `shutdown` runs. -/
def step : ShardedEvent C → Option (Sharded S C V)
  | .call method =>
    if s.shutdown = .idle then some { s with calls := s.calls ++ [⟨method, s.enter method⟩] }
    else none
  | .client id => s.client service id
  | .recv shard => s.recv service shard
  | .shutdown => s.begin
  | .proceed => s.proceed service

end Threads

end Sharded
end Sitas.Runtime
