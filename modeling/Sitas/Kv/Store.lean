import Sitas.Kv.Service
import Sitas.Lib.Linearization
import Sitas.Lib.Runs
import Sitas.Runtime.Reply

/-! The sharded key-value store: client calls that submit commands to the mailboxes of the
shards and wait for the replies, and the shard threads. -/
namespace Sitas.Kv
open Sitas.Lib Sitas.Runtime

structure ShardedKvConfig where
  shardCount : Nat
  mailboxCapacity : Nat

def ShardedKvConfig.validate (config : ShardedKvConfig) : Except ShardError ShardedKvConfig :=
  if config.shardCount = 0 then .error .invalidShardCount
  else if config.mailboxCapacity = 0 then .error .invalidMailboxCapacity
  else .ok config

inductive KvRequest (K V : Type) where
  | keyed (command : KeyCommand K V)
  | len (shard : Nat)
  | keys (shard : Nat)
  | stop (shard : Nat)
  deriving DecidableEq, Repr

def KvRequest.command {K V : Type} : KvRequest K V → KvCommand K V
  | .keyed command => .keyed command
  | .len _ => .len
  | .keys _ => .keys
  | .stop _ => .stop

inductive Op (K V : Type) where
  | keyed (command : KeyCommand K V)
  | getMany (keys : List K)
  | deleteMany (keys : List K)
  | totalLen
  | shardSnapshots
  | allKeys
  | lenOnShard (shard : Nat)
  | keysOnShard (shard : Nat)
  deriving DecidableEq, Repr

inductive KvResult (K V : Type) where
  | nothing
  | answer (answer : Answer V)
  | pairs (pairs : List (K × Option V))
  | len (len : Nat)
  | snapshots (snapshots : List (Nat × Nat))
  | keys (keys : List K)
  deriving DecidableEq, Repr

section Replies
variable {K V : Type} [LinearOrder K]

def Op.start : Op K V → KvResult K V
  | .keyed _ => .nothing
  | .getMany _ | .deleteMany _ => .pairs []
  | .totalLen | .lenOnShard _ => .len 0
  | .shardSnapshots => .snapshots []
  | .allKeys | .keysOnShard _ => .keys []

def KvResult.absorb : KvResult K V → KvRequest K V → KvValue K V → Option (KvResult K V)
  | .nothing, .keyed _, .answer a => some (.answer a)
  | .pairs ps, .keyed command, .answer (.found value) =>
    some (.pairs (ps ++ [(command.key, value)]))
  | .len total, .len _, .len n => some (.len (total + n))
  | .snapshots ss, .len shard, .len n => some (.snapshots (ss ++ [(shard, n)]))
  | .keys ks, .keys _, .keys more => some (.keys (ks ++ more))
  | _, _, _ => none

def Op.finish : Op K V → KvResult K V → KvResult K V
  | .allKeys, .keys keys => .keys (keys.mergeSort (· ≤ ·))
  | _, result => result

end Replies

/-- A client call: the requests that are not submitted yet, the submission that is being
sent to a mailbox, the replies that are awaited with what was gathered before, or the
result. -/
inductive Phase (K V : Type) where
  | submitting (todo : List (KvRequest K V)) (replies : List (KvRequest K V × Nat))
  | sending (shard : Nat) (request : KvRequest K V) (reply : Nat) (todo : List (KvRequest K V))
      (replies : List (KvRequest K V × Nat))
  | waiting (pending : List (KvRequest K V × Nat)) (total : KvResult K V)
  | returned (result : Except ShardError (KvResult K V))
  deriving DecidableEq

structure Call (K V : Type) where
  op : Op K V
  /-- The functions whose name starts with `try` do not wait for mailbox capacity. -/
  blocking : Bool
  phase : Phase K V
  deriving DecidableEq

structure Submission (K V : Type) where
  command : KvCommand K V
  reply : Nat
  deriving DecidableEq, Repr

def Submission.effects {K V : Type} (q : Submission K V) (value : KvValue K V) :
    List (Executed (KeyCommand K V) (Answer V)) :=
  match q.command, value with
  | .keyed command, .answer a => [⟨q.reply, command, a⟩]
  | _, _ => []

inductive ShardThread (K V : Type) where
  | receiving
  | replying (reply : Nat) (value : KvValue K V) (stop : Bool)
  | stopped
  deriving DecidableEq, Repr

structure KvShard (K V : Type) where
  mailbox : List (Submission K V)
  service : KvService K V
  thread : ShardThread K V

/-- A reply channel. Beside its state the cell tells which call made which request to which
shard, and whether the command has entered the mailbox. -/
structure Cell (K V : Type) where
  call : Nat
  shard : Nat
  request : KvRequest K V
  sent : Bool
  /-- The clients block; no waker is stored. -/
  state : ReplyState (KvValue K V) Empty

structure ShardedKv (K V : Type) where
  capacity : Nat
  placement : K → Nat → Nat
  stopped : Bool
  shards : List (KvShard K V)
  cells : List (Cell K V)
  calls : List (Call K V)
  /-- Submissions and replies of commands on keys, in the order of time. -/
  history : List (HistoryEvent (KeyCommand K V) (Answer V))
  /-- The commands on keys in the order in which the shards executed them. -/
  order : List (Executed (KeyCommand K V) (Answer V))

inductive Event (K V : Type) where
  | call (op : Op K V) (blocking : Bool)
  | client (call : Nat)
  | recv (shard : Nat)
  | reply (shard : Nat)

namespace ShardedKv
variable {K V : Type} [LinearOrder K]

def startWithPlacement (config : ShardedKvConfig) (placement : K → Nat → Nat) :
    Except ShardError (ShardedKv K V) := do
  let config ← config.validate
  return {
    capacity := config.mailboxCapacity
    placement
    stopped := false
    shards := List.replicate config.shardCount ⟨[], .new, .receiving⟩
    cells := []
    calls := []
    history := []
    order := [] }

section Calls
variable (s : ShardedKv K V)

def shardCount : Nat := s.shards.length

def ensureRunning : Except ShardError Unit :=
  if s.stopped then .error .shardStopped else .ok ()

def getById (id : Nat) : Except ShardError Nat :=
  if id < s.shards.length then .ok id else .error (.invalidShardId id)

def shardForKey (key : K) : Nat := s.placement key s.shardCount

def shardForOwnedKey (key : K) : Except ShardError Nat := do
  s.ensureRunning
  s.getById (s.shardForKey key)

def shard (id : Nat) : Except ShardError Nat := do
  s.ensureRunning
  s.getById id

def requests : Op K V → Except ShardError (List (KvRequest K V))
  | .keyed command => .ok [.keyed command]
  | .getMany keys => .ok (keys.map fun key => .keyed (.get key))
  | .deleteMany keys => .ok (keys.map fun key => .keyed (.delete key))
  | .totalLen | .shardSnapshots => do
    s.ensureRunning
    return (List.range s.shardCount).map .len
  | .allKeys => do
    s.ensureRunning
    return (List.range s.shardCount).map .keys
  | .lenOnShard id => do
    let i ← s.shard id
    return [.len i]
  | .keysOnShard id => do
    let i ← s.shard id
    return [.keys i]

def route : KvRequest K V → Except ShardError Nat
  | .keyed command => s.shardForOwnedKey command.key
  | .len i | .keys i | .stop i => .ok i

def begin (op : Op K V) (blocking : Bool) : ShardedKv K V :=
  let phase := match s.requests op with
    | .ok requests => .submitting requests []
    | .error e => .returned (.error e)
  { s with calls := s.calls ++ [⟨op, blocking, phase⟩] }

def setPhase (id : Nat) (phase : Phase K V) : ShardedKv K V :=
  { s with calls := s.calls.modify id fun call => { call with phase } }

def modifyCell (reply : Nat) (f : Cell K V → Cell K V) : ShardedKv K V :=
  { s with cells := s.cells.modify reply f }

def openReply (call shard : Nat) (request : KvRequest K V) : ShardedKv K V :=
  { s with
    cells := s.cells ++ [⟨call, shard, request, false, replyChannel⟩]
    history := s.history ++ match request with
      | .keyed command => [.invoke s.cells.length command]
      | _ => [] }

def push (shard : Nat) (request : KvRequest K V) (reply : Nat) : ShardedKv K V :=
  let shards := s.shards.modify shard fun sh =>
    { sh with mailbox := sh.mailbox ++ [⟨request.command, reply⟩] }
  { s with shards }.modifyCell reply fun cell => { cell with sent := true }

def dropSender (reply : Nat) : ShardedKv K V :=
  s.modifyCell reply fun cell => { cell with state := (ReplySender.drop cell.state).1 }

/-- `SyncSender::send` or `try_send`. A blocking send to a full mailbox has to wait. -/
def send (id shard : Nat) (request : KvRequest K V) (reply : Nat) (todo : List (KvRequest K V))
    (replies : List (KvRequest K V × Nat)) (blocking : Bool) : Option (ShardedKv K V) :=
  (s.shards[shard]?).bind fun sh =>
    match sh.thread with
    | .stopped => some ((s.dropSender reply).setPhase id (.returned (.error .sendFailed)))
    | .receiving | .replying _ _ _ =>
      if sh.mailbox.length < s.capacity then
        some ((s.push shard request reply).setPhase id
          (.submitting todo (replies ++ [(request, reply)])))
      else if blocking then none
      else some ((s.dropSender reply).setPhase id (.returned (.error .mailboxFull)))

def take (request : KvRequest K V) (reply : Nat) (value : KvValue K V)
    (state : ReplyState (KvValue K V) Empty) : ShardedKv K V :=
  { s.modifyCell reply fun cell => { cell with state } with
    history := s.history ++ match request, value with
      | .keyed _, .answer a => [.respond reply a]
      | _, _ => [] }

def await (id : Nat) (request : KvRequest K V) (reply : Nat) (pending : List (KvRequest K V × Nat))
    (total : KvResult K V) : Option (ShardedKv K V) :=
  (s.cells[reply]?).bind fun cell =>
    match Reply.wait cell.state with
    | (none, _) => none
    | (some (.error e), _) => some (s.setPhase id (.returned (.error e)))
    | (some (.ok value), state) =>
      (total.absorb request value).map fun total =>
        (s.take request reply value state).setPhase id (.waiting pending total)

def client (id : Nat) : Option (ShardedKv K V) :=
  (s.calls[id]?).bind fun call =>
    match call.phase with
    | .submitting [] replies => some (s.setPhase id (.waiting replies call.op.start))
    | .submitting (request :: todo) replies =>
      match s.route request with
      | .error e => some (s.setPhase id (.returned (.error e)))
      | .ok shard =>
        some ((s.openReply id shard request).setPhase id
          (.sending shard request s.cells.length todo replies))
    | .sending shard request reply todo replies =>
      s.send id shard request reply todo replies call.blocking
    | .waiting [] total => some (s.setPhase id (.returned (.ok (call.op.finish total))))
    | .waiting ((request, reply) :: pending) total => s.await id request reply pending total
    | .returned _ => none

def sendReply (shard : Nat) : Option (ShardedKv K V) :=
  (s.shards[shard]?).bind fun sh =>
    match sh.thread with
    | .replying reply value stop =>
      let t := s.modifyCell reply fun cell =>
        { cell with state := (ReplySender.send cell.state value).1 }
      if stop then
        some { sh.mailbox.foldl (fun t q => t.dropSender q.reply) t with
          shards := s.shards.set shard { sh with mailbox := [], thread := .stopped } }
      else some { t with shards := s.shards.set shard { sh with thread := .receiving } }
    | _ => none

end Calls

variable [DecidableEq V] (s : ShardedKv K V)

def recv (shard : Nat) : Option (ShardedKv K V) :=
  (s.shards[shard]?).bind fun sh =>
    match sh.thread, sh.mailbox with
    | .receiving, q :: mailbox =>
      let r := sh.service.handle q.command
      some { s with
        shards := s.shards.set shard ⟨mailbox, r.2, .replying q.reply r.1 (q.command = .stop)⟩
        order := s.order ++ q.effects r.1 }
    | _, _ => none

def step : Event K V → Option (ShardedKv K V)
  | .call op blocking => some (s.begin op blocking)
  | .client id => s.client id
  | .recv shard => s.recv shard
  | .reply shard => s.sendReply shard

end ShardedKv
end Sitas.Kv
