import Sitas.Kv.Steps

/-! The end of a store: `shutdown` stops the shards one after the other and joins their
threads, while replies that were obtained before are still waited for. -/
namespace Sitas.Kv
open Sitas.Lib Sitas.Runtime

variable {K V : Type}

/-- Where the thread in `shutdown` is, with the results of the stops and of the joins. -/
inductive ShutdownPhase where
  | idle
  | stopping (shard : Nat) (result : Except ShardError Unit)
  | sending (shard reply : Nat) (result : Except ShardError Unit)
  | awaiting (shard reply : Nat) (result : Except ShardError Unit)
  | joining (threads : List Nat) (stopped joined : Except ShardError Unit)
  deriving DecidableEq

structure KvLifecycle (K V : Type) where
  kv : ShardedKv K V
  shutdown : ShutdownPhase
  joins : List Nat
  /-- The shards that `shutdown` has stopped, with what stopping reported. -/
  signalled : List (Nat × Except ShardError Unit)
  joined : List Nat
  /-- The shards whose thread ended by a panic. -/
  panicked : List Nat
  /-- The values that the commands have produced, by their reply channel. -/
  produced : List (Nat × KvValue K V)
  results : List (Except ShardError Unit)

inductive LifecycleEvent (K V : Type) where
  | store (e : Event K V)
  | shutdown
  | proceed
  | panic (shard : Nat)

/-- A call that is in a method of the store borrows it until its commands are submitted. -/
def Phase.borrows : Phase K V → Bool
  | .submitting _ _ | .sending _ _ _ _ _ => true
  | .waiting _ _ | .returned _ => false

def Event.isCall : Event K V → Bool
  | .call _ _ => true
  | .client _ | .recv _ | .reply _ => false

def ShardedKv.dropAll (s : ShardedKv K V) (mailbox : List (Submission K V)) : ShardedKv K V :=
  mailbox.foldl (fun t q => t.dropSender q.reply) s

def ShardThread.current : ShardThread K V → List Nat
  | .replying reply _ _ => [reply]
  | .receiving | .stopped => []

/-- The thread of a shard unwinds, and the commands that it has are dropped with their senders. -/
def ShardedKv.die (s : ShardedKv K V) (shard : Nat) (sh : KvShard K V) : ShardedKv K V :=
  { (sh.thread.current.foldl ShardedKv.dropSender s).dropAll sh.mailbox with
    shards := s.shards.set shard { sh with mailbox := [], thread := .stopped } }

namespace KvLifecycle
variable [LinearOrder K]

def new (kv : ShardedKv K V) : KvLifecycle K V :=
  ⟨kv, .idle, List.range kv.shardCount, [], [], [], [], []⟩

section Shutdown
variable (s : KvLifecycle K V)

/-- `shutdown` takes the store by exclusive reference: no call may borrow it. -/
def begin : Option (KvLifecycle K V) :=
  if s.shutdown ≠ .idle ∨ s.kv.calls.any (·.phase.borrows) then none
  else if s.kv.stopped then some { s with results := s.results ++ [.ok ()] }
  else some { s with kv := { s.kv with stopped := true }, shutdown := .stopping 0 (.ok ()) }

def report (kv : ShardedKv K V) (shard : Nat) (reported result : Except ShardError Unit) :
    KvLifecycle K V :=
  { s with kv, signalled := s.signalled ++ [(shard, reported)]
           shutdown := .stopping (shard + 1) result }

/-- `send_stopped`. The stop command waits for room in the mailbox. -/
def sendStop (shard reply : Nat) (result : Except ShardError Unit) : Option (KvLifecycle K V) :=
  (s.kv.shards[shard]?).bind fun sh =>
    match sh.thread with
    | .stopped => some (s.report (s.kv.dropSender reply) shard (.error .shardStopped)
        (.error .shardStopped))
    | .receiving | .replying _ _ _ =>
      if sh.mailbox.length < s.kv.capacity then
        some { s with kv := s.kv.push shard (.stop shard) reply
                      shutdown := .awaiting shard reply result }
      else none

def awaitStop (shard reply : Nat) (result : Except ShardError Unit) : Option (KvLifecycle K V) :=
  (s.kv.cells[reply]?).bind fun cell =>
    match Reply.wait cell.state with
    | (none, _) => none
    | (some (.error e), _) => some (s.report s.kv shard (.error e) (.error e))
    | (some (.ok _), state) =>
      some (s.report (s.kv.modifyCell reply fun cell => { cell with state }) shard (.ok ()) result)

def join (shard : Nat) (threads : List Nat) (stopped joined : Except ShardError Unit) :
    Option (KvLifecycle K V) :=
  (s.kv.shards[shard]?).bind fun sh =>
    match sh.thread with
    | .stopped => some { s with
        joined := s.joined ++ [shard]
        shutdown := .joining threads stopped
          (if shard ∈ s.panicked then .error .threadJoinFailed else joined) }
    | .receiving | .replying _ _ _ => none

def proceed : Option (KvLifecycle K V) :=
  match s.shutdown with
  | .idle => none
  | .stopping shard result =>
    if shard < s.kv.shardCount then
      some { s with kv := s.kv.openReply s.kv.calls.length shard (.stop shard)
                    shutdown := .sending shard s.kv.cells.length result }
    else some { s with joins := [], shutdown := .joining s.joins result (.ok ()) }
  | .sending shard reply result => s.sendStop shard reply result
  | .awaiting shard reply result => s.awaitStop shard reply result
  | .joining [] stopped joined =>
    some { s with results := s.results ++ [stopped.bind fun _ => joined], shutdown := .idle }
  | .joining (shard :: threads) stopped joined => s.join shard threads stopped joined

def panic (shard : Nat) : Option (KvLifecycle K V) :=
  (s.kv.shards[shard]?).bind fun sh =>
    match sh.thread with
    | .stopped => none
    | .receiving | .replying _ _ _ =>
      some { s with kv := s.kv.die shard sh, panicked := s.panicked ++ [shard] }

end Shutdown

variable [DecidableEq V] (s : KvLifecycle K V)

def output : Event K V → List (Nat × KvValue K V)
  | .recv shard => (s.kv.shards[shard]?).elim [] fun sh =>
    sh.mailbox.head?.elim [] fun q => [(q.reply, (sh.service.handle q.command).1)]
  | .call _ _ | .client _ | .reply _ => []

/-- A step of the clients and the shards. No call is made while `shutdown` holds the store. -/
def storeStep (e : Event K V) : Option (KvLifecycle K V) :=
  if e.isCall ∧ s.shutdown ≠ .idle then none
  else (s.kv.step e).map fun kv => { s with kv, produced := s.produced ++ s.output e }

def step : LifecycleEvent K V → Option (KvLifecycle K V)
  | .store e => s.storeStep e
  | .shutdown => s.begin
  | .proceed => s.proceed
  | .panic shard => s.panic shard

variable {s}

theorem store_cases {t : KvLifecycle K V} {e : Event K V} (hst : s.step (.store e) = some t) :
    ∃ kv, s.kv.step e = some kv ∧ t = { s with kv, produced := s.produced ++ s.output e } := by
  change s.storeStep e = some t at hst
  rw [storeStep] at hst
  split at hst
  · cases hst
  · obtain ⟨kv, hkv, rfl⟩ := Option.map_eq_some_iff.mp hst
    exact ⟨kv, hkv, rfl⟩

end KvLifecycle
end Sitas.Kv
