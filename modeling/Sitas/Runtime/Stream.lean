import Sitas.Lib.Runs
import Mathlib.Data.List.Basic

/-! Streaming replies. Values and waker are under a mutex, and the number of senders is an
atomic outside of it. The steps are the critical sections of the mutex, the updates of the
count, and the calls that follow a section. The consumer reads the count inside its sections,
so those are split after the read. -/
namespace Sitas.Runtime
open Sitas.Lib

/-- A sender that was the last one has still to lock the mutex when it has updated the count. -/
inductive StreamSenderState where
  | alive
  | dropping
  | dropped
  deriving DecidableEq, Repr

inductive StreamCallPhase (W : Type) where
  | notifying (waker : Option W)
  | waking (waker : Option W)
  | finished
  deriving DecidableEq, Repr

structure StreamCall (W : Type) where
  sender : Nat
  phase : StreamCallPhase W
  deriving DecidableEq, Repr

def StreamCall.waker {W : Type} (call : StreamCall W) : Option W :=
  match call.phase with
  | .notifying waker | .waking waker => waker
  | .finished => none

def StreamCall.borrows {W : Type} (call : StreamCall W) (sender : Nat) : Bool :=
  match call.phase with
  | .notifying _ | .waking _ => call.sender = sender
  | .finished => false

inductive RecvCall where
  | batch (maxItems : Nat)
  | single
  deriving DecidableEq, Repr

def RecvCall.maxItems : RecvCall → Nat
  | .batch maxItems => maxItems
  | .single => 1

def RecvCall.result {T : Type} (batch : List T) : RecvCall → List T
  | .batch _ => batch
  | .single => batch.head?.toList

/-- Where the owner of the reply stands. In `counted` and `polled` it holds the mutex and has
read the number of senders. In `polling` it is between the two critical sections of a poll,
and the flag tells which comes next. -/
inductive StreamConsumer (W : Type) where
  | idle
  | pending (waker : W)
  | counted (call : RecvCall) (count : Nat)
  | blocked (call : RecvCall) (notified : Bool)
  | polling (waker : W) (tried : Bool)
  | polled (waker : W) (count : Nat)
  | gone
  deriving DecidableEq, Repr

namespace StreamConsumer
variable {W : Type}

def free : StreamConsumer W → Bool
  | .idle | .pending _ => true
  | _ => false

def locks : StreamConsumer W → Bool
  | .counted _ _ | .polled _ _ => true
  | _ => false

def notify : StreamConsumer W → StreamConsumer W
  | .blocked call _ => .blocked call true
  | consumer => consumer

end StreamConsumer

structure StreamState (T W : Type) where
  values : List T
  done : Bool
  waker : Option W

inductive StreamError where
  | senderDropped
  | receiverDropped
  deriving DecidableEq, Repr

/-- Recorded are the values of accepted sends, the batches handed out, each with its limit,
and the wakers woken since a poll stored one. -/
structure Stream (T W : Type) where
  state : StreamState T W
  senderCount : Nat
  index : Nat
  senders : List StreamSenderState
  calls : List (StreamCall W)
  consumer : StreamConsumer W
  accepted : List T
  batches : List (Nat × List T)
  woken : List W

inductive StreamEvent (T W : Type) where
  | send (sender : Nat) (value : T)
  | clone (sender : Nat)
  | dropSender (sender : Nat)
  | lockDrop (sender : Nat)
  | notifyAll (call : Nat)
  | wake (call : Nat)
  | recv (call : RecvCall)
  | resume
  | tryRecv (maxItems : Nat)
  | poll (waker : W)
  | repoll
  | proceed
  | dropReply
  deriving DecidableEq, Repr

def StreamBatch.maxItems : Nat := 18446744073709551615

namespace Stream
variable {T W : Type}

def new : Stream T W := ⟨⟨[], false, none⟩, 1, 0, [.alive], [], .idle, [], [], []⟩

def handed (s : Stream T W) : List T := (s.batches.map Prod.snd).flatten

/-- The values a receiving call drains, if there are any behind the index, and the state
without them. -/
def take (s : Stream T W) (maxItems : Nat) : Option (List T × StreamState T W) :=
  if s.index < s.state.values.length then
    let count := min (s.state.values.length - s.index) maxItems
    some ((s.state.values.drop s.index).take count,
      { s.state with
        values := s.state.values.take s.index ++ s.state.values.drop (s.index + count) })
  else none

def hand (s : Stream T W) (state : StreamState T W) (maxItems : Nat) (batch : List T) :
    Stream T W :=
  { s with state := state, consumer := .idle, batches := s.batches ++ [(maxItems, batch)] }

def send (s : Stream T W) (sender : Nat) (value : T) : Stream T W :=
  if s.state.done then s
  else
    { s with
      state := { s.state with values := s.state.values ++ [value], waker := none }
      calls := s.calls ++ [⟨sender, .notifying s.state.waker⟩]
      accepted := s.accepted ++ [value] }

/-- The update of the count by a destructor, which returns unless it was the last sender. -/
def dropSender (s : Stream T W) (sender : Nat) : Stream T W :=
  { s with
    senderCount := s.senderCount - 1
    senders := s.senders.set sender (if s.senderCount ≠ 1 then .dropped else .dropping) }

def lockDrop (s : Stream T W) (sender : Nat) : Stream T W :=
  { s with
    state := { s.state with waker := none }
    senders := s.senders.set sender .dropped
    calls := s.calls ++ [⟨sender, .notifying s.state.waker⟩] }

def recvBatch (s : Stream T W) (call : RecvCall) : Stream T W :=
  match s.take call.maxItems with
  | some (batch, state) => s.hand state call.maxItems (call.result batch)
  | none => { s with consumer := .counted call s.senderCount }

/-- The answer of `try_recv` and the stream after it. Without values both branches are the
same. -/
def tryRecv (s : Stream T W) (maxItems : Nat) : Except StreamError (Option (List T)) × Stream T W :=
  match s.take maxItems with
  | some (batch, state) => (.ok (some batch), s.hand state maxItems batch)
  | none =>
    (if s.senderCount = 0 then .ok none else .ok none, { s with consumer := .idle })

def poll (s : Stream T W) (waker : W) : Stream T W :=
  match s.take StreamBatch.maxItems with
  | some (batch, state) => s.hand state StreamBatch.maxItems batch
  | none => { s with consumer := .polling waker true }

def endOrWait (s : Stream T W) (call : RecvCall) (count : Nat) : Stream T W :=
  if count = 0 then s.hand { s.state with done := true } call.maxItems []
  else { s with consumer := .blocked call false }

/-- What a poll does with the count it has read: the end of the stream is recorded as an empty
batch, and a value that came in between makes it start again. -/
def endOrStore (s : Stream T W) (waker : W) (count : Nat) : Stream T W :=
  if count = 0 ∧ s.state.values.length ≤ s.index then s.hand s.state StreamBatch.maxItems []
  else if s.index < s.state.values.length then { s with consumer := .polling waker false }
  else
    { s with
      state := { s.state with waker := some waker }
      consumer := .pending waker
      woken := [] }

def step (s : Stream T W) : StreamEvent T W → Option (Stream T W)
  | .send sender value =>
    if s.senders[sender]? = some .alive ∧ s.consumer.locks = false then some (s.send sender value)
    else none
  | .clone sender =>
    if s.senders[sender]? = some .alive then
      some { s with senderCount := s.senderCount + 1, senders := s.senders ++ [.alive] }
    else none
  | .dropSender sender =>
    if s.senders[sender]? = some .alive ∧ s.calls.any (·.borrows sender) = false then
      some (s.dropSender sender)
    else none
  | .lockDrop sender =>
    if s.senders[sender]? = some .dropping ∧ s.consumer.locks = false then
      some (s.lockDrop sender)
    else none
  | .notifyAll k => match s.calls[k]? with
    | some ⟨sender, .notifying waker⟩ =>
      some { s with
        calls := s.calls.set k ⟨sender, .waking waker⟩
        consumer := s.consumer.notify }
    | _ => none
  | .wake k => match s.calls[k]? with
    | some ⟨sender, .waking waker⟩ =>
      some { s with
        calls := s.calls.set k ⟨sender, .finished⟩
        woken := s.woken ++ waker.toList }
    | _ => none
  | .recv call => if s.consumer.free then some (s.recvBatch call) else none
  | .resume => match s.consumer with
    | .blocked call _ => some (s.recvBatch call)
    | _ => none
  | .tryRecv maxItems => if s.consumer.free then some (s.tryRecv maxItems).2 else none
  | .poll waker => if s.consumer.free then some (s.poll waker) else none
  | .repoll => match s.consumer with
    | .polling waker false => some (s.poll waker)
    | .polling waker true => some { s with consumer := .polled waker s.senderCount }
    | _ => none
  | .proceed => match s.consumer with
    | .counted call count => some (s.endOrWait call count)
    | .polled waker count => some (s.endOrStore waker count)
    | _ => none
  | .dropReply =>
    if s.consumer.free then some { s with state := { s.state with done := true }, consumer := .gone }
    else none

section Loops
variable {Acc : Type}

/-- The loop of `collect` and `fold` over the batches it receives, which ends at an empty one. -/
def drainLoop (absorb : Acc → List T → Acc) : Acc → List (List T) → Option Acc
  | _, [] => none
  | acc, batch :: rest =>
    if batch.isEmpty then some acc else drainLoop absorb (absorb acc batch) rest

def collect (batches : List (List T)) : Option (List T) := drainLoop (· ++ ·) [] batches

def fold (f : Acc → T → Acc) (acc : Acc) (batches : List (List T)) : Option Acc :=
  drainLoop (fun acc batch => batch.foldl f acc) acc batches

end Loops

end Stream
end Sitas.Runtime
