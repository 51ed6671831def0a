import Sitas.Lib.Parking

/-! The bounded mailbox of one shard. Each operation is the critical section of
the mailbox mutex, and returns the wakers it invokes after unlocking. -/
namespace Sitas.Mailbox
open Sitas.Lib

inductive ShardSendError (M : Type) where
  | full (message : M)
  | closed (message : M)
  deriving DecidableEq, Repr

namespace ShardSendError

def intoMessage {M : Type} : ShardSendError M → M
  | .full message | .closed message => message

end ShardSendError

inductive ShardRecvError where
  | empty
  | closed
  deriving DecidableEq, Repr

inductive ShardMailboxAddressError where
  | invalidShard (shardId : Nat)
  | notOnShard
  | receiverAlreadyTaken (shardId : Nat)
  deriving DecidableEq, Repr

structure SharedMailbox (M W : Type) where
  shardId : Nat
  queue : List M
  capacity : Nat
  senderCount : Nat
  senderFactoryOpen : Bool
  receiverTaken : Bool
  receiverClosed : Bool
  recvWaker : Option W
  sendWakers : List W
  sent : UInt64
  received : UInt64
  fullRejections : UInt64
  closedRejections : UInt64

namespace SharedMailbox
variable {M W : Type}

def new (shardId capacity : Nat) : SharedMailbox M W where
  shardId := shardId
  queue := []
  capacity := capacity
  senderCount := 0
  senderFactoryOpen := true
  receiverTaken := false
  receiverClosed := false
  recvWaker := none
  sendWakers := []
  sent := 0
  received := 0
  fullRejections := 0
  closedRejections := 0

def addSender (s : SharedMailbox M W) : SharedMailbox M W :=
  { s with senderCount := s.senderCount + 1 }

def receiverFor (s : SharedMailbox M W) : Except ShardMailboxAddressError (SharedMailbox M W) :=
  if s.receiverTaken then .error (.receiverAlreadyTaken s.shardId)
  else .ok { s with receiverTaken := true }

def trySend (s : SharedMailbox M W) (message : M) :
    SharedMailbox M W × Except (ShardSendError M) Unit × List W :=
  if s.receiverClosed then
    ({ s with closedRejections := s.closedRejections + 1 }, .error (.closed message), [])
  else if s.queue.length = s.capacity then
    ({ s with fullRejections := s.fullRejections + 1 }, .error (.full message), [])
  else
    ({ s with queue := s.queue ++ [message], sent := s.sent + 1, recvWaker := none }, .ok (),
      s.recvWaker.toList)

def noMoreMessages (s : SharedMailbox M W) : Bool :=
  s.receiverClosed || (!s.senderFactoryOpen && s.senderCount == 0)

def tryRecv (s : SharedMailbox M W) : SharedMailbox M W × Except ShardRecvError M × List W :=
  match s.queue with
  | message :: queue =>
    ({ s with queue := queue, received := s.received + 1, sendWakers := s.sendWakers.tail },
      .ok message, s.sendWakers.head?.toList)
  | [] => (s, .error (if s.noMoreMessages then .closed else .empty), [])

/-- Equality of wakers stands for `will_wake`, under which the stored waker is kept. -/
def pollRecv (s : SharedMailbox M W) (waker : W) :
    SharedMailbox M W × Poll (Except ShardRecvError M) × List W :=
  match s.queue with
  | message :: queue =>
    ({ s with queue := queue, received := s.received + 1, sendWakers := s.sendWakers.tail },
      .ready (.ok message), s.sendWakers.head?.toList)
  | [] =>
    if s.noMoreMessages then (s, .ready (.error .closed), [])
    else ({ s with recvWaker := some waker }, .pending, [])

def closeReceiver (s : SharedMailbox M W) : SharedMailbox M W × List W :=
  if s.receiverClosed then (s, [])
  else
    ({ s with receiverClosed := true, recvWaker := none, sendWakers := [] },
      s.recvWaker.toList ++ s.sendWakers)

def dropSender (s : SharedMailbox M W) : SharedMailbox M W × List W :=
  let s := { s with senderCount := s.senderCount - 1 }
  if !s.senderFactoryOpen && s.senderCount == 0 && s.queue.isEmpty then
    ({ s with recvWaker := none }, s.recvWaker.toList)
  else (s, [])

def closeSenderFactory (s : SharedMailbox M W) : SharedMailbox M W × List W :=
  if !s.senderFactoryOpen then (s, [])
  else
    let s := { s with senderFactoryOpen := false }
    if s.senderCount == 0 && s.queue.isEmpty then
      ({ s with recvWaker := none }, s.recvWaker.toList)
    else (s, [])

/-- Polling a send future that has given its message away panics. Every pending poll appends
the waker, also when one is queued already. -/
def pollSend (s : SharedMailbox M W) (message : Option M) (waker : W) :
    Option (SharedMailbox M W × Option M × Poll (Except (ShardSendError M) Unit) × List W) :=
  message.map fun msg =>
    if s.receiverClosed then
      ({ s with closedRejections := s.closedRejections + 1 }, none,
        .ready (.error (.closed msg)), [])
    else if s.queue.length < s.capacity then
      ({ s with queue := s.queue ++ [msg], sent := s.sent + 1, recvWaker := none }, none,
        .ready (.ok ()), s.recvWaker.toList)
    else
      ({ s with sendWakers := s.sendWakers ++ [waker] }, some msg, .pending, [])

variable {s : SharedMailbox M W}

theorem pollSend_of_closed (h : s.receiverClosed = true) (m : M) (w : W) :
    s.pollSend (some m) w = some ({ s with closedRejections := s.closedRejections + 1 }, none,
      .ready (.error (.closed m)), []) := by
  simp [pollSend, h]

theorem pollSend_of_room (h : ¬ s.receiverClosed = true) (hlt : s.queue.length < s.capacity) (m : M)
    (w : W) :
    s.pollSend (some m) w =
      some ({ s with queue := s.queue ++ [m], sent := s.sent + 1, recvWaker := none }, none,
        .ready (.ok ()), s.recvWaker.toList) := by
  simp [pollSend, h, hlt]

theorem pollSend_of_full (h : ¬ s.receiverClosed = true) (hfull : ¬ s.queue.length < s.capacity)
    (m : M) (w : W) :
    s.pollSend (some m) w =
      some ({ s with sendWakers := s.sendWakers ++ [w] }, some m, .pending, []) := by
  simp [pollSend, h, hfull]

def wakeOneSender (s : SharedMailbox M W) : SharedMailbox M W × List W :=
  ({ s with sendWakers := s.sendWakers.tail }, s.sendWakers.head?.toList)

def dropSend (s : SharedMailbox M W) (message : Option M) : SharedMailbox M W × List W :=
  if message.isSome then s.wakeOneSender else (s, [])

theorem trySend_of_closed (h : s.receiverClosed = true) (m : M) :
    s.trySend m = ({ s with closedRejections := s.closedRejections + 1 }, .error (.closed m), []) :=
  if_pos h

theorem trySend_of_full (h : ¬ s.receiverClosed = true) (hfull : s.queue.length = s.capacity)
    (m : M) :
    s.trySend m = ({ s with fullRejections := s.fullRejections + 1 }, .error (.full m), []) := by
  simp [trySend, h, hfull]

theorem trySend_of_room (h : ¬ s.receiverClosed = true) (hroom : s.queue.length ≠ s.capacity)
    (m : M) :
    s.trySend m = ({ s with queue := s.queue ++ [m], sent := s.sent + 1, recvWaker := none },
      .ok (), s.recvWaker.toList) := by
  simp [trySend, h, hroom]

theorem tryRecv_of_cons {m : M} {queue : List M} (h : s.queue = m :: queue) :
    s.tryRecv = ({ s with queue := queue, received := s.received + 1,
                          sendWakers := s.sendWakers.tail },
      .ok m, s.sendWakers.head?.toList) := by
  simp [tryRecv, h]

theorem tryRecv_of_nil (h : s.queue = []) :
    s.tryRecv = (s, .error (if s.noMoreMessages then .closed else .empty), []) := by
  simp [tryRecv, h]

theorem pollRecv_of_cons {m : M} {queue : List M} (h : s.queue = m :: queue) (w : W) :
    s.pollRecv w = ({ s with queue := queue, received := s.received + 1,
                             sendWakers := s.sendWakers.tail },
      .ready (.ok m), s.sendWakers.head?.toList) := by
  simp [pollRecv, h]

theorem pollRecv_of_closed (h : s.queue = []) (hc : s.noMoreMessages = true) (w : W) :
    s.pollRecv w = (s, .ready (.error .closed), []) := by
  simp [pollRecv, h, hc]

theorem pollRecv_of_open (h : s.queue = []) (hc : s.noMoreMessages = false) (w : W) :
    s.pollRecv w = ({ s with recvWaker := some w }, .pending, []) := by
  simp [pollRecv, h, hc]

structure SameMessages (a b : SharedMailbox M W) : Prop where
  queue : b.queue = a.queue
  capacity : b.capacity = a.capacity
  sent : b.sent = a.sent
  received : b.received = a.received

theorem sameMessages_closeReceiver (s : SharedMailbox M W) : SameMessages s s.closeReceiver.1 := by
  rw [closeReceiver]
  split <;> exact ⟨rfl, rfl, rfl, rfl⟩

theorem sameMessages_dropSender (s : SharedMailbox M W) : SameMessages s s.dropSender.1 := by
  simp only [dropSender]
  split <;> exact ⟨rfl, rfl, rfl, rfl⟩

theorem sameMessages_closeSenderFactory (s : SharedMailbox M W) :
    SameMessages s s.closeSenderFactory.1 := by
  simp only [closeSenderFactory]
  split
  · exact ⟨rfl, rfl, rfl, rfl⟩
  · split <;> exact ⟨rfl, rfl, rfl, rfl⟩

theorem sameMessages_dropSend (s : SharedMailbox M W) (message : Option M) :
    SameMessages s (s.dropSend message).1 := by
  rw [dropSend]
  split <;> exact ⟨rfl, rfl, rfl, rfl⟩

end SharedMailbox
end Sitas.Mailbox
