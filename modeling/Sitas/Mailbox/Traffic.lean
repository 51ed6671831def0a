import Mathlib.Data.Finset.Card
import Sitas.Lib.Runs
import Sitas.Mailbox.SharedMailbox

/-! One mailbox with every handle on it. An operation is its critical section, after
which the wakers it took are still to be invoked. -/
namespace Sitas.Mailbox
open Sitas.Lib

structure SendFuture (M : Type) where
  name : Nat
  sender : Nat
  given : M
  message : Option M

structure Traffic (M W : Type) where
  mailbox : SharedMailbox M W
  setAlive : Bool
  senders : Finset Nat
  sends : List (SendFuture M)
  receiverAlive : Bool
  /-- A receive future borrows the receiver. -/
  recvAlive : Bool
  parked : Parking Unit W
  /-- Wakers that operations in progress have taken and not invoked. -/
  waking : List W
  accepted : List M
  received : List M

/-- Calls of the mailbox set, of a sender, of the receiver and of their futures. The
last event is the part of a call after its critical section. -/
inductive TrafficEvent (M W : Type) where
  | senderTo (sender : Nat)
  | receiverFor
  | dropSet
  | cloneSender (sender copy : Nat)
  | dropSender (sender : Nat)
  | closeSender (sender : Nat)
  | trySend (sender : Nat) (message : M)
  | send (sender future : Nat) (message : M)
  | pollSend (future : Nat) (waker : W)
  | dropSend (future : Nat)
  | tryRecv
  | recv
  | pollRecv (waker : W)
  | dropRecv
  | closeReceiver
  | dropReceiver
  | wake (waker : W)

inductive Response (M : Type) where
  | done
  | receiver (result : Except ShardMailboxAddressError Unit)
  | sent (result : Poll (Except (ShardSendError M) Unit))
  | received (result : Poll (Except ShardRecvError M))
  deriving DecidableEq

namespace Traffic
variable {M W : Type}

def new (shardId capacity : Nat) : Traffic M W where
  mailbox := .new shardId capacity
  setAlive := true
  senders := ∅
  sends := []
  receiverAlive := false
  recvAlive := false
  parked := .empty
  waking := []
  accepted := []
  received := []

def after (s : Traffic M W) (r : SharedMailbox M W × List W) : Traffic M W :=
  { s with mailbox := r.1, waking := s.waking ++ r.2 }

def noteSend (s : Traffic M W) (message : M) (result : Poll (Except (ShardSendError M) Unit)) :
    Traffic M W :=
  { s with accepted := if result matches .ready (.ok _) then s.accepted ++ [message]
                       else s.accepted }

def noteRecv (s : Traffic M W) (result : Poll (Except ShardRecvError M)) : Traffic M W :=
  { s with received := match result with
      | .ready (.ok message) => s.received ++ [message]
      | _ => s.received }

def findSend (s : Traffic M W) (f : Nat) : Option (SendFuture M) :=
  s.sends.find? fun r => r.name == f

def dropFuture (s : Traffic M W) (f : Nat) : Traffic M W :=
  { s with sends := s.sends.filter fun r => r.name != f }

def putFuture (s : Traffic M W) (r : SendFuture M) : Traffic M W :=
  { s with sends := r :: s.sends.filter fun q => q.name != r.name }

/-- The receiver is at hand: it is alive and no receive future borrows it. -/
def receiverFree (s : Traffic M W) : Bool := s.receiverAlive && !s.recvAlive

variable [DecidableEq W]

/-- One operation by the owner of a live handle, with its response. -/
def respond (s : Traffic M W) : TrafficEvent M W → Option (Traffic M W × Response M)
  | .senderTo h =>
    if s.setAlive ∧ h ∉ s.senders then
      some ({ s.after (s.mailbox.addSender, []) with senders := insert h s.senders }, .done)
    else none
  | .receiverFor =>
    if s.setAlive then
      match s.mailbox.receiverFor with
      | .error e => some (s, .receiver (.error e))
      | .ok mailbox =>
        some ({ s.after (mailbox, []) with receiverAlive := true }, .receiver (.ok ()))
    else none
  | .dropSet =>
    if s.setAlive then
      some ({ s.after s.mailbox.closeSenderFactory with setAlive := false }, .done)
    else none
  | .cloneSender h k =>
    if h ∈ s.senders ∧ k ∉ s.senders then
      some ({ s.after (s.mailbox.addSender, []) with senders := insert k s.senders }, .done)
    else none
  | .dropSender h =>
    if h ∈ s.senders ∧ ∀ r ∈ s.sends, r.sender ≠ h then
      some ({ s.after s.mailbox.dropSender with senders := s.senders.erase h }, .done)
    else none
  | .closeSender h =>
    if h ∈ s.senders then some (s.after s.mailbox.closeReceiver, .done) else none
  | .trySend h m =>
    if h ∈ s.senders then
      let r := s.mailbox.trySend m
      some ((s.after (r.1, r.2.2)).noteSend m (.ready r.2.1), .sent (.ready r.2.1))
    else none
  | .send h f m =>
    if h ∈ s.senders ∧ s.findSend f = none then some (s.putFuture ⟨f, h, m, some m⟩, .done)
    else none
  | .pollSend f w =>
    (s.findSend f).bind fun r =>
      (s.mailbox.pollSend r.message w).map fun p =>
        (((s.after (p.1, p.2.2.2)).noteSend r.given p.2.2.1).putFuture
          { r with message := p.2.1 }, .sent p.2.2.1)
  | .dropSend f =>
    (s.findSend f).map fun r => ((s.after (s.mailbox.dropSend r.message)).dropFuture f, .done)
  | .tryRecv =>
    if s.receiverFree then
      let r := s.mailbox.tryRecv
      some ((s.after (r.1, r.2.2)).noteRecv (.ready r.2.1), .received (.ready r.2.1))
    else none
  | .recv => if s.receiverFree then some ({ s with recvAlive := true }, .done) else none
  | .pollRecv w =>
    if s.recvAlive then
      let r := s.mailbox.pollRecv w
      let parked := if r.2.1 matches .pending then s.parked.park () w else s.parked.leave ()
      some ({ (s.after (r.1, r.2.2)).noteRecv r.2.1 with parked := parked }, .received r.2.1)
    else none
  | .dropRecv =>
    if s.recvAlive then some ({ s with recvAlive := false, parked := s.parked.leave () }, .done)
    else none
  | .closeReceiver =>
    if s.receiverFree then some (s.after s.mailbox.closeReceiver, .done) else none
  | .dropReceiver =>
    if s.receiverFree then
      some ({ s.after s.mailbox.closeReceiver with receiverAlive := false }, .done)
    else none
  | .wake w =>
    if w ∈ s.waking then
      some ({ s with waking := s.waking.erase w, parked := s.parked.wake [w] }, .done)
    else none

def step (s : Traffic M W) (a : TrafficEvent M W) : Option (Traffic M W) :=
  (s.respond a).map Prod.fst

theorem respond_of_step {s t : Traffic M W} {a : TrafficEvent M W} (hst : s.step a = some t) :
    ∃ r, s.respond a = some (t, r) := by
  obtain ⟨⟨u, r⟩, hr, rfl⟩ := Option.map_eq_some_iff.mp hst
  exact ⟨r, hr⟩

theorem respond_receiverFor {s t : Traffic M W} {r : Response M}
    (hst : s.respond .receiverFor = some (t, r)) : ∃ result, r = .receiver result ∧
      (t = s ∨ t = { s.after ({ s.mailbox with receiverTaken := true }, []) with
        receiverAlive := true }) := by
  obtain ⟨_, hst⟩ := Option.ite_none_right_eq_some.mp hst
  split at hst <;> cases hst
  · exact ⟨_, rfl, .inl rfl⟩
  next hreceiver =>
    rw [SharedMailbox.receiverFor] at hreceiver
    split at hreceiver <;> cases hreceiver
    exact ⟨_, rfl, .inr rfl⟩

end Traffic
end Sitas.Mailbox
