import Sitas.Lib.Runs
import Sitas.Runtime.RingBuffer

/-! The `no_std` channel: cloned senders serialised by a push lock, one receiver, and
a closed flag that is loaded separately from the ring. -/
namespace Sitas.Runtime
open Sitas.Lib Function

inductive ShardChannelError where
  | invalidCapacity
  deriving DecidableEq, Repr

/-- A sender thread before its next atomic access. After the push the position of the
message in the log stands for the message. -/
inductive SendPc (M W : Type) where
  | idle
  | loadClosed (msg : M)
  | lock (msg : M)
  | push (pc : PushPc M)
  | reject (msg : M)
  | unlock (index : Nat)
  | takeWaker (index : Nat)
  | wake (index : Nat) (waker : Option W)
  | storeClosed
  | closeTakeWaker
  | closeWake (waker : Option W)

/-- The two rounds of a receive poll: before and after registering its waker. -/
inductive Check where
  | first
  | second
  deriving DecidableEq, Repr

/-- The receiver before its next access. A pop outside a poll is a `try_recv`. -/
inductive RecvPc (M W : Type) where
  | idle
  | pop (poll : Option (Check × W)) (pc : PopPc M)
  | loadClosed (check : Check) (waker : W)
  | register (waker : W)

structure Channel (M W : Type) where
  queue : RingLog M
  pushLock : Option Nat
  recvWaker : Option W
  closed : Bool
  senders : Nat → SendPc M W
  receiver : RecvPc M W
  /-- Whether `close` has been called, and the messages whose send returned before. -/
  closeCalled : Bool
  okBeforeClose : List Nat
  wakes : List W

inductive Event (M W : Type) where
  | trySend (thread : Nat) (msg : M)
  | close (thread : Nat)
  | sender (thread : Nat)
  | tryRecv
  | poll (waker : W)
  | receiver

def SendPc.Locks {M W : Type} : SendPc M W → Prop
  | .push _ | .reject _ | .unlock _ => True
  | _ => False

def SendPc.index {M W : Type} : SendPc M W → Option Nat
  | .unlock i | .takeWaker i | .wake i _ => some i
  | _ => none

namespace Channel
variable {M W : Type}

def new (capacity : Nat) : Channel M W where
  queue := .start (.bounded capacity)
  pushLock := none
  recvWaker := none
  closed := false
  senders := fun _ => .idle
  receiver := .idle
  closeCalled := false
  okBeforeClose := []
  wakes := []

def channel (capacity : Nat) : Except ShardChannelError (Channel M W) :=
  if capacity < 2 then .error .invalidCapacity else .ok (new capacity)

def setSender (s : Channel M W) (t : Nat) (pc : SendPc M W) : Channel M W :=
  { s with senders := Function.update s.senders t pc }

/-- The next access of a sender thread. A held push lock blocks. -/
def sendStep (s : Channel M W) (t : Nat) : SendPc M W → Option (Channel M W)
  | .idle => none
  | .loadClosed msg => some (s.setSender t (if s.closed then .idle else .lock msg))
  | .lock msg =>
    if s.pushLock.isNone then
      some ({ s with pushLock := some t }.setSender t (.push (.loadHead msg)))
    else none
  | .push pc =>
    let queue := (s.queue.tryPush pc).1
    some ({ s with queue := queue }.setSender t <|
      match (s.queue.tryPush pc).2 with
      | .continues pc => .push pc
      | .returns (.ok ()) => .unlock s.queue.pushed.length
      | .returns (.error msg) => .reject msg)
  | .reject _ => some ({ s with pushLock := none }.setSender t .idle)
  | .unlock i => some ({ s with pushLock := none }.setSender t (.takeWaker i))
  | .takeWaker i => some ({ s with recvWaker := none }.setSender t (.wake i s.recvWaker))
  | .wake i waker =>
    some ({ s with
      wakes := s.wakes ++ waker.toList
      okBeforeClose := if s.closeCalled then s.okBeforeClose else i :: s.okBeforeClose
      }.setSender t .idle)
  | .storeClosed => some ({ s with closed := true }.setSender t .closeTakeWaker)
  | .closeTakeWaker => some ({ s with recvWaker := none }.setSender t (.closeWake s.recvWaker))
  | .closeWake waker => some ({ s with wakes := s.wakes ++ waker.toList }.setSender t .idle)

/-- The next access of the receiver. A closed flag seen after an empty pop resolves
the poll to `None`; the second round otherwise returns pending. -/
def recvStep (s : Channel M W) : RecvPc M W → Option (Channel M W)
  | .idle => none
  | .pop poll pc =>
    (s.queue.pop pc).map fun (queue, progress) =>
      { s with
        queue := queue
        receiver :=
          match progress, poll with
          | .continues pc, _ => .pop poll pc
          | .returns none, some (check, waker) => .loadClosed check waker
          | .returns _, _ => .idle }
  | .loadClosed .first waker =>
    some { s with receiver := if s.closed then .idle else .register waker }
  | .loadClosed .second _ => some { s with receiver := .idle }
  | .register waker =>
    some { s with recvWaker := some waker, receiver := .pop (some (.second, waker)) .loadTail }

def step (s : Channel M W) : Event M W → Option (Channel M W)
  | .trySend t msg =>
    match s.senders t with
    | .idle => some (s.setSender t (.loadClosed msg))
    | _ => none
  | .close t =>
    match s.senders t with
    | .idle => some ({ s with closeCalled := true }.setSender t .storeClosed)
    | _ => none
  | .sender t => s.sendStep t (s.senders t)
  | .tryRecv =>
    match s.receiver with
    | .idle => some { s with receiver := .pop none .loadTail }
    | _ => none
  | .poll waker =>
    match s.receiver with
    | .idle => some { s with receiver := .pop (some (.first, waker)) .loadTail }
    | _ => none
  | .receiver => s.recvStep s.receiver

def ResolvesNone (s : Channel M W) : Prop :=
  (∃ check waker, s.receiver = .loadClosed check waker) ∧ s.closed = true

/-- The ring is empty, and what was sent successfully before the close was received. -/
def Drained (s : Channel M W) : Prop :=
  s.queue.ring.len = 0 ∧ ∀ i ∈ s.okBeforeClose,
    i < s.queue.popped.length ∧ s.queue.popped[i]? = s.queue.pushed[i]?

structure Consistent (s : Channel M W) : Prop where
  sound : s.queue.Sound
  locks : ∀ t, (s.senders t).Locks → s.pushLock = some t
  pushes : ∀ t pc, s.senders t = .push pc → s.queue.PushOk pc
  indices : ∀ t i, (s.senders t).index = some i → i < s.queue.pushed.length
  accepted : ∀ i ∈ s.okBeforeClose, i < s.queue.pushed.length
  pops : ∀ poll pc, s.receiver = .pop poll pc → s.queue.PopOk pc
  /-- The closed flag is loaded after a pop that found nothing unread. -/
  emptied : ∀ check waker, s.receiver = .loadClosed check waker →
    s.queue.seen = s.queue.popped.length

theorem consistent_channel {capacity : Nat} {s : Channel M W}
    (h : channel capacity = .ok s) : Consistent s := by
  rw [channel] at h
  split at h
  · cases h
  · cases h
    refine ⟨RingLog.sound_start (by omega), ?_, ?_, ?_, ?_, ?_, ?_⟩
    · intro t ht
      exact ht.elim
    · intro t pc hpc
      cases hpc
    · intro t i hi
      cases hi
    · intro i hi
      cases hi
    · intro poll pc hpc
      cases hpc
    · intro check waker hc
      cases hc

/-- At the moment a poll resolves to `None`, everything is drained exactly when nothing
was published since its last pop loaded head. -/
theorem Consistent.drained_iff {s : Channel M W} (h : Consistent s) (hnone : s.ResolvesNone) :
    s.Drained ↔ s.queue.pushed.length = s.queue.seen := by
  obtain ⟨⟨check, waker, hrecv⟩, _⟩ := hnone
  have hseen := h.emptied check waker hrecv
  constructor
  · intro hd
    have hlen := h.sound.len_eq_zero_iff.mp hd.1
    omega
  · intro hlen
    have heq : s.queue.popped.length = s.queue.pushed.length := by omega
    refine ⟨h.sound.len_eq_zero_iff.mpr heq, fun i hi => ?_⟩
    have hlt := h.accepted i hi
    exact ⟨by omega, by rw [h.sound.popped_eq_of_length heq]⟩

section Steps
variable {s u : Channel M W} {t : Nat}

section
variable (h : Consistent s)
include h

private theorem consistent_sender {pc : SendPc M W} (hqueue : u.queue = s.queue)
    (hrecv : u.receiver = s.receiver) (hsend : u.senders = update s.senders t pc)
    (hlock : pc.Locks → u.pushLock = some t)
    (hother : ∀ v, v ≠ t → (s.senders v).Locks → u.pushLock = some v)
    (hpush : ∀ p, pc = .push p → s.queue.PushOk p)
    (hindex : ∀ i, pc.index = some i → i < s.queue.pushed.length)
    (hok : ∀ i ∈ u.okBeforeClose, i < s.queue.pushed.length) : Consistent u := by
  refine ⟨hqueue ▸ h.sound, ?_, ?_, ?_, hqueue ▸ hok, ?_, ?_⟩
  · rw [hsend]
    exact (forall_update_iff s.senders fun v p => p.Locks → u.pushLock = some v).mpr
      ⟨hlock, hother⟩
  · rw [hsend, hqueue]
    exact (forall_update_iff s.senders fun _ p => ∀ q, p = .push q →
      s.queue.PushOk q).mpr ⟨hpush, fun v _ => h.pushes v⟩
  · rw [hsend, hqueue]
    exact (forall_update_iff s.senders fun _ p => ∀ i, p.index = some i →
      i < s.queue.pushed.length).mpr ⟨hindex, fun v _ => h.indices v⟩
  · rw [hqueue, hrecv]
    exact h.pops
  · rw [hqueue, hrecv]
    exact h.emptied

private theorem consistent_idle {pc : SendPc M W} (hqueue : u.queue = s.queue)
    (hrecv : u.receiver = s.receiver) (hsend : u.senders = update s.senders t pc)
    (hpc : ¬ pc.Locks) (hlock : u.pushLock = s.pushLock ∨ s.pushLock = some t)
    (hindex : ∀ i, pc.index = some i → i < s.queue.pushed.length)
    (hok : ∀ i ∈ u.okBeforeClose, i < s.queue.pushed.length) : Consistent u := by
  refine consistent_sender h hqueue hrecv hsend (fun hl => absurd hl hpc) ?_ ?_ hindex hok
  · intro v hv hl
    have hheld := h.locks v hl
    rcases hlock with hsame | hmine
    · exact hsame.trans hheld
    · exact absurd (Option.some.inj (hheld.symm.trans hmine)) hv
  · intro p hp
    subst hp
    exact absurd trivial hpc

private theorem consistent_lock {msg : M} (hst : s.sendStep t (.lock msg) = some u) :
    Consistent u := by
  obtain ⟨hfree, rfl⟩ := guarded hst
  refine consistent_sender h rfl rfl rfl (fun _ => rfl) ?_ ?_ (fun i hi => nomatch hi) h.accepted
  · intro v _ hl
    rw [h.locks v hl] at hfree
    cases hfree
  · intro p hp
    cases hp
    trivial

private theorem consistent_push {pc : PushPc M} (hpc : s.senders t = .push pc)
    (hst : s.sendStep t (.push pc) = some u) : Consistent u := by
  have hheld : s.pushLock = some t := h.locks t (by rw [hpc]; trivial)
  obtain ⟨hsound, hmoved, hnext⟩ := h.sound.tryPush (h.pushes t pc hpc)
  have hlen := hmoved.pushed.length_le
  have halone : ∀ v, v ≠ t → ¬ (s.senders v).Locks := fun v hv hl =>
    hv (Option.some.inj ((h.locks v hl).symm.trans hheld))
  cases hst
  refine ⟨hsound, ?_, ?_, ?_, ?_, ?_, ?_⟩
  · exact (forall_update_iff s.senders fun v p => p.Locks → s.pushLock = some v).mpr
      ⟨fun _ => hheld, fun v _ => h.locks v⟩
  · refine (forall_update_iff s.senders fun _ p => ∀ q, p = .push q →
      (s.queue.tryPush pc).1.PushOk q).mpr ⟨?_, ?_⟩
    · intro q hq
      split at hq
      next next hr =>
        cases hq
        exact hnext _ hr
      · cases hq
      · cases hq
    · intro v hv q hq
      exact absurd (by rw [hq]; trivial) (halone v hv)
  · refine (forall_update_iff s.senders fun _ p => ∀ i, p.index = some i →
      i < (s.queue.tryPush pc).1.pushed.length).mpr ⟨?_, ?_⟩
    · intro i hi
      split at hi
      · cases hi
      next hr =>
        cases hi
        exact RingLog.length_lt_of_push_ok hr
      · cases hi
    · intro v _ i hi
      exact Nat.lt_of_lt_of_le (h.indices v i hi) hlen
  · intro i hi
    exact Nat.lt_of_lt_of_le (h.accepted i hi) hlen
  · intro poll p hp
    exact (h.pops poll p hp).pushMoved hmoved
  · intro check waker hc
    have hold := h.emptied check waker hc
    change (s.queue.tryPush pc).1.seen = (s.queue.tryPush pc).1.popped.length
    rw [hmoved.seen, hmoved.popped, hold]

private theorem consistent_sendStep (hst : s.sendStep t (s.senders t) = some u) : Consistent u := by
  have hlocks := h.locks t
  have hindices := h.indices t
  cases hpc : s.senders t with
  | idle => rw [hpc] at hst; cases hst
  | loadClosed msg =>
    rw [hpc] at hst
    cases hst
    refine consistent_idle h rfl rfl rfl ?_ (.inl rfl) ?_ h.accepted
    · split <;> exact id
    · intro i hi
      split at hi <;> cases hi
  | lock msg => exact consistent_lock h (hpc ▸ hst)
  | push pc => exact consistent_push h hpc (hpc ▸ hst)
  | reject msg =>
    rw [hpc] at hst hlocks
    cases hst
    exact consistent_idle h rfl rfl rfl id (.inr (hlocks trivial)) (fun i hi => nomatch hi) h.accepted
  | unlock i =>
    rw [hpc] at hst hlocks hindices
    cases hst
    exact consistent_idle h rfl rfl rfl id (.inr (hlocks trivial)) hindices h.accepted
  | takeWaker i =>
    rw [hpc] at hst hindices
    cases hst
    exact consistent_idle h rfl rfl rfl id (.inl rfl) hindices h.accepted
  | wake i waker =>
    rw [hpc] at hst hindices
    cases hst
    refine consistent_idle h rfl rfl rfl id (.inl rfl) (fun i hi => nomatch hi) ?_
    intro j (hj : j ∈ if s.closeCalled then s.okBeforeClose else i :: s.okBeforeClose)
    split at hj
    · exact h.accepted j hj
    · rcases List.mem_cons.mp hj with rfl | hj
      · exact hindices j rfl
      · exact h.accepted j hj
  | storeClosed | closeTakeWaker | closeWake waker =>
    rw [hpc] at hst
    cases hst
    exact consistent_idle h rfl rfl rfl id (.inl rfl) (fun i hi => nomatch hi) h.accepted

private theorem consistent_receiver (pc : RecvPc M W)
    (hpop : ∀ poll p, pc = .pop poll p → p = .loadTail)
    (hload : ∀ check waker, pc ≠ .loadClosed check waker) (waker : Option W) :
    Consistent { s with receiver := pc, recvWaker := waker } := by
  refine { h with pops := fun poll p hp => ?_, emptied := fun check w hc => ?_ }
  · rw [hpop poll p hp]
    trivial
  · exact absurd hc (hload check w)

private theorem consistent_popStart (poll : Option (Check × W)) (waker : Option W) :
    Consistent { s with receiver := .pop poll .loadTail, recvWaker := waker } := by
  refine consistent_receiver h (.pop poll .loadTail) ?_ (fun _ _ hc => nomatch hc) waker
  intro poll' p hp
  cases hp
  rfl

private theorem consistent_pop {poll : Option (Check × W)} {pc : PopPc M}
    (hpc : s.receiver = .pop poll pc) (hst : s.recvStep (.pop poll pc) = some u) :
    Consistent u := by
  obtain ⟨⟨queue, progress⟩, hq, rfl⟩ := Option.map_eq_some_iff.mp hst
  obtain ⟨hsound, hmoved, hnext, hnone⟩ := h.sound.pop (h.pops poll pc hpc) hq
  refine ⟨hsound, h.locks, ?_, ?_, ?_, ?_, ?_⟩
  · intro v p hp
    exact (h.pushes v p hp).popMoved hmoved
  · intro v i hi
    rw [hmoved.pushed]
    exact h.indices v i hi
  · intro i hi
    rw [hmoved.pushed]
    exact h.accepted i hi
  · intro poll' p hp
    dsimp only at hp
    split at hp
    · cases hp
      exact hnext _ rfl
    · cases hp
    · cases hp
  · intro check waker hc
    dsimp only at hc
    split at hc
    · cases hc
    · exact hnone rfl
    · cases hc

private theorem consistent_recvStep (hst : s.recvStep s.receiver = some u) : Consistent u := by
  cases hpc : s.receiver with
  | idle => rw [hpc] at hst; cases hst
  | pop poll pc => exact consistent_pop h hpc (hpc ▸ hst)
  | loadClosed check waker =>
    rw [hpc] at hst
    cases check with
    | first =>
      cases hst
      refine consistent_receiver h (if s.closed then .idle else .register waker) ?_ ?_ s.recvWaker
      · intro poll p hp
        split at hp <;> cases hp
      · intro check w hc
        split at hc <;> cases hc
    | second =>
      cases hst
      exact consistent_receiver h .idle (fun _ _ hp => nomatch hp) (fun _ _ hc => nomatch hc)
        s.recvWaker
  | register waker =>
    rw [hpc] at hst
    cases hst
    exact consistent_popStart h (some (.second, waker)) (some waker)

theorem Consistent.step {a : Event M W} (hst : s.step a = some u) : Consistent u := by
  cases a with
  | trySend t msg | close t =>
    rw [Channel.step] at hst
    split at hst <;> cases hst
    exact consistent_idle h rfl rfl rfl id (.inl rfl) (fun i hi => nomatch hi) h.accepted
  | sender t => exact consistent_sendStep h hst
  | tryRecv | poll waker =>
    rw [Channel.step] at hst
    split at hst <;> cases hst
    exact consistent_popStart h _ s.recvWaker
  | receiver => exact consistent_recvStep h hst

end

end Steps

/-- In every interleaving, a poll that resolves to `None` leaves nothing behind exactly
when no message was published after its last pop loaded head. -/
theorem recv_none_drained_iff {capacity : Nat} {init s : Channel M W}
    (hnew : channel capacity = .ok init) (h : Reachable step init s) (hnone : s.ResolvesNone) :
    s.Drained ↔ s.queue.pushed.length = s.queue.seen :=
  (h.invariant (consistent_channel hnew) fun _ _ _ hc _ => hc.step).drained_iff hnone

private def sendSeven : List (Event Nat Nat) :=
  .trySend 0 7 :: List.replicate 9 (.sender 0)

private def sendCloseReceive : List (Event Nat Nat) :=
  sendSeven ++ [.close 0, .sender 0, .poll 1, .receiver, .receiver, .receiver, .receiver, .poll 1,
    .receiver, .receiver]

/-- The message is received, and the next poll finds the channel drained. -/
theorem sent_then_closed_drained : ∃ s, run step (new 2) sendCloseReceive = some s ∧
    s.okBeforeClose = [0] ∧ s.ResolvesNone ∧ s.Drained := by
  refine ⟨_, rfl, rfl, ⟨⟨.first, 1, rfl⟩, rfl⟩, ?_⟩
  exact (recv_none_drained_iff (show channel 2 = .ok _ from rfl)
    (reachable_of_run sendCloseReceive rfl) ⟨⟨.first, 1, rfl⟩, rfl⟩).mpr rfl

/-- Between the poll's pop and its load of the flag a send returns `Ok` and the channel is closed.
-/
theorem close_races_past_message : ∃ s,
    run step (new 2) ([.poll 1, .receiver, .receiver] ++ sendSeven ++ [.close 0, .sender 0]) =
      some s ∧
    s.okBeforeClose = [0] ∧ s.ResolvesNone ∧ ¬ s.Drained := by
  refine ⟨_, rfl, rfl, ⟨⟨.first, 1, rfl⟩, rfl⟩, fun h => ?_⟩
  cases h.1

end Channel
end Sitas.Runtime
