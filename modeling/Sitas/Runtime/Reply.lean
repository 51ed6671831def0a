import Mathlib.Logic.Basic

/-! The one-shot reply of a shard command: a value under a mutex, a sender that is consumed
by `send`, and a handle that waits. -/
namespace Sitas.Runtime

/-- The errors of the sharded services, without those of CPU and memory placement. -/
inductive ShardError where
  | invalidShardCount
  | invalidShardId (id : Nat)
  | invalidMailboxCapacity
  | mailboxFull
  | sendFailed
  | replyFailed
  | replyTimeout
  | shardStopped
  | threadJoinFailed
  deriving DecidableEq, Repr

structure ReplyState (T W : Type) where
  value : Option T
  senderAlive : Bool
  waker : Option W

variable {T W : Type}

def replyChannel : ReplyState T W := ⟨none, true, none⟩

/-- The state after the sender is dropped, and the waker that is woken. -/
def ReplySender.drop (s : ReplyState T W) : ReplyState T W × Option W :=
  if s.senderAlive then ({ s with senderAlive := false, waker := none }, s.waker) else (s, none)

/-- The state after `send`, which drops the sender in the end, and the waker that is woken. -/
def ReplySender.send (s : ReplyState T W) (value : T) : ReplyState T W × Option W :=
  if s.value.isSome then ReplySender.drop s
  else (⟨some value, false, none⟩, s.waker)

/-- A pass through the loop of `wait`. Without a result the thread waits to be notified. -/
def Reply.wait (s : ReplyState T W) : Option (Except ShardError T) × ReplyState T W :=
  match s.value with
  | some value => (some (.ok value), { s with value := none })
  | none => if s.senderAlive then (none, s) else (some (.error .replyFailed), s)

def Reply.waitTimeout (s : ReplyState T W) (now deadline : Nat) :
    Option (Except ShardError T) × ReplyState T W :=
  match s.value with
  | some value => (some (.ok value), { s with value := none })
  | none =>
    if s.senderAlive then
      if deadline ≤ now then (some (.error .replyTimeout), s) else (none, s)
    else (some (.error .replyFailed), s)

/-- `try_wait` without a result says that the shard has not replied yet. -/
def Reply.tryWait (s : ReplyState T W) : Except ShardError (Option T) × ReplyState T W :=
  match s.value with
  | some value => (.ok (some value), { s with value := none })
  | none => if s.senderAlive then (.ok none, s) else (.error .replyFailed, s)

def ReplyFuture.poll (s : ReplyState T W) (waker : W) :
    Option (Except ShardError T) × ReplyState T W :=
  match s.value with
  | some value => (some (.ok value), { s with value := none })
  | none =>
    if s.senderAlive then (none, { s with waker := some waker })
    else (some (.error .replyFailed), s)

/-- The critical section of `send`, with the waker it takes out. It gives up if a value is
present. -/
def ReplySender.deposit (s : ReplyState T W) (value : T) : Option (ReplyState T W × Option W) :=
  if s.value.isSome then none else some (⟨some value, false, none⟩, s.waker)

/-- The whole of `send` is its critical section with the destructor after it. -/
theorem ReplySender.send_eq_deposit (s : ReplyState T W) (value : T) :
    ReplySender.send s value =
      (ReplySender.deposit s value).elim (ReplySender.drop s) fun (cell, waker) =>
        ((ReplySender.drop cell).1, waker) := by
  unfold ReplySender.send ReplySender.deposit
  split <;> rfl

/-- The reply can still come or has come and not been taken. -/
def ReplyState.Open (s : ReplyState T W) : Prop := s.value.isSome = true ∨ s.senderAlive = true

theorem ReplySender.send_of_open {s : ReplyState T W} (h : s.value = none) (value : T) :
    (ReplySender.send s value).1 = ⟨some value, false, none⟩ := by
  simp [ReplySender.send, h]

theorem Reply.wait_eq_ok {s t : ReplyState T W} {value : T}
    (h : Reply.wait s = (some (.ok value), t)) :
    s.value = some value ∧ t = { s with value := none } := by
  cases hv : s.value with
  | some v =>
    simp only [Reply.wait, hv, Prod.mk.injEq, Option.some.injEq, Except.ok.injEq] at h
    rw [h.1]
    exact ⟨rfl, h.2.symm⟩
  | none =>
    cases ha : s.senderAlive <;> simp [Reply.wait, hv, ha] at h

theorem Reply.wait_ne_error {s t : ReplyState T W} {e : ShardError} (h : s.Open) :
    Reply.wait s ≠ (some (.error e), t) := by
  intro hw
  cases hv : s.value with
  | some v => simp [Reply.wait, hv] at hw
  | none =>
    have ha : s.senderAlive = true := by simpa [ReplyState.Open, hv] using h
    simp [Reply.wait, hv, ha] at hw

end Sitas.Runtime
