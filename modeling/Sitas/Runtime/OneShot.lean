import Sitas.Lib.Runs
import Sitas.Runtime.Reply
import Mathlib.Data.List.Basic

/-! Interleavings of the two ends of a one-shot reply. Each step is a critical section of the
reply's mutex or one of the calls `send` and the destructor make after they have released it. -/
namespace Sitas.Runtime
open Sitas.Lib List

/-- Where the thread that owns the sender stands. The flag says that `send` is running, whose
end drops the sender. -/
inductive SenderPhase (W : Type) where
  | owned
  | notifying (waker : Option W) (sending : Bool)
  | waking (waker : Option W) (sending : Bool)
  | dropping
  | done
  deriving DecidableEq, Repr

def SenderPhase.held {W : Type} : SenderPhase W → Option W
  | .notifying waker _ | .waking waker _ => waker
  | .owned | .dropping | .done => none

/-- The reply handle, a thread inside a wait of its condition variable, the future made of the
handle, or none of them. A blocked thread knows whether it was notified since it waits. -/
inductive ReceiverPhase where
  | handle
  | blocked (deadline : Option Nat) (notified : Bool)
  | future
  | gone
  deriving DecidableEq, Repr

def ReceiverPhase.notify : ReceiverPhase → ReceiverPhase
  | .blocked deadline _ => .blocked deadline true
  | phase => phase

def ReceiverPhase.isBlocked : ReceiverPhase → Bool
  | .blocked _ _ => true
  | .handle | .future | .gone => false

/-- The value that was sent, the results of the receiver's calls, the wakers that polls have
stored and those that were woken are recorded in their order. -/
structure OneShot (T W : Type) where
  state : ReplyState T W
  sender : SenderPhase W
  receiver : ReceiverPhase
  now : Nat
  sent : Option T
  returned : List (Except ShardError T)
  stored : List W
  woken : List W

inductive OneShotEvent (T W : Type) where
  | send (value : T)
  | dropSender
  | notifyAll
  | wake
  | destroy
  | tryWait
  | wait
  /-- The deadline was computed before the mutex was locked, so it can have passed. -/
  | waitTimeout (deadline : Nat)
  /-- A wait ends notified, spuriously or timed out. -/
  | resume (timedOut : Bool)
  | waitAsync
  | poll (waker : W)
  | dropReceiver
  | tick (elapsed : Nat)
  deriving DecidableEq, Repr

namespace OneShot
variable {T W : Type}

def new : OneShot T W := ⟨replyChannel, .owned, .handle, 0, none, [], [], []⟩

def delivered (s : OneShot T W) : List T := s.returned.filterMap Except.toOption

def drop (s : OneShot T W) : OneShot T W :=
  if s.state.senderAlive then
    { s with
      state := (ReplySender.drop s.state).1
      sender := .notifying (ReplySender.drop s.state).2 false }
  else { s with sender := .done }

def send (s : OneShot T W) (value : T) : OneShot T W :=
  match ReplySender.deposit s.state value with
  | some (state, waker) => { s with state := state, sender := .notifying waker true }
  | none => { s with sender := .dropping }

/-- A pass through the loop of `wait`, or of `wait_timeout` if there is a deadline. -/
def pass (s : OneShot T W) : Option Nat → Option (Except ShardError T) × ReplyState T W
  | none => Reply.wait s.state
  | some deadline => Reply.waitTimeout s.state s.now deadline

def wait (s : OneShot T W) (deadline : Option Nat) : OneShot T W :=
  match s.pass deadline with
  | (some result, state) =>
    { s with state := state, receiver := .gone, returned := s.returned ++ [result] }
  | (none, state) => { s with state := state, receiver := .blocked deadline false }

def resume (s : OneShot T W) (deadline : Option Nat) (timedOut : Bool) : OneShot T W :=
  if timedOut && s.state.value.isNone then
    { s with receiver := .gone, returned := s.returned ++ [.error .replyTimeout] }
  else s.wait deadline

def tryWait (s : OneShot T W) : OneShot T W :=
  match Reply.tryWait s.state with
  | (.ok none, state) => { s with state := state }
  | (.ok (some value), state) =>
    { s with state := state, returned := s.returned ++ [.ok value] }
  | (.error e, state) => { s with state := state, returned := s.returned ++ [.error e] }

def poll (s : OneShot T W) (waker : W) : OneShot T W :=
  match ReplyFuture.poll s.state waker with
  | (some result, state) => { s with state := state, returned := s.returned ++ [result] }
  | (none, state) => { s with state := state, stored := s.stored ++ [waker] }

/-- A call that consumes an end needs it, and a timed wait does not time out before its
deadline. -/
def step (s : OneShot T W) : OneShotEvent T W → Option (OneShot T W)
  | .send value => match s.sender with
    | .owned => some { s.send value with sent := some value }
    | _ => none
  | .dropSender => match s.sender with
    | .owned => some s.drop
    | _ => none
  | .notifyAll => match s.sender with
    | .notifying waker sending =>
      some { s with sender := .waking waker sending, receiver := s.receiver.notify }
    | _ => none
  | .wake => match s.sender with
    | .waking waker sending =>
      some { s with
        sender := if sending then .dropping else .done
        woken := s.woken ++ waker.toList }
    | _ => none
  | .destroy => match s.sender with
    | .dropping => some s.drop
    | _ => none
  | .tryWait => match s.receiver with
    | .handle => some s.tryWait
    | _ => none
  | .wait => match s.receiver with
    | .handle => some (s.wait none)
    | _ => none
  | .waitTimeout deadline => match s.receiver with
    | .handle => some (s.wait (some deadline))
    | _ => none
  | .resume timedOut => match s.receiver with
    | .blocked deadline _ =>
      if timedOut && !deadline.any (· ≤ s.now) then none else some (s.resume deadline timedOut)
    | _ => none
  | .waitAsync => match s.receiver with
    | .handle => some { s with receiver := .future }
    | _ => none
  | .poll waker => match s.receiver with
    | .future => some (s.poll waker)
    | _ => none
  | .dropReceiver => match s.receiver with
    | .handle | .future => some { s with receiver := .gone }
    | _ => none
  | .tick elapsed => some { s with now := s.now + elapsed }

section Steps
variable {s t : OneShot T W} {e : OneShotEvent T W}

inductive Moves (s : OneShot T W) : OneShot T W → Prop
  | sent (value : T) : s.sender = .owned → s.state.value = none →
      Moves s { s with
        state := ⟨some value, false, none⟩
        sender := .notifying s.state.waker true
        sent := some value }
  | refused (value : T) : s.sender = .owned → s.state.value.isSome = true →
      Moves s { s with sender := .dropping, sent := some value }
  | dropped : s.sender = .owned ∨ s.sender = .dropping → s.state.senderAlive = true →
      Moves s { s with
        state := { s.state with senderAlive := false, waker := none }
        sender := .notifying s.state.waker false }
  | destroyed : s.sender = .owned ∨ s.sender = .dropping → s.state.senderAlive = false →
      Moves s { s with sender := .done }
  | notified (waker : Option W) (sending : Bool) : s.sender = .notifying waker sending →
      Moves s { s with sender := .waking waker sending, receiver := s.receiver.notify }
  | woken (waker : Option W) (sending : Bool) : s.sender = .waking waker sending →
      Moves s { s with
        sender := if sending then .dropping else .done
        woken := s.woken ++ waker.toList }
  | took (value : T) (receiver : ReceiverPhase) : s.state.value = some value →
      receiver.isBlocked = false →
      Moves s { s with
        state := { s.state with value := none }
        receiver := receiver
        returned := s.returned ++ [.ok value] }
  | failed (receiver : ReceiverPhase) : s.state.value = none → s.state.senderAlive = false →
      receiver.isBlocked = false →
      Moves s { s with receiver := receiver, returned := s.returned ++ [.error .replyFailed] }
  | timedOut :
      Moves s { s with receiver := .gone, returned := s.returned ++ [.error .replyTimeout] }
  | stored (waker : W) : s.state.value = none → s.state.senderAlive = true →
      Moves s { s with
        state := { s.state with waker := some waker }
        stored := s.stored ++ [waker] }
  | turned (receiver : ReceiverPhase) :
      (receiver.isBlocked = true → s.state.senderAlive = true) →
      Moves s { s with receiver := receiver }

private theorem moves_drop (h : s.sender = .owned ∨ s.sender = .dropping) : Moves s s.drop := by
  unfold drop ReplySender.drop
  split
  next halive => exact .dropped h halive
  next halive => exact .destroyed h (Bool.eq_false_iff.mpr halive)

private theorem moves_send (h : s.sender = .owned) (value : T) :
    Moves s { s.send value with sent := some value } := by
  unfold send ReplySender.deposit
  cases hv : s.state.value with
  | none => exact .sent value h hv
  | some v => exact .refused value h (by rw [hv]; rfl)

private theorem moves_wait (deadline : Option Nat) : Moves s (s.wait deadline) := by
  cases hv : s.state.value with
  | some value =>
    have hpass : s.pass deadline = (some (.ok value), { s.state with value := none }) := by
      cases deadline <;> simp [pass, Reply.wait, Reply.waitTimeout, hv]
    rw [wait, hpass]
    exact .took value .gone hv rfl
  | none =>
    cases halive : s.state.senderAlive with
    | false =>
      have hpass : s.pass deadline = (some (.error .replyFailed), s.state) := by
        cases deadline <;> simp [pass, Reply.wait, Reply.waitTimeout, hv, halive]
      rw [wait, hpass]
      exact .failed .gone hv halive rfl
    | true =>
      have hpass : s.pass deadline = (some (.error .replyTimeout), s.state) ∨
          s.pass deadline = (none, s.state) := by
        cases deadline with
        | none => exact .inr (by simp [pass, Reply.wait, hv, halive])
        | some deadline =>
          by_cases htime : deadline ≤ s.now
          · exact .inl (by simp [pass, Reply.waitTimeout, hv, halive, htime])
          · exact .inr (by simp [pass, Reply.waitTimeout, hv, halive, htime])
      obtain hpass | hpass := hpass
      · rw [wait, hpass]
        exact .timedOut
      · rw [wait, hpass]
        exact .turned _ fun _ => halive

private theorem moves_tryWait (h : s.receiver = .handle) : Moves s s.tryWait := by
  have hfree : s.receiver.isBlocked = false := by rw [h]; rfl
  unfold tryWait Reply.tryWait
  cases hv : s.state.value with
  | some value => exact .took value s.receiver hv hfree
  | none =>
    cases halive : s.state.senderAlive with
    | true => exact .turned s.receiver fun _ => halive
    | false => exact .failed s.receiver hv halive hfree

private theorem moves_poll (h : s.receiver = .future) (waker : W) : Moves s (s.poll waker) := by
  have hfree : s.receiver.isBlocked = false := by rw [h]; rfl
  cases hv : s.state.value with
  | some value =>
    rw [poll, ReplyFuture.poll, hv]
    exact .took value s.receiver hv hfree
  | none =>
    cases halive : s.state.senderAlive with
    | true =>
      have hpoll : ReplyFuture.poll s.state waker = (none, { s.state with waker := some waker }) := by
        simp [ReplyFuture.poll, hv, halive]
      rw [poll, hpoll]
      exact .stored waker hv halive
    | false =>
      have hpoll : ReplyFuture.poll s.state waker = (some (.error .replyFailed), s.state) := by
        simp [ReplyFuture.poll, hv, halive]
      rw [poll, hpoll]
      exact .failed s.receiver hv halive hfree

theorem step_cases (h : step s e = some t) :
    Moves s t ∨ ∃ elapsed, e = .tick elapsed ∧ t = { s with now := s.now + elapsed } := by
  have hfree : ∀ receiver : ReceiverPhase, receiver.isBlocked = false →
      Moves s { s with receiver := receiver } :=
    fun receiver hfree => .turned receiver fun hb => absurd (hfree.symm.trans hb) Bool.false_ne_true
  revert h
  fun_cases step s e <;> rintro ⟨⟩
  next value howned => exact .inl (moves_send howned value)
  next howned => exact .inl (moves_drop (.inl howned))
  next hphase => exact .inl (.notified _ _ hphase)
  next hphase => exact .inl (.woken _ _ hphase)
  next hdropping => exact .inl (moves_drop (.inr hdropping))
  next hhandle => exact .inl (moves_tryWait hhandle)
  · exact .inl (moves_wait none)
  next deadline _ => exact .inl (moves_wait (some deadline))
  next deadline _ _ _ =>
    unfold resume
    split
    · exact .inl .timedOut
    · exact .inl (moves_wait deadline)
  · exact .inl (hfree .future rfl)
  next waker hfuture => exact .inl (moves_poll hfuture waker)
  · exact .inl (hfree .gone rfl)
  · exact .inl (hfree .gone rfl)
  next elapsed => exact .inr ⟨elapsed, rfl, rfl⟩

end Steps

end OneShot
end Sitas.Runtime
