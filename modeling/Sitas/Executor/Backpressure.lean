import Sitas.Lib.Parking
import Sitas.Lib.Runs

/-! The backpressure guard: a counter changed by atomic steps, beside a separately
locked list of waiters. Threads interleave at every atomic access and every lock. -/
namespace Sitas.Executor.Backpressure
open Sitas.Lib List Function

structure BackpressureInner (W : Type) where
  capacity : Nat
  inFlight : Nat
  waiters : List (Nat × W)
  nextWaitId : Nat

/-- Creating a guard without capacity panics. -/
def BackpressureInner.new (W : Type) (capacity : Nat) : Option (BackpressureInner W) :=
  if 0 < capacity then some ⟨capacity, 0, [], 0⟩ else none

/-- An acquire future, named by its wait id, and the thread polling it. -/
structure AcquirePermit where
  registered : Bool
  polledBy : Option Nat
  deriving DecidableEq, Repr

inductive Op (W : Type) where
  | tryAcquire
  | acquire
  | poll (future : Nat) (waker : W)
  | dropPermit
  | dropAcquire (future : Nat)

inductive Pc (W : Type) where
  | idle
  | tryLoad
  | tryExchange (current : Nat)
  | pollLoad (future : Nat) (waker : W)
  | pollExchange (future : Nat) (waker : W) (current : Nat)
  | pollRegister (future : Nat) (waker : W)
  | releasing
  | draining
  | waking (wakers : List W)

def Pc.poll {W : Type} : Pc W → Option (Nat × W)
  | .pollLoad f w | .pollExchange f w _ | .pollRegister f w => some (f, w)
  | _ => none

def Pc.Quiet {W : Type} : Pc W → Prop
  | .draining => False
  | .waking ws => ws = []
  | _ => True

structure Guard (W : Type) where
  inner : BackpressureInner W
  permits : Nat
  futures : Nat → Option AcquirePermit
  /-- Futures being polled or pending. Wakes count from the start of a poll. -/
  parked : Parking Nat W
  threads : Nat → Pc W

inductive Event (W : Type) where
  | call (thread : Nat) (op : Op W)
  | advance (thread : Nat)

namespace Guard
variable {W : Type}

def start (inner : BackpressureInner W) : Guard W :=
  ⟨inner, 0, fun _ => none, .empty, fun _ => .idle⟩

def setPc (s : Guard W) (t : Nat) (pc : Pc W) : Guard W :=
  { s with threads := Function.update s.threads t pc }

def setFuture (s : Guard W) (f : Nat) (a : Option AcquirePermit) : Guard W :=
  { s with futures := Function.update s.futures f a }

/-- A successful `compare_exchange` from `current`, which yields a permit. -/
def take (s : Guard W) (current : Nat) : Guard W :=
  { s with inner := { s.inner with inFlight := current + 1 }, permits := s.permits + 1 }

def call (s : Guard W) (t : Nat) : Op W → Option (Guard W)
  | .tryAcquire => some (s.setPc t .tryLoad)
  | .acquire =>
    let s := s.setFuture s.inner.nextWaitId (some ⟨false, none⟩)
    some { s with inner := { s.inner with nextWaitId := s.inner.nextWaitId + 1 } }
  | .poll f w =>
    match s.futures f with
    | some ⟨registered, none⟩ =>
      let s := (s.setFuture f (some ⟨registered, some t⟩)).setPc t (.pollLoad f w)
      some { s with parked := s.parked.park f w }
    | _ => none
  | .dropPermit =>
    if 0 < s.permits then some ({ s with permits := s.permits - 1 }.setPc t .releasing)
    else none
  | .dropAcquire f =>
    match s.futures f with
    | some ⟨registered, none⟩ =>
      let waiters := if registered then s.inner.waiters.filter (·.1 ≠ f) else s.inner.waiters
      let s := s.setFuture f none
      some { s with inner := { s.inner with waiters := waiters }, parked := s.parked.leave f }
    | _ => none

/-- The next access of a thread. A future's `registered` flag is set once and never cleared,
also after its entry has been taken. -/
def advance [DecidableEq W] (s : Guard W) (t : Nat) : Pc W → Option (Guard W)
  | .idle => none
  | .tryLoad =>
    if s.inner.inFlight ≥ s.inner.capacity then some (s.setPc t .idle)
    else some (s.setPc t (.tryExchange s.inner.inFlight))
  | .tryExchange current =>
    if s.inner.inFlight = current then some ((s.take current).setPc t .idle)
    else some (s.setPc t .tryLoad)
  | .pollLoad f w =>
    if s.inner.inFlight < s.inner.capacity then
      some (s.setPc t (.pollExchange f w s.inner.inFlight))
    else some (s.setPc t (.pollRegister f w))
  | .pollExchange f w current =>
    if s.inner.inFlight = current then
      let registered := (s.futures f).any (·.registered)
      let s := ((s.take current).setFuture f (some ⟨registered, none⟩)).setPc t .idle
      some { s with parked := s.parked.leave f }
    else some (s.setPc t (.pollLoad f w))
  | .pollRegister f w =>
    let waiters :=
      if (s.futures f).any (·.registered) then s.inner.waiters else s.inner.waiters ++ [(f, w)]
    let s := (s.setFuture f (some ⟨true, none⟩)).setPc t .idle
    some { s with inner := { s.inner with waiters := waiters } }
  | .releasing =>
    some ({ s with inner := { s.inner with inFlight := s.inner.inFlight - 1 } }.setPc t .draining)
  | .draining =>
    some ({ s with inner := { s.inner with waiters := [] } }.setPc t
      (.waking (s.inner.waiters.map Prod.snd)))
  | .waking [] => some (s.setPc t .idle)
  | .waking (w :: ws) => some ({ s with parked := s.parked.wake [w] }.setPc t (.waking ws))

def step [DecidableEq W] (s : Guard W) : Event W → Option (Guard W)
  | .call t op =>
    match s.threads t with
    | .idle => s.call t op
    | _ => none
  | .advance t => s.advance t (s.threads t)

end Guard
end Sitas.Executor.Backpressure
