import Sitas.Executor.Join

/-! A task scope and the futures that consume it. The handles of the children move
between the scope, the drain iterator of `wait`, the handle being awaited and the
destructors, while the executors of the children run. -/
namespace Sitas.Executor
open Sitas.Lib

inductive Fate where
  | returned
  | panicked
  | dropped
  deriving DecidableEq, Repr

structure Child (F P W : Type) where
  joined : JoinedTask F Unit P W
  fate : Option Fate

/-- How `wait` and the shutdowns end, or that the scope or its future was dropped. -/
inductive ScopeResult (P : Type) where
  | ok
  | join (error : JoinError P)
  | timedOut
  | dropped
  deriving DecidableEq, Repr

inductive Consumer where
  | wait
  | shutdown
  | shutdownTimeout (duration : Nat)
  deriving DecidableEq, Repr

/-- What the owner does with a handle or the stop source, without awaiting. -/
inductive HandleOp where
  | stop
  | abort (child : Nat)
  | drop (child : Nat)
  deriving DecidableEq, Repr

inductive ScopeNext (P : Type) where
  | drain (rest : List Nat)
  | pop (deadline : Nat)
  | finish (result : ScopeResult P)

/-- The owner of the handles: the scope value, or a consuming future before its first poll,
between two handles, at an await, or on a stretch without await. -/
inductive ScopePhase (P : Type) where
  | owned
  | created (consumer : Consumer)
  | draining (rest : List Nat)
  | joining (current : Nat) (rest : List Nat)
  | popping (deadline : Nat)
  | checking (current deadline : Nat)
  | racing (current deadline wakeAt : Nat)
  | unwinding (ops : List HandleOp) (next : ScopeNext P)
  | ended (result : ScopeResult P)

def ScopePhase.isOwned {P : Type} : ScopePhase P → Bool
  | .owned => true
  | _ => false

structure TaskScope (F P W : Type) where
  children : List (Child F P W)
  handles : List Nat
  stopped : Bool
  phase : ScopePhase P

inductive ScopeEvent (F P W : Type) where
  | spawn (future : F)
  | stop
  | abort (child : Nat)
  | consume (consumer : Consumer)
  | dropScope
  | poll (waker : W) (now : Nat)
  | dropFuture
  | advance (now : Nat)
  | child (index : Nat) (event : JoinEvent Unit P W)

def JoinEvent.ofHandle {T P W : Type} : JoinEvent T P W → Bool
  | .abort | .dropHandle | .pollHandle _ => true
  | _ => false

namespace Child
variable {F P W : Type} [DecidableEq W]

/-- The fate that a step of the task decides: a task that ends without its future having
returned or panicked has dropped it. -/
def decided (s t : JoinedTask F Unit P W) : JoinEvent Unit P W → Option Fate
  | .output _ => some .returned
  | .panic _ _ => some .panicked
  | _ => if t.task.completed && !s.task.completed then some .dropped else none

def step (c : Child F P W) (e : JoinEvent Unit P W) : Option (Child F P W) :=
  (c.joined.step e).map fun t => ⟨t, c.fate.or (decided c.joined t e)⟩

end Child

namespace TaskScope
variable {F P W : Type}

def new : TaskScope F P W := ⟨[], [], false, .owned⟩

/-- The destructor of the scope, then those of its handles. -/
def scopeDrop (handles : List Nat) : List HandleOp :=
  .stop :: handles.map .abort ++ handles.map .drop

/-- What `shutdown_timeout` does past its deadline before the scope is dropped. -/
def timedOutOps (current : Nat) (handles : List Nat) : List HandleOp :=
  .abort current :: handles.map .abort ++ [.drop current]

/-- No abort of a handle is under way: the owner has completed the join and invoked the
waker it took. -/
def Settled (s : TaskScope F P W) : Prop :=
  ∀ c ∈ s.children, c.joined.aborting = 0 ∧ c.joined.wakes = []

instance [DecidableEq W] (s : TaskScope F P W) : Decidable s.Settled :=
  inferInstanceAs (Decidable (∀ c ∈ s.children, _))

/-- The handles go to the destructors, after which the owner is gone. -/
def unwind (s : TaskScope F P W) (ops : List HandleOp) (result : ScopeResult P) : TaskScope F P W :=
  { s with handles := [], phase := .unwinding (ops ++ scopeDrop s.handles) (.finish result) }

def start (s : TaskScope F P W) (now : Nat) : Consumer → TaskScope F P W
  | .wait => { s with handles := [], phase := .draining s.handles }
  | .shutdown => { s with handles := [], stopped := true, phase := .draining s.handles }
  | .shutdownTimeout duration => { s with stopped := true, phase := .popping (now + duration) }

variable [DecidableEq W]

def onChild (s : TaskScope F P W) (index : Nat) (e : JoinEvent Unit P W) :
    Option (TaskScope F P W) :=
  s.children[index]?.bind fun c =>
    (c.step e).map fun c => { s with children := s.children.set index c }

def perform (s : TaskScope F P W) : HandleOp → Option (TaskScope F P W)
  | .stop => some { s with stopped := true }
  | .abort child => s.onChild child .abort
  | .drop child => s.onChild child .dropHandle

def pollHandle (s : TaskScope F P W) (index : Nat) (waker : W) :
    Option (TaskScope F P W × Poll (Except (JoinError P) Unit)) :=
  s.children[index]?.bind fun c =>
    (s.onChild index (.pollHandle waker)).map fun t => (t, (c.joined.join.poll waker).2)

def resume (s : TaskScope F P W) (waker : W) (now : Nat) : Option (TaskScope F P W) :=
  match s.phase with
  | .created consumer => some (s.start now consumer)
  | .joining current rest =>
    (s.pollHandle current waker).map fun
      | (t, .pending) => t
      | (t, .ready (.ok ())) => { t with phase := .unwinding [.drop current] (.drain rest) }
      | (t, .ready (.error error)) =>
        t.unwind (.drop current :: rest.map .drop) (.join error)
  | .racing current deadline wakeAt =>
    (s.pollHandle current waker).map fun
      | (t, .pending) =>
        if wakeAt ≤ now then t.unwind (timedOutOps current t.handles) .timedOut else t
      | (t, .ready (.ok ())) => { t with phase := .unwinding [.drop current] (.pop deadline) }
      | (t, .ready (.error error)) => t.unwind [.drop current] (.join error)
  | _ => none

def advance (s : TaskScope F P W) (now : Nat) : Option (TaskScope F P W) :=
  match s.phase with
  | .draining [] => some (s.unwind [] .ok)
  | .draining (current :: rest) => some { s with phase := .joining current rest }
  | .popping deadline =>
    match s.handles.getLast? with
    | none => some (s.unwind [] .ok)
    | some current =>
      some { s with handles := s.handles.dropLast, phase := .checking current deadline }
  | .checking current deadline =>
    if deadline - now = 0 then
      some (s.unwind (timedOutOps current s.handles) .timedOut)
    else some { s with phase := .racing current deadline (now + (deadline - now)) }
  | .unwinding [] (.drain rest) => some { s with phase := .draining rest }
  | .unwinding [] (.pop deadline) => some { s with phase := .popping deadline }
  | .unwinding [] (.finish result) => some { s with phase := .ended result }
  | .unwinding (op :: ops) next =>
    if s.Settled then { s with phase := .unwinding ops next }.perform op else none
  | _ => none

def dropFuture (s : TaskScope F P W) : Option (TaskScope F P W) :=
  match s.phase with
  | .created _ => some (s.unwind [] .dropped)
  | .joining current rest => some (s.unwind (.drop current :: rest.map .drop) .dropped)
  | .racing current _ _ => some (s.unwind [.drop current] .dropped)
  | _ => none

/-- An `abort_all` of whoever holds a reference to the scope is a sequence of `abort`s. -/
def step (s : TaskScope F P W) : ScopeEvent F P W → Option (TaskScope F P W)
  | .spawn future =>
    if s.phase.isOwned ∧ s.Settled then
      some { s with
        children := s.children ++ [⟨.spawned future, none⟩]
        handles := s.handles ++ [s.children.length] }
    else none
  | .stop => if s.phase.isOwned then some { s with stopped := true } else none
  | .abort child =>
    if s.phase.isOwned ∧ child ∈ s.handles then s.onChild child .abort else none
  | .consume consumer =>
    if s.phase.isOwned ∧ s.Settled then some { s with phase := .created consumer } else none
  | .dropScope => if s.phase.isOwned ∧ s.Settled then some (s.unwind [] .dropped) else none
  | .poll waker now => s.resume waker now
  | .dropFuture => s.dropFuture
  | .advance now => s.advance now
  | .child index event => if event.ofHandle then none else s.onChild index event

end TaskScope
end Sitas.Executor
