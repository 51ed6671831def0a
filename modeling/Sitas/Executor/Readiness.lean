import Mathlib.Algebra.Order.Ring.Nat
import Mathlib.Data.List.Basic
import Mathlib.Order.Bounds.Basic

/-! The timer list and the readiness interests of the scheduler. -/
namespace Sitas.Executor

structure TimerEntry (W : Type) where
  id : Nat
  deadline : Nat
  waker : W

structure TimerSet (W : Type) where
  timers : List (TimerEntry W)
  nextId : Nat

inductive TimerEvent (W : Type) where
  | register (id deadline : Nat) (waker : W)
  | remove (id : Nat)
  | expired (now : Nat)
  | clear

namespace TimerSet
variable {W : Type}

def new : TimerSet W := ⟨[], 0⟩

def clear (s : TimerSet W) : TimerSet W := { s with timers := [] }

/-- Identifiers are machine words and wrap around. -/
def allocateId (s : TimerSet W) : Nat × TimerSet W :=
  (s.nextId, { s with nextId := (s.nextId + 1) % 2 ^ 64 })

def nextDeadline (s : TimerSet W) : Option Nat := (s.timers.map TimerEntry.deadline).min?

/-- The flag tells that the deadline is now the earliest. -/
def register (s : TimerSet W) (id deadline : Nat) (waker : W) : Bool × TimerSet W :=
  let timers :=
    if s.timers.any (·.id == id) then
      s.timers.map fun t => if t.id = id then ⟨id, deadline, waker⟩ else t
    else s.timers ++ [⟨id, deadline, waker⟩]
  (s.nextDeadline.all (deadline < ·), { s with timers := timers })

def remove (s : TimerSet W) (id : Nat) : TimerSet W :=
  { s with timers := s.timers.filter (·.id ≠ id) }

def expired (s : TimerSet W) (now : Nat) : List W × TimerSet W :=
  ((s.timers.filter (·.deadline ≤ now)).map TimerEntry.waker,
    { s with timers := s.timers.filter fun t => ¬ t.deadline ≤ now })

def timeUntilNext (s : TimerSet W) (now : Nat) : Option Nat := s.nextDeadline.map (· - now)

open List

def after : List (TimerEvent W) → TimerSet W
  | [] => new
  | .register id deadline waker :: es => ((after es).register id deadline waker).2
  | .remove id :: es => (after es).remove id
  | .expired now :: es => ((after es).expired now).2
  | .clear :: es => (after es).clear

/-- The entry of an id that was registered and neither removed nor due at a sweep since. -/
def armed : List (TimerEvent W) → Nat → Option (TimerEntry W)
  | [], _ | .clear :: _, _ => none
  | .register id deadline waker :: es, i => if i = id then some ⟨id, deadline, waker⟩ else armed es i
  | .remove id :: es, i => if i = id then none else armed es i
  | .expired now :: es, i => (armed es i).filter (now < ·.deadline)

private theorem filter_replace (timers : List (TimerEntry W)) (entry : TimerEntry W) (i : Nat) :
    (timers.map fun t => if t.id = entry.id then entry else t).filter (·.id = i) =
      (timers.filter (·.id = i)).map fun t => if i = entry.id then entry else t := by
  induction timers with
  | nil => rfl
  | cons t timers ih => grind

private theorem filter_id (es : List (TimerEvent W)) (i : Nat) :
    (after es).timers.filter (·.id = i) = (armed es i).toList := by
  induction es with
  | nil => rfl
  | cons e es ih =>
    cases e with
    | clear => rfl
    | remove id =>
      rw [after, remove, filter_filter, armed]
      split
      next heq => simp [heq]
      next hne =>
        rw [← ih]
        refine filter_congr fun t _ => ?_
        grind
    | expired now =>
      rw [after, TimerSet.expired, filter_comm, ih, armed]
      cases armed es i <;> simp [Option.filter, filter_cons, apply_ite]
    | register id deadline waker =>
      rw [after, register, armed]
      dsimp only
      by_cases hi : i = id
      · subst hi
        have hany : (after es).timers.any (·.id == i) = (armed es i).isSome := by
          rw [Bool.eq_iff_iff, Option.isSome_iff_exists]
          simp [← Option.mem_toList, ← ih]
        rw [if_pos rfl, hany]
        cases harmed : armed es i with
        | none => simp [ih, harmed]
        | some t => simp [filter_replace _ ⟨i, deadline, waker⟩, ih, harmed]
      · rw [if_neg hi, ← ih]
        split
        · simp [filter_replace _ ⟨id, deadline, waker⟩, hi]
        · simp [Ne.symm hi]

/-- Over every run an id has one entry while it is armed. A sweep takes out the wakers of the
entries that are due, and the next deadline is the earliest of them all. -/
theorem timers_fire_when_due (es : List (TimerEvent W)) :
    (∀ i, (after es).timers.filter (·.id = i) = (armed es i).toList) ∧
    (∀ now w, w ∈ ((after es).expired now).1 ↔
      ∃ i t, armed es i = some t ∧ t.deadline ≤ now ∧ t.waker = w) ∧
    ∀ d, (after es).nextDeadline = some d ↔
      IsLeast {d | ∃ i t, armed es i = some t ∧ t.deadline = d} d := by
  have hmem : ∀ t, t ∈ (after es).timers ↔ ∃ i, armed es i = some t := fun t => by
    simp only [← Option.mem_toList, ← filter_id, mem_filter]
    simp
  refine ⟨filter_id es, fun now w => ?_, fun d => ?_⟩
  · simp only [expired, mem_map, mem_filter, hmem, decide_eq_true_eq]
    grind
  · rw [nextDeadline, min?_eq_some_iff]
    simp only [IsLeast, lowerBounds, mem_map, hmem]
    grind

end TimerSet

structure IoInterest (W : Type) where
  id : Nat
  fd : Int
  waker : W

structure InterestSet (W : Type) where
  interests : List (IoInterest W)
  ready : List Nat
  nextId : Nat

namespace InterestSet
variable {W : Type}

def new : InterestSet W := ⟨[], [], 0⟩

def allocateId (s : InterestSet W) : Nat × InterestSet W :=
  (s.nextId, { s with nextId := (s.nextId + 1) % 2 ^ 64 })

def register (s : InterestSet W) (id : Nat) (fd : Int) (waker : W) : InterestSet W :=
  let interests :=
    if s.interests.any (·.id == id) then
      s.interests.map fun i => if i.id = id then ⟨id, fd, waker⟩ else i
    else s.interests ++ [⟨id, fd, waker⟩]
  { s with interests := interests }

def remove (s : InterestSet W) (id : Nat) : InterestSet W :=
  { s with interests := s.interests.filter (·.id ≠ id), ready := s.ready.filter (· ≠ id) }

def clear (s : InterestSet W) : InterestSet W := { s with interests := [], ready := [] }

def fds (s : InterestSet W) : List Int :=
  s.interests.foldl (fun fds i => if fds.contains i.fd then fds else fds ++ [i.fd]) []

def wakeReady (s : InterestSet W) (readyFds : List Int) : List W × InterestSet W :=
  let due := s.interests.filter fun i => readyFds.contains i.fd
  (due.map IoInterest.waker, { s with
    interests := s.interests.filter fun i => !readyFds.contains i.fd
    ready := s.ready ++ due.map IoInterest.id })

def swapRemove (xs : List Nat) (i : Nat) : List Nat :=
  match xs.getLast? with
  | none => []
  | some last => (xs.set i last).dropLast

def takeReady (s : InterestSet W) (id : Nat) : Bool × InterestSet W :=
  match s.ready.findIdx? (· == id) with
  | none => (false, s)
  | some position => (true, { s with ready := swapRemove s.ready position })

end InterestSet

structure ReadinessInterests (W : Type) where
  reads : InterestSet W
  writes : InterestSet W

namespace ReadinessInterests
variable {W : Type}

def new : ReadinessInterests W := ⟨.new, .new⟩

def clear (s : ReadinessInterests W) : ReadinessInterests W := ⟨s.reads.clear, s.writes.clear⟩

end ReadinessInterests
end Sitas.Executor
