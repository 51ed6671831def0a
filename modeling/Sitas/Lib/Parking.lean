import Mathlib.Logic.Function.Basic

/-! Futures whose last poll returned pending, with the waker of that poll and
whether it has been invoked since. -/
namespace Sitas.Lib

/-- The result of polling a future once. -/
inductive Poll (α : Type) where
  | ready (value : α)
  | pending
  deriving DecidableEq, Repr

structure Parked (W : Type) where
  waker : W
  woken : Bool
  deriving DecidableEq, Repr

/-- The pending futures among those named by the index type. -/
abbrev Parking (ι W : Type) := ι → Option (Parked W)

namespace Parking
variable {ι W : Type}

def empty : Parking ι W := fun _ => none

def waker (t : Parking ι W) (i : ι) : Option W := (t i).map Parked.waker

def Woken (t : Parking ι W) (i : ι) : Prop := ∃ w, t i = some ⟨w, true⟩

/-- Invoke wakers. Futures polled with the same waker are woken together. -/
def wake [DecidableEq W] (t : Parking ι W) (ws : List W) : Parking ι W :=
  fun i => (t i).map fun p => { p with woken := p.woken || decide (p.waker ∈ ws) }

def park [DecidableEq ι] (t : Parking ι W) (i : ι) (w : W) : Parking ι W :=
  Function.update t i (some ⟨w, false⟩)

def leave [DecidableEq ι] (t : Parking ι W) (i : ι) : Parking ι W :=
  Function.update t i none

@[simp] theorem waker_wake [DecidableEq W] (t : Parking ι W) (ws : List W) (i : ι) :
    (t.wake ws).waker i = t.waker i := by
  cases h : t i <;> simp [waker, wake, h]

theorem waker_park [DecidableEq ι] (t : Parking ι W) (i j : ι) (w : W) :
    (t.park i w).waker j = if j = i then some w else t.waker j := by
  by_cases h : j = i <;> simp [waker, park, h]

theorem waker_leave [DecidableEq ι] (t : Parking ι W) (i j : ι) :
    (t.leave i).waker j = if j = i then none else t.waker j := by
  by_cases h : j = i <;> simp [waker, leave, h]

variable {t : Parking ι W} {i : ι}

theorem Woken.wake [DecidableEq W] (h : t.Woken i) (ws : List W) : (t.wake ws).Woken i := by
  obtain ⟨w, hw⟩ := h
  exact ⟨w, by simp [Parking.wake, hw]⟩

theorem woken_of_mem [DecidableEq W] {w : W} {ws : List W} (h : t.waker i = some w) (hw : w ∈ ws) :
    (t.wake ws).Woken i := by
  obtain ⟨p, hp, rfl⟩ := Option.map_eq_some_iff.mp h
  exact ⟨p.waker, by simp [Parking.wake, hp, hw]⟩

theorem Woken.park [DecidableEq ι] {j : ι} (h : t.Woken j) (hne : j ≠ i) (w : W) :
    (t.park i w).Woken j := by
  obtain ⟨v, hv⟩ := h
  exact ⟨v, by rw [Parking.park, Function.update_of_ne hne, hv]⟩

theorem Woken.leave [DecidableEq ι] {j : ι} (h : t.Woken j) (hne : j ≠ i) :
    (t.leave i).Woken j := by
  obtain ⟨v, hv⟩ := h
  exact ⟨v, by rw [Parking.leave, Function.update_of_ne hne, hv]⟩

end Parking
end Sitas.Lib
