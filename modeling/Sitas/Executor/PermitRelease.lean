import Sitas.Executor.PermitConservation

/-! The destructors of permits. A permit is live until it is dropped; its destructor can
always go on, and when it has decremented the counter the permit is given back. -/
namespace Sitas.Executor.Permits
open Sitas.Lib Interleaving Backpressure List Option Function

section Spawning
variable {F W : Type}

/-- A thread that spawns is trying to acquire its permit, and some thread does nothing. -/
structure Scheduled (guard : Guard W) (spawns : List (Nat × SpawnRequest F)) : Prop where
  trying : ∀ p ∈ spawns, (guard.threads p.1).trying = true
  spare : ∃ bound, ∀ thread, bound ≤ thread → guard.threads thread = .idle

namespace Scheduled
variable {guard guard' : Guard W} {spawns spawns' : List (Nat × SpawnRequest F)} {thread : Nat}

theorem lookup_eq_none (h : Scheduled guard spawns)
    (hpc : (guard.threads thread).trying = false) : spawns.lookup thread = none := by
  rw [lookup_eq_none_iff]
  intro p hp
  have htrying := h.trying p hp
  rw [bne_iff_ne]
  rintro rfl
  cases hpc.symm.trans htrying

variable [DecidableEq W] {e : Backpressure.Event W}

theorem step (h : Scheduled guard spawns) (hst : guard.step e = some guard')
    (hspawns : ∀ p ∈ spawns', p ∈ spawns ∧ p.1 ≠ e.thread ∨ (guard'.threads p.1).trying = true) :
    Scheduled guard' spawns' := by
  refine ⟨fun p hp => ?_, ?_⟩
  · rcases hspawns p hp with ⟨hold, hne⟩ | htrying
    · rw [Guard.threads_step_of_ne hst hne]
      exact h.trying p hold
    · exact htrying
  · obtain ⟨bound, hbound⟩ := h.spare
    refine ⟨max bound (e.thread + 1), fun u hu => ?_⟩
    rw [Guard.threads_step_of_ne hst (by omega)]
    exact hbound u (by omega)

theorem other (h : Scheduled guard spawns) (hst : guard.step e = some guard')
    (hnone : spawns.lookup e.thread = none) : Scheduled guard' spawns :=
  h.step hst fun p hp =>
    .inl ⟨hp, fun heq => by simpa [heq] using lookup_eq_none_iff.mp hnone p hp⟩

end Scheduled
end Spawning

namespace Backpressured
variable {F W : Type}

section Frame
variable (s : Backpressured F W) (id : Nat)

end Frame

def live (s : Backpressured F W) : List Owner := s.owners.filter (· != .dropping)

/-- No destructor of a permit is before its `fetch_sub`. -/
def Settled (s : Backpressured F W) : Prop :=
  .dropping ∉ s.owners ∧ ∀ thread, s.guard.threads thread ≠ .releasing

variable {s t : Backpressured F W} {n : Nat}

variable [DecidableEq W]

private def onePermit : BackpressureInner Nat :=
  (BackpressureInner.new Nat 1).get (by decide +kernel)

private def returningTask : List (PermitEvent Nat Nat) :=
  [.spawn 0 ⟨7, none, 0⟩, .acquire 0, .acquire 0, .exec (.thread 0 0 fun _ => true),
    .exec (.thread 0 0 fun _ => true), .exec (.thread 0 0 fun _ => true), .exec (.start .run),
    .exec (.advance 0 fun _ => true), .exec (.advance 0 fun _ => true), .exec (.taskReturns 0)]

private def returned : Backpressured Nat Nat :=
  (run step (start onePermit) returningTask).get (by decide +kernel)

end Backpressured
end Sitas.Executor.Permits
