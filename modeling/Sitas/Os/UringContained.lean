import Sitas.Os.UringSession

namespace Sitas.Os.Uring
open Sitas.Lib List AList Option

namespace IoUringDispatcher

/-- Deferred buffers belong to abandoned operations, and these are in flight. -/
structure Contained (d : IoUringDispatcher) : Prop where
  numbered : d.ring.Numbered
  completed : ∀ op ∈ d.completions,
    op ∉ d.ring.operations ∧ op < operationUserDataBase + d.ring.nextOperation
  abandoned : ∀ op ∈ d.abandonedOperations, op ∈ d.ring.operations
  deferred : ∀ op ∈ d.deferredBuffers, op ∈ d.abandonedOperations

variable {d : IoUringDispatcher}

theorem contained_new (entries : Nat) : Contained (.new (.new entries)) where
  numbered := IoUring.numbered_new entries
  completed op h := absurd h (notMem_empty op)
  abandoned op h := absurd h (notMem_empty op)
  deferred op h := absurd h (notMem_empty op)

theorem Contained.ring (h : Contained d) {ring : IoUring} (hsame : SameOperations d.ring ring) :
    Contained { d with ring := ring } where
  numbered := h.numbered.same hsame
  completed := by simpa only [hsame.operations, hsame.nextOperation] using h.completed
  abandoned := by simpa only [hsame.operations] using h.abandoned
  deferred := h.deferred

theorem Contained.queue (h : Contained d) {kind : IoUringOperationKind} {x : Except IoError Nat}
    {ring : IoUring} (hq : d.ring.Queued kind (x, ring)) : Contained { d with ring := ring } where
  numbered := hq.numbered h.numbered
  completed := by
    intro op hop
    obtain ⟨hnot, hlt⟩ := h.completed op hop
    exact ⟨fun hmem => hnot ((hq.issued_mem_iff hlt).mp hmem), hq.issued hlt⟩
  abandoned op hop := (hq.mem_iff op).mpr (.inl (h.abandoned op hop))
  deferred := h.deferred

theorem Contained.take (h : Contained d) (operation : Nat) :
    Contained { d with completions := d.completions.erase operation } :=
  { h with completed := fun op hop => h.completed op (mem_erase.mp hop).2 }

theorem Contained.dispatch (h : Contained d) {ring : IoUring}
    {completion : IoUringOperationCompletion} (hmem : completion.operation ∈ d.ring.operations)
    (hops : ring.operations = d.ring.operations.erase completion.operation)
    (hnext : ring.nextOperation = d.ring.nextOperation) :
    Contained ({ d with ring := ring }.dispatch completion).2 := by
  have hring := h.numbered.erased hops hnext
  have hcompleted : ∀ op ∈ d.completions,
      op ∉ ring.operations ∧ op < operationUserDataBase + ring.nextOperation := by
    intro op hop
    rw [hops, hnext, mem_erase]
    exact ⟨fun hin => (h.completed op hop).1 hin.2, (h.completed op hop).2⟩
  rw [IoUringDispatcher.dispatch]
  dsimp only
  split
  · refine ⟨hring, hcompleted, fun op hop => ?_, fun op hop => ?_⟩
    · obtain ⟨hne, hop⟩ := mem_erase.mp hop
      rw [hops, mem_erase]
      exact ⟨hne, h.abandoned op hop⟩
    · obtain ⟨hne, hop⟩ := mem_erase.mp hop
      exact mem_erase.mpr ⟨hne, h.deferred op hop⟩
  next hnot =>
    have hbuffered : Contained { d with
        ring := ring
        completions := d.completions.insert completion.operation completion } := by
      refine ⟨hring, fun op hop => ?_, fun op hop => ?_, h.deferred⟩
      · rcases (mem_insert _).mp hop with rfl | hop
        · rw [hops, hnext]
          exact ⟨fun hin => (mem_erase.mp hin).1 rfl, (h.numbered.used _ hmem).2⟩
        · exact hcompleted op hop
      · rw [hops, mem_erase]
        exact ⟨fun heq => hnot (heq ▸ hop), h.abandoned op hop⟩
    split <;> exact { hbuffered with }

variable {operation op : Nat} {d' : IoUringDispatcher}

section Abandons
variable (ha : Abandons d operation d')
include ha

variable (h : Contained d)
include h

theorem Contained.mem_of_abandons (hop : op ∈ d.ring.operations) : op ∈ d'.ring.operations :=
  (ha.issued (h.numbered.used op hop).2).2.mpr hop

theorem Contained.mem_abandoned : op ∈ d'.abandonedOperations ↔ op ∈ d.abandonedOperations ∨
    op = operation ∧ operation ∈ d.ring.operations ∨
      op ∈ d'.ring.operations ∧ op ∉ d.ring.operations := by
  cases ha with
  | withdrawn completed => simp [clearWaker, (h.completed operation completed).1]
  | unknown completed tracked => simp [clearWaker, tracked]
  | again kind completed tracked known => simp [clearWaker, tracked, or_comm]
  | first kind x ring completed tracked queued =>
    have hnew : op ∈ ring.operations ∧ op ∉ d.ring.operations ↔ x = .ok op := by
      rw [queued.mem_iff]
      refine ⟨fun hop => hop.1.resolve_left hop.2, ?_⟩
      rintro rfl
      exact ⟨.inr rfl, fun hin => Nat.ne_of_lt (h.numbered.used op hin).2 queued.fresh.1⟩
    simp only [hnew, tracked, and_true]
    cases x with
    | error e => simp [Except.toOption, or_comm]
    | ok cancel =>
      simp only [Except.toOption, elim_some, mem_insert, Except.ok.injEq, eq_comm (a := cancel)]
      tauto

theorem Contained.abandons : Contained d' := by
  refine ⟨ha.numbered h.numbered, fun op hop => ?_, fun op hop => ?_, fun op hop => ?_⟩
  · obtain ⟨c, hc⟩ := isSome_iff_exists.mp (lookup_isSome.mpr hop)
    obtain ⟨hnot, hlt⟩ := h.completed op (lookup_isSome.mp (ha.lookup_completions hc ▸ rfl))
    exact ⟨mt (ha.issued hlt).2.mp hnot, (ha.issued hlt).1⟩
  · rcases (h.mem_abandoned ha).mp hop with hold | ⟨rfl, hin⟩ | hnew
    · exact h.mem_of_abandons ha (h.abandoned op hold)
    · exact h.mem_of_abandons ha hin
    · exact hnew.1
  · exact (h.mem_abandoned ha).mpr (.inl (h.deferred op (ha.buffers.1 ▸ hop)))

end Abandons

theorem Contained.abandonOperation (h : Contained d) (operation : Nat) :
    Contained (d.abandonOperation operation) :=
  h.abandons (abandons_abandonOperation h.numbered operation)

/-- Handing over a buffer keeps it exactly if its operation is in flight. -/
theorem Contained.deferBufferDrop_eq (h : Contained d) (operation : Nat) (buffer : Buffer) :
    d.deferBufferDrop operation buffer =
      if operation ∈ d.ring.operations then
        { d.abandonOperation operation with
          deferredBuffers := d.deferredBuffers.insert operation buffer
          freed := d.freed ++ (d.deferredBuffers.lookup operation).toList }
      else { d.abandonOperation operation with freed := d.freed ++ [buffer] } := by
  have ha := abandons_abandonOperation h.numbered operation
  obtain ⟨hdeferred, hfreed, _⟩ := ha.buffers
  have hiff : operation ∈ (d.abandonOperation operation).ring.operations ↔
      operation ∈ d.ring.operations := by
    refine ⟨fun hop => ?_, h.mem_of_abandons ha⟩
    generalize d.abandonOperation operation = d' at ha hop
    cases ha with
    | withdrawn | unknown | again => exact hop
    | first kind x ring completed tracked => exact tracked
  rw [deferBufferDrop]
  simp only [IoUring.isOperationTracked, decide_eq_true_eq, hiff, hdeferred, hfreed]

theorem Contained.deferBufferDrop (h : Contained d) (operation : Nat) (buffer : Buffer) :
    Contained (d.deferBufferDrop operation buffer) := by
  have ha := abandons_abandonOperation h.numbered operation
  rw [h.deferBufferDrop_eq]
  split
  next htracked =>
    refine { h.abandonOperation operation with deferred := fun op hop => ?_ }
    rcases (mem_insert _).mp hop with rfl | hop
    · exact (h.mem_abandoned ha).mpr (.inr (.inl ⟨rfl, htracked⟩))
    · exact (h.abandonOperation operation).deferred op (ha.buffers.1 ▸ hop)
  · exact { h.abandonOperation operation with }

theorem Contained.drainOutcome (h : Contained d) (maxWaits dispatched : Nat) :
    Contained (d.drainOutcome maxWaits dispatched).2 := by
  rw [IoUringDispatcher.drainOutcome]
  split
  · exact h
  · split
    · exact { h with deferred := fun op hop => absurd hop (notMem_empty op) }
    · exact h

private theorem eq_empty_of_forall {β : Nat → Type} {m : AList β} (h : ∀ op, op ∉ m) : m = ∅ := by
  refine ext (eq_nil_iff_forall_not_mem.mpr fun x hx => h x.1 ?_)
  exact mem_keys.mpr (mem_map_of_mem hx)

private theorem eq_empty_of_length {β : Nat → Type} {m : AList β} (h : m.entries.length = 0) :
    m = ∅ :=
  ext (length_eq_zero_iff.mp h)

theorem empty_of_isIdle (h : d.isIdle = true) : d.ring.operations = ∅ ∧ d.deferredBuffers = ∅ := by
  simp only [isIdle, IoUring.isIdle, IoUring.trackedOperations, Bool.and_eq_true,
    beq_iff_eq] at h
  exact ⟨eq_empty_of_length h.1.1.1.1.2, eq_empty_of_length h.2⟩

theorem Contained.deferred_drainOutcome (h : Contained d) (maxWaits dispatched : Nat) :
    (d.drainOutcome maxWaits dispatched).2.deferredBuffers = ∅ := by
  rw [IoUringDispatcher.drainOutcome]
  split
  next hidle =>
    exact (empty_of_isIdle hidle).2
  · split
    · rfl
    next htracked =>
      have hnone : d.ring.operations = ∅ := eq_empty_of_length (Nat.eq_zero_of_not_pos htracked)
      refine eq_empty_of_forall fun op hop => ?_
      have hflight := h.abandoned op (h.deferred op hop)
      rw [hnone] at hflight
      exact notMem_empty op hflight

theorem drainOutcome_completed {maxWaits dispatched : Nat}
    (h : (d.drainOutcome maxWaits dispatched).1.status = .completed) :
    (d.drainOutcome maxWaits dispatched).1.leakedBuffers = 0 ∧
      (d.drainOutcome maxWaits dispatched).2.ring.operations = ∅ ∧
      (d.drainOutcome maxWaits dispatched).2.deferredBuffers = ∅ := by
  rw [drainOutcome] at h ⊢
  split
  next hidle =>
    exact ⟨rfl, empty_of_isIdle hidle⟩
  next hidle =>
    rw [if_neg hidle] at h
    split at h <;> cases h

end IoUringDispatcher

end Sitas.Os.Uring
