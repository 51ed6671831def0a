import Sitas.Executor.UringKept

namespace Sitas.Executor.Uring
open Sitas.Lib Sitas.Os.Uring List AList IoUringDispatcher TransferAtUring Option
variable {cells : Nat → Option FutureCell} {released : Nat → Prop} {g op : Nat}
  {d : IoUringDispatcher} {b : Buffer}

section Shutdown
variable {kernel : Kernel} {fuel n : Nat}

private theorem Kept.drainOutcome (h : Kept cells released g d) (maxWaits dispatched : Nat) :
    Kept cells released g (d.drainOutcome maxWaits dispatched).2 := by
  rw [IoUringDispatcher.drainOutcome]
  split
  · exact h
  · split
    · exact { h with deferred := fun op b hb => by cases hb }
    · exact h

private theorem drainOutcome_deferred {maxWaits dispatched : Nat}
    (hb : (d.drainOutcome maxWaits dispatched).2.deferredBuffers.lookup op = some b) :
    (d.drainOutcome maxWaits dispatched).2.ring.operations.entries = [] := by
  rw [drainOutcome] at hb ⊢
  split at hb
  next hidle =>
    rw [if_pos hidle]
    simp only [isIdle, IoUring.isIdle, IoUring.trackedOperations,
      Bool.and_eq_true, beq_iff_eq, length_eq_zero_iff] at hidle
    exact hidle.1.1.1.1.2
  next hbusy =>
    rw [if_neg hbusy]
    split at hb
    · cases hb
    next hnone =>
      rw [if_neg hnone]
      exact length_eq_zero_iff.mp (Nat.eq_zero_of_not_pos hnone)

theorem Kept.shutdownDrain (h : Kept cells released g d) (hdistinct : Distinct cells) {maxWaits : Nat}
    {x : IoUringShutdownDrainSnapshot × IoUringDispatcher × Nat}
    (hx : d.shutdownDrain kernel fuel n maxWaits = some x) : Kept cells released g x.2.1 := by
  have hcarried : Carried fun _ => Kept cells released g := carried_kept hdistinct
  rw [IoUringDispatcher.shutdownDrain] at hx
  split at hx
  · cases hx
    exact { h with }
  · obtain ⟨⟨dispatched, d', n'⟩, hloop, rfl⟩ := map_eq_some_iff.mp hx
    have hdrained : Kept cells released g d' :=
      hcarried.drainLoop (hcarried.dispatchAvailable [] h) hloop
    exact { hdrained.drainOutcome maxWaits _ with }

theorem Kept.drop (h : Kept cells released g d) (hdistinct : Distinct cells)
    {x : IoUringDispatcher × Nat} (hx : d.drop kernel fuel n = some x) :
    Kept cells released g x.1 := by
  obtain ⟨⟨outcome, d', n'⟩, hdrain, rfl⟩ := map_eq_some_iff.mp hx
  have hcleared : Kept cells released g { d with waiters := ∅ } := { h with }
  have hkept : Kept cells released g d' := hcleared.shutdownDrain hdistinct hdrain
  have hempty : ∀ op b, d'.deferredBuffers.lookup op = some b → d'.ring.operations.entries = [] := by
    intro op b hb
    obtain ⟨⟨dispatched, d'', n''⟩, _, heq⟩ := map_eq_some_iff.mp hdrain
    cases heq
    exact drainOutcome_deferred hb
  have hgone : ∀ b ∈ d'.deferredBuffers.entries.map Sigma.snd,
      ∃ op, d'.deferredBuffers.lookup op = some b := by
    intro b hb
    obtain ⟨⟨op, b⟩, hmem, rfl⟩ := mem_map.mp hb
    exact ⟨op, mem_lookup_iff.mpr hmem⟩
  exact { hkept with
    deferred := fun op b hb => by cases hb
    freed := by
      intro b hb
      rcases mem_append.mp hb with hb | hb
      · exact hkept.freed b hb
      · obtain ⟨op, hop⟩ := hgone b hb
        exact .inr ⟨(hkept.deferred op b hop).2, op, (hkept.deferred op b hop).1⟩
    untracked := by
      rintro op f hq (hrel | ⟨b, hb, rfl⟩)
      · exact hkept.untracked op f hq (.inl hrel)
      · rcases mem_append.mp hb with hb | hb
        · exact hkept.untracked op _ hq (.inr ⟨b, hb, rfl⟩)
        · obtain ⟨op', hop⟩ := hgone b hb
          intro hmem
          have hkeys : op ∈ d'.ring.operations.keys := mem_keys.mp hmem
          rw [AList.keys, hempty op' b hop] at hkeys
          cases hkeys }

end Shutdown

theorem pollOperation_eq (d : IoUringDispatcher) (op waker : Nat) :
    pollOperation d op waker =
      match d.dispatchAvailable.2.2.completions.lookup op with
      | some completion =>
        (some completion, d.dispatchAvailable.2.1, (d.dispatchAvailable.2.2.takeCompletion op).2)
      | none => (none, d.dispatchAvailable.2.1, { d.dispatchAvailable.2.2 with
          waiters := d.dispatchAvailable.2.2.waiters.insert op waker }) := by
  rw [pollOperation]
  simp only [takeCompletion, registerWaker]
  cases hlookup : d.dispatchAvailable.2.2.completions.lookup op with
  | some completion => rfl
  | none =>
    have hnot := lookup_eq_none.mp hlookup
    simp only [hnot, if_false]
    rfl

/-- The outcomes of polling a future whose operation is queued, in terms of the dispatcher
with everything available dispatched. -/
inductive Attempt (f : TransferAtUring) (op waker : Nat) (d : IoUringDispatcher) :
    Progress → TransferAtUring → IoUringDispatcher → Prop
  | pending (none : op ∉ d.completions) :
      Attempt f op waker d .pending f { d with waiters := d.waiters.insert op waker }
  | failed (completion : IoUringOperationCompletion) (e : IoError)
      (taken : d.completions.lookup op = some completion) :
      Attempt f op waker d (.completed completion (.error e)) f (d.takeCompletion op).2
  | delivered (completion : IoUringOperationCompletion) (bytes : Nat) (buffer : Buffer)
      (taken : d.completions.lookup op = some completion) (held : f.buffer = some buffer) :
      Attempt f op waker d
        (.completed completion (.ok (TransferAtUring.deliver f.transfer bytes buffer)))
        { f with buffer := none, operation := none } (d.takeCompletion op).2

/-- What a poll of a future does: its operation is queued if it is not, and attempted. -/
inductive PollOf (f : TransferAtUring) (waker : Nat) (d : IoUringDispatcher) :
    Progress → TransferAtUring → List Nat → IoUringDispatcher → Prop
  | again (op : Nat) {progress : Progress} {f' : TransferAtUring} {d' : IoUringDispatcher}
      (queued : f.operation = some op)
      (attempt : Attempt f op waker d.dispatchAvailable.2.2 progress f' d') :
      PollOf f waker d progress f' d.dispatchAvailable.2.1 d'
  | rejected (e : IoError) (buffer : Buffer) (kind : IoUringOperationKind) {ring : IoUring}
      (unqueued : f.operation = none) (held : f.buffer = some buffer)
      (outcome : d.ring.Queued kind (.error e, ring))
      (ensured : f.ensureQueued d = some (.error e, f, { d with ring := ring })) :
      PollOf f waker d (.failed e) f [] { d with ring := ring }
  | first (op : Nat) (buffer : Buffer) (kind : IoUringOperationKind) {ring : IoUring}
      {progress : Progress} {f' : TransferAtUring} {d' : IoUringDispatcher}
      (unqueued : f.operation = none) (held : f.buffer = some buffer)
      (outcome : d.ring.Queued kind (.ok op, ring)) (plain : subjectOf op kind = op)
      (ensured : f.ensureQueued d =
        some (.ok op, { f with operation := some op }, { d with ring := ring }))
      (attempt : Attempt { f with operation := some op } op waker
        { d with ring := ring }.dispatchAvailable.2.2 progress f' d') :
      PollOf f waker d progress f' { d with ring := ring }.dispatchAvailable.2.1 d'

private theorem attempt_of_poll {f : TransferAtUring} {waker : Nat}
    {x : Progress × TransferAtUring × List Nat × IoUringDispatcher} (hop : f.operation = some op)
    (h : f.poll d waker = some x) :
    Attempt f op waker d.dispatchAvailable.2.2 x.1 x.2.1 x.2.2.2 ∧ x.2.2.1 = d.dispatchAvailable.2.1 := by
  rw [poll, ensureQueued, hop] at h
  simp only [bind_some, pollOperation_eq] at h
  cases htaken : d.dispatchAvailable.2.2.completions.lookup op with
  | none =>
    simp only [htaken] at h
    cases h
    exact ⟨.pending (lookup_eq_none.mp htaken), rfl⟩
  | some completion =>
    simp only [htaken] at h
    split at h
    · cases h
      exact ⟨.failed completion _ htaken, rfl⟩
    · obtain ⟨buffer, hbuffer, rfl⟩ := map_eq_some_iff.mp h
      exact ⟨.delivered completion _ buffer htaken hbuffer, rfl⟩

theorem pollOf_of_poll (hnumbered : d.ring.Numbered) {f : TransferAtUring} {waker : Nat}
    {progress : Progress} {f' : TransferAtUring} {woken : List Nat} {d' : IoUringDispatcher}
    (h : f.poll d waker = some (progress, f', woken, d')) :
    PollOf f waker d progress f' woken d' := by
  cases hop : f.operation with
  | some op =>
    obtain ⟨hattempt, hwoken⟩ := attempt_of_poll hop h
    cases hwoken
    exact .again op hop hattempt
  | none =>
    obtain ⟨⟨queued, f₁, d₁⟩, hensured, hrest⟩ := bind_eq_some_iff.mp h
    have hqueue := hensured
    rw [ensureQueued, hop] at hqueue
    obtain ⟨buffer, hbuffer, hring⟩ := map_eq_some_iff.mp hqueue
    obtain ⟨kind, hkind, hqueued⟩ : ∃ kind, (∀ op, subjectOf op kind = op) ∧
        d.ring.Queued kind (f.queueOn buffer d.ring) := by
      rw [queueOn]
      split
      · exact ⟨.read, fun _ => rfl, IoUring.queued_queueReadOperation hnumbered ..⟩
      · exact ⟨.write, fun _ => rfl, IoUring.queued_queueWriteOperation hnumbered ..⟩
    split at hring
    next e ring heq =>
      rw [heq] at hqueued
      cases hring
      cases hrest
      exact .rejected e buffer kind hop hbuffer hqueued hensured
    next op ring heq =>
      rw [heq] at hqueued
      cases hring
      have hlater : poll { f with operation := some op } { d with ring := ring }
          waker = some (progress, f', woken, d') := hrest
      obtain ⟨hattempt, hwoken⟩ := attempt_of_poll rfl hlater
      cases hwoken
      exact .first op buffer kind hop hbuffer hqueued (hkind op) hensured hattempt

end Sitas.Executor.Uring
