import Sitas.Os.UringRecorded

namespace Sitas.Os.Uring
open Sitas.Lib List AList IoUringDispatcher

namespace Session
open IoUringDispatcher
variable {s t : Session} {call : Call}

def RegistersLive (s : Session) : Call → Prop
  | .registerWaker operation _ | .poll operation _ =>
    operation ∈ s.queued ∧ operation ∉ s.dispatcher.abandonedOperations
  | _ => True

instance (s : Session) (call : Call) : Decidable (s.RegistersLive call) :=
  match call with
  | .registerWaker operation _ | .poll operation _ =>
    inferInstanceAs (Decidable (operation ∈ s.queued ∧
      operation ∉ s.dispatcher.abandonedOperations))
  | .queue _ | .submitPending _ | .clearWaker _ | .takeCompletion _ | .abandonOperation _
  | .deferBufferDrop _ _ | .dispatchAvailableLimit _ | .waitAndDispatch _ _ _
  | .drainUntilIdle _ _ _ | .shutdownDrain _ _ _ | .drop _ _ | .post _ =>
    inferInstanceAs (Decidable True)

/-- No waker is registered for an abandoned operation, and each dispatched completion woke
the one that was registered. -/
structure Woken (s : Session) : Prop where
  queued : ∀ op ∈ s.queued,
    op < operationUserDataBase + s.dispatcher.ring.nextOperation
  waiting : ∀ op ∈ s.dispatcher.waiters, op ∉ s.dispatcher.abandonedOperations ∧
    op < operationUserDataBase + s.dispatcher.ring.nextOperation
  invoked : ∀ x ∈ s.dispatched, x.woken = x.registered

private theorem woken_new (entries : Nat) : Woken (new entries) where
  queued op h := by cases h
  waiting op h := absurd h (notMem_empty op)
  invoked x hx := by cases hx

private theorem waiters_dispatch {d : IoUringDispatcher} {completion : IoUringOperationCompletion}
    {op : Nat} (h : op ∈ (d.dispatch completion).2.waiters) : op ∈ d.waiters := by
  rw [dispatch] at h
  dsimp only at h
  split at h
  · exact h
  · split at h
    · exact h
    · exact (mem_erase.mp h).2

private theorem dispatch_woken (d : IoUringDispatcher) (completion : IoUringOperationCompletion) :
    (d.dispatch completion).1 = if completion.operation ∈ d.abandonedOperations then none
      else d.waiters.lookup completion.operation := by
  rw [dispatch]
  dsimp only
  split
  · rfl
  · split
    next hlookup =>
      exact hlookup.symm
    next hlookup =>
      exact hlookup.symm

private theorem traced_woken (s : Session) :
    Traced fun xs d => Woken { s with dispatcher := d, dispatched := xs } := by
  refine ⟨fun xs d ring hsame h => ?_, fun xs d ring completion _ _ hnext h => ?_⟩
  · exact { h with
      queued := by simpa only [hsame.nextOperation] using h.queued
      waiting := by simpa only [hsame.nextOperation] using h.waiting }
  · refine ⟨?_, fun op hop => ?_, fun x hx => ?_⟩
    · rw [dispatch_ring]
      dsimp only
      rw [hnext]
      exact h.queued
    · obtain ⟨hnot, hlt⟩ := h.waiting op (waiters_dispatch (d := { d with ring := ring }) hop)
      rw [abandonedOperations_dispatch, dispatch_ring]
      dsimp only
      rw [hnext]
      exact ⟨fun hin => hnot hin.2, hlt⟩
    · rcases mem_append.mp hx with hx | hx
      · exact h.invoked x hx
      · rw [mem_singleton.mp hx]
        change ({ d with ring := ring }.dispatch completion).1 =
          d.waiters.lookup completion.operation
        rw [dispatch_woken]
        split
        next hin =>
          exact (lookup_eq_none.mpr fun hw => (h.waiting _ hw).1 hin).symm
        · rfl

private theorem Woken.queue (h : Woken s) {kind : IoUringOperationKind}
    {x : Except IoError Nat} {ring : IoUring} (hq : s.dispatcher.ring.Queued kind (x, ring)) :
    Woken { s with
      dispatcher := { s.dispatcher with ring := ring }
      queued := s.queued ++ x.toOption.toList } := by
  refine { h with
    queued := fun op hop => ?_
    waiting := fun op hop => (h.waiting op hop).imp_right hq.issued }
  rcases mem_append.mp hop with hop | hop
  · exact hq.issued (h.queued op hop)
  · cases x with
    | error e => cases hop
    | ok operation =>
      rw [mem_singleton.mp hop]
      exact hq.fresh.2

private theorem Woken.abandon (h : Woken s) (hs : s.dispatcher.Contained) (operation : Nat) :
    Woken { s.giveUp operation with
      dispatcher := s.dispatcher.abandonOperation operation } := by
  have ha := abandons_abandonOperation hs.numbered operation
  refine ⟨fun op hop => (ha.issued (h.queued op hop)).1, fun op hop => ?_, h.invoked⟩
  have hkept : op ∈ s.dispatcher.waiters.erase operation := by
    generalize s.dispatcher.abandonOperation operation = d at ha hop
    cases ha <;> exact hop
  obtain ⟨hne, hop⟩ := mem_erase.mp hkept
  obtain ⟨hnot, hlt⟩ := h.waiting op hop
  refine ⟨fun hin => ?_, (ha.issued hlt).1⟩
  rcases (hs.mem_abandoned ha).mp hin with hold | ⟨heq, _⟩ | ⟨hnew, hout⟩
  · exact hnot hold
  · exact hne heq
  · exact hout ((ha.issued hlt).2.mp hnew)

private theorem Woken.defer (h : Woken s) (hs : s.dispatcher.Contained) (operation : Nat)
    (buffer : Buffer) : Woken { (s.giveUp operation).handOver operation buffer with
      dispatcher := s.dispatcher.deferBufferDrop operation buffer } := by
  have habandoned := h.abandon hs operation
  obtain ⟨kept, late, foreign, heq⟩ := handOver_eq (s.giveUp operation) operation buffer
  rw [heq, hs.deferBufferDrop_eq]
  split <;> exact { habandoned with }

/-- A call registers a waker only for operations that were handed out and not given up. -/
private def Registers (s : Session) (call : Call) : Prop :=
  ∀ op waker, call = .registerWaker op waker ∨ call = .poll op waker →
    op ∈ s.queued ∧ op ∉ s.dispatcher.abandonedOperations

private theorem registers_of_live (h : s.RegistersLive call) : s.Registers call := by
  rintro op waker (rfl | rfl) <;> exact h

private theorem Registers.act (h : s.Registers call) (ha : Act s call t) : t.Registers call := by
  intro op waker hcall
  obtain ⟨hqueued, hnot⟩ := h op waker hcall
  cases ha with
  | queued _ => exact ⟨mem_append_left _ hqueued, hnot⟩
  | dispatched hleads =>
    refine ⟨hqueued, hleads (fun _ d => op ∉ d.abandonedOperations) ⟨fun _ _ _ _ h => h, ?_⟩ hnot⟩
    exact fun _ d ring completion _ _ _ h hin =>
      h ((abandonedOperations_dispatch { d with ring := ring } completion op).mp hin).2
  | drained maxWaits dispatched =>
    obtain ⟨deferred, leaked, heq⟩ := s.dispatcher.drainOutcome_eq maxWaits dispatched
    rw [heq]
    exact ⟨hqueued, hnot⟩
  | abandoned operation => exact hcall.elim nofun nofun
  | waiters _ | taken _ | noted _ | dropped => exact ⟨hqueued, hnot⟩

private theorem Woken.act (h : Woken s) (hs : s.dispatcher.Contained) (hok : s.Registers call)
    (ha : Act s call t) : Woken t := by
  cases ha with
  | queued hq => exact h.queue hq
  | dispatched hleads => exact hleads _ (traced_woken s) h
  | waiters hregistered =>
    refine { h with waiting := fun op hop => ?_ }
    rcases hregistered op hop with hold | ⟨waker, hcall⟩
    · exact h.waiting op hold
    · exact ⟨(hok op waker hcall).2, h.queued op (hok op waker hcall).1⟩
  | abandoned operation => exact h.abandon hs operation
  | drained maxWaits dispatched =>
    obtain ⟨deferred, leaked, heq⟩ := s.dispatcher.drainOutcome_eq maxWaits dispatched
    rw [heq]
    exact { h with }
  | taken _ | noted _ | dropped => exact { h with }

private theorem Woken.step (h : Woken s) (hs : Recorded s) (hok : s.RegistersLive call)
    (hst : s.step call = some t) : Woken t := by
  rcases acts_of_step hs.contained hst with ⟨operation, buffer, rfl, rfl⟩ | hacts
  · exact h.defer hs.contained operation buffer
  · refine (hacts.keeps (P := fun u => Recorded u ∧ Woken u ∧ u.Registers call)
      ⟨hs, h, registers_of_live hok⟩ fun u v hu ha => ?_).2.1
    exact ⟨hu.1.act ha, hu.2.1.act hu.1.contained hu.2.2 ha, hu.2.2.act ha⟩

/-- In every run that registers wakers only for operations handed out and not given up, each
completion is delivered once and wakes exactly the waker registered for its operation. -/
theorem completions_delivered_once (entries : Nat) {s : Session}
    (h : Reach step RegistersLive (new entries) s) :
    s.DeliveredOnce ∧ ∀ x ∈ s.dispatched, x.woken = x.registered := by
  have hboth : Recorded s ∧ Woken s := by
    induction h with
    | start => exact ⟨recorded_new entries, woken_new entries⟩
    | next _ hok hst ih => exact ⟨ih.1.step hst, ih.2.step ih.1 hok hst⟩
  obtain ⟨hrecorded, hwoken⟩ := hboth
  exact ⟨hrecorded.toDeliveredOnce, hwoken.invoked⟩

private def awaitedNop : List Call :=
  [.queue .nop, .poll operationUserDataBase 9, .post [⟨operationUserDataBase, 0, 0⟩],
    .dispatchAvailableLimit 1, .takeCompletion operationUserDataBase]

private def awaitedNopOver : Session := (run step (new 4) awaitedNop).get (by decide +kernel)

/-- The completion is handed out once and has woken the waiting task. -/
theorem awaited_nop_delivered : ∃ s : Session,
    Reach step RegistersLive (new 4) s ∧
      s.dispatched = [⟨⟨operationUserDataBase, .nop, 0, 0⟩, false, some 9, some 9⟩] ∧
      s.handed = [⟨operationUserDataBase, .nop, 0, 0⟩] ∧ s.DeliveredOnce ∧
      ∀ x ∈ s.dispatched, x.woken = x.registered := by
  have hreach : Reach step RegistersLive (new 4) awaitedNopOver :=
    reach_of_run awaitedNop (by decide +kernel) (Option.some_get _).symm
  exact ⟨awaitedNopOver, hreach, by decide +kernel, by decide +kernel,
    completions_delivered_once 4 hreach⟩

/-- A waker registered after its operation was given up is not invoked by the dispatch of
the completion, and stays registered. -/
theorem waker_of_abandoned_not_invoked : ∃ s : Session,
    run step (new 4) [.queue .nop, .abandonOperation operationUserDataBase,
      .registerWaker operationUserDataBase 9, .post [⟨operationUserDataBase, 0, 0⟩],
      .dispatchAvailableLimit 1] = some s ∧
      (∃ x ∈ s.dispatched, x.registered = some 9 ∧ x.woken = none) ∧
      s.dispatcher.waiters.lookup operationUserDataBase = some 9 := by
  have hrun : (run step (new 4) [.queue .nop, .abandonOperation operationUserDataBase,
      .registerWaker operationUserDataBase 9, .post [⟨operationUserDataBase, 0, 0⟩],
      .dispatchAvailableLimit 1]).map (fun s =>
        (s.dispatched, s.dispatcher.waiters.lookup operationUserDataBase)) =
      some ([⟨⟨operationUserDataBase, .nop, 0, 0⟩, true, some 9, none⟩], some 9) := by
    decide +kernel
  obtain ⟨s, hs, heq⟩ := Option.map_eq_some_iff.mp hrun
  obtain ⟨hdispatched, hwaiters⟩ := Prod.mk.inj heq
  refine ⟨s, hs, ⟨⟨⟨operationUserDataBase, .nop, 0, 0⟩, true, some 9, none⟩, ?_, rfl, rfl⟩,
    hwaiters⟩
  rw [hdispatched]
  exact mem_singleton.mpr rfl

end Session
end Sitas.Os.Uring
