import Sitas.Os.UringActs

namespace Sitas.Os.Uring
open Sitas.Lib List AList Option

namespace Session
open IoUringDispatcher

/-- Every buffer kept for an operation in flight is still deferred, or given back after the
completion of its operation, or leaked. -/
def BuffersAccounted (s : Session) : Prop :=
  ∃ released leaked : List HeldBuffer,
    s.kept.Perm (s.dispatcher.deferredBuffers.entries ++ (released ++ leaked)) ∧
    s.dispatcher.leaked = leaked.map Sigma.snd ∧
    s.dispatcher.freed.Perm ((released ++ (s.late ++ s.foreign)).map Sigma.snd) ∧
    ∀ p ∈ released ++ s.late, p.1 ∈ s.ended

structure Accounted (s : Session) : Prop where
  contained : s.dispatcher.Contained
  queued : ∀ op ∈ s.queued, op ∈ s.dispatcher.ring.operations ∨ op ∈ s.ended
  buffers : s.BuffersAccounted

private theorem accounted_new (entries : Nat) : Accounted (new entries) where
  contained := contained_new entries
  queued op hop := by cases hop
  buffers := ⟨[], [], Perm.nil, rfl, Perm.nil, fun p hp => by cases hp⟩

variable {s t : Session}

private theorem Accounted.keep (h : Accounted s) (hcontained : t.dispatcher.Contained)
    (hqueued : ∀ op ∈ t.queued, op ∈ t.dispatcher.ring.operations ∨ op ∈ s.ended)
    (hdispatched : t.dispatched = s.dispatched)
    (hdeferred : t.dispatcher.deferredBuffers = s.dispatcher.deferredBuffers)
    (hfreed : t.dispatcher.freed = s.dispatcher.freed)
    (hleaked : t.dispatcher.leaked = s.dispatcher.leaked)
    (hhanded : t.kept = s.kept ∧ t.late = s.late ∧ t.foreign = s.foreign) : Accounted t where
  contained := hcontained
  queued := by
    rw [ended, hdispatched]
    exact hqueued
  buffers := by
    obtain ⟨released, leaked, hkept, hl, hf, hover⟩ := h.buffers
    refine ⟨released, leaked, ?_, hleaked.trans hl, ?_, ?_⟩
    · rw [hhanded.1, hdeferred]
      exact hkept
    · rw [hfreed, hhanded.2.1, hhanded.2.2]
      exact hf
    · rw [hhanded.2.1, ended, hdispatched]
      exact hover

variable {op : Nat}

private theorem mem_over_append {xs ys : List Dispatched} (h : op ∈ xs.map Dispatched.operation) :
    op ∈ (xs ++ ys).map Dispatched.operation := by
  rw [map_append]
  exact mem_append_left _ h

private theorem perm_erase {m : AList fun _ : Nat => Buffer} {b : Buffer}
    (h : m.lookup op = some b) : m.entries.Perm (⟨op, b⟩ :: (m.erase op).entries) := by
  have hmem : op ∈ m.entries.keys := mem_keys.mp (lookup_isSome.mp (isSome_iff_exists.mpr ⟨b, h⟩))
  obtain ⟨b', before, after, _, hentries, herase⟩ := exists_of_kerase hmem
  have hlookup : (⟨op, b'⟩ : HeldBuffer) ∈ m.entries := by
    rw [hentries]
    exact mem_append_right _ mem_cons_self
  obtain rfl : b' = b := some.inj ((mem_lookup_iff.mpr hlookup).symm.trans h)
  change m.entries.Perm (⟨op, b'⟩ :: m.entries.kerase op)
  rw [herase, hentries]
  exact perm_middle

/-- Dispatching one completion gives back the buffer of its own operation and no other. -/
private theorem traced_accounted (s : Session) :
    Traced fun xs d => Accounted { s with dispatcher := d, dispatched := xs } := by
  refine ⟨fun xs d ring hsame h => ?_, fun xs d ring completion hmem hops hnext h => ?_⟩
  · refine h.keep (h.contained.ring hsame) ?_ rfl rfl rfl rfl ⟨rfl, rfl, rfl⟩
    dsimp only
    rw [hsame.operations]
    exact h.queued
  · refine ⟨h.contained.dispatch hmem hops hnext, fun op hop => ?_, ?_⟩
    · rw [dispatch_ring]
      dsimp only
      rw [hops, mem_erase]
      rcases h.queued op hop with hflight | hover
      · by_cases heq : op = completion.operation
        · refine .inr ?_
          rw [ended, map_append, heq]
          exact mem_append_right _ (mem_singleton.mpr rfl)
        · exact .inl ⟨heq, hflight⟩
      · exact .inr (mem_over_append hover)
    · obtain ⟨released, leaked, hkept, hl, hf, hover⟩ := h.buffers
      have hover' : ∀ p ∈ released ++ s.late,
          p.1 ∈ (xs ++ [{ d with ring := ring }.dispatchedOf completion]).map
            Dispatched.operation := fun p hp => mem_over_append (hover p hp)
      rw [BuffersAccounted, dispatch]
      dsimp only
      split
      · cases hb : d.deferredBuffers.lookup completion.operation with
        | none =>
          have hnot := lookup_eq_none.mp hb
          refine ⟨released, leaked, ?_, hl, ?_, hover'⟩
          · rw [show (d.deferredBuffers.erase completion.operation).entries =
              d.deferredBuffers.entries from kerase_of_notMem_keys fun hk =>
                hnot (mem_keys.mpr hk)]
            exact hkept
          · rw [toList_none, append_nil]
            exact hf
        | some b =>
          refine ⟨⟨completion.operation, b⟩ :: released, leaked, ?_, hl, ?_, ?_⟩
          · refine hkept.trans (((perm_erase hb).append_right _).trans ?_)
            exact perm_middle.symm
          · refine (perm_append_singleton b _).trans ?_
            exact hf.cons b
          · intro p hp
            rcases mem_cons.mp hp with rfl | hp
            · rw [ended, map_append]
              exact mem_append_right _ (mem_singleton.mpr rfl)
            · exact hover' p hp
      · split <;> exact ⟨released, leaked, hkept, hl, hf, hover'⟩

private theorem Accounted.drainOutcome (h : Accounted s) (maxWaits dispatched : Nat) :
    Accounted { s with dispatcher := (s.dispatcher.drainOutcome maxWaits dispatched).2 } := by
  have hcontained := h.contained.drainOutcome maxWaits dispatched
  rw [IoUringDispatcher.drainOutcome] at hcontained ⊢
  split
  · exact h
  next hidle =>
    rw [if_neg hidle] at hcontained
    split
    next htracked =>
      rw [if_pos htracked] at hcontained
      refine ⟨hcontained, h.queued, ?_⟩
      obtain ⟨released, leaked, hkept, hl, hf, hover⟩ := h.buffers
      refine ⟨released, leaked ++ s.dispatcher.deferredBuffers.entries, ?_, ?_, hf, hover⟩
      · refine hkept.trans (perm_append_comm.trans ?_)
        rw [append_assoc]
        exact Perm.refl _
      · rw [map_append, ← hl]
        rfl
    · exact h

def DeferredOnce (s : Session) : Call → Prop
  | .deferBufferDrop operation _ =>
    operation ∉ (s.kept ++ (s.late ++ s.foreign)).map Sigma.fst
  | _ => True

instance (s : Session) (call : Call) : Decidable (s.DeferredOnce call) :=
  match call with
  | .deferBufferDrop operation _ =>
    inferInstanceAs (Decidable (operation ∉ (s.kept ++ (s.late ++ s.foreign)).map Sigma.fst))
  | .queue _ | .submitPending _ | .registerWaker _ _ | .clearWaker _ | .takeCompletion _
  | .abandonOperation _ | .dispatchAvailableLimit _ | .waitAndDispatch _ _ _
  | .drainUntilIdle _ _ _ | .shutdownDrain _ _ _ | .poll _ _ | .drop _ _ | .post _ =>
    inferInstanceAs (Decidable True)

private theorem Accounted.queue (h : Accounted s) {kind : IoUringOperationKind}
    {x : Except IoError Nat} {ring : IoUring} (hq : s.dispatcher.ring.Queued kind (x, ring)) :
    Accounted { s with
      dispatcher := { s.dispatcher with ring := ring }
      queued := s.queued ++ x.toOption.toList } := by
  refine h.keep (h.contained.queue hq) (fun op hop => ?_) rfl rfl rfl rfl ⟨rfl, rfl, rfl⟩
  dsimp only
  rw [hq.mem_iff]
  rcases mem_append.mp hop with hop | hop
  · exact (h.queued op hop).imp_left .inl
  · cases x with
    | error e => cases hop
    | ok operation =>
      rw [mem_singleton.mp hop]
      exact .inl (.inr rfl)

private theorem Accounted.abandon (h : Accounted s) (operation : Nat) :
    Accounted { s.giveUp operation with
      dispatcher := s.dispatcher.abandonOperation operation } := by
  have ha := abandons_abandonOperation h.contained.numbered operation
  obtain ⟨hdeferred, hfreed, hleaked⟩ := ha.buffers
  refine h.keep (h.contained.abandonOperation operation) (fun op hop => ?_) rfl hdeferred hfreed
    hleaked ⟨rfl, rfl, rfl⟩
  exact (h.queued op hop).imp_left (h.contained.mem_of_abandons ha)

private theorem Accounted.defer (h : Accounted s) {operation : Nat} {buffer : Buffer}
    (hok : s.DeferredOnce (.deferBufferDrop operation buffer)) :
    Accounted { (s.giveUp operation).handOver operation buffer with
      dispatcher := s.dispatcher.deferBufferDrop operation buffer } := by
  have habandoned := h.abandon operation
  have hcontained := h.contained.deferBufferDrop operation buffer
  obtain ⟨released, leaked, hkept, hl, hf, hover⟩ := h.buffers
  rw [h.contained.deferBufferDrop_eq] at hcontained ⊢
  rw [handOver]
  have hleaked := (abandons_abandonOperation h.contained.numbered operation).buffers.2.2
  by_cases htracked : operation ∈ s.dispatcher.ring.operations
  · have hnew : operation ∉ s.dispatcher.deferredBuffers := by
      intro hmem
      obtain ⟨b, hb⟩ := isSome_iff_exists.mp (lookup_isSome.mpr hmem)
      refine hok (mem_map.mpr ⟨⟨operation, b⟩, mem_append_left _ ?_, rfl⟩)
      exact hkept.mem_iff.mpr (mem_append_left _ (mem_lookup_iff.mp hb))
    rw [if_pos htracked] at hcontained
    rw [if_pos (show operation ∈ (s.giveUp operation).dispatcher.ring.operations from htracked),
      if_pos htracked]
    refine ⟨hcontained, habandoned.queued, released, leaked, ?_, hleaked.trans hl, ?_, hover⟩
    · dsimp only
      rw [entries_insert_of_notMem hnew]
      exact (perm_append_singleton _ _).trans (hkept.cons _)
    · dsimp only
      rw [lookup_eq_none.mpr hnew, toList_none, append_nil]
      exact hf
  · rw [if_neg htracked] at hcontained
    rw [if_neg (show operation ∉ (s.giveUp operation).dispatcher.ring.operations from htracked),
      if_neg htracked]
    have hkept' : s.kept.Perm ((s.dispatcher.abandonOperation operation).deferredBuffers.entries ++
        (released ++ leaked)) := by
      rw [(abandons_abandonOperation h.contained.numbered operation).buffers.1]
      exact hkept
    have hfree : (s.dispatcher.freed ++ [buffer]).Perm
        (((released ++ ⟨operation, buffer⟩ :: (s.late ++ s.foreign)) : List HeldBuffer).map
          Sigma.snd) := by
      have hmove : ((⟨operation, buffer⟩ : HeldBuffer) :: (released ++ (s.late ++ s.foreign))).Perm
          (released ++ ⟨operation, buffer⟩ :: (s.late ++ s.foreign)) := perm_middle.symm
      have hmapped := hmove.map fun p : HeldBuffer => p.2
      exact ((perm_append_singleton buffer _).trans (hf.cons buffer)).trans hmapped
    by_cases hq : operation ∈ s.queued
    · have hdone : operation ∈ s.ended := (h.queued operation hq).resolve_left htracked
      rw [if_pos (show operation ∈ (s.giveUp operation).queued from hq)]
      refine ⟨hcontained, habandoned.queued, released, leaked, hkept', hleaked.trans hl,
        hfree.trans (Perm.map _ (Perm.append_left _ ?_)), fun p hp => ?_⟩
      · change (_ :: (s.late ++ s.foreign)).Perm ((s.late ++ [_]) ++ s.foreign)
        rw [append_assoc]
        exact perm_middle.symm
      · rcases mem_append.mp hp with hp | hp
        · exact hover p (mem_append_left _ hp)
        · rcases mem_append.mp hp with hp | hp
          · exact hover p (mem_append_right _ hp)
          · rw [mem_singleton.mp hp]
            exact hdone
    · rw [if_neg (show operation ∉ (s.giveUp operation).queued from hq)]
      refine ⟨hcontained, habandoned.queued, released, leaked, hkept', hleaked.trans hl,
        hfree.trans (Perm.map _ (Perm.append_left _ ?_)), hover⟩
      change (_ :: (s.late ++ s.foreign)).Perm (s.late ++ (s.foreign ++ [_]))
      rw [← append_assoc]
      exact (perm_append_singleton _ _).symm

private theorem Accounted.act (h : Accounted s) {call : Call} (ha : Act s call t) :
    Accounted t := by
  cases ha with
  | queued hq => exact h.queue hq
  | dispatched hleads => exact hleads _ (traced_accounted s) h
  | waiters _ | noted outcome => exact ⟨{ h.contained with }, h.queued, h.buffers⟩
  | taken operation => exact ⟨h.contained.take operation, h.queued, h.buffers⟩
  | abandoned operation => exact h.abandon operation
  | drained maxWaits dispatched => exact h.drainOutcome maxWaits dispatched
  | dropped => exact { h with }

private theorem Accounted.step (h : Accounted s) {call : Call} (hok : s.DeferredOnce call)
    (hst : s.step call = some t) : Accounted t := by
  rcases acts_of_step h.contained hst with ⟨operation, buffer, rfl, rfl⟩ | hacts
  · exact h.defer hok
  · exact hacts.keeps h fun _ _ hu ha => hu.act ha

/-- A deferred buffer belongs to an abandoned operation in flight. It is given back after the
completion of its own operation or leaked, and a completed drain leaves nothing behind. -/
theorem deferred_buffers_drained_or_leaked (entries : Nat) {s : Session}
    (h : Reach step DeferredOnce (new entries) s) :
    (∀ op ∈ s.dispatcher.deferredBuffers, op ∈ s.dispatcher.abandonedOperations) ∧
      (∀ op ∈ s.dispatcher.abandonedOperations, op ∈ s.dispatcher.ring.operations) ∧
      s.BuffersAccounted ∧
      ∀ kernel fuel maxWaits x, s.dispatcher.shutdownDrain kernel fuel 0 maxWaits = some x →
        x.1.status = .completed →
        x.1.leakedBuffers = 0 ∧ x.2.1.ring.operations = ∅ ∧ x.2.1.deferredBuffers = ∅ := by
  have haccounted : Accounted s :=
    h.invariant (accounted_new entries) fun _ _ _ hu hok hst => hu.step hok hst
  refine ⟨haccounted.contained.deferred, haccounted.contained.abandoned, haccounted.buffers,
    fun kernel fuel maxWaits x hx hstatus => ?_⟩
  rcases (traced_accounted s).shutdownDrain haccounted hx with
    ⟨_, _, hskipped, _⟩ | ⟨d', dispatched, _, houtcome, hd⟩
  · rw [hskipped] at hstatus
    cases hstatus
  · rw [houtcome] at hstatus ⊢
    rw [hd]
    exact drainOutcome_completed hstatus

private def droppedRead : List Call :=
  [.queue (.read 3 ⟨7, 4⟩ 0), .deferBufferDrop operationUserDataBase ⟨7, 4⟩,
    .post [⟨operationUserDataBase, 4, 0⟩], .dispatchAvailableLimit 1]

private def droppedReadOver : Session := (run step (new 4) droppedRead).get (by decide +kernel)

/-- The buffer of a dropped read is given back once the read has completed. -/
theorem dropped_read_buffer_given_back : ∃ s : Session,
    Reach step DeferredOnce (new 4) s ∧ s.ended = [operationUserDataBase] ∧
      s.kept = [⟨operationUserDataBase, ⟨7, 4⟩⟩] ∧ s.dispatcher.freed = [⟨7, 4⟩] ∧
      s.BuffersAccounted := by
  have hreach : Reach step DeferredOnce (new 4) droppedReadOver :=
    reach_of_run droppedRead (by decide +kernel) (some_get _).symm
  exact ⟨droppedReadOver, hreach, by decide +kernel, by decide +kernel, by decide +kernel,
    (deferred_buffers_drained_or_leaked 4 hreach).2.2.1⟩

end Session
end Sitas.Os.Uring
