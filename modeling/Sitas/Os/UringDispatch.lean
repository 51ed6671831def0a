import Mathlib.Data.List.Perm.Subperm
import Sitas.Lib.Entries
import Sitas.Os.Uring

namespace Sitas.Os.Uring
open Sitas.Lib List AList Option

structure SameOperations (r r' : IoUring) : Prop where
  operations : r'.operations = r.operations
  nextOperation : r'.nextOperation = r.nextOperation

theorem SameOperations.refl (r : IoUring) : SameOperations r r := ⟨rfl, rfl⟩

theorem SameOperations.trans {r r' r'' : IoUring} (h : SameOperations r r')
    (h' : SameOperations r' r'') : SameOperations r r'' :=
  ⟨h'.operations.trans h.operations, h'.nextOperation.trans h.nextOperation⟩

/-- Identifiers are given out in order, so the next one has not been used. -/
structure IoUring.Numbered (r : IoUring) : Prop where
  used : ∀ operation ∈ r.operations,
    operationUserDataBase ≤ operation ∧ operation < operationUserDataBase + r.nextOperation
  bound : r.nextOperation ≤ operationUserDataBase

namespace IoUring
variable {r : IoUring}

theorem sameOperations_drainCompletions (r : IoUring) : SameOperations r r.drainCompletions :=
  ⟨rfl, rfl⟩

theorem sameOperations_queueSqe (r : IoUring) (sqe : Sqe) :
    SameOperations r (r.queueSqe sqe).2 := by
  rw [queueSqe, prepareSqe]
  split
  next h =>
    split at h <;> cases h
    exact .refl r
  next h =>
    split at h <;> cases h
    rw [finishSqe]
    split <;> exact ⟨rfl, rfl⟩

theorem sameOperations_queueBufferOperation (r : IoUring) (sqe : SqeOp) (len userData : Nat)
    (name : String) : SameOperations r (r.queueBufferOperation sqe len userData name).2 := by
  rw [queueBufferOperation]
  split
  · exact .refl r
  · exact sameOperations_queueSqe ..

theorem Numbered.fresh (h : r.Numbered) : operationUserDataBase + r.nextOperation ∉ r.operations :=
  fun hmem => Nat.lt_irrefl _ (h.used _ hmem).2

theorem numbered_new (entries : Nat) : (new entries).Numbered :=
  ⟨fun _ hmem => absurd hmem (notMem_empty _), Nat.zero_le _⟩

variable {r' : IoUring} {kind : IoUringOperationKind} {x : Except IoError Nat} {operation : Nat}

theorem Numbered.same (h : r.Numbered) (hs : SameOperations r r') : r'.Numbered := by
  refine ⟨fun operation hmem => ?_, hs.nextOperation ▸ h.bound⟩
  rw [hs.operations] at hmem
  rw [hs.nextOperation]
  exact h.used operation hmem

theorem Numbered.erased (h : r.Numbered) (hops : r'.operations = r.operations.erase operation)
    (hnext : r'.nextOperation = r.nextOperation) : r'.Numbered := by
  refine ⟨fun op hmem => ?_, hnext ▸ h.bound⟩
  rw [hops, mem_erase] at hmem
  rw [hnext]
  exact h.used op hmem.2

theorem Numbered.trackedOperations_lt (h : r.Numbered) : r.trackedOperations < usizeMax := by
  have hsubset : r.operations.keys ⊆ range' operationUserDataBase r.nextOperation := by
    intro operation hmem
    rw [mem_range'_1]
    exact h.used operation (mem_keys.mp hmem)
  have hle := (subperm_of_subset r.operations.nodupKeys hsubset).length_le
  have hlength : r.trackedOperations ≤ r.nextOperation := by
    simpa [trackedOperations, AList.keys, List.keys] using hle
  have hbound := h.bound
  have hsizes : operationUserDataBase < usizeMax := by decide
  omega

private theorem allocateOperation_eq (h : r.Numbered) (kind : IoUringOperationKind) :
    r.allocateOperation kind = if r.nextOperation = operationUserDataBase then
      (.error (.other "io_uring operation id space exhausted"), r)
    else (.ok (operationUserDataBase + r.nextOperation), { r with
      nextOperation := r.nextOperation + 1
      operations := r.operations.insert (operationUserDataBase + r.nextOperation) kind }) := by
  rw [allocateOperation]
  split
  · rfl
  · dsimp only
    rw [if_neg h.fresh]

inductive Queued (r : IoUring) (kind : IoUringOperationKind) : Except IoError Nat × IoUring → Prop
  | accepted {r' : IoUring}
      (operations : r'.operations =
        r.operations.insert (operationUserDataBase + r.nextOperation) kind)
      (next : r'.nextOperation = r.nextOperation + 1)
      (bound : r'.nextOperation ≤ operationUserDataBase) :
      Queued r kind (.ok (operationUserDataBase + r.nextOperation), r')
  | rejected {r' : IoUring} (e : IoError)
      (operations : ∀ operation, r'.operations.lookup operation = r.operations.lookup operation)
      (next : r.nextOperation ≤ r'.nextOperation)
      (bound : r'.nextOperation ≤ operationUserDataBase) : Queued r kind (.error e, r')

theorem Queued.mem_iff (h : Queued r kind (x, r')) (operation : Nat) :
    operation ∈ r'.operations ↔ operation ∈ r.operations ∨ x = .ok operation := by
  cases h with
  | accepted operations next bound =>
    rw [operations, mem_insert, or_comm, Except.ok.injEq, eq_comm]
  | rejected e operations next bound =>
    rw [← lookup_isSome, operations, lookup_isSome]
    exact ⟨.inl, fun h => h.resolve_right fun h => by cases h⟩

theorem Queued.mem (h : Queued r kind (x, r')) (hop : operation ∈ r.operations) :
    operation ∈ r'.operations :=
  (h.mem_iff operation).mpr (.inl hop)

theorem Queued.next_le (h : Queued r kind (x, r')) : r.nextOperation ≤ r'.nextOperation := by
  cases h with
  | accepted operations next bound => exact next ▸ Nat.le_succ _
  | rejected e operations next bound => exact next

theorem Queued.fresh (h : Queued r kind (.ok operation, r')) :
    operation = operationUserDataBase + r.nextOperation ∧
      operation < operationUserDataBase + r'.nextOperation := by
  cases h with
  | accepted operations next bound => exact ⟨rfl, by omega⟩

theorem Queued.issued (h : Queued r kind (x, r'))
    (hlt : operation < operationUserDataBase + r.nextOperation) :
    operation < operationUserDataBase + r'.nextOperation :=
  Nat.lt_of_lt_of_le hlt (Nat.add_le_add_left h.next_le _)

theorem Queued.issued_mem_iff (h : Queued r kind (x, r'))
    (hlt : operation < operationUserDataBase + r.nextOperation) :
    operation ∈ r'.operations ↔ operation ∈ r.operations := by
  refine (h.mem_iff operation).trans ⟨fun hin => hin.resolve_right ?_, .inl⟩
  rintro rfl
  exact Nat.ne_of_lt hlt h.fresh.1

theorem Queued.numbered (h : Queued r kind (x, r')) (hr : r.Numbered) : r'.Numbered := by
  refine ⟨fun operation hmem => ?_, ?_⟩
  · rcases (h.mem_iff operation).mp hmem with hold | rfl
    · have hused := hr.used operation hold
      have hle := h.next_le
      exact ⟨hused.1, by omega⟩
    · have hfresh := h.fresh
      exact ⟨by omega, hfresh.2⟩
  · cases h with
    | accepted operations next bound | rejected e operations next bound => exact bound

theorem queued_queueOperation (h : r.Numbered) (kind : IoUringOperationKind)
    {queue : IoUring → Nat → Except IoError Unit × IoUring}
    (hqueue : ∀ r operation, SameOperations r (queue r operation).2) :
    Queued r kind (r.queueOperation kind queue) := by
  have hlookup : ∀ operation, ((r.operations.insert (operationUserDataBase + r.nextOperation)
      kind).erase (operationUserDataBase + r.nextOperation)).lookup operation =
      r.operations.lookup operation := by
    intro operation
    by_cases heq : operation = operationUserDataBase + r.nextOperation
    · rw [heq, lookup_erase, lookup_eq_none.mpr h.fresh]
    · rw [lookup_erase_ne heq, lookup_insert_ne heq]
  rw [queueOperation, allocateOperation_eq h]
  split
  next e r' heq =>
    split at heq <;> cases heq
    exact .rejected _ (fun _ => rfl) le_rfl h.bound
  next operation r' heq =>
    split at heq <;> cases heq
    rename_i hroom
    have hbound : r.nextOperation + 1 ≤ operationUserDataBase := Nat.lt_of_le_of_ne h.bound hroom
    have hsame := hqueue { r with
      nextOperation := r.nextOperation + 1
      operations := r.operations.insert (operationUserDataBase + r.nextOperation) kind }
      (operationUserDataBase + r.nextOperation)
    split
    next e r' heq =>
      rw [heq] at hsame
      refine .rejected e (fun operation => ?_) ?_ (hsame.nextOperation ▸ hbound)
      · rw [hsame.operations]
        exact hlookup operation
      · rw [hsame.nextOperation]
        exact Nat.le_succ _
    next r' heq =>
      rw [heq] at hsame
      exact .accepted hsame.operations hsame.nextOperation (hsame.nextOperation ▸ hbound)

theorem queued_queueReadOperation (h : r.Numbered) (fd : RawFd) (buffer : Buffer) (offset : Nat) :
    Queued r .read (r.queueReadOperation fd buffer offset) :=
  queued_queueOperation h .read fun _ _ => sameOperations_queueBufferOperation ..

theorem queued_queueWriteOperation (h : r.Numbered) (fd : RawFd) (buffer : Buffer) (offset : Nat) :
    Queued r .write (r.queueWriteOperation fd buffer offset) :=
  queued_queueOperation h .write fun _ _ => sameOperations_queueBufferOperation ..

theorem queued_queueCancelOperation (h : r.Numbered) (target : Nat) :
    Queued r (.cancel target) (r.queueCancelOperation target) :=
  queued_queueOperation h (.cancel target) fun _ _ => sameOperations_queueSqe ..

inductive Tried (r : IoUring) : Option IoUringOperationCompletion × IoUring → Prop
  | nothing {r' : IoUring} (same : SameOperations r r') (queue : r'.completionQueue = [])
      (raw : ∀ c ∈ r'.completions, c.userData ∉ r'.operations)
      (posted : r'.completions = r.completions ++ r.completionQueue) : Tried r (none, r')
  | taken {r' : IoUring} (c : IoUringOperationCompletion) (tracked : c.operation ∈ r.operations)
      (operations : r'.operations = r.operations.erase c.operation)
      (next : r'.nextOperation = r.nextOperation)
      (posted : ∀ c' ∈ r.completions ++ r.completionQueue, c'.userData ≠ c.operation →
        c' ∈ r'.completions) : Tried r (some c, r')

private theorem mem_eraseP_of_find? {α : Type} {p : α → Bool} {l : List α} {a b : α}
    (ha : l.find? p = some a) (hb : b ∈ l) (hne : b ≠ a) : b ∈ l.eraseP p := by
  obtain ⟨hpa, before, after, rfl, hbefore⟩ := find?_eq_some_iff_append.mp ha
  rw [eraseP_append_right _ fun x hx => by simpa using hbefore x hx, eraseP_cons_of_pos hpa]
  simpa [hne] using hb

theorem tried_tryOperationCompletion (r : IoUring) : Tried r r.tryOperationCompletion := by
  rw [tryOperationCompletion]
  dsimp only
  split
  next hnone =>
    refine .nothing ⟨rfl, rfl⟩ rfl (fun c hmem => ?_) rfl
    have hraw := find?_eq_none.mp hnone c hmem
    simpa [isOperationTracked] using hraw
  next c hsome =>
    have hmem : c.userData ∈ r.drainCompletions.operations := by
      simpa [isOperationTracked] using find?_some hsome
    obtain ⟨kind, hkind⟩ := isSome_iff_exists.mp (lookup_isSome.mpr hmem)
    simp only [completeOperation, hkind]
    refine .taken _ hmem rfl rfl fun c' hc' hne => ?_
    exact mem_eraseP_of_find? hsome hc' fun heq => hne (heq ▸ rfl)

section Loops
variable {kernel : Kernel} {n : Nat} {x : Except IoError Nat × IoUring × Nat}

theorem sameOperations_waitLoop {target fuel : Nat} (h : waitLoop kernel target fuel n r = some x) :
    SameOperations r x.2.1 := by
  induction fuel generalizing n r with
  | zero => cases h
  | succ fuel ih =>
    rw [waitLoop] at h
    obtain ⟨reply, _, hreply⟩ := bind_eq_some_iff.mp h
    dsimp only at hreply
    split at hreply
    · split at hreply
      · cases hreply
        exact ⟨rfl, rfl⟩
      · have hlater := ih hreply
        exact ⟨hlater.operations, hlater.nextOperation⟩
    · split at hreply
      · have hlater := ih hreply
        exact ⟨hlater.operations, hlater.nextOperation⟩
      · cases hreply
        exact ⟨rfl, rfl⟩

theorem sameOperations_waitCompletions {minComplete fuel : Nat}
    (h : r.waitCompletions kernel fuel n minComplete = some x) : SameOperations r x.2.1 := by
  rw [waitCompletions] at h
  split at h
  · cases h
    exact .refl r
  · dsimp only at h
    split at h
    · cases h
      exact sameOperations_drainCompletions r
    · exact (sameOperations_drainCompletions r).trans (sameOperations_waitLoop h)

theorem sameOperations_submitLoop {rounds : Nat} (h : submitLoop kernel rounds n r = some x) :
    SameOperations r x.2.1 := by
  induction rounds generalizing n r x with
  | zero =>
    cases h
    exact .refl r
  | succ rounds ih =>
    rw [submitLoop] at h
    split at h
    · cases h
      exact .refl r
    · obtain ⟨reply, _, hreply⟩ := bind_eq_some_iff.mp h
      dsimp only at hreply
      split at hreply
      · cases hreply
        exact ⟨rfl, rfl⟩
      · cases hreply
        exact ⟨rfl, rfl⟩
      · obtain ⟨⟨submitted, r', n'⟩, hloop, rfl⟩ := map_eq_some_iff.mp hreply
        have hlater := ih hloop
        exact ⟨hlater.operations, hlater.nextOperation⟩

end Loops
end IoUring

namespace IoUringDispatcher

/-- Dispatching carries a property of the woken tasks and the dispatcher along: it is kept
when only the queues of the ring change and when one completion is delivered. -/
structure Carried (P : List Nat → IoUringDispatcher → Prop) : Prop where
  ring : ∀ woken d ring, SameOperations d.ring ring → P woken d → P woken { d with ring := ring }
  dispatch : ∀ woken d ring completion, completion.operation ∈ d.ring.operations →
    ring.operations = d.ring.operations.erase completion.operation →
    ring.nextOperation = d.ring.nextOperation → P woken d →
    P (woken ++ ({ d with ring := ring }.dispatch completion).1.toList)
      ({ d with ring := ring }.dispatch completion).2

variable {P : List Nat → IoUringDispatcher → Prop} {d : IoUringDispatcher}

theorem Carried.dispatchAvailableLimit (hP : Carried P) (woken : List Nat) (limit : Nat)
    (h : P woken d) : P (woken ++ (dispatchAvailableLimit limit d).2.1)
      (dispatchAvailableLimit limit d).2.2 := by
  induction limit generalizing woken d with
  | zero => simpa [IoUringDispatcher.dispatchAvailableLimit] using h
  | succ limit ih =>
    have htried := d.ring.tried_tryOperationCompletion
    rw [IoUringDispatcher.dispatchAvailableLimit]
    generalize d.ring.tryOperationCompletion = tried at htried ⊢
    cases htried with
    | nothing same _ _ _ =>
      rw [append_nil]
      exact hP.ring woken d _ same h
    | @taken ring completion tracked operations next _ =>
      have hnext := ih _ (hP.dispatch woken d ring completion tracked operations next h)
      simpa only [append_assoc] using hnext

theorem Carried.dispatchAvailable (hP : Carried P) (woken : List Nat) (h : P woken d) :
    P (woken ++ d.dispatchAvailable.2.1) d.dispatchAvailable.2.2 :=
  hP.dispatchAvailableLimit woken usizeMax h

section Drain
variable {P : IoUringDispatcher → Prop} (hP : Carried fun _ => P) {kernel : Kernel} {fuel n : Nat}
include hP

theorem Carried.waitAndDispatch {minComplete : Nat}
    {x : Except IoError Nat × IoUringDispatcher × Nat} (h : P d)
    (hw : d.waitAndDispatch kernel fuel n minComplete = some x) : P x.2.1 := by
  obtain ⟨⟨result, ring, n'⟩, hwait, rfl⟩ := map_eq_some_iff.mp hw
  have hring := hP.ring [] d ring (IoUring.sameOperations_waitCompletions hwait) h
  cases result with
  | error e => exact hring
  | ok count => exact hP.dispatchAvailable [] hring

theorem Carried.drainLoop {waits : Nat} {x : Nat × IoUringDispatcher × Nat} (h : P d)
    (hd : drainLoop kernel fuel waits n d = some x) : P x.2.1 := by
  induction waits generalizing n d x with
  | zero =>
    cases hd
    exact h
  | succ waits ih =>
    rw [IoUringDispatcher.drainLoop] at hd
    split at hd
    · cases hd
      exact h
    · obtain ⟨⟨result, d', n'⟩, hwait, hrest⟩ := bind_eq_some_iff.mp hd
      have hnext : P d' := hP.waitAndDispatch h hwait
      cases result with
      | error e =>
        cases hrest
        exact hnext
      | ok count =>
        obtain ⟨⟨dispatched, d'', n''⟩, hloop, rfl⟩ := map_eq_some_iff.mp hrest
        have hlater : P d'' := ih hnext hloop
        exact hlater

end Drain

inductive Abandons (d : IoUringDispatcher) (operation : Nat) : IoUringDispatcher → Prop
  | withdrawn (completed : operation ∈ d.completions) :
      Abandons d operation
        { d.clearWaker operation with completions := d.completions.erase operation }
  | unknown (completed : operation ∉ d.completions) (tracked : operation ∉ d.ring.operations) :
      Abandons d operation (d.clearWaker operation)
  | again (kind : IoUringOperationKind) (completed : operation ∉ d.completions)
      (tracked : operation ∈ d.ring.operations) (known : operation ∈ d.abandonedOperations)
      (named : d.ring.operationKind operation = some kind) :
      Abandons d operation { d.clearWaker operation with
        abandonedOperations := d.abandonedOperations.insert operation kind }
  | first (kind : IoUringOperationKind) (x : Except IoError Nat) (ring : IoUring)
      (completed : operation ∉ d.completions) (tracked : operation ∈ d.ring.operations)
      (queued : d.ring.Queued (.cancel operation) (x, ring))
      (named : d.ring.operationKind operation = some kind) :
      Abandons d operation { d.clearWaker operation with
        ring := ring
        abandonedOperations := x.toOption.elim (d.abandonedOperations.insert operation kind)
          fun cancel => (d.abandonedOperations.insert operation kind).insert cancel
            (.cancel operation) }

theorem abandons_abandonOperation {d : IoUringDispatcher} (hd : d.ring.Numbered)
    (operation : Nat) : Abandons d operation (d.abandonOperation operation) := by
  rw [abandonOperation]
  dsimp only
  split
  next hmem =>
    exact .withdrawn hmem
  next hnot =>
    split
    next hkind =>
      exact .unknown hnot (lookup_eq_none.mp hkind)
    next kind hkind =>
      have htracked : operation ∈ d.ring.operations := by
        rw [← lookup_isSome, isSome_iff_exists]
        exact ⟨kind, hkind⟩
      split
      next hknown =>
        exact .again kind hnot htracked hknown hkind
      · have hqueued := IoUring.queued_queueCancelOperation hd operation
        split
        next cancel ring heq =>
          have hring : d.ring.queueCancelOperation operation = (.ok cancel, ring) := heq
          rw [hring] at hqueued
          exact .first kind (.ok cancel) ring hnot htracked hqueued hkind
        next e ring heq =>
          have hring : d.ring.queueCancelOperation operation = (.error e, ring) := heq
          rw [hring] at hqueued
          exact .first kind (.error e) ring hnot htracked hqueued hkind

section Abandons
variable {operation op : Nat} {d d' : IoUringDispatcher} (ha : Abandons d operation d')
include ha

theorem Abandons.buffers :
    d'.deferredBuffers = d.deferredBuffers ∧ d'.freed = d.freed ∧ d'.leaked = d.leaked := by
  cases ha <;> exact ⟨rfl, rfl, rfl⟩

theorem Abandons.numbered (hd : d.ring.Numbered) : d'.ring.Numbered := by
  cases ha with
  | withdrawn | unknown | again => exact hd
  | first kind x ring completed tracked queued => exact queued.numbered hd

theorem Abandons.issued (hlt : op < operationUserDataBase + d.ring.nextOperation) :
    op < operationUserDataBase + d'.ring.nextOperation ∧
      (op ∈ d'.ring.operations ↔ op ∈ d.ring.operations) := by
  cases ha with
  | withdrawn | unknown | again => exact ⟨hlt, Iff.rfl⟩
  | first kind x ring completed tracked queued => exact ⟨queued.issued hlt, queued.issued_mem_iff hlt⟩

theorem Abandons.lookup_completions {c : IoUringOperationCompletion}
    (hc : d'.completions.lookup op = some c) : d.completions.lookup op = some c := by
  cases ha with
  | withdrawn completed => exact (lookup_erase_eq_some.mp hc).2
  | unknown | again | first => exact hc

end Abandons

theorem dispatch_ring (d : IoUringDispatcher) (completion : IoUringOperationCompletion) :
    (d.dispatch completion).2.ring = d.ring := by
  rw [dispatch]
  dsimp only
  split
  · rfl
  · split <;> rfl

private theorem trackedOperations_erase {r r' : IoUring} {operation : Nat}
    (htracked : operation ∈ r.operations) (h : r'.operations = r.operations.erase operation) :
    r'.trackedOperations + 1 = r.trackedOperations := by
  have hlength := length_erase_of_mem (mem_keys.mpr htracked)
  have hpos := length_pos_of_mem (mem_keys.mpr htracked)
  rw [← keys_erase, ← h] at hlength
  simp only [AList.keys, List.keys, List.length_map] at hlength hpos
  simp only [IoUring.trackedOperations]
  omega

theorem carried_untracked (operation : Nat) : Carried fun _ d => operation ∉ d.ring.operations := by
  refine ⟨fun _ d ring hsame h => ?_, fun _ d ring completion _ hops _ h => ?_⟩
  · rwa [hsame.operations]
  · rw [dispatch_ring]
    dsimp only
    rw [hops, mem_erase]
    exact fun hmem => h hmem.2

theorem carried_trackedOperations_le (k : Nat) :
    Carried fun _ d => d.ring.trackedOperations ≤ k := by
  refine ⟨fun _ d ring hsame h => ?_, fun _ d ring completion hmem hops _ h => ?_⟩
  · simpa [IoUring.trackedOperations, hsame.operations] using h
  · rw [dispatch_ring]
    have hless := trackedOperations_erase hmem hops
    dsimp only
    omega

/-- Dispatching without a limit leaves only raw completions behind. -/
theorem dispatchAvailableLimit_raw {limit : Nat} (hlimit : d.ring.trackedOperations < limit) :
    (dispatchAvailableLimit limit d).2.2.ring.completionQueue = [] ∧
      ∀ c ∈ (dispatchAvailableLimit limit d).2.2.ring.completions,
        c.userData ∉ (dispatchAvailableLimit limit d).2.2.ring.operations := by
  induction limit generalizing d with
  | zero => exact absurd hlimit (Nat.not_lt_zero _)
  | succ limit ih =>
    have htried := d.ring.tried_tryOperationCompletion
    rw [dispatchAvailableLimit]
    generalize d.ring.tryOperationCompletion = tried at htried ⊢
    cases htried with
    | nothing same queue raw _ => exact ⟨queue, raw⟩
    | taken _ tracked operations next _ =>
      refine ih ?_
      rw [dispatch_ring]
      have hless := trackedOperations_erase tracked operations
      dsimp only
      omega

theorem posted_dispatchAvailableLimit (limit : Nat) {c : IoUringCompletion}
    (hc : c ∈ d.ring.completions ++ d.ring.completionQueue)
    (htracked : c.userData ∈ (dispatchAvailableLimit limit d).2.2.ring.operations) :
    c ∈ (dispatchAvailableLimit limit d).2.2.ring.completions ++
      (dispatchAvailableLimit limit d).2.2.ring.completionQueue := by
  induction limit generalizing d with
  | zero => exact hc
  | succ limit ih =>
    have htried := d.ring.tried_tryOperationCompletion
    rw [dispatchAvailableLimit] at htracked ⊢
    generalize d.ring.tryOperationCompletion = tried at htried htracked ⊢
    cases htried with
    | nothing same queue raw posted =>
      dsimp only
      rw [posted]
      exact mem_append_left _ hc
    | taken _ tracked operations next posted =>
      refine ih ?_ htracked
      rw [dispatch_ring]
      refine mem_append_left _ (posted c hc fun hsame => ?_)
      refine (carried_untracked c.userData).dispatchAvailableLimit [] limit ?_ htracked
      rw [dispatch_ring]
      dsimp only
      rw [operations, hsame, mem_erase]
      exact fun hmem => hmem.1 rfl

theorem trackedOperations_dispatchAvailableLimit_lt {limit : Nat} {c : IoUringCompletion}
    (hlimit : 0 < limit) (hc : c ∈ d.ring.completions ++ d.ring.completionQueue)
    (htracked : c.userData ∈ d.ring.operations) :
    (dispatchAvailableLimit limit d).2.2.ring.trackedOperations < d.ring.trackedOperations := by
  obtain ⟨limit, rfl⟩ := Nat.exists_eq_succ_of_ne_zero (Nat.ne_of_gt hlimit)
  have htried := d.ring.tried_tryOperationCompletion
  rw [dispatchAvailableLimit]
  generalize d.ring.tryOperationCompletion = tried at htried ⊢
  cases htried with
  | nothing same queue raw posted =>
    exact absurd (same.operations ▸ htracked) (raw c (posted ▸ hc))
  | @taken ring completion tracked operations next posted =>
    have hless := trackedOperations_erase tracked operations
    have hle := (carried_trackedOperations_le ring.trackedOperations).dispatchAvailableLimit []
      limit (d := ({ d with ring := ring }.dispatch completion).2) (by rw [dispatch_ring])
    exact Nat.lt_of_le_of_lt hle (Nat.lt_of_succ_le (Nat.le_of_eq hless))

end IoUringDispatcher
end Sitas.Os.Uring
