import Sitas.Executor.UringOperations
import Sitas.Lib.Runs

/-! When the buffers of io_uring transfers outlive their operations: futures may be polled
and dropped on any thread, and every thread finds its own dispatcher. -/
namespace Sitas.Executor.Uring
open Sitas.Lib Sitas.Os.Uring List Function Threads Option

namespace Threads

def tracks (s : Threads) (g op : Nat) : Bool :=
  (s.dispatchers g).any (·.ring.isOperationTracked op)

/-- The dispatcher has a use for the operation: it is in flight, or its completion waits to
be taken. -/
def knows (s : Threads) (g op : Nat) : Bool :=
  (s.dispatchers g).any fun d => d.ring.isOperationTracked op || decide (op ∈ d.completions)

def operationOf (s : Threads) (f : Nat) : Option (Nat × Nat) :=
  (s.futures f).bind fun cell => cell.future.operation.bind fun _ => cell.queued

end Threads

/-- A future handles its operation on the thread of the dispatcher it was queued on. It may
be dropped elsewhere once the operation is over, unless the dispatcher there has an
operation of the same number. -/
def Event.inPlace (s : Threads) : Event → Bool
  | .poll thread f =>
    (s.operationOf f).all fun (g, _) => (s.current thread).all fun c => c.dispatcher == g
  | .drop thread f =>
    (s.operationOf f).all fun (g, op) =>
      match s.current thread with
      | none => !s.tracks g op
      | some c => c.dispatcher == g || (!s.tracks g op && !s.knows c.dispatcher op)
  | _ => true

section Steps
variable {s t : Threads} {thread op : Nat}

theorem Threads.operationOf_eq {f g : Nat} {cell : FutureCell} (hcell : s.futures f = some cell)
    (hop : cell.future.operation = some op) (hqueued : cell.queued = some (g, op)) :
    s.operationOf f = some (g, op) := by
  simp [operationOf, hcell, hop, hqueued]

theorem Sound.poll (h : Sound s) {f : Nat} (hok : (Event.poll thread f).inPlace s = true)
    (ht : s.poll thread f = some t) : Sound t := by
  obtain ⟨cell, hcell, hrest⟩ := bind_eq_some_iff.mp ht
  have hp := h.proper f cell hcell
  split at hrest
  · cases hrest
  next hwaits =>
    have hwaits : cell.resolution = none ∧ cell.dropped = false := by simpa using hwaits
    split at hrest
    · cases hrest
      exact h.change hcell _ rfl id (fun hnone => nomatch hnone) { hp with }
    next i d hcur =>
      obtain ⟨hd, owner, hcurrent⟩ := currentDispatcher_eq_some.mp hcur
      obtain ⟨⟨progress, future, woken, d'⟩, hpoll, rfl⟩ := map_eq_some_iff.mp hrest
      cases pollOf_of_poll (h.kept i d hd).numbered hpoll with
      | again op queued attempt =>
        obtain ⟨g, hqueued⟩ := hp.operation op queued
        have hhome : i = g := by
          simpa [Event.inPlace, operationOf_eq hcell queued hqueued, hcurrent] using hok
        subst hhome
        have hrecorded : cell.queuedAs i d = some (i, op) := by simp [FutureCell.queuedAs, hqueued]
        dsimp only
        rw [hrecorded]
        exact h.attempt _ hcell hwaits hqueued queued hd attempt
      | rejected e buffer kind unqueued held outcome ensured =>
        have hnone := hp.unqueued buffer held unqueued
        have hrecorded : cell.queuedAs i d = none := by
          simp [FutureCell.queuedAs, hnone, ensured, unqueued]
        dsimp only
        rw [hrecorded]
        have h₁ := h.keep hd ((h.kept i d hd).rejected outcome)
        have hp₁ := h₁.proper f cell hcell
        refine (h₁.change hcell ⟨cell.future, none, some (.failed e), false⟩ hnone.symm
          (fun hdropped => ?_) (fun hres => nomatch hres) { hp₁ with
            operation := hnone ▸ hp₁.operation
            unqueued := fun _ _ _ => rfl
            buffer := hwaits.2 ▸ hp₁.buffer }).congr rfl rfl rfl (append_nil _)
        cases hwaits.2.symm.trans hdropped
      | first op buffer kind unqueued held outcome plain ensured attempt =>
        have hnone := hp.unqueued buffer held unqueued
        have hrecorded : cell.queuedAs i d = some (i, op) := by
          simp [FutureCell.queuedAs, hnone, ensured]
        dsimp only
        rw [hrecorded]
        have h₁ := h.queue hcell held unqueued hd outcome plain
        refine (h₁.attempt [] (update_self ..) hwaits rfl rfl
          (update_self ..) attempt).congr ?_ rfl ?_ rfl
        · exact (update_idem ..).symm
        · exact (update_idem ..).symm

abbrev FutureCell.taken (cell : FutureCell) : FutureCell :=
  { cell with future := { cell.future with buffer := none }, dropped := true }

/-- The operation of a future that has not been dropped has no deferred buffer. -/
private theorem Sound.deferred_eq_none (h : Sound s) {g f op : Nat} {d : IoUringDispatcher}
    {cell : FutureCell} (hd : s.dispatchers g = some d) (hcell : s.futures f = some cell)
    (hqueued : cell.queued = some (g, op)) (halive : ¬ cell.dropped = true) :
    d.deferredBuffers.lookup op = none := by
  cases hlookup : d.deferredBuffers.lookup op with
  | none => rfl
  | some b =>
    obtain ⟨hq, cell', hcell', hdropped⟩ := (h.kept g d hd).deferred op b hlookup
    rw [h.distinct g op b.addr f hq ⟨cell, hcell, hqueued⟩] at hcell'
    cases hcell.symm.trans hcell'
    exact absurd hdropped halive

theorem Sound.drop (h : Sound s) {f : Nat} (hok : (Event.drop thread f).inPlace s = true)
    (ht : s.drop thread f = some t) : Sound t := by
  obtain ⟨cell, hcell, hrest⟩ := bind_eq_some_iff.mp ht
  have hp := h.proper f cell hcell
  split at hrest
  · cases hrest
  next halive =>
    have h₁ : Sound (s.setFuture f cell.taken) :=
      h.change hcell _ rfl (fun _ => rfl) (fun _ hd => nomatch hd)
        ⟨hp.operation, fun _ hnone => (nomatch hnone), fun _ hnone => (nomatch hnone)⟩
    have hloose : (∀ g op d, cell.queued = some (g, op) → s.dispatchers g = some d →
        op ∉ d.ring.operations) → (s.setFuture f cell.taken).Loose f :=
      fun hfree => ⟨_, update_self .., rfl, hfree⟩
    dsimp only at hrest
    split at hrest
    · cases hrest
      exact h₁
    next b hop hb =>
      cases hrest
      have haddr := (hp.buffer b hb).1
      refine h₁.free (haddr ▸ hloose fun g op d hq => ?_)
      cases (hp.unqueued b hb hop).symm.trans hq
    next op b hop hb =>
      obtain ⟨haddr, hheld, _⟩ := hp.buffer b hb
      obtain ⟨g, hqueued⟩ := hp.operation op hop
      have hoperation := operationOf_eq hcell hop hqueued
      have hfree : s.tracks g op = false → ∀ g' op' d, cell.queued = some (g', op') →
          s.dispatchers g' = some d → op' ∉ d.ring.operations := by
        intro hnot g' op' d hq hd
        cases hqueued.symm.trans hq
        simpa [tracks, hd, IoUring.isOperationTracked] using hnot
      subst haddr
      split at hrest
      next hcur =>
        cases hrest
        refine h₁.free (hloose ?_)
        cases hc : s.current thread with
        | none =>
          refine hfree ?_
          simpa [Event.inPlace, hoperation, hc] using hok
        | some c =>
          have hmissing : s.dispatchers c.dispatcher = none := by
            simpa [currentDispatcher, hc] using hcur
          have hwhere : c.dispatcher = g ∨ s.tracks g op = false ∧
              s.knows c.dispatcher op = false := by
            simpa [Event.inPlace, hoperation, hc] using hok
          rcases hwhere with rfl | ⟨hnot, _⟩
          · intro g' op' d hq hd
            cases hqueued.symm.trans hq
            cases hmissing.symm.trans hd
          · exact hfree hnot
      next i d hcur =>
        cases hrest
        obtain ⟨hd, owner, hc⟩ := currentDispatcher_eq_some.mp hcur
        have hwhere : i = g ∨ s.tracks g op = false ∧ s.knows i op = false := by
          simpa [Event.inPlace, hoperation, hc] using hok
        rcases hwhere with rfl | ⟨hnot, hunknown⟩
        · exact h₁.keep hd ((h₁.kept i d hd).deferBufferDrop h₁.distinct
            ⟨_, update_self .., hqueued⟩ ⟨_, update_self .., rfl⟩
            (h.deferred_eq_none hd hcell hqueued halive))
        · have hknown : op ∉ d.ring.operations ∧ op ∉ d.completions := by
            simpa [knows, hd, IoUring.isOperationTracked] using hunknown
          rw [deferBufferDrop_unknown b hknown.2 hknown.1]
          have hloose' := hloose (hfree hnot)
          have hgrown : Kept (update s.futures b.addr (some cell.taken))
              (fun x => s.Released x ∨ x = b.addr) i d := by
            refine (h₁.kept i d hd).release (fun x hx => hx.imp_right ?_) fun b' hb' =>
              .inl (.inr ⟨i, d, hd, b', hb', rfl⟩)
            rintro rfl
            refine .inr fun op' hq => ?_
            obtain ⟨cell', hcell', hq⟩ := hq
            cases (update_self ..).symm.trans hcell'
            exact hfree hnot i op' d hq hd
          refine h₁.setDispatcher hd (hgrown.giveBack (.inr rfl) op) (fun _ => .inl) ?_
          rintro x (hx | rfl)
          · exact .inl hx
          · exact .inr hloose'

theorem Sound.step (h : Sound s) {e : Event} (hok : e.inPlace s = true) (ht : s.step e = some t) :
    Sound t := by
  cases e with
  | create f transfer fd offset len => exact h.create ht
  | enter thread owner setup required kernel fuel =>
    obtain ⟨result, hinstall, hresult⟩ := bind_eq_some_iff.mp ht
    cases result with
    | error e => cases hresult
    | ok t' =>
      cases hresult
      exact h.installCurrentIoUring hinstall
  | leave thread owner unwinds kernel fuel => exact h.leave ht
  | poll thread f => exact h.poll hok ht
  | drop thread f => exact h.drop hok ht
  | dispatch thread => exact h.dispatch ht
  | submit thread kernel => exact h.submitPending ht
  | post i completions => exact h.post ht

end Steps

/-- Nothing that is in flight loses its buffer, and dispatchers only give up what belongs to
dropped futures of their own. -/
structure BuffersSafe (s : Threads) : Prop where
  /-- A released buffer is not that of an operation in flight. -/
  released : ∀ g op f, QueuedOn s.futures g op f → s.Released f → s.tracks g op = false
  /-- An abandoned operation is that of a dropped future queued here, or its cancellation. -/
  abandoned : ∀ g d op kind, s.dispatchers g = some d →
    d.abandonedOperations.lookup op = some kind →
    ∃ f, QueuedOn s.futures g (subjectOf op kind) f ∧ IsDropped s.futures f
  /-- A future that waits has its operation in flight or its completion at hand. -/
  waiting : ∀ g op f, QueuedOn s.futures g op f → Waits s.futures f → s.knows g op = true

theorem Sound.buffersSafe {s : Threads} (h : Sound s) : BuffersSafe s where
  released g op f hq hrel := by
    obtain ⟨d, hd⟩ := h.home g op f hq
    have hover := (h.kept g d hd).untracked op f hq (.inl hrel)
    simpa [tracks, hd, IoUring.isOperationTracked] using hover
  abandoned g d op kind hd hkind := ((h.kept g d hd).abandoned op kind hkind).2.1
  waiting g op f hq hw := by
    obtain ⟨d, hd⟩ := h.home g op f hq
    have hthere := (h.kept g d hd).waiting op f hq hw
    simpa [knows, hd, IoUring.isOperationTracked] using hthere

/-- Buffers are safe in every run whose futures are polled and dropped in place. -/
theorem buffers_safe_in_place {s : Threads}
    (hr : Reach Threads.step (fun s e => e.inPlace s = true) .new s) : BuffersSafe s := by
  have hsound : Sound s := hr.invariant Sound.sound_new fun _ _ _ h hok ht => h.step hok ht
  exact hsound.buffersSafe

/-- A read whose future is dropped on its own thread while the operation is in flight. -/
theorem read_dropped_in_place :
    ∃ s, run Threads.step .new [.enter 0 0 (.ok ()) false (fun _ => none) 0,
        .create 0 .read 3 0 8, .poll 0 0, .drop 0 0] = some s ∧
      s.tracks 0 operationUserDataBase = true ∧ BuffersSafe s := by
  refine ⟨_, rfl, rfl, buffers_safe_in_place (reach_of_run [.enter 0 0 (.ok ()) false (fun _ => none) 0,
    .create 0 .read 3 0 8, .poll 0 0, .drop 0 0] ?_ rfl)⟩
  decide

/-- A read dropped on a thread without a dispatcher loses its buffer in flight. With a dispatcher
there it takes the operation of another future along. -/
theorem read_dropped_elsewhere_unsafe :
    (∃ s, Reachable Threads.step .new s ∧ QueuedOn s.futures 0 operationUserDataBase 0 ∧
      s.Released 0 ∧ s.tracks 0 operationUserDataBase = true) ∧
    ∃ s d, Reachable Threads.step .new s ∧ QueuedOn s.futures 1 operationUserDataBase 1 ∧
      Waits s.futures 1 ∧ s.dispatchers 1 = some d ∧
      d.abandonedOperations.lookup operationUserDataBase = some .read := by
  constructor
  · refine ⟨_, reachable_of_run [.enter 0 0 (.ok ()) false (fun _ => none) 0,
      .create 0 .read 3 0 8, .poll 0 0, .drop 1 0] rfl, ⟨_, rfl, rfl⟩, ?_, rfl⟩
    exact .inl ⟨⟨0, 8⟩, by decide, rfl⟩
  · exact ⟨_, _, reachable_of_run [.enter 0 0 (.ok ()) false (fun _ => none) 0,
      .enter 1 1 (.ok ()) false (fun _ => none) 0, .create 0 .read 3 0 8, .create 1 .read 4 0 8,
      .poll 0 0, .poll 1 1, .drop 1 0] rfl, ⟨_, rfl, rfl⟩, ⟨_, rfl, rfl, rfl⟩, rfl, rfl⟩

end Sitas.Executor.Uring
