import Sitas.Os.UringContained

namespace Sitas.Os.Uring
open Sitas.Lib List AList Option

namespace Session
open IoUringDispatcher

def Leads (s : Session) (xs : List Dispatched) (d : IoUringDispatcher) : Prop :=
  ∀ P, Traced P → P s.dispatched s.dispatcher → P xs d

private theorem traced_leads (s : Session) : Traced s.Leads :=
  ⟨fun xs d ring hsame h P hP hs => hP.ring xs d ring hsame (h P hP hs),
    fun xs d ring completion hmem hops hnext h P hP hs =>
      hP.dispatch xs d ring completion hmem hops hnext (h P hP hs)⟩

inductive Act (s : Session) : Call → Session → Prop
  | queued {request : Request} {kind : IoUringOperationKind} {x : Except IoError Nat}
      {ring : IoUring} (queued : s.dispatcher.ring.Queued kind (x, ring)) :
      Act s (.queue request) { s with
        dispatcher := { s.dispatcher with ring := ring }
        queued := s.queued ++ x.toOption.toList }
  | dispatched {call : Call} {xs : List Dispatched} {d : IoUringDispatcher} (leads : s.Leads xs d) :
      Act s call { s with dispatcher := d, dispatched := xs }
  | waiters {call : Call} {waiters : AList fun _ : Nat => Nat}
      (registered : ∀ op ∈ waiters, op ∈ s.dispatcher.waiters ∨
        ∃ waker, call = .registerWaker op waker ∨ call = .poll op waker) :
      Act s call { s with dispatcher := { s.dispatcher with waiters := waiters } }
  | taken {call : Call} (operation : Nat) :
      Act s call { s with
        dispatcher := (s.dispatcher.takeCompletion operation).2
        handed := s.handed ++ (s.dispatcher.takeCompletion operation).1.toList }
  | abandoned (operation : Nat) :
      Act s (.abandonOperation operation) { s.giveUp operation with
        dispatcher := s.dispatcher.abandonOperation operation }
  | drained {call : Call} (maxWaits dispatched : Nat) :
      Act s call { s with dispatcher := (s.dispatcher.drainOutcome maxWaits dispatched).2 }
  | noted {call : Call} (outcome : Option IoUringShutdownDrainSnapshot) :
      Act s call { s with dispatcher := { s.dispatcher with lastShutdownDrain := outcome } }
  | dropped {call : Call} : Act s call { s with alive := false }

def Acts (call : Call) : Session → Session → Prop :=
  Relation.ReflTransGen fun s t => Act s call t

section Acts
variable {s t : Session} {call : Call}

theorem Acts.keeps {P : Session → Prop} (h : Acts call s t) (hs : P s)
    (hact : ∀ u v, P u → Act u call v → P v) : P t := by
  induction h with
  | refl => exact hs
  | tail _ ha ih => exact hact _ _ ih ha

private theorem acts_shutdownDrain {kernel : Kernel} {fuel maxWaits : Nat}
    {x : IoUringShutdownDrainSnapshot × IoUringDispatcher × Nat}
    (hx : s.dispatcher.shutdownDrain kernel fuel 0 maxWaits = some x) :
    Acts call s (s.trace x.2.1 (s.dispatcher.shutdownDispatched kernel fuel 0 maxWaits)) := by
  rcases (traced_leads s).shutdownDrain (fun _ _ => id) hx with
    ⟨_, hnone, _, hd⟩ | ⟨d, dispatched, hleads, _, hd⟩
  · rw [trace, hnone, append_nil, hd]
    exact .single (.noted _)
  · rw [trace, hd]
    exact ((Relation.ReflTransGen.single (.dispatched hleads)).tail (.drained maxWaits
      dispatched)).tail (.noted _)

private theorem acts_drop (h : s.dispatcher.Contained) {kernel : Kernel} {fuel : Nat}
    {x : IoUringDispatcher × Nat} (hx : s.dispatcher.drop kernel fuel 0 = some x) :
    Acts call s { s.trace x.1 ({ s.dispatcher with waiters := ∅ }.shutdownDispatched kernel fuel 0
      dropDrainMaxWaits) with alive := false } := by
  obtain ⟨⟨outcome, d, n⟩, hdrain, rfl⟩ := map_eq_some_iff.mp hx
  have hempty : d.deferredBuffers = ∅ := by
    have hcontained : Traced fun _ d => d.Contained := ⟨fun _ _ _ hsame h => h.ring hsame,
        fun _ _ _ _ hmem hops hnext h => h.dispatch hmem hops hnext⟩
    have hcleared : { s.dispatcher with waiters := ∅ }.Contained := { h with }
    rcases (traced_leads { s with dispatcher := { s.dispatcher with waiters := ∅ } }).shutdownDrain
      (fun _ _ => id) hdrain with ⟨hlive, _⟩ | ⟨d', dispatched, hleads, _, hd⟩
    · exact absurd hlive (Nat.lt_irrefl 0)
    · rw [show d = _ from hd]
      exact (hleads _ hcontained hcleared).deferred_drainOutcome dropDrainMaxWaits dispatched
  have hsame : { d with
      freed := d.freed ++ d.deferredBuffers.entries.map Sigma.snd, deferredBuffers := ∅ } = d := by
    rw [hempty, show (∅ : AList fun _ : Nat => Buffer).entries = [] from rfl, map_nil,
      append_nil, ← hempty]
  have hcleared : Act s call { s with dispatcher := { s.dispatcher with waiters := ∅ } } :=
    .waiters fun op hop => absurd hop (notMem_empty op)
  have hdrained : Acts call { s with dispatcher := { s.dispatcher with waiters := ∅ } } _ :=
    acts_shutdownDrain hdrain
  dsimp only
  rw [hsame]
  exact ((Relation.ReflTransGen.single hcleared).trans hdrained).tail .dropped

theorem acts_of_step (h : s.dispatcher.Contained) (hst : s.step call = some t) :
    (∃ operation buffer, call = .deferBufferDrop operation buffer ∧
      t = { (s.giveUp operation).handOver operation buffer with
        dispatcher := s.dispatcher.deferBufferDrop operation buffer }) ∨ Acts call s t := by
  have hnot : ¬ (!s.alive) = true := by
    rw [alive_of_step hst]
    exact Bool.false_ne_true
  have hring {ring : IoUring} (hsame : SameOperations s.dispatcher.ring ring) :
      s.Leads s.dispatched { s.dispatcher with ring := ring } :=
    fun P hP hs => hP.ring _ _ _ hsame hs
  rw [Session.step, if_neg hnot] at hst
  dsimp only at hst
  cases call with
  | queue request =>
    cases hst
    exact .inr (.single (.queued (request.queued_queueOn h.numbered)))
  | submitPending kernel =>
    obtain ⟨x, hx, rfl⟩ := map_eq_some_iff.mp hst
    exact .inr (.single (.dispatched (hring (IoUring.sameOperations_submitLoop hx))))
  | registerWaker operation waker =>
    cases hst
    rw [registerWaker]
    split
    · exact .inr .refl
    · refine .inr (.single (.waiters fun op hop => ?_))
      rcases (mem_insert _).mp hop with rfl | hop
      · exact .inr ⟨waker, .inl rfl⟩
      · exact .inl hop
  | clearWaker operation =>
    cases hst
    exact .inr (.single (.waiters fun op hop => .inl (mem_erase.mp hop).2))
  | takeCompletion operation =>
    cases hst
    exact .inr (.single (.taken operation))
  | abandonOperation operation =>
    cases hst
    exact .inr (.single (.abandoned operation))
  | deferBufferDrop operation buffer =>
    cases hst
    exact .inl ⟨operation, buffer, rfl, rfl⟩
  | dispatchAvailableLimit limit =>
    cases hst
    exact .inr (.single (.dispatched
      ((traced_leads s).dispatchAvailableLimit limit fun _ _ => id)))
  | waitAndDispatch kernel fuel minComplete =>
    obtain ⟨x, hx, rfl⟩ := map_eq_some_iff.mp hst
    exact .inr (.single (.dispatched ((traced_leads s).waitAndDispatch (fun _ _ => id) hx)))
  | drainUntilIdle kernel fuel maxWaits =>
    obtain ⟨x, hx, rfl⟩ := map_eq_some_iff.mp hst
    have hleads := (traced_leads s).drainUntilIdle (fun _ _ => id) hx
    rw [append_assoc] at hleads
    exact .inr (.single (.dispatched hleads))
  | shutdownDrain kernel fuel maxWaits =>
    obtain ⟨x, hx, rfl⟩ := map_eq_some_iff.mp hst
    exact .inr (acts_shutdownDrain hx)
  | poll operation waker =>
    have hleads := (traced_leads s).dispatchAvailableLimit usizeMax fun _ _ => id
    dsimp only at hst
    rw [Executor.Uring.pollOperation_eq] at hst
    have htaken : Act (s.trace s.dispatcher.dispatchAvailable.2.2 (s.dispatcher.dispatchedBy
      usizeMax)) (.poll operation waker) _ := .taken operation
    simp only [trace, takeCompletion] at htaken hst
    cases hlookup : s.dispatcher.dispatchAvailable.2.2.completions.lookup operation with
    | none =>
      rw [hlookup] at hst
      cases hst
      rw [toList_none, append_nil]
      refine .inr ((Relation.ReflTransGen.single (.dispatched hleads)).tail
        (.waiters fun op hop => ?_))
      rcases (mem_insert _).mp hop with rfl | hop
      · exact .inr ⟨waker, .inr rfl⟩
      · exact .inl hop
    | some completion =>
      rw [hlookup] at hst htaken
      cases hst
      exact .inr ((Relation.ReflTransGen.single (.dispatched hleads)).tail htaken)
  | drop kernel fuel =>
    obtain ⟨x, hx, rfl⟩ := map_eq_some_iff.mp hst
    exact .inr (acts_drop h hx)
  | post completions =>
    cases hst
    exact .inr (.single (.dispatched (hring ⟨rfl, rfl⟩)))

end Acts

end Session
end Sitas.Os.Uring
