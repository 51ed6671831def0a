import Sitas.Runtime.StreamSound

namespace Sitas.Runtime.Stream
open Sitas.Lib List Sitas.Runtime.Stream
variable {T W : Type}

section Progress
variable {s t : Stream T W} {e : StreamEvent T W}

/-- The steps that finish calls and destructors in progress and let a notified consumer go on. -/
def Prompted (s : Stream T W) : StreamEvent T W → Prop
  | .lockDrop _ | .notifyAll _ | .wake _ | .proceed => True
  | .resume => ∃ call, s.consumer = .blocked call true
  | _ => False

/-- There is a value or the end of the stream for the consumer. -/
def Due (s : Stream T W) : Prop := s.state.values ≠ [] ∨ s.senderCount = 0

/-- The consumer is not inside `recv_batch`, and the waker of a pending poll was woken. -/
def Served (s : Stream T W) : Prop :=
  match s.consumer with
  | .counted _ _ | .blocked _ _ => False
  | .pending w => w ∈ s.woken
  | .idle | .polling _ _ | .polled _ _ | .gone => True

def senderWeight : StreamSenderState → Nat
  | .dropping => 3
  | .alive | .dropped => 0

def callWeight (call : StreamCall W) : Nat :=
  match call.phase with
  | .notifying _ => 2
  | .waking _ => 1
  | .finished => 0

/-- A count that was read before the last sender was dropped costs one more round. -/
def consumerWeight : StreamConsumer W → Nat
  | .counted _ count => if count = 0 then 1 else 3
  | .blocked _ _ => 2
  | .idle | .pending _ | .polling _ _ | .polled _ _ | .gone => 0

def weight (s : Stream T W) : Nat :=
  (s.senders.map senderWeight).sum + (s.calls.map callWeight).sum + consumerWeight s.consumer

private theorem consumerWeight_notify (consumer : StreamConsumer W) :
    consumerWeight consumer.notify = consumerWeight consumer := by
  cases consumer <;> rfl

theorem Sound.dropping_of_live (h : Sound s) (hlive : s.Live) (hzero : s.senderCount = 0) :
    ∃ i : Nat, s.senders[i]? = some StreamSenderState.dropping := by
  obtain ⟨p, hp, rfl | rfl⟩ := hlive
  · rw [h.counted] at hzero
    exact absurd hp (count_eq_zero.mp hzero)
  · exact getElem?_of_mem hp

private theorem Sound.lockDrop_enabled (h : Sound s) (hdue : s.Due)
    (hquiet : s.state.values = [] ∧ s.Live) (hfree : s.consumer.locks = false) :
    ∃ e t, Prompted s e ∧ Stream.step s e = some t := by
  obtain ⟨i, hi⟩ := h.dropping_of_live hquiet.2 (hdue.resolve_left fun hne => hne hquiet.1)
  exact ⟨.lockDrop i, _, trivial, if_pos ⟨hi, hfree⟩⟩

/-- As long as the consumer is not served some thread can go on. -/
theorem Sound.prompted_step (h : Sound s) (hdue : s.Due) (hserved : ¬ s.Served) :
    ∃ e t, Prompted s e ∧ Stream.step s e = some t := by
  have hattended := h.attended
  unfold Served at hserved
  cases hc : s.consumer with
  | counted call count =>
    exact ⟨.proceed, s.endOrWait call count, trivial, by simp [Stream.step, hc]⟩
  | blocked call notified =>
    cases notified with
    | true => exact ⟨.resume, s.recvBatch call, ⟨call, hc⟩, by simp [Stream.step, hc]⟩
    | false =>
      rw [hc] at hattended
      obtain hquiet | ⟨call, hmem, waker, hphase⟩ := hattended
      · exact h.lockDrop_enabled hdue hquiet (by rw [hc]; rfl)
      · obtain ⟨k, hk⟩ := getElem?_of_mem hmem
        cases call with
        | mk sender phase =>
          cases hphase
          exact ⟨.notifyAll k, _, trivial, by simp only [Stream.step, hk]; rfl⟩
  | pending w =>
    rw [hc] at hattended hserved
    obtain hw | ⟨⟨sender, phase⟩, hmem, hw⟩ | hw := hattended
    · exact h.lockDrop_enabled hdue (h.waker w hw) (by rw [hc]; rfl)
    · obtain ⟨k, hk⟩ := getElem?_of_mem hmem
      cases phase with
      | notifying => exact ⟨.notifyAll k, _, trivial, by simp only [Stream.step, hk]; rfl⟩
      | waking => exact ⟨.wake k, _, trivial, by simp only [Stream.step, hk]; rfl⟩
      | finished => cases hw
    · exact absurd hw hserved
  | idle | polling | polled | gone =>
    rw [hc] at hserved
    exact absurd trivial hserved

/-- What is there for the consumer stays there until it is handed out. -/
theorem Sound.due_step (h : Sound s) (hdue : s.Due) (hserved : ¬ s.Served)
    (hprompted : Prompted s e) (hst : Stream.step s e = some t) :
    (t.Due ∨ t.Served) ∧ t.weight < s.weight := by
  revert hst
  fun_cases Stream.step s e <;> rintro ⟨⟩ <;> try exact hprompted.elim
  next sender hguard =>
    have hsenders := sum_map_set senderWeight (y := .dropped) hguard.1
    refine ⟨.inl hdue, ?_⟩
    simp only [weight, Stream.lockDrop, map_append, sum_append, map_cons,
      map_nil, sum_cons, sum_nil, callWeight]
    simp only [senderWeight] at hsenders ⊢
    omega
  next k sender waker hk =>
    have hcalls := sum_map_set callWeight (y := ⟨sender, .waking waker⟩) hk
    refine ⟨.inl hdue, ?_⟩
    simp only [weight, consumerWeight_notify]
    simp only [callWeight] at hcalls ⊢
    omega
  next k sender waker hk =>
    have hcalls := sum_map_set callWeight (y := ⟨sender, .finished⟩) hk
    refine ⟨.inl hdue, ?_⟩
    simp only [weight]
    simp only [callWeight] at hcalls ⊢
    omega
  next call _ hc =>
    unfold Stream.recvBatch
    rw [take_eq h.index]
    by_cases hvalues : s.state.values = []
    · rw [if_pos hvalues]
      have hzero : s.senderCount = 0 := hdue.resolve_left fun hne => hne hvalues
      exact ⟨.inl hdue, by simp [weight, consumerWeight, hc, hzero]⟩
    · rw [if_neg hvalues]
      exact ⟨.inr trivial, by simp [weight, consumerWeight, hc, Stream.hand]⟩
  next call count hc =>
    unfold Stream.endOrWait
    by_cases hzero : count = 0
    · rw [if_pos hzero]
      exact ⟨.inr trivial, by simp [weight, consumerWeight, hc, hzero, Stream.hand]⟩
    · rw [if_neg hzero]
      exact ⟨.inl hdue, by simp [weight, consumerWeight, hc, hzero]⟩
  next hc => exact absurd (by simp [Served, hc]) hserved

theorem Sound.served (h : Sound s) (hdue : s.Due) : Inevitable Stream.step Prompted Served s := by
  refine (inevitable_of_measure (fun t => Sound t ∧ (t.Due ∨ t.Served)) weight ?_ ?_
    ⟨h, .inl hdue⟩).mono fun t ht => ht.2
  · intro u hu hserved
    exact hu.1.prompted_step (hu.2.resolve_right hserved) hserved
  · intro u a v hu hserved hprompted hst
    obtain ⟨hnext, hlt⟩ := hu.1.due_step (hu.2.resolve_right hserved) hserved hprompted hst
    exact ⟨⟨hu.1.step hst, hnext⟩, hlt⟩

end Progress

section Loops
variable {s : Stream T W} {Acc : Type}

theorem drainLoop_eq (absorb : Acc → List T → Acc) (acc : Acc) {batches : List (List T)}
    (h : ∀ batch ∈ batches, batch ≠ []) :
    drainLoop absorb acc (batches ++ [[]]) = some (batches.foldl absorb acc) := by
  induction batches generalizing acc with
  | nil => rfl
  | cons batch rest ih =>
    have hne := isEmpty_eq_false_iff.mpr (h batch mem_cons_self)
    rw [cons_append, drainLoop, hne, foldl_cons]
    exact ih (absorb acc batch) fun b hb => h b (mem_cons_of_mem batch hb)

/-- A loop up to the end of the stream goes over all that was accepted and not handed out
before it. -/
theorem loops_drain_stream {before loop : List (Nat × List T)} {n : Nat}
    (h : Reachable step new s) (hpos : 0 < n) (hbatches : s.batches = before ++ loop ++ [(n, [])])
    (hloop : ∀ batch ∈ loop.map Prod.snd, batch ≠ []) :
    (∀ (f : Acc → T → Acc) acc, fold f acc (loop.map Prod.snd ++ [[]]) =
      some ((s.accepted.drop (before.map Prod.snd).flatten.length).foldl f acc)) ∧
    collect (loop.map Prod.snd ++ [[]]) =
      some (s.accepted.drop (before.map Prod.snd).flatten.length) := by
  have hs := sound_of_reachable h
  have hend : (n, []) ∈ s.batches := hbatches ▸ mem_append_right _ mem_cons_self
  have haccepted : s.accepted = (before.map Prod.snd).flatten ++ (loop.map Prod.snd).flatten := by
    rw [← hs.conserved, (hs.ended n hend hpos).2, handed, hbatches]
    simp
  rw [haccepted, drop_left]
  constructor
  · intro f acc
    rw [fold, drainLoop_eq _ acc hloop, foldl_flatten]
  · have hfoldl : (loop.map Prod.snd).foldl (· ++ ·) [] = (loop.map Prod.snd).flatten :=
      (foldl_append_eq_append (f := id)).trans (by simp)
    rw [collect, drainLoop_eq _ [] hloop, hfoldl]

/-- The first batch is received before the loop. -/
theorem loop_drains_rest : ∃ s : Stream Nat Nat, s.accepted = [7, 8] ∧
    fold (· + ·) 0 [[8], []] = some ((s.accepted.drop 1).foldl (· + ·) 0) := by
  have hreach := @reachable_of_run _ _ step (new : Stream Nat Nat) _
    [.send 0 7, .recv (.batch 3), .send 0 8, .notifyAll 0, .wake 0, .notifyAll 1, .wake 1,
      .dropSender 0, .recv (.batch 3), .recv (.batch 3), .proceed] rfl
  exact ⟨_, rfl, (loops_drain_stream hreach (by decide : 0 < 3)
    (rfl : _ = [(3, [7])] ++ [(3, [8])] ++ [(3, [])]) (by decide)).1 (· + ·) 0⟩

end Loops

/-- What a streaming reply owes to its consumer in every interleaving: the batches handed out and
the stored values are the accepted values in order, an empty batch means the end, and a consumer
that waits comes to know of a value or of the end. -/
theorem stream_delivers {s : Stream T W} (h : Reachable step new s) :
    s.handed ++ s.state.values = s.accepted ∧
    (∀ n, (n, []) ∈ s.batches → 0 < n →
      (∀ p ∈ s.senders, p ≠ .alive) ∧ s.handed = s.accepted) ∧
    (∀ w, s.state.waker = some w → s.state.values = [] ∧ s.Live) ∧
    (∀ w, s.consumer = .pending w → s.state.waker = some w ∨ s.Wakes w ∨ w ∈ s.woken) ∧
    (∀ call, s.consumer = .blocked call false →
      (s.state.values = [] ∧ s.Live) ∨ s.Notifies) ∧
    (s.state.values ≠ [] ∨ (∀ p ∈ s.senders, p ≠ .alive) → Inevitable step Prompted Served s) := by
  have hs := sound_of_reachable h
  have halive : s.senderCount = 0 ↔ ∀ p ∈ s.senders, p ≠ .alive := by
    rw [hs.counted, count_eq_zero]
    exact ⟨fun hnot p hp heq => hnot (heq ▸ hp), fun hall hmem => hall _ hmem rfl⟩
  refine ⟨hs.conserved, fun n hn hpos => ?_, hs.waker, fun w hc => ?_, fun call hc => ?_,
    fun hdue => ?_⟩
  · obtain ⟨hzero, hvalues⟩ := hs.ended n hn hpos
    have hconserved := hs.conserved
    rw [hvalues, append_nil] at hconserved
    exact ⟨halive.mp hzero, hconserved⟩
  · have hattended := hs.attended
    rwa [hc] at hattended
  · have hattended := hs.attended
    rwa [hc] at hattended
  · exact hs.served (hdue.imp_right halive.mpr)

private def droppedBeforeWait : Stream Nat Nat :=
  (run step new [.send 0 7, .recv (.batch 3), .notifyAll 0, .wake 0, .clone 0,
    .recv (.batch 3), .dropSender 0, .dropSender 1, .proceed]).get (by decide +kernel)

theorem final_drop_ends_recv_batch :
    droppedBeforeWait.consumer = .blocked (.batch 3) false ∧
    droppedBeforeWait.handed = [7] ∧
    Inevitable step Prompted Served droppedBeforeWait := by
  have hreach : Reachable step new droppedBeforeWait :=
    reachable_of_run [.send 0 7, .recv (.batch 3), .notifyAll 0, .wake 0, .clone 0,
      .recv (.batch 3), .dropSender 0, .dropSender 1, .proceed] (Option.some_get _).symm
  refine ⟨by decide +kernel, by decide +kernel, ?_⟩
  exact (stream_delivers hreach).2.2.2.2.2 (.inr (by decide +kernel))

def isDone (s : Stream T W) : Bool :=
  s.senderCount == 0 && decide (s.index ≥ s.state.values.length)

def Ended (s : Stream T W) : Prop := .alive ∉ s.senders ∧ s.state.values = []

/-- The entry points of the consumer agree on the end of the stream, but `try_recv` tells open and
ended streams apart exactly before the end. -/
theorem end_of_stream_agrees {s : Stream T W} (h : Reachable step new s) {n : Nat} (hn : 0 < n) :
    ((n, []) ∈ s.batches → s.Ended) ∧
    (s.consumer.free → s.Ended → run step s [.recv (.batch n), .proceed] =
      some (s.hand { s.state with done := true } n [])) ∧
    (s.isDone ↔ s.Ended) ∧
    (((s.tryRecv n).1 = .error .senderDropped ↔ s.Ended) ∧
      ((s.tryRecv n).1 = .ok none ↔ s.state.values = [] ∧ .alive ∈ s.senders) ∧
      (s.state.values ≠ [] → ∃ batch ≠ [], (s.tryRecv n).1 = .ok (some batch)) ↔ ¬ s.Ended) := by
  have hs := sound_of_reachable h
  have hended : s.Ended ↔ s.senderCount = 0 ∧ s.state.values = [] := by
    rw [Ended, hs.counted, count_eq_zero]
  refine ⟨fun hmem => hended.mpr (hs.ended n hmem hn), fun hfree hend => ?_, ?_, ?_⟩
  · obtain ⟨hcount, hvalues⟩ := hended.mp hend
    simp [run, step, hfree, recvBatch, take_eq hs.index, hvalues, hcount, endOrWait, hand,
      RecvCall.maxItems]
  · simp [isDone, hs.index, hended]
  · rw [tryRecv, take_eq hs.index]
    by_cases hvalues : s.state.values = []
    · by_cases halive : .alive ∈ s.senders
      · have hopen : ¬ s.Ended := fun hend => hend.1 halive
        simp [hvalues, hopen, halive]
      · have hend : s.Ended := ⟨halive, hvalues⟩
        simp [hvalues, hend]
    · have hopen : ¬ s.Ended := fun hend => hvalues hend.2
      simp [hvalues, hopen, Nat.ne_of_gt hn]

private def openCalls : List (StreamEvent Nat Nat) :=
  [.send 0 7, .send 0 8, .recv (.batch 1), .clone 0, .notifyAll 0, .wake 0, .notifyAll 1, .wake 1,
    .dropSender 0]

private def openStream : Stream Nat Nat := (run step new openCalls).get (by decide +kernel)

/-- One of two values has been received, and one of two senders dropped. -/
theorem open_stream_has_value : openStream.isDone = false ∧
    ∃ batch ≠ [], (openStream.tryRecv 3).1 = .ok (some batch) := by
  obtain ⟨_, _, hdone, hanswers⟩ := end_of_stream_agrees (s := openStream) (n := 3)
    (reachable_of_run openCalls (Option.some_get _).symm) (by decide)
  have hopen : ¬ openStream.Ended := fun hend => absurd (hdone.mpr hend) (by decide +kernel)
  exact ⟨by decide +kernel, (hanswers.mpr hopen).2.2 (by decide +kernel)⟩

/-- The only sender is dropped without a value: `try_recv` reports an open stream. -/
theorem try_recv_misses_end : ∃ s : Stream Nat Nat, run step new [.dropSender 0] = some s ∧
    s.isDone ∧ (s.tryRecv 1).1 = .ok none :=
  ⟨_, rfl, rfl, rfl⟩

end Sitas.Runtime.Stream
