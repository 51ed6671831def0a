import Sitas.Mailbox.Closure

namespace Sitas.Mailbox
open Sitas.Lib List SharedMailbox Option

namespace SharedMailbox
variable {M W : Type}

/-- A receive waker is stored only beside an empty queue that may still be filled. -/
def Waiting (s : SharedMailbox M W) : Prop :=
  s.recvWaker ≠ none → s.queue = [] ∧ s.noMoreMessages = false

/-- A critical section keeps the stored receive waker or takes it along, and keeps it
only while there is something to wait for. -/
structure Passes (a : SharedMailbox M W) (r : SharedMailbox M W × List W) : Prop where
  waiting : a.Waiting → r.1.Waiting
  told : ∀ w, a.recvWaker = some w → r.1.recvWaker = some w ∨ w ∈ r.2

theorem Passes.of_taken {a : SharedMailbox M W} {r : SharedMailbox M W × List W}
    (hnone : r.1.recvWaker = none) (hws : ∀ w ∈ a.recvWaker, w ∈ r.2) : Passes a r where
  waiting _ hne := absurd hnone hne
  told w hw := .inr (hws w hw)

theorem Passes.of_kept {a : SharedMailbox M W} {r : SharedMailbox M W × List W}
    (hsame : r.1.recvWaker = a.recvWaker)
    (hwait : a.queue = [] → a.noMoreMessages = false →
      r.1.queue = [] ∧ r.1.noMoreMessages = false) : Passes a r where
  waiting h hne := hwait (h (hsame ▸ hne)).1 (h (hsame ▸ hne)).2
  told _ hw := .inl (hsame.trans hw)

theorem passes_trySend (s : SharedMailbox M W) (m : M) :
    Passes s ((s.trySend m).1, (s.trySend m).2.2) := by
  rw [trySend]
  split
  · exact .of_kept rfl fun hq hc => ⟨hq, hc⟩
  · split
    · exact .of_kept rfl fun hq hc => ⟨hq, hc⟩
    · exact .of_taken rfl fun w hw => mem_toList.mpr hw

theorem passes_tryRecv (s : SharedMailbox M W) : Passes s (s.tryRecv.1, s.tryRecv.2.2) := by
  rw [tryRecv]
  split
  next hqueue =>
    exact .of_kept rfl fun hq => absurd (hq.symm.trans hqueue) (cons_ne_nil _ _).symm
  · exact .of_kept rfl fun hq hc => ⟨hq, hc⟩

theorem passes_pollSend {s : SharedMailbox M W} {message : Option M} {w : W}
    {p : SharedMailbox M W × Option M × Poll (Except (ShardSendError M) Unit) × List W}
    (h : s.pollSend message w = some p) : Passes s (p.1, p.2.2.2) := by
  obtain ⟨m, _, rfl⟩ := map_eq_some_iff.mp h
  split
  · exact .of_kept rfl fun hq hc => ⟨hq, hc⟩
  · split
    · exact .of_taken rfl fun w hw => mem_toList.mpr hw
    · exact .of_kept rfl fun hq hc => ⟨hq, hc⟩

theorem passes_dropSend (s : SharedMailbox M W) (message : Option M) :
    Passes s (s.dropSend message) := by
  rw [dropSend]
  split <;> exact .of_kept rfl fun hq hc => ⟨hq, hc⟩

section
variable (s : SharedMailbox M W)

theorem passes_closeReceiver : Passes s s.closeReceiver := by
  rw [closeReceiver]
  split
  · exact .of_kept rfl fun hq hc => ⟨hq, hc⟩
  · exact .of_taken rfl fun w hw => mem_append_left _ (mem_toList.mpr hw)

theorem noMoreMessages_eq_false_iff : s.noMoreMessages = false ↔
    s.receiverClosed = false ∧ (s.senderFactoryOpen = true ∨ s.senderCount ≠ 0) := by
  cases hc : s.receiverClosed <;> cases hf : s.senderFactoryOpen <;> simp [noMoreMessages, hc, hf]

private theorem passes_of_sender {t : SharedMailbox M W} (hwaker : t.recvWaker = s.recvWaker)
    (hqueue : t.queue = s.queue) (hclosed : t.receiverClosed = s.receiverClosed)
    (hmay : s.queue = [] → t.senderFactoryOpen = true ∨ t.senderCount ≠ 0) : Passes s (t, []) :=
  .of_kept hwaker fun hq hc => ⟨hqueue.trans hq, (noMoreMessages_eq_false_iff t).mpr
    ⟨hclosed.trans ((noMoreMessages_eq_false_iff s).mp hc).1, hmay hq⟩⟩

theorem passes_dropSender : Passes s s.dropSender := by
  simp only [dropSender]
  split
  · exact .of_taken rfl fun w hw => mem_toList.mpr hw
  next hcond =>
    refine passes_of_sender s rfl rfl rfl fun hq => ?_
    simpa [hq, or_iff_not_imp_left] using hcond

theorem passes_addSender : Passes s (s.addSender, []) :=
  passes_of_sender s rfl rfl rfl fun _ => .inr (Nat.succ_ne_zero _)

theorem passes_closeSenderFactory : Passes s s.closeSenderFactory := by
  simp only [closeSenderFactory]
  split
  · exact .of_kept rfl fun hq hc => ⟨hq, hc⟩
  · split
    · exact .of_taken rfl fun w hw => mem_toList.mpr hw
    next hcond =>
      refine passes_of_sender s rfl rfl rfl fun hq => ?_
      simpa [hq, or_iff_not_imp_left] using hcond

end

end SharedMailbox

namespace Traffic
variable {M W : Type}

/-- The stored receive waker has something to wait for. A pending receive future has its
waker stored, or it was woken, or an operation in progress is about to wake it. -/
structure Registered (s : Traffic M W) : Prop where
  waiting : s.mailbox.Waiting
  heard : ∀ w, s.parked.waker () = some w →
    s.mailbox.recvWaker = some w ∨ s.parked.Woken () ∨ w ∈ s.waking

variable {s t : Traffic M W}

private theorem registered_new (shardId capacity : Nat) :
    Registered (new shardId capacity : Traffic M W) where
  waiting hne := absurd rfl hne
  heard w hw := by cases hw

private theorem Registered.pass (h : Registered s) {ws : List W}
    (hp : s.mailbox.Passes (t.mailbox, ws)) (hparked : t.parked = s.parked)
    (hwaking : t.waking = s.waking ++ ws) : Registered t where
  waiting := hp.waiting h.waiting
  heard w hw := by
    rw [hparked] at hw ⊢
    rw [hwaking]
    rcases h.heard w hw with hstored | hwoken | hmem
    · rcases hp.told w hstored with hkept | htaken
      · exact .inl hkept
      · exact .inr (.inr (mem_append_right _ htaken))
    · exact .inr (.inl hwoken)
    · exact .inr (.inr (mem_append_left _ hmem))

private theorem Registered.leave (h : s.mailbox.Waiting) (hparked : s.parked.waker () = none) :
    Registered s where
  waiting := h
  heard w hw := by cases hparked.symm.trans hw

private theorem waker_leave_self (p : Parking Unit W) : (p.leave ()).waker () = none := by
  rw [Parking.waker_leave, if_pos rfl]

variable [DecidableEq W]

private theorem Registered.wake (h : Registered s) (w : W) :
    Registered { s with waking := s.waking.erase w, parked := s.parked.wake [w] } where
  waiting := h.waiting
  heard v hv := by
    change (s.parked.wake [w]).waker () = some v at hv
    rw [Parking.waker_wake] at hv
    by_cases hvw : v = w
    · exact .inr (.inl (Parking.woken_of_mem hv (mem_singleton.mpr hvw)))
    · rcases h.heard v hv with hstored | hwoken | hmem
      · exact .inl hstored
      · exact .inr (.inl (hwoken.wake [w]))
      · exact .inr (.inr ((mem_erase_of_ne hvw).mpr hmem))

private theorem Registered.pollRecv (h : Registered s) {w : W} {r : Response M}
    (hst : s.respond (.pollRecv w) = some (t, r)) : Registered t := by
  obtain ⟨_, hst⟩ := ite_none_right_eq_some.mp hst
  cases hqueue : s.mailbox.queue with
  | nil =>
    cases hfinal : s.mailbox.noMoreMessages with
    | true =>
      rw [pollRecv_of_closed hqueue hfinal] at hst
      cases hst
      exact .leave h.waiting (waker_leave_self s.parked)
    | false =>
      rw [pollRecv_of_open hqueue hfinal] at hst
      cases hst
      refine ⟨fun _ => ⟨hqueue, hfinal⟩, fun v hv => .inl ?_⟩
      change (s.parked.park () w).waker () = some v at hv
      rwa [Parking.waker_park, if_pos rfl] at hv
  | cons m queue =>
    have hnone : s.mailbox.recvWaker = none := by
      by_contra hne
      exact cons_ne_nil _ _ (hqueue.symm.trans (h.waiting hne).1)
    rw [pollRecv_of_cons hqueue] at hst
    cases hst
    exact .leave (fun hne => absurd hnone hne) (waker_leave_self s.parked)

private theorem Registered.respond (h : Registered s) {a : TrafficEvent M W} {r : Response M}
    (hst : s.respond a = some (t, r)) : Registered t := by
  cases a with
  | senderTo k | cloneSender j k =>
    obtain ⟨_, ⟨⟩⟩ := guarded hst
    exact h.pass s.mailbox.passes_addSender rfl rfl
  | receiverFor =>
    obtain ⟨_, _, rfl | rfl⟩ := respond_receiverFor hst
    · exact h
    · exact h.pass (.of_kept rfl fun hq hc => ⟨hq, hc⟩) rfl rfl
  | dropSet =>
    obtain ⟨_, ⟨⟩⟩ := guarded hst
    exact h.pass s.mailbox.passes_closeSenderFactory rfl rfl
  | dropSender k =>
    obtain ⟨_, ⟨⟩⟩ := guarded hst
    exact h.pass s.mailbox.passes_dropSender rfl rfl
  | closeSender k | closeReceiver | dropReceiver =>
    obtain ⟨_, ⟨⟩⟩ := guarded hst
    exact h.pass s.mailbox.passes_closeReceiver rfl rfl
  | trySend k m =>
    obtain ⟨_, ⟨⟩⟩ := guarded hst
    exact h.pass (s.mailbox.passes_trySend m) rfl rfl
  | pollSend f w =>
    obtain ⟨q, _, hst⟩ := bind_eq_some_iff.mp hst
    obtain ⟨p, hp, hpair⟩ := map_eq_some_iff.mp hst
    cases hpair
    exact h.pass (passes_pollSend hp) rfl rfl
  | dropSend f =>
    obtain ⟨q, _, hpair⟩ := map_eq_some_iff.mp hst
    cases hpair
    exact h.pass (s.mailbox.passes_dropSend q.message) rfl rfl
  | tryRecv =>
    obtain ⟨_, ⟨⟩⟩ := guarded hst
    exact h.pass s.mailbox.passes_tryRecv rfl rfl
  | pollRecv w => exact h.pollRecv hst
  | dropRecv =>
    obtain ⟨_, ⟨⟩⟩ := guarded hst
    exact .leave h.waiting (waker_leave_self s.parked)
  | wake w =>
    obtain ⟨_, ⟨⟩⟩ := guarded hst
    exact h.wake w
  | send k f m | recv =>
    obtain ⟨_, ⟨⟩⟩ := guarded hst
    exact { h with }

/-- A registered receive waker stands beside an empty queue of an open mailbox that may
still get messages. Once the operations in progress are done, a pending receive future
has its waker registered or was woken. -/
theorem pending_recv_registered_or_woken (shardId capacity : Nat) {s : Traffic M W}
    (h : Reachable step (new shardId capacity) s) :
    (s.mailbox.recvWaker ≠ none → s.mailbox.queue = [] ∧ s.mailbox.receiverClosed = false ∧
      (s.mailbox.senderFactoryOpen = true ∨ s.senders.Nonempty)) ∧
      (s.waking = [] → ∀ w, s.parked.waker () = some w →
        s.mailbox.recvWaker = some w ∨ s.parked.Woken ()) := by
  have hregistered : Registered s := by
    refine h.invariant (registered_new shardId capacity) fun u a v hu _ hst => ?_
    obtain ⟨r, hr⟩ := respond_of_step hst
    exact hu.respond hr
  refine ⟨fun hne => ?_, fun hidle w hw => ?_⟩
  · obtain ⟨hqueue, hmore⟩ := hregistered.waiting hne
    obtain ⟨hopen, halive⟩ := (noMoreMessages_eq_false_iff _).mp hmore
    refine ⟨hqueue, hopen, halive.imp id fun hcount => ?_⟩
    rw [(Handled.of_reachable shardId capacity h).count] at hcount
    exact Finset.card_ne_zero.mp hcount
  · rcases hregistered.heard w hw with hstored | hwoken | hmem
    · exact .inl hstored
    · exact .inr hwoken
    · rw [hidle] at hmem
      cases hmem

private def noticed : Traffic Nat Nat :=
  (run step (new 0 1) [.senderTo 0, .receiverFor, .recv, .pollRecv 5, .trySend 0 7,
    .wake 5]).get (by decide +kernel)

/-- The waker is no longer registered, so the future has been woken. -/
theorem arrived_message_wakes_receiver : ∃ s : Traffic Nat Nat,
    Reachable step (new 0 1) s ∧ s.waking = [] ∧ s.parked.waker () = some 5 ∧
      s.mailbox.recvWaker = none ∧ s.parked.Woken () := by
  have hreach : Reachable step (new 0 1) noticed := reachable_of_run _ (some_get _).symm
  have hidle : noticed.waking = [] := by decide +kernel
  have hparked : noticed.parked.waker () = some 5 := by decide +kernel
  have hnone : noticed.mailbox.recvWaker = none := by decide +kernel
  refine ⟨noticed, hreach, hidle, hparked, hnone, ?_⟩
  refine ((pending_recv_registered_or_woken 0 1 hreach).2 hidle 5 hparked).resolve_left ?_
  rw [hnone]
  exact (some_ne_none 5).symm

end Traffic
end Sitas.Mailbox
