import Sitas.Mailbox.Delivery

namespace Sitas.Mailbox
open Sitas.Lib List SharedMailbox Option

namespace SharedMailbox
variable {M W : Type}

structure SameSenders (a b : SharedMailbox M W) : Prop where
  count : b.senderCount = a.senderCount
  factory : b.senderFactoryOpen = a.senderFactoryOpen

section
variable (s : SharedMailbox M W)

theorem sameSenders_trySend (m : M) : SameSenders s (s.trySend m).1 := by
  rw [trySend]
  split
  · exact ⟨rfl, rfl⟩
  · split <;> exact ⟨rfl, rfl⟩

theorem sameSenders_tryRecv : SameSenders s s.tryRecv.1 := by
  rw [tryRecv]
  split <;> exact ⟨rfl, rfl⟩

theorem sameSenders_pollRecv (w : W) : SameSenders s (s.pollRecv w).1 := by
  rw [pollRecv]
  split
  · exact ⟨rfl, rfl⟩
  · split <;> exact ⟨rfl, rfl⟩

theorem sameSenders_closeReceiver : SameSenders s s.closeReceiver.1 := by
  rw [closeReceiver]
  split <;> exact ⟨rfl, rfl⟩

theorem sameSenders_dropSend (message : Option M) : SameSenders s (s.dropSend message).1 := by
  rw [dropSend]
  split <;> exact ⟨rfl, rfl⟩

end

theorem sameSenders_pollSend {s : SharedMailbox M W} {message : Option M} {w : W}
    {p : SharedMailbox M W × Option M × Poll (Except (ShardSendError M) Unit) × List W}
    (h : s.pollSend message w = some p) : SameSenders s p.1 := by
  obtain ⟨m, _, rfl⟩ := map_eq_some_iff.mp h
  split
  · exact ⟨rfl, rfl⟩
  · split <;> exact ⟨rfl, rfl⟩

section
variable (s : SharedMailbox M W)

theorem dropSender_count : s.dropSender.1.senderCount = s.senderCount - 1 := by
  simp only [dropSender]
  split <;> rfl

theorem dropSender_factory : s.dropSender.1.senderFactoryOpen = s.senderFactoryOpen := by
  simp only [dropSender]
  split <;> rfl

theorem closeSenderFactory_count : s.closeSenderFactory.1.senderCount = s.senderCount := by
  simp only [closeSenderFactory]
  split
  · rfl
  · split <;> rfl

theorem closeSenderFactory_factory : s.closeSenderFactory.1.senderFactoryOpen = false := by
  simp only [closeSenderFactory]
  split
  next h =>
    simpa using h
  · split <;> rfl

theorem closeReceiver_closed : s.closeReceiver.1.receiverClosed = true := by
  rw [closeReceiver]
  split
  · assumption
  · rfl

theorem dropSender_closed : s.dropSender.1.receiverClosed = s.receiverClosed := by
  simp only [dropSender]
  split <;> rfl

theorem closeSenderFactory_closed : s.closeSenderFactory.1.receiverClosed = s.receiverClosed := by
  simp only [closeSenderFactory]
  split
  · rfl
  · split <;> rfl

end

theorem dropSend_closed (s : SharedMailbox M W) (message : Option M) :
    (s.dropSend message).1.receiverClosed = s.receiverClosed := by
  rw [dropSend]
  split <;> rfl

theorem noMoreMessages_iff (s : SharedMailbox M W) : s.noMoreMessages = true ↔
    s.receiverClosed = true ∨ s.senderFactoryOpen = false ∧ s.senderCount = 0 := by
  simp [noMoreMessages]

/-- The queue is empty and nothing can be added to it. -/
structure Ended (s : SharedMailbox M W) : Prop where
  empty : s.queue = []
  final : s.noMoreMessages = true

theorem Ended.of_le {a b : SharedMailbox M W} (h : Ended a) (hqueue : b.queue = a.queue)
    (hclosed : a.receiverClosed = true → b.receiverClosed = true)
    (hfactory : a.senderFactoryOpen = false → b.senderFactoryOpen = false)
    (hcount : b.senderCount ≤ a.senderCount) : Ended b where
  empty := hqueue.trans h.empty
  final := by
    refine b.noMoreMessages_iff.mpr ?_
    rcases a.noMoreMessages_iff.mp h.final with hc | ⟨hf, h0⟩
    · exact .inl (hclosed hc)
    · exact .inr ⟨hfactory hf, Nat.le_zero.mp (h0 ▸ hcount)⟩

end SharedMailbox

/-- What a receive after the end reports, and what a send then does not. -/
def Response.Final {M : Type} : Response M → Prop
  | .received result => result = .ready (.error .closed)
  | .sent result => result ≠ .ready (.ok ())
  | _ => True

namespace Traffic
variable {M W : Type}

/-- The mailbox counts the live sender handles, its factory flag follows the set, and
every send future borrows a live handle. -/
structure Handled (s : Traffic M W) : Prop where
  count : s.mailbox.senderCount = s.senders.card
  factory : s.mailbox.senderFactoryOpen = s.setAlive
  borrowed : ∀ r ∈ s.sends, r.sender ∈ s.senders

variable {s t : Traffic M W}

private theorem handled_new (shardId capacity : Nat) :
    Handled (new shardId capacity : Traffic M W) where
  count := rfl
  factory := rfl
  borrowed _ hr := nomatch hr

private theorem Handled.same (h : Handled s) (hsame : s.mailbox.SameSenders t.mailbox)
    (hsenders : t.senders = s.senders) (hset : t.setAlive = s.setAlive)
    (hsends : ∀ r ∈ t.sends, r ∈ s.sends ∨ r.sender ∈ s.senders) : Handled t where
  count := by rw [hsame.count, hsenders, h.count]
  factory := by rw [hsame.factory, hset, h.factory]
  borrowed r hr := hsenders ▸ (hsends r hr).elim (h.borrowed r) id

private theorem Handled.add (h : Handled s) {k : Nat} (hk : k ∉ s.senders) :
    Handled { s.after (s.mailbox.addSender, []) with senders := insert k s.senders } where
  count := by
    change s.mailbox.senderCount + 1 = (insert k s.senders).card
    rw [Finset.card_insert_of_notMem hk, h.count]
  factory := h.factory
  borrowed r hr := Finset.mem_insert_of_mem (h.borrowed r hr)

private theorem Handled.drop (h : Handled s) {k : Nat} (hk : k ∈ s.senders)
    (hfree : ∀ r ∈ s.sends, r.sender ≠ k) :
    Handled { s.after s.mailbox.dropSender with senders := s.senders.erase k } where
  count := by
    change s.mailbox.dropSender.1.senderCount = (s.senders.erase k).card
    rw [dropSender_count, Finset.card_erase_of_mem hk, h.count]
  factory := s.mailbox.dropSender_factory.trans h.factory
  borrowed r hr := Finset.mem_erase.mpr ⟨hfree r hr, h.borrowed r hr⟩

variable [DecidableEq W]

private theorem Handled.respond (h : Handled s) {a : TrafficEvent M W} {r : Response M}
    (hst : s.respond a = some (t, r)) : Handled t := by
  cases a with
  | senderTo k | cloneSender j k =>
    obtain ⟨hok, ⟨⟩⟩ := guarded hst
    exact h.add hok.2
  | receiverFor =>
    obtain ⟨_, _, rfl | rfl⟩ := respond_receiverFor hst
    · exact h
    · exact h.same ⟨rfl, rfl⟩ rfl rfl fun _ => .inl
  | dropSet =>
    obtain ⟨_, ⟨⟩⟩ := guarded hst
    exact ⟨s.mailbox.closeSenderFactory_count.trans h.count,
      s.mailbox.closeSenderFactory_factory, h.borrowed⟩
  | dropSender k =>
    obtain ⟨hok, ⟨⟩⟩ := guarded hst
    exact h.drop hok.1 hok.2
  | closeSender k | closeReceiver | dropReceiver =>
    obtain ⟨_, ⟨⟩⟩ := guarded hst
    exact h.same s.mailbox.sameSenders_closeReceiver rfl rfl fun _ => .inl
  | trySend k m =>
    obtain ⟨_, ⟨⟩⟩ := guarded hst
    exact h.same (s.mailbox.sameSenders_trySend m) rfl rfl fun _ => .inl
  | send k f m =>
    obtain ⟨hok, ⟨⟩⟩ := guarded hst
    refine h.same ⟨rfl, rfl⟩ rfl rfl fun q hq => ?_
    rcases mem_cons.mp hq with rfl | hq
    · exact .inr hok.1
    · exact .inl (mem_of_mem_filter hq)
  | pollSend f w =>
    obtain ⟨q, hq, hst⟩ := bind_eq_some_iff.mp hst
    obtain ⟨p, hp, he⟩ := map_eq_some_iff.mp hst
    cases he
    refine h.same (sameSenders_pollSend hp) rfl rfl fun q' hq' => ?_
    rcases mem_cons.mp hq' with rfl | hq'
    · exact .inr (h.borrowed q (mem_of_find?_eq_some hq))
    · exact .inl (mem_of_mem_filter hq')
  | dropSend f =>
    obtain ⟨q, _, he⟩ := map_eq_some_iff.mp hst
    cases he
    exact h.same (s.mailbox.sameSenders_dropSend _) rfl rfl fun _ hr =>
      .inl (mem_of_mem_filter hr)
  | tryRecv =>
    obtain ⟨_, ⟨⟩⟩ := guarded hst
    exact h.same s.mailbox.sameSenders_tryRecv rfl rfl fun _ => .inl
  | pollRecv w =>
    obtain ⟨_, ⟨⟩⟩ := guarded hst
    exact h.same (s.mailbox.sameSenders_pollRecv w) rfl rfl fun _ => .inl
  | recv | dropRecv | wake w =>
    obtain ⟨_, ⟨⟩⟩ := guarded hst
    exact { h with }

omit [DecidableEq W] in
private theorem Handled.closed_of_ended (h : Handled s) (he : s.mailbox.Ended)
    (halive : s.setAlive = true ∨ ∃ k, k ∈ s.senders) : s.mailbox.receiverClosed = true := by
  refine (s.mailbox.noMoreMessages_iff.mp he.final).resolve_right fun ⟨hf, h0⟩ => ?_
  rcases halive with hset | ⟨k, hk⟩
  · exact Bool.false_ne_true (hf.symm.trans (h.factory.trans hset))
  · exact (Finset.card_pos.mpr ⟨k, hk⟩).ne' (h.count.symm.trans h0)

/-- The end of a mailbox is final: no step leaves it. -/
private theorem Handled.respond_ended (h : Handled s) (he : s.mailbox.Ended)
    {a : TrafficEvent M W} {r : Response M} (hst : s.respond a = some (t, r)) :
    t.mailbox.Ended ∧ r.Final := by
  cases a with
  | senderTo k =>
    obtain ⟨hok, ⟨⟩⟩ := guarded hst
    have hc := h.closed_of_ended he (.inl hok.1)
    exact ⟨⟨he.empty, noMoreMessages_iff _ |>.mpr (.inl hc)⟩, trivial⟩
  | cloneSender j k =>
    obtain ⟨hok, ⟨⟩⟩ := guarded hst
    have hc := h.closed_of_ended he (.inr ⟨j, hok.1⟩)
    exact ⟨⟨he.empty, noMoreMessages_iff _ |>.mpr (.inl hc)⟩, trivial⟩
  | receiverFor =>
    obtain ⟨_, rfl, rfl | rfl⟩ := respond_receiverFor hst
    · exact ⟨he, trivial⟩
    · exact ⟨he.of_le rfl id id le_rfl, trivial⟩
  | dropSet =>
    obtain ⟨_, ⟨⟩⟩ := guarded hst
    exact ⟨he.of_le s.mailbox.sameMessages_closeSenderFactory.queue
      s.mailbox.closeSenderFactory_closed.trans
      (fun _ => s.mailbox.closeSenderFactory_factory)
      (Nat.le_of_eq s.mailbox.closeSenderFactory_count), trivial⟩
  | dropSender k =>
    obtain ⟨_, ⟨⟩⟩ := guarded hst
    exact ⟨he.of_le s.mailbox.sameMessages_dropSender.queue s.mailbox.dropSender_closed.trans
      s.mailbox.dropSender_factory.trans
      (s.mailbox.dropSender_count ▸ Nat.sub_le _ 1), trivial⟩
  | closeSender k | closeReceiver | dropReceiver =>
    obtain ⟨_, ⟨⟩⟩ := guarded hst
    exact ⟨⟨s.mailbox.sameMessages_closeReceiver.queue.trans he.empty,
      noMoreMessages_iff _ |>.mpr (.inl s.mailbox.closeReceiver_closed)⟩, trivial⟩
  | trySend k m =>
    obtain ⟨hok, hst⟩ := ite_none_right_eq_some.mp hst
    have hc := h.closed_of_ended he (.inr ⟨k, hok⟩)
    rw [trySend_of_closed hc] at hst
    cases hst
    exact ⟨he.of_le rfl id id le_rfl, fun hr => by cases hr⟩
  | send k f m | recv | dropRecv | wake w =>
    obtain ⟨_, ⟨⟩⟩ := guarded hst
    exact ⟨he, trivial⟩
  | pollSend f w =>
    obtain ⟨q, hq, hst⟩ := bind_eq_some_iff.mp hst
    obtain ⟨p, hp, hpair⟩ := map_eq_some_iff.mp hst
    have hc := h.closed_of_ended he (.inr ⟨_, h.borrowed q (mem_of_find?_eq_some hq)⟩)
    cases hm : q.message with
    | none =>
      rw [hm] at hp
      cases hp
    | some m =>
      rw [hm, pollSend_of_closed hc] at hp
      cases hp
      cases hpair
      exact ⟨he.of_le rfl id id le_rfl, fun hr => by cases hr⟩
  | dropSend f =>
    obtain ⟨q, _, hpair⟩ := map_eq_some_iff.mp hst
    cases hpair
    have hsenders := s.mailbox.sameSenders_dropSend q.message
    exact ⟨he.of_le (s.mailbox.sameMessages_dropSend _).queue
      (s.mailbox.dropSend_closed q.message).trans hsenders.factory.trans
      (Nat.le_of_eq hsenders.count), trivial⟩
  | tryRecv | pollRecv w =>
    obtain ⟨_, hst⟩ := ite_none_right_eq_some.mp hst
    simp only [tryRecv_of_nil he.empty, he.final,
      pollRecv_of_closed he.empty he.final] at hst
    cases hst
    exact ⟨he, rfl⟩

private theorem ended_of_closed {a : TrafficEvent M W}
    (hst : s.respond a = some (t, .received (.ready (.error .closed)))) :
    s.mailbox.Ended ∧ t.mailbox = s.mailbox := by
  cases a with
  | tryRecv | pollRecv w =>
    obtain ⟨_, hst⟩ := ite_none_right_eq_some.mp hst
    cases hqueue : s.mailbox.queue with
    | nil =>
      cases hfinal : s.mailbox.noMoreMessages with
      | true =>
        simp only [tryRecv_of_nil hqueue, hfinal,
          pollRecv_of_closed hqueue hfinal] at hst
        cases hst
        exact ⟨⟨hqueue, hfinal⟩, rfl⟩
      | false =>
        simp only [tryRecv_of_nil hqueue, hfinal,
          pollRecv_of_open hqueue hfinal] at hst
        cases hst
    | cons m queue =>
      simp only [tryRecv_of_cons hqueue, pollRecv_of_cons hqueue] at hst
      cases hst
  | receiverFor =>
    obtain ⟨_, ⟨⟩, _⟩ := respond_receiverFor hst
  | pollSend f w =>
    obtain ⟨q, _, hst⟩ := bind_eq_some_iff.mp hst
    obtain ⟨p, _, hpair⟩ := map_eq_some_iff.mp hst
    cases hpair
  | dropSend f =>
    obtain ⟨q, _, hpair⟩ := map_eq_some_iff.mp hst
    cases hpair
  | _ =>
    obtain ⟨_, ⟨⟩⟩ := guarded hst

theorem Handled.of_reachable (shardId capacity : Nat)
    (h : Reachable step (new shardId capacity) s) : Handled s := by
  refine h.invariant (handled_new shardId capacity) fun u a v hu _ hst => ?_
  obtain ⟨r, hr⟩ := respond_of_step hst
  exact hu.respond hr

/-- The sender count is the number of live handles. A receive reports closed only after the last
accepted message, and for good. -/
theorem closed_report_is_final (shardId capacity : Nat) {s : Traffic M W}
    (h : Reachable step (new shardId capacity) s) :
    s.mailbox.senderCount = s.senders.card ∧
      ∀ a t, s.respond a = some (t, .received (.ready (.error .closed))) →
        s.received = s.accepted ∧
          ∀ u, Reachable step t u → ∀ b v r, u.respond b = some (v, r) → r.Final := by
  have hhandled := Handled.of_reachable shardId capacity h
  refine ⟨hhandled.count, fun a t hst => ?_⟩
  obtain ⟨hended, hmailbox⟩ := ended_of_closed hst
  refine ⟨?_, fun u hu => ?_⟩
  · have horder := (Delivered.of_reachable shardId h).order
    rwa [hended.empty, append_nil] at horder
  · have hlast : Handled u ∧ u.mailbox.Ended := by
      induction hu with
      | start => exact ⟨hhandled.respond hst, hmailbox ▸ hended⟩
      | next _ _ hxy ih =>
        obtain ⟨q, hq⟩ := respond_of_step hxy
        exact ⟨ih.1.respond hq, (ih.1.respond_ended ih.2 hq).1⟩
    intro b v r hb
    exact (hlast.1.respond_ended hlast.2 hb).2

private def orphaned : Traffic Nat Nat :=
  (run step (new 0 1) [.senderTo 0, .receiverFor, .trySend 0 7, .dropSet, .dropSender 0,
    .tryRecv]).get (by decide +kernel)

/-- The queued message is received before the mailbox reports closed. -/
theorem orphaned_mailbox_drains : ∃ s t : Traffic Nat Nat,
    Reachable step (new 0 1) s ∧
      s.respond .tryRecv = some (t, .received (.ready (.error .closed))) ∧
      s.mailbox.senderCount = 0 ∧ s.received = s.accepted ∧ s.accepted = [7] ∧
      ∀ u, Reachable step t u → ∀ b v r, u.respond b = some (v, r) → r.Final := by
  have hreach : Reachable step (new 0 1) orphaned := reachable_of_run _ (some_get _).symm
  have hclosed : (orphaned.respond .tryRecv).map Prod.snd =
      some (.received (.ready (.error .closed))) := by decide +kernel
  obtain ⟨⟨t, r⟩, ht, rfl⟩ := map_eq_some_iff.mp hclosed
  obtain ⟨hcount, hfinal⟩ := closed_report_is_final 0 1 hreach
  obtain ⟨hall, hlater⟩ := hfinal .tryRecv t ht
  exact ⟨orphaned, t, hreach, ht, hcount.trans (by decide +kernel), hall, by decide +kernel,
    hlater⟩

end Traffic
end Sitas.Mailbox
