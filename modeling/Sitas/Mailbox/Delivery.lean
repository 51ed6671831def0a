import Sitas.Mailbox.Traffic

namespace Sitas.Mailbox
open Sitas.Lib List SharedMailbox Option

namespace Traffic
variable {M W : Type}

def offered (s : Traffic M W) : TrafficEvent M W → Option M
  | .trySend _ m => some m
  | .pollSend f _ => (s.findSend f).map SendFuture.given
  | _ => none

/-- The transfer history agrees with the queue and the two counters, and a waiting
message is the one its future was made with. -/
structure Delivered (capacity : Nat) (s : Traffic M W) : Prop where
  order : s.received ++ s.mailbox.queue = s.accepted
  capacity_eq : s.mailbox.capacity = capacity
  bounded : s.mailbox.queue.length ≤ capacity
  sent : s.mailbox.sent = UInt64.ofNat s.accepted.length
  received : s.mailbox.received = UInt64.ofNat s.received.length
  given : ∀ r ∈ s.sends, ∀ m, r.message = some m → m = r.given

variable {capacity : Nat} {s t : Traffic M W}

private theorem delivered_new (shardId capacity : Nat) :
    Delivered capacity (new shardId capacity : Traffic M W) where
  order := rfl
  capacity_eq := rfl
  bounded := Nat.zero_le _
  sent := rfl
  received := rfl
  given _ hr := nomatch hr

section
variable (h : Delivered capacity s)
include h

theorem Delivered.difference (hcap : capacity < UInt64.size) :
    (s.mailbox.sent - s.mailbox.received).toNat = s.mailbox.queue.length := by
  have hlen : s.accepted.length = s.received.length + s.mailbox.queue.length := by
    rw [← h.order, length_append]
  rw [h.sent, h.received, hlen, UInt64.ofNat_add, UInt64.add_comm,
    UInt64.add_sub_cancel]
  exact UInt64.toNat_ofNat_of_lt' (Nat.lt_of_le_of_lt h.bounded hcap)

private theorem Delivered.same (hsame : s.mailbox.SameMessages t.mailbox)
    (haccepted : t.accepted = s.accepted) (hreceived : t.received = s.received)
    (hsends : ∀ r ∈ t.sends, r ∈ s.sends ∨ ∀ m, r.message = some m → m = r.given) :
    Delivered capacity t where
  order := by rw [haccepted, hreceived, hsame.queue, h.order]
  capacity_eq := hsame.capacity.trans h.capacity_eq
  bounded := hsame.queue ▸ h.bounded
  sent := by rw [haccepted, hsame.sent, h.sent]
  received := by rw [hreceived, hsame.received, h.received]
  given r hr := (hsends r hr).elim (h.given r) id

private theorem Delivered.push {m : M} (hroom : s.mailbox.queue.length < capacity) (ws : List W) :
    Delivered capacity ((s.after ({ s.mailbox with
      queue := s.mailbox.queue ++ [m], sent := s.mailbox.sent + 1, recvWaker := none },
        ws)).noteSend m (.ready (.ok ()))) where
  order := by
    change s.received ++ (s.mailbox.queue ++ [m]) = s.accepted ++ [m]
    rw [← append_assoc, h.order]
  capacity_eq := h.capacity_eq
  bounded := by
    change (s.mailbox.queue ++ [m]).length ≤ capacity
    rw [length_append]
    exact hroom
  sent := by
    change s.mailbox.sent + 1 = UInt64.ofNat (s.accepted ++ [m]).length
    rw [length_append, UInt64.ofNat_add, h.sent]
    rfl
  received := h.received
  given := h.given

private theorem Delivered.pop {m : M} {queue : List M} (hqueue : s.mailbox.queue = m :: queue)
    (ws : List W) :
    Delivered capacity ((s.after ({ s.mailbox with
      queue := queue, received := s.mailbox.received + 1,
      sendWakers := s.mailbox.sendWakers.tail }, ws)).noteRecv (.ready (.ok m))) where
  order := by
    change s.received ++ [m] ++ queue = s.accepted
    rw [append_assoc, ← h.order, hqueue]
    rfl
  capacity_eq := h.capacity_eq
  bounded := by
    have hlen := h.bounded
    rw [hqueue] at hlen
    exact Nat.le_of_succ_le hlen
  sent := h.sent
  received := by
    change s.mailbox.received + 1 = UInt64.ofNat (s.received ++ [m]).length
    rw [length_append, UInt64.ofNat_add, h.received]
    rfl
  given := h.given

end

private theorem mem_sends_of_findSend {f : Nat} {r : SendFuture M} (h : s.findSend f = some r) :
    r ∈ s.sends :=
  mem_of_find?_eq_some h

section
variable (h : Delivered capacity s)
include h

private theorem Delivered.putFuture (r : SendFuture M)
    (hr : ∀ m, r.message = some m → m = r.given) : Delivered capacity (s.putFuture r) := by
  refine h.same ⟨rfl, rfl, rfl, rfl⟩ rfl rfl fun q hq => ?_
  rcases mem_cons.mp hq with rfl | hq
  · exact .inr hr
  · exact .inl (mem_of_mem_filter hq)

private theorem Delivered.trySend (m : M) :
    Delivered capacity ((s.after ((s.mailbox.trySend m).1, (s.mailbox.trySend m).2.2)).noteSend m
      (.ready (s.mailbox.trySend m).2.1)) := by
  by_cases hc : s.mailbox.receiverClosed = true
  · rw [trySend_of_closed hc]
    exact h.same ⟨rfl, rfl, rfl, rfl⟩ rfl rfl fun _ => .inl
  · by_cases hfull : s.mailbox.queue.length = s.mailbox.capacity
    · rw [trySend_of_full hc hfull]
      exact h.same ⟨rfl, rfl, rfl, rfl⟩ rfl rfl fun _ => .inl
    · rw [trySend_of_room hc hfull]
      exact h.push (Nat.lt_of_le_of_ne h.bounded (h.capacity_eq ▸ hfull)) _

private theorem Delivered.tryRecv :
    Delivered capacity ((s.after (s.mailbox.tryRecv.1, s.mailbox.tryRecv.2.2)).noteRecv
      (.ready s.mailbox.tryRecv.2.1)) := by
  cases hqueue : s.mailbox.queue with
  | nil =>
    rw [tryRecv_of_nil hqueue]
    exact h.same ⟨rfl, rfl, rfl, rfl⟩ rfl rfl fun _ => .inl
  | cons m queue =>
    rw [tryRecv_of_cons hqueue]
    exact h.pop hqueue _

private theorem Delivered.pollRecv (w : W) :
    Delivered capacity ((s.after ((s.mailbox.pollRecv w).1, (s.mailbox.pollRecv w).2.2)).noteRecv
      (s.mailbox.pollRecv w).2.1) := by
  cases hqueue : s.mailbox.queue with
  | nil =>
    cases hc : s.mailbox.noMoreMessages with
    | true =>
      rw [pollRecv_of_closed hqueue hc]
      exact h.same ⟨rfl, rfl, rfl, rfl⟩ rfl rfl fun _ => .inl
    | false =>
      rw [pollRecv_of_open hqueue hc]
      exact h.same ⟨rfl, rfl, rfl, rfl⟩ rfl rfl fun _ => .inl
  | cons m queue =>
    rw [pollRecv_of_cons hqueue]
    exact h.pop hqueue _

private theorem Delivered.pollSend {r : SendFuture M} (hr : r ∈ s.sends) {w : W}
    {p : SharedMailbox M W × Option M × Poll (Except (ShardSendError M) Unit) × List W}
    (hp : s.mailbox.pollSend r.message w = some p) :
    Delivered capacity (((s.after (p.1, p.2.2.2)).noteSend r.given p.2.2.1).putFuture
      { r with message := p.2.1 }) := by
  cases hm : r.message with
  | none =>
    rw [hm] at hp
    cases hp
  | some m =>
    obtain rfl : m = r.given := h.given r hr m hm
    rw [hm] at hp
    by_cases hc : s.mailbox.receiverClosed = true
    · rw [pollSend_of_closed hc] at hp
      cases hp
      have hsame : Delivered capacity (s.after ({ s.mailbox with
          closedRejections := s.mailbox.closedRejections + 1 }, [])) :=
        h.same ⟨rfl, rfl, rfl, rfl⟩ rfl rfl fun _ => .inl
      exact hsame.putFuture _ fun _ he => absurd he.symm (some_ne_none _)
    · by_cases hroom : s.mailbox.queue.length < s.mailbox.capacity
      · rw [pollSend_of_room hc hroom] at hp
        cases hp
        exact (h.push (h.capacity_eq ▸ hroom) _).putFuture _ fun _ he =>
          absurd he.symm (some_ne_none _)
      · rw [pollSend_of_full hc hroom] at hp
        cases hp
        have hsame : Delivered capacity (s.after ({ s.mailbox with
            sendWakers := s.mailbox.sendWakers ++ [w] }, [])) :=
          h.same ⟨rfl, rfl, rfl, rfl⟩ rfl rfl fun _ => .inl
        exact hsame.putFuture _ fun _ he => (some.inj he).symm

end

variable [DecidableEq W]

private theorem Delivered.respond (h : Delivered capacity s) {a : TrafficEvent M W}
    {r : Response M} (hst : s.respond a = some (t, r)) : Delivered capacity t := by
  cases a with
  | senderTo k | cloneSender k l =>
    obtain ⟨_, ⟨⟩⟩ := guarded hst
    exact h.same ⟨rfl, rfl, rfl, rfl⟩ rfl rfl fun _ => .inl
  | receiverFor =>
    obtain ⟨_, _, rfl | rfl⟩ := respond_receiverFor hst
    · exact h
    · exact h.same ⟨rfl, rfl, rfl, rfl⟩ rfl rfl fun _ => .inl
  | dropSet =>
    obtain ⟨_, ⟨⟩⟩ := guarded hst
    exact h.same s.mailbox.sameMessages_closeSenderFactory rfl rfl fun _ => .inl
  | dropSender k =>
    obtain ⟨_, ⟨⟩⟩ := guarded hst
    exact h.same s.mailbox.sameMessages_dropSender rfl rfl fun _ => .inl
  | closeSender k | closeReceiver | dropReceiver =>
    obtain ⟨_, ⟨⟩⟩ := guarded hst
    exact h.same s.mailbox.sameMessages_closeReceiver rfl rfl fun _ => .inl
  | trySend k m =>
    obtain ⟨_, ⟨⟩⟩ := guarded hst
    exact h.trySend m
  | send k f m =>
    obtain ⟨_, ⟨⟩⟩ := guarded hst
    exact h.putFuture _ fun _ he => (some.inj he).symm
  | pollSend f w =>
    obtain ⟨q, hq, hst⟩ := bind_eq_some_iff.mp hst
    obtain ⟨p, hp, he⟩ := map_eq_some_iff.mp hst
    cases he
    exact h.pollSend (mem_sends_of_findSend hq) hp
  | dropSend f =>
    obtain ⟨q, _, he⟩ := map_eq_some_iff.mp hst
    cases he
    exact h.same (s.mailbox.sameMessages_dropSend _) rfl rfl fun _ hr =>
      .inl (mem_of_mem_filter hr)
  | tryRecv =>
    obtain ⟨_, ⟨⟩⟩ := guarded hst
    exact h.tryRecv
  | pollRecv w =>
    obtain ⟨_, ⟨⟩⟩ := guarded hst
    exact { h.pollRecv w with }
  | recv | dropRecv | wake w =>
    obtain ⟨_, ⟨⟩⟩ := guarded hst
    exact { h with }

theorem Delivered.of_reachable (shardId : Nat)
    (h : Reachable step (new shardId capacity) s) : Delivered capacity s := by
  refine h.invariant (delivered_new shardId capacity) fun u a v hu _ hst => ?_
  obtain ⟨r, hr⟩ := respond_of_step hst
  exact hu.respond hr

private theorem Delivered.rejected (h : Delivered capacity s) {a : TrafficEvent M W}
    {e : ShardSendError M} (hst : s.respond a = some (t, .sent (.ready (.error e)))) :
    s.offered a = some e.intoMessage ∧ s.mailbox.SameMessages t.mailbox := by
  cases a with
  | trySend k m =>
    obtain ⟨_, hst⟩ := ite_none_right_eq_some.mp hst
    by_cases hc : s.mailbox.receiverClosed = true
    · rw [trySend_of_closed hc] at hst
      cases hst
      exact ⟨rfl, rfl, rfl, rfl, rfl⟩
    · by_cases hfull : s.mailbox.queue.length = s.mailbox.capacity
      · rw [trySend_of_full hc hfull] at hst
        cases hst
        exact ⟨rfl, rfl, rfl, rfl, rfl⟩
      · rw [trySend_of_room hc hfull] at hst
        cases hst
  | pollSend f w =>
    obtain ⟨q, hq, hst⟩ := bind_eq_some_iff.mp hst
    obtain ⟨p, hp, he⟩ := map_eq_some_iff.mp hst
    cases hm : q.message with
    | none =>
      rw [hm] at hp
      cases hp
    | some m =>
      obtain rfl : m = q.given := h.given q (mem_sends_of_findSend hq) m hm
      rw [hm] at hp
      have hgiven : s.offered (.pollSend f w) = some q.given := by
        rw [offered, hq, map_some]
      by_cases hc : s.mailbox.receiverClosed = true
      · rw [pollSend_of_closed hc] at hp
        cases hp
        cases he
        exact ⟨hgiven, rfl, rfl, rfl, rfl⟩
      · by_cases hroom : s.mailbox.queue.length < s.mailbox.capacity
        · rw [pollSend_of_room hc hroom] at hp
          cases hp
          cases he
        · rw [pollSend_of_full hc hroom] at hp
          cases hp
          cases he
  | receiverFor =>
    obtain ⟨_, ⟨⟩, _⟩ := respond_receiverFor hst
  | dropSend f =>
    obtain ⟨q, _, he⟩ := map_eq_some_iff.mp hst
    cases he
  | _ =>
    obtain ⟨_, ⟨⟩⟩ := guarded hst

/-- The received messages followed by the queue are the accepted ones in order, and a rejected send
returns its message and transfers none. -/
theorem accepted_messages_delivered (shardId : Nat) (capacity : UInt64) {s : Traffic M W}
    (h : Reachable step (new shardId capacity.toNat) s) :
    s.received ++ s.mailbox.queue = s.accepted ∧
      s.mailbox.queue.length ≤ capacity.toNat ∧
      (s.mailbox.sent - s.mailbox.received).toNat = s.mailbox.queue.length ∧
      ∀ a t e, s.respond a = some (t, .sent (.ready (.error e))) →
        s.offered a = some e.intoMessage ∧ s.mailbox.SameMessages t.mailbox := by
  have hd := Delivered.of_reachable shardId h
  exact ⟨hd.order, hd.bounded, hd.difference capacity.toNat_lt_size, fun _ _ _ => hd.rejected⟩

private def slotReused : Traffic Nat Nat :=
  (run step (new 0 (1 : UInt64).toNat) [.senderTo 0, .receiverFor, .trySend 0 7, .send 0 0 8,
    .pollSend 0 1, .tryRecv, .pollSend 0 1]).get (by decide +kernel)

/-- Two messages share a mailbox of one slot, and a third one is turned away. -/
theorem waiting_message_delivered : ∃ s t : Traffic Nat Nat,
    Reachable step (new 0 (1 : UInt64).toNat) s ∧ s.received = [7] ∧ s.mailbox.queue = [8] ∧
      s.respond (.trySend 0 9) = some (t, .sent (.ready (.error (.full 9)))) ∧
      s.accepted = [7, 8] ∧ (s.mailbox.sent - s.mailbox.received).toNat = 1 ∧
      t.mailbox.queue = [8] := by
  have hreach : Reachable step (new 0 (1 : UInt64).toNat) slotReused :=
    reachable_of_run _ (some_get _).symm
  have hreceived : slotReused.received = [7] := by decide +kernel
  have hqueue : slotReused.mailbox.queue = [8] := by decide +kernel
  have hfull : (slotReused.respond (.trySend 0 9)).map Prod.snd =
      some (.sent (.ready (.error (.full 9)))) := by decide +kernel
  obtain ⟨⟨t, r⟩, ht, rfl⟩ := map_eq_some_iff.mp hfull
  obtain ⟨horder, _, hcount, hrejected⟩ := accepted_messages_delivered 0 1 hreach
  rw [hreceived, hqueue] at horder
  rw [hqueue] at hcount
  exact ⟨slotReused, t, hreach, hreceived, hqueue, ht, horder.symm, hcount,
    (hrejected _ t _ ht).2.queue.trans hqueue⟩

end Traffic
end Sitas.Mailbox
