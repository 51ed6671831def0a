import Sitas.Runtime.OneShot

namespace Sitas.Runtime
open Sitas.Lib List

namespace OneShot
variable {T W : Type}

section Invariant
variable {s t : OneShot T W} {e : OneShotEvent T W}

/-- The value is in the cell or was delivered once, the sender's flag says whether it is still
owned, the latest waker is in the cell, in the hands of the sender or woken, and a thread waits
without having been notified only as long as the sender has not got past its notification. -/
structure Sound (s : OneShot T W) : Prop where
  conserved : s.delivered ++ s.state.value.toList = s.sent.toList
  alive : s.state.senderAlive = true ↔ s.sender = .owned
  unsent : s.sender = .owned → s.sent = none ∧ s.woken = []
  wakers : s.woken ++ s.sender.held.toList ++ s.state.waker.toList = s.stored.getLast?.toList
  waker : ∀ w, s.state.waker = some w → s.state.senderAlive = true
  blocked : ∀ deadline, s.receiver = .blocked deadline false →
    s.sender = .owned ∨ ∃ waker sending, s.sender = .notifying waker sending

theorem sound_new : Sound (new : OneShot T W) where
  conserved := rfl
  alive := ⟨fun _ => rfl, fun _ => rfl⟩
  unsent _ := ⟨rfl, rfl⟩
  wakers := rfl
  waker _ h := nomatch h
  blocked _ h := nomatch h

theorem Sound.value_none (h : Sound s) (howned : s.sender = .owned) : s.state.value = none := by
  have hconserved := h.conserved
  rw [(h.unsent howned).1] at hconserved
  exact Option.toList_eq_nil_iff.mp (append_eq_nil_iff.mp hconserved).2

private theorem Sound.wakers_owned (h : Sound s) (howned : s.sender = .owned) :
    s.state.waker.toList = s.stored.getLast?.toList := by
  have hwakers := h.wakers
  rwa [howned, (h.unsent howned).2] at hwakers

theorem Sound.moves (h : Sound s) (hmove : Moves s t) : Sound t := by
  cases hmove with
  | sent value howned hv =>
    have hconserved := h.conserved
    rw [(h.unsent howned).1, hv] at hconserved
    have hdelivered : s.delivered = [] := by simpa using hconserved
    refine ⟨by simpa [delivered] using hdelivered, ⟨nofun, nofun⟩, nofun, ?_, nofun, ?_⟩
    · simpa [SenderPhase.held, (h.unsent howned).2] using h.wakers_owned howned
    · exact fun _ _ => .inr ⟨_, _, rfl⟩
  | refused _ howned hv => exact absurd (h.value_none howned) (Option.isSome_iff_ne_none.mp hv)
  | dropped _ halive =>
    have howned := h.alive.mp halive
    refine ⟨h.conserved, ⟨nofun, nofun⟩, nofun, ?_, nofun, ?_⟩
    · simpa [SenderPhase.held, (h.unsent howned).2] using h.wakers_owned howned
    · exact fun _ _ => .inr ⟨_, _, rfl⟩
  | destroyed hphase halive =>
    have hne : s.sender ≠ .owned := fun howned =>
      Bool.false_ne_true (halive.symm.trans (h.alive.mpr howned))
    have hdropping := hphase.resolve_left hne
    refine ⟨h.conserved, ⟨fun ha => absurd (halive.symm.trans ha) Bool.false_ne_true, nofun⟩,
      nofun, ?_, h.waker, fun deadline hb => ?_⟩
    · have hwakers := h.wakers
      rwa [hdropping] at hwakers
    · obtain howned | ⟨_, _, hnotifying⟩ := h.blocked deadline hb
      · exact absurd howned hne
      · cases hdropping.symm.trans hnotifying
  | notified waker sending hphase =>
    have halive : s.state.senderAlive ≠ true := fun ha => by cases hphase.symm.trans (h.alive.mp ha)
    refine ⟨h.conserved, ⟨fun ha => absurd ha halive, nofun⟩, nofun, ?_, h.waker, ?_⟩
    · have hwakers := h.wakers
      rwa [hphase] at hwakers
    · intro deadline hb
      cases hr : s.receiver <;> simp [ReceiverPhase.notify, hr] at hb
  | woken waker sending hphase =>
    have hne : s.sender ≠ .owned := by
      rw [hphase]
      nofun
    have halive : s.state.senderAlive ≠ true := fun ha => hne (h.alive.mp ha)
    refine ⟨h.conserved, ⟨fun ha => absurd ha halive, fun ho => ?_⟩, fun ho => ?_, ?_, h.waker,
      fun deadline hb => ?_⟩
    · cases sending <;> cases ho
    · cases sending <;> cases ho
    · have hwakers := h.wakers
      rw [hphase] at hwakers
      cases sending <;> simpa [SenderPhase.held] using hwakers
    · obtain howned | ⟨_, _, hnotifying⟩ := h.blocked deadline hb
      · exact absurd howned hne
      · cases hphase.symm.trans hnotifying
  | took value receiver hv hfree =>
    have hconserved := h.conserved
    rw [hv] at hconserved
    refine ⟨?_, h.alive, h.unsent, h.wakers, h.waker, fun deadline hb => ?_⟩
    · rw [delivered, filterMap_append]
      exact (append_nil _).trans hconserved
    · subst hb
      cases hfree
  | failed receiver hv _ hfree =>
    refine ⟨?_, h.alive, h.unsent, h.wakers, h.waker, fun deadline hb => ?_⟩
    · rw [delivered, filterMap_append]
      exact (congrArg (· ++ _) (append_nil _)).trans h.conserved
    · subst hb
      cases hfree
  | timedOut =>
    refine ⟨?_, h.alive, h.unsent, h.wakers, h.waker, nofun⟩
    rw [delivered, filterMap_append]
    exact (congrArg (· ++ _) (append_nil _)).trans h.conserved
  | stored waker hv halive =>
    have howned := h.alive.mp halive
    refine ⟨h.conserved, h.alive, h.unsent, ?_, fun _ _ => halive, h.blocked⟩
    simp [howned, (h.unsent howned).2, SenderPhase.held]
  | turned receiver hblocked =>
    refine ⟨h.conserved, h.alive, h.unsent, h.wakers, h.waker, fun deadline hb => ?_⟩
    cases hb
    exact .inl (h.alive.mp (hblocked rfl))

theorem Sound.step (h : Sound s) (hst : step s e = some t) : Sound t := by
  obtain hmove | ⟨elapsed, _, rfl⟩ := step_cases hst
  · exact h.moves hmove
  · exact ⟨h.conserved, h.alive, h.unsent, h.wakers, h.waker, h.blocked⟩

theorem sound_of_reachable (h : Reachable step (new : OneShot T W) s) : Sound s :=
  h.invariant sound_new fun _ _ _ hs _ hst => hs.step hst

theorem Sound.failed (h : Sound s) (hst : OneShot.step s e = some t)
    (hfailed : t.returned = s.returned ++ [.error .replyFailed]) :
    (s.sender ≠ .owned ∧ s.sent = none) ∨ s.delivered ≠ [] := by
  obtain hmove | ⟨elapsed, _, rfl⟩ := step_cases hst
  · cases hmove with
    | failed receiver hv halive =>
      have howned : s.sender ≠ .owned := fun howned =>
        Bool.false_ne_true (halive.symm.trans (h.alive.mpr howned))
      have hconserved := h.conserved
      rw [hv, Option.toList_none, append_nil] at hconserved
      cases hsent : s.sent with
      | none => exact .inl ⟨howned, rfl⟩
      | some value =>
        rw [hsent] at hconserved
        exact .inr (by rw [hconserved]; exact cons_ne_nil _ _)
    | took | timedOut => simp at hfailed
    | _ => exact absurd hfailed.symm (by simp)
  · simp at hfailed

end Invariant

section Notification
variable {s t : OneShot T W} {e : OneShotEvent T W}

/-- The steps that need neither a spurious wake-up nor the passing of time. -/
def Prompted (s : OneShot T W) : OneShotEvent T W → Prop
  | .tick _ => False
  | .resume _ => ∃ deadline, s.receiver = .blocked deadline true
  | _ => True

def rank : SenderPhase W → Nat
  | .owned => 4
  | .notifying _ _ => 3
  | .waking _ _ => 2
  | .dropping => 1
  | .done => 0

def weight (s : OneShot T W) : Nat := rank s.sender + s.receiver.isBlocked.toNat

private theorem isBlocked_notify (phase : ReceiverPhase) :
    phase.notify.isBlocked = phase.isBlocked := by
  cases phase <;> rfl

theorem Moves.sender_ne_owned (hmove : Moves s t) (h : s.sender ≠ .owned) : t.sender ≠ .owned := by
  cases hmove with
  | woken waker sending => cases sending <;> nofun
  | took | failed | timedOut | stored | turned => exact h
  | sent | refused | dropped | destroyed | notified => nofun

/-- While a thread waits for a sender that is not owned, every step takes the sender's thread
further or ends the wait. -/
theorem Sound.weight_lt (h : Sound s) (hne : s.sender ≠ .owned)
    (hblocked : s.receiver.isBlocked = true) (hmove : Moves s t) : t.weight < s.weight := by
  have halive : s.state.senderAlive ≠ true := fun ha => hne (h.alive.mp ha)
  have hfree : ∀ receiver : ReceiverPhase, receiver.isBlocked = false →
      rank s.sender + receiver.isBlocked.toNat < s.weight := by
    intro receiver hfree
    rw [weight, hfree, hblocked]
    exact Nat.lt_succ_self _
  cases hmove with
  | sent _ howned | refused _ howned => exact absurd howned hne
  | dropped _ ha | stored _ _ ha => exact absurd ha halive
  | destroyed hphase =>
    simp [weight, rank, hphase.resolve_left hne]
  | notified waker sending hphase =>
    simp [weight, rank, hphase, isBlocked_notify]
  | woken waker sending hphase =>
    cases sending <;> simp [weight, rank, hphase]
  | took _ receiver _ hr | failed receiver _ _ hr => exact hfree receiver hr
  | timedOut => exact hfree .gone rfl
  | turned receiver hr =>
    exact hfree receiver (Bool.eq_false_iff.mpr fun hb => halive (hr hb))

theorem Sound.prompted_step (h : Sound s) (hne : s.sender ≠ .owned)
    (hblocked : s.receiver.isBlocked = true) : ∃ e t, Prompted s e ∧ OneShot.step s e = some t := by
  cases hr : s.receiver with
  | blocked deadline notified =>
    cases notified with
    | true =>
      exact ⟨.resume false, s.resume deadline false, ⟨deadline, hr⟩, by simp [OneShot.step, hr]⟩
    | false =>
      obtain ⟨waker, sending, hphase⟩ := (h.blocked deadline hr).resolve_left hne
      exact ⟨.notifyAll, _, trivial, by simp only [OneShot.step, hphase]; rfl⟩
  | handle | future | gone =>
    rw [hr] at hblocked
    cases hblocked

/-- Once the sender was used or dropped, a blocked `wait` comes to its end in every order of
the steps. -/
theorem Sound.wait_returns (h : Sound s) (hne : s.sender ≠ .owned) :
    Inevitable OneShot.step Prompted (fun t => t.receiver.isBlocked = false) s := by
  refine (inevitable_of_measure (fun t => Sound t ∧ t.sender ≠ .owned) weight ?_ ?_
    ⟨h, hne⟩).mono fun t ht => ht.2
  · intro u hu hblocked
    exact hu.1.prompted_step hu.2 (Bool.not_eq_false _ ▸ hblocked)
  · intro u a v hu hblocked hprompted hst
    obtain hmove | ⟨elapsed, rfl, _⟩ := step_cases hst
    · exact ⟨⟨hu.1.step hst, hmove.sender_ne_owned hu.2⟩,
        hu.1.weight_lt hu.2 (Bool.not_eq_false _ ▸ hblocked) hmove⟩
    · exact hprompted.elim

end Notification

/-- A `send` that nothing interleaves with is the whole of `ReplySender::send`. -/
theorem run_send {s : OneShot T W} (howned : s.sender = .owned) (hvalue : s.state.value = none)
    (value : T) : ∃ t, run step s [.send value, .notifyAll, .wake, .destroy] = some t ∧
      t.sender = .done ∧ t.state = (ReplySender.send s.state value).1 ∧
      t.woken = s.woken ++ (ReplySender.send s.state value).2.toList := by
  have hdeposit : ReplySender.deposit s.state value = some (⟨some value, false, none⟩, s.state.waker) := by
    simp [ReplySender.deposit, hvalue]
  rw [ReplySender.send_eq_deposit, hdeposit]
  simp [run, step, howned, send, hdeposit, drop, ReplySender.drop]

theorem Sound.woken_last {s : OneShot T W} (h : Sound s) (hne : s.sender ≠ .owned)
    (hheld : s.sender.held = none) : s.woken = s.stored.getLast?.toList := by
  have hwaker : s.state.waker = none := by
    cases hw : s.state.waker with
    | none => rfl
    | some w => exact absurd (h.alive.mp (h.waker w hw)) hne
  have hwakers := h.wakers
  rwa [hheld, hwaker, Option.toList_none, append_nil, append_nil] at hwakers

/-- What a one-shot reply owes to its two ends in every interleaving: the value sent is in the cell
or was returned once, a failure means that there is none, the waker stored last is woken, and a
waiting thread comes to the end of its wait. -/
theorem one_shot_reply {s : OneShot T W} (h : Reachable step new s) :
    s.delivered ++ s.state.value.toList = s.sent.toList ∧
    (∀ e t, step s e = some t → t.returned = s.returned ++ [.error .replyFailed] →
      (s.sender ≠ .owned ∧ s.sent = none) ∨ s.delivered ≠ []) ∧
    (∀ w, s.state.waker = some w → s.state.senderAlive = true ∧ s.state.value = none) ∧
    (s.sender ≠ .owned →
      (s.sender.held = none → s.woken = s.stored.getLast?.toList) ∧
      (∀ deadline, s.receiver = .blocked deadline false →
        ∃ waker sending, s.sender = .notifying waker sending) ∧
      Inevitable step Prompted (fun t => t.receiver.isBlocked = false) s) := by
  have hs := sound_of_reachable h
  refine ⟨hs.conserved, fun e t => hs.failed, fun w hw => ?_, fun hne => ⟨hs.woken_last hne, ?_, ?_⟩⟩
  · have halive := hs.waker w hw
    exact ⟨halive, hs.value_none (hs.alive.mp halive)⟩
  · exact fun deadline hb => (hs.blocked deadline hb).resolve_left hne
  · exact hs.wait_returns hne

private def sentWhileBlocked : OneShot Nat Nat :=
  (run step new [.tryWait, .wait, .send 7]).get (by decide +kernel)

private def repollEvents : List (OneShotEvent Nat Nat) :=
  [.waitAsync, .poll 1, .poll 2, .send 7, .notifyAll, .wake, .destroy, .poll 3]

private def repolled : OneShot Nat Nat := (run step new repollEvents).get (by decide +kernel)

private theorem repolled_reachable : Reachable step new repolled :=
  reachable_of_run repollEvents (Option.some_get _).symm

theorem blocked_wait_is_notified :
    sentWhileBlocked.receiver = .blocked none false ∧
    (∃ waker sending, sentWhileBlocked.sender = .notifying waker sending) ∧
    Inevitable step Prompted (fun t => t.receiver.isBlocked = false) sentWhileBlocked ∧
    repolled.delivered ++ repolled.state.value.toList = [7] ∧ repolled.woken = [2] := by
  have hreach : Reachable step new sentWhileBlocked :=
    reachable_of_run [.tryWait, .wait, .send 7] (Option.some_get _).symm
  have hblocked : sentWhileBlocked.receiver = .blocked none false := by decide +kernel
  have hne : sentWhileBlocked.sender ≠ .owned := by decide +kernel
  obtain ⟨_, hnotified, hreturns⟩ := (one_shot_reply hreach).2.2.2 hne
  obtain ⟨hsent, _, _, hwoken⟩ := one_shot_reply repolled_reachable
  have hvalue : repolled.sent = some 7 := by decide +kernel
  have hlast : repolled.stored.getLast?.toList = [2] := by decide +kernel
  refine ⟨hblocked, hnotified none hblocked, hreturns, ?_, ?_⟩
  · rw [hsent, hvalue]
    rfl
  · rw [← hlast]
    exact (hwoken (by decide +kernel)).1 (by decide +kernel)

/-- A waker that a later poll replaced is never woken. -/
theorem replaced_waker_not_woken : Reachable step new repolled ∧
    repolled.sender = .done ∧ 1 ∈ repolled.stored ∧ 1 ∉ repolled.woken :=
  ⟨repolled_reachable, by decide +kernel, by decide +kernel, by decide +kernel⟩

end OneShot
end Sitas.Runtime
