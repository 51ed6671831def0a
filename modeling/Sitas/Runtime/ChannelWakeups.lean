import Sitas.Runtime.Channel

/-! Wake-ups of the `no_std` channel. Beside the channel stands a record of the waker that was
registered last: whether its poll has returned pending, which wakers were invoked since, and
which calls took effect since. -/
namespace Sitas.Runtime
open Sitas.Lib Function Option

section Phases
variable {M W : Type}

/-- The call has taken effect and has still to take or to invoke the waker. -/
def SendPc.Answers : SendPc M W → Prop
  | .unlock _ | .takeWaker _ | .wake _ _ | .closeTakeWaker | .closeWake _ => True
  | .idle | .loadClosed _ | .lock _ | .push _ | .reject _ | .storeClosed => False

def SendPc.waker : SendPc M W → Option W
  | .wake _ waker | .closeWake waker => waker
  | _ => none

def SendPc.HasTaken : SendPc M W → Prop
  | .wake _ _ | .closeWake _ => True
  | _ => False

def RecvPc.Rechecks (w : W) : RecvPc M W → Prop
  | .pop (some (.second, waker)) _ | .loadClosed .second waker => waker = w
  | _ => False

def RecvPc.Polls : RecvPc M W → Prop
  | .pop (some _) _ | .loadClosed _ _ | .register _ => True
  | .pop none _ | .idle => False

end Phases

/-- The waker of the most recent poll if that has returned pending, the one stored last, and what
happened since: the wakers invoked, the calls in progress that took effect, and whether one of these
has returned. -/
structure Watched (M W : Type) where
  channel : Channel M W
  pending : Option W
  registered : Option W
  invoked : List W
  late : Nat → Bool
  answered : Bool

namespace Watched
variable {M W : Type}

def start (channel : Channel M W) : Watched M W := ⟨channel, none, none, [], fun _ => false, false⟩

/-- The next access of the call makes a message or the closed flag visible. -/
def effect (s : Channel M W) : SendPc M W → Bool
  | .push pc =>
    match (s.queue.tryPush pc).2 with
    | .returns (.ok ()) => true
    | .returns (.error _) | .continues _ => false
  | .storeClosed => true
  | _ => false

def afterSender (o : Watched M W) (t : Nat) (s : Channel M W) : Watched M W :=
  match o.channel.senders t with
  | .wake _ waker | .closeWake waker =>
    { o with
      channel := s
      invoked := o.invoked ++ waker.toList
      late := Function.update o.late t false
      answered := o.answered || o.late t }
  | pc =>
    { o with channel := s, late := Function.update o.late t (o.late t || effect o.channel pc) }

def afterReceiver (o : Watched M W) (s : Channel M W) : Watched M W :=
  match o.channel.receiver with
  | .register waker => ⟨s, o.pending, some waker, [], fun _ => false, false⟩
  | .loadClosed .second waker =>
    { o with channel := s, pending := if o.channel.closed then none else some waker }
  | _ => { o with channel := s }

def step (o : Watched M W) (e : Event M W) : Option (Watched M W) :=
  (o.channel.step e).map fun s =>
    match e with
    | .sender t => o.afterSender t s
    | .receiver => o.afterReceiver s
    | .poll _ => { o with channel := s, pending := none }
    | .trySend _ _ | .close _ | .tryRecv => { o with channel := s }

/-- A registered waker is in its cell, in the hands of a call that is about to invoke it, or
was invoked; and a call that took effect since has emptied the cell before it returns. -/
structure Heard (o : Watched M W) : Prop where
  consistent : o.channel.Consistent
  pending : ∀ w, o.pending = some w → o.registered = some w
  polls : o.channel.receiver.Polls → o.pending = none
  rechecks : ∀ w, o.channel.receiver.Rechecks w → o.registered = some w
  waker : ∀ w, o.registered = some w → o.channel.recvWaker = some w ∨
    (∃ t, (o.channel.senders t).waker = some w) ∨ w ∈ o.invoked
  late : ∀ t, o.late t = true → (o.channel.senders t).Answers
  taken : ∀ t, o.late t = true → (o.channel.senders t).HasTaken → o.channel.recvWaker = none
  answered : o.answered = true → o.channel.recvWaker = none

theorem heard_start {capacity : Nat} {s : Channel M W}
    (h : Channel.channel capacity = .ok s) : Heard (start s) := by
  refine ⟨Channel.consistent_channel h, nofun, fun _ => rfl, fun w hw => ?_, nofun, nofun, nofun,
    nofun⟩
  rw [Channel.channel] at h
  split at h
  · cases h
  · cases h
    exact hw.elim

section Senders
variable {o : Watched M W} {u : Channel M W} {t : Nat} {pc : SendPc M W}

private theorem held_update {s : Channel M W} {v : Nat} {w : W}
    (hsend : u.senders = update s.senders t pc) (hfree : (s.senders t).waker = none)
    (hv : (s.senders v).waker = some w) : (u.senders v).waker = some w := by
  have hvt : v ≠ t := by
    rintro rfl
    cases hfree.symm.trans hv
  rw [hsend, update_of_ne hvt]
  exact hv

private theorem Heard.late_update (h : Heard o) (hwaker : u.recvWaker = o.channel.recvWaker)
    (hsend : u.senders = update o.channel.senders t pc) {b : Bool}
    (hb : b = true → pc.Answers ∧ ¬ pc.HasTaken) {v : Nat}
    (hv : update o.late t b v = true) :
    (u.senders v).Answers ∧ ((u.senders v).HasTaken → u.recvWaker = none) := by
  rw [hsend]
  by_cases hvt : v = t
  · subst hvt
    rw [update_self] at hv ⊢
    exact ⟨(hb hv).1, fun htaken => absurd htaken (hb hv).2⟩
  · rw [update_of_ne hvt] at hv ⊢
    exact ⟨h.late v hv, fun htaken => hwaker.trans (h.taken v hv htaken)⟩

private theorem Heard.move (h : Heard o) (hu : u.Consistent)
    (hrecv : u.receiver = o.channel.receiver) (hwaker : u.recvWaker = o.channel.recvWaker)
    (hsend : u.senders = update o.channel.senders t pc)
    (hfree : (o.channel.senders t).waker = none) (hpc : ¬ pc.HasTaken) (b : Bool)
    (hb : b = true → pc.Answers) : Heard { o with channel := u, late := update o.late t b } := by
  have hlate := fun v => h.late_update hwaker hsend (fun hlate => ⟨hb hlate, hpc⟩) (v := v)
  refine ⟨hu, h.pending, fun hp => h.polls (hrecv ▸ hp), fun w hw => h.rechecks w (hrecv ▸ hw),
    fun w hw => ?_, fun v hv => (hlate v hv).1, fun v hv => (hlate v hv).2,
    fun ha => hwaker.trans (h.answered ha)⟩
  obtain hcell | ⟨v, hv⟩ | hinvoked := h.waker w hw
  · exact .inl (hwaker.trans hcell)
  · exact .inr (.inl ⟨v, held_update hsend hfree hv⟩)
  · exact .inr (.inr hinvoked)

private theorem Heard.take (h : Heard o) (hu : u.Consistent)
    (hrecv : u.receiver = o.channel.receiver) (hwaker : u.recvWaker = none)
    (hsend : u.senders = update o.channel.senders t pc)
    (hfree : (o.channel.senders t).waker = none) (hpc : pc.waker = o.channel.recvWaker)
    (hanswers : pc.Answers) : Heard { o with channel := u } := by
  refine ⟨hu, h.pending, fun hp => h.polls (hrecv ▸ hp), fun w hw => h.rechecks w (hrecv ▸ hw),
    fun w hw => ?_, fun v hv => ?_, fun _ _ _ => hwaker, fun _ => hwaker⟩
  · obtain hcell | ⟨v, hv⟩ | hinvoked := h.waker w hw
    · refine .inr (.inl ⟨t, ?_⟩)
      change (u.senders t).waker = some w
      rw [hsend, update_self]
      exact hpc.trans hcell
    · exact .inr (.inl ⟨v, held_update hsend hfree hv⟩)
    · exact .inr (.inr hinvoked)
  · change (u.senders v).Answers
    rw [hsend]
    by_cases hvt : v = t
    · subst hvt
      rw [update_self]
      exact hanswers
    · rw [update_of_ne hvt]
      exact h.late v hv

private theorem Heard.wake (h : Heard o) (hu : u.Consistent)
    (hrecv : u.receiver = o.channel.receiver) (hwaker : u.recvWaker = o.channel.recvWaker)
    (hsend : u.senders = update o.channel.senders t .idle)
    (htaken : (o.channel.senders t).HasTaken) :
    Heard { o with
      channel := u
      invoked := o.invoked ++ (o.channel.senders t).waker.toList
      late := update o.late t false
      answered := o.answered || o.late t } := by
  have hlate := fun v => h.late_update hwaker hsend (b := false) (by simp) (v := v)
  refine ⟨hu, h.pending, fun hp => h.polls (hrecv ▸ hp), fun w hw => h.rechecks w (hrecv ▸ hw),
    fun w hw => ?_, fun v hv => (hlate v hv).1, fun v hv => (hlate v hv).2, fun ha => ?_⟩
  · obtain hcell | ⟨v, hv⟩ | hinvoked := h.waker w hw
    · exact .inl (hwaker.trans hcell)
    · by_cases hvt : v = t
      · subst hvt
        exact .inr (.inr (List.mem_append_right _ (mem_toList.mpr hv)))
      · refine .inr (.inl ⟨v, ?_⟩)
        change (u.senders v).waker = some w
        rw [hsend, update_of_ne hvt]
        exact hv
    · exact .inr (.inr (List.mem_append_left _ hinvoked))
  · change u.recvWaker = none
    rw [hwaker]
    obtain ha | hlate := (Bool.or_eq_true _ _).mp ha
    · exact h.answered ha
    · exact h.taken t hlate htaken

end Senders

section Steps
variable {o p : Watched M W} {e : Event M W} {t : Nat} {u : Channel M W}

private theorem Heard.push (h : Heard o) {pc : PushPc M} (hpc : o.channel.senders t = .push pc)
    (hu : u.Consistent) (hst : o.channel.sendStep t (.push pc) = some u) :
    Heard (o.afterSender t u) := by
  have hlate : o.late t = false := by
    rw [← Bool.not_eq_true]
    intro hlate
    have hanswers := h.late t hlate
    rw [hpc] at hanswers
    exact hanswers
  simp only [afterSender, hpc, hlate, Bool.false_or, effect]
  cases hst
  cases hprogress : (o.channel.queue.tryPush pc).2 with
  | continues next =>
    rw [hprogress] at hu
    exact h.move hu rfl rfl rfl (by rw [hpc]; rfl) id false nofun
  | returns result =>
    cases result with
    | error msg =>
      rw [hprogress] at hu
      exact h.move hu rfl rfl rfl (by rw [hpc]; rfl) id false nofun
    | ok =>
      rw [hprogress] at hu
      exact h.move hu rfl rfl rfl (by rw [hpc]; rfl) id true fun _ => trivial

private theorem Heard.sender (h : Heard o) (hu : u.Consistent)
    (hst : o.channel.sendStep t (o.channel.senders t) = some u) : Heard (o.afterSender t u) := by
  have hstay : update o.late t (o.late t || false) = o.late := by
    rw [Bool.or_false, update_eq_self]
  have hlate := h.late t
  cases hpc : o.channel.senders t with
  | idle =>
    rw [hpc] at hst
    cases hst
  | push pc => exact h.push hpc hu (hpc ▸ hst)
  | loadClosed msg =>
    rw [hpc] at hst hlate
    cases hst
    simp only [afterSender, hpc, effect]
    refine h.move hu rfl rfl rfl (by rw [hpc]; rfl) ?_ _ fun hb => ?_
    · split <;> exact id
    · exact (hlate ((Bool.or_false _).symm.trans hb)).elim
  | lock msg =>
    rw [hpc] at hst hlate
    simp only [afterSender, hpc, effect]
    obtain ⟨_, rfl⟩ := guarded hst
    exact h.move hu rfl rfl rfl (by rw [hpc]; rfl) id _ fun hb =>
      (hlate ((Bool.or_false _).symm.trans hb)).elim
  | reject msg =>
    rw [hpc] at hst hlate
    cases hst
    simp only [afterSender, hpc, effect]
    exact h.move hu rfl rfl rfl (by rw [hpc]; rfl) id _ fun hb =>
      (hlate ((Bool.or_false _).symm.trans hb)).elim
  | unlock i | storeClosed =>
    rw [hpc] at hst
    cases hst
    simp only [afterSender, hpc, effect]
    exact h.move hu rfl rfl rfl (by rw [hpc]; rfl) id _ fun _ => trivial
  | takeWaker i | closeTakeWaker =>
    rw [hpc] at hst
    cases hst
    simp only [afterSender, hpc, effect, hstay]
    exact h.take hu rfl rfl rfl (by rw [hpc]; rfl) rfl trivial
  | wake i waker | closeWake waker =>
    rw [hpc] at hst
    cases hst
    simp only [afterSender, hpc]
    have hwake := h.wake hu rfl rfl rfl (by rw [hpc]; trivial)
    rwa [hpc] at hwake

private theorem Heard.receive (h : Heard o) (hu : u.Consistent)
    (hwaker : u.recvWaker = o.channel.recvWaker) (hsend : u.senders = o.channel.senders)
    (hrecv : ∀ w, u.receiver.Rechecks w → o.channel.receiver.Rechecks w) {pending : Option W}
    (hpending : ∀ w, pending = some w → o.registered = some w)
    (hpolls : u.receiver.Polls → pending = none) :
    Heard { o with channel := u, pending := pending } := by
  refine ⟨hu, hpending, hpolls, fun w hw => h.rechecks w (hrecv w hw), ?_, ?_, ?_,
    fun ha => hwaker.trans (h.answered ha)⟩
  · rw [hwaker, hsend]
    exact h.waker
  · rw [hsend]
    exact h.late
  · rw [hwaker, hsend]
    exact h.taken

private theorem Heard.pop (h : Heard o) {poll : Option (Check × W)} {pc : PopPc M}
    (hpc : o.channel.receiver = .pop poll pc) (hu : u.Consistent)
    (hst : o.channel.recvStep (.pop poll pc) = some u) : Heard { o with channel := u } := by
  have hpolls := h.polls
  rw [hpc] at hpolls
  obtain ⟨⟨queue, progress⟩, _, rfl⟩ := map_eq_some_iff.mp hst
  refine h.receive hu rfl rfl (fun w hw => ?_) h.pending fun hp => ?_
  · rw [hpc]
    cases progress with
    | continues next =>
      cases poll with
      | none => exact hw
      | some round =>
        obtain ⟨_ | _, waker⟩ := round
        · exact hw.elim
        · exact hw
    | returns result =>
      cases result with
      | some msg => exact hw.elim
      | none =>
        cases poll with
        | none => exact hw.elim
        | some round =>
          obtain ⟨_ | _, waker⟩ := round
          · exact hw.elim
          · exact hw
  · cases poll with
    | some round => exact hpolls trivial
    | none =>
      cases progress with
      | continues next => exact hp.elim
      | returns result => cases result <;> exact hp.elim

private theorem Heard.receiver (h : Heard o) (hu : u.Consistent)
    (hst : o.channel.recvStep o.channel.receiver = some u) : Heard (o.afterReceiver u) := by
  have hpolls := h.polls
  cases hpc : o.channel.receiver with
  | idle =>
    rw [hpc] at hst
    cases hst
  | register waker =>
    rw [hpc] at hst hpolls
    cases hst
    simp only [afterReceiver, hpc, hpolls trivial]
    exact ⟨hu, nofun, fun _ => rfl, fun w hw => congrArg some hw, fun w hw => .inl hw, nofun, nofun,
      nofun⟩
  | loadClosed check waker =>
    rw [hpc] at hst hpolls
    cases check with
    | first =>
      cases hst
      simp only [afterReceiver, hpc]
      refine h.receive hu rfl rfl (fun w hw => ?_) h.pending fun _ => hpolls trivial
      dsimp only at hw
      split at hw <;> exact hw.elim
    | second =>
      cases hst
      simp only [afterReceiver, hpc]
      refine h.receive hu rfl rfl (fun w hw => hw.elim) (fun w hw => ?_) fun hp => hp.elim
      split at hw
      · cases hw
      · cases hw
        exact h.rechecks waker (by rw [hpc]; rfl)
  | pop poll pc =>
    simp only [afterReceiver, hpc]
    exact h.pop hpc hu (hpc ▸ hst)

theorem Heard.step (h : Heard o) (hst : step o e = some p) : Heard p := by
  obtain ⟨u, hu, rfl⟩ := map_eq_some_iff.mp hst
  have hconsistent := h.consistent.step hu
  have hstay : ∀ t, update o.late t (o.late t) = o.late := fun t =>
    update_eq_self t o.late
  cases e with
  | sender t => exact h.sender hconsistent hu
  | receiver => exact h.receiver hconsistent hu
  | trySend t msg | close t =>
    rw [Channel.step] at hu
    split at hu
    next hidle =>
      cases hu
      have hmove := h.move hconsistent rfl rfl rfl (by rw [hidle]; rfl) id (o.late t) fun hlate => by
        have hanswers := h.late t hlate
        rw [hidle] at hanswers
        exact hanswers.elim
      rwa [hstay] at hmove
    · cases hu
  | tryRecv =>
    rw [Channel.step] at hu
    split at hu
    · cases hu
      exact h.receive hconsistent rfl rfl (fun w hw => hw.elim) h.pending fun hp => hp.elim
    · cases hu
  | poll waker =>
    rw [Channel.step] at hu
    split at hu
    · cases hu
      refine h.receive hconsistent rfl rfl (fun w hw => hw.elim) (fun w hw => ?_) fun _ => rfl
      cases hw
    · cases hu

end Steps

private theorem invokes {o : Watched M W} {t : Nat} {w : W}
    (ht : (o.channel.senders t).waker = some w) :
    ∃ p, step o (.sender t) = some p ∧ p.channel.senders t = .idle ∧ w ∈ p.invoked := by
  have hstep : ∃ u, o.channel.step (.sender t) = some u ∧ u.senders t = .idle ∧
      (o.afterSender t u).channel = u ∧ w ∈ (o.afterSender t u).invoked := by
    cases hpc : o.channel.senders t with
    | wake i waker | closeWake waker =>
      rw [hpc] at ht
      refine ⟨_, by rw [Channel.step, hpc]; rfl, update_self t _ _, ?_, ?_⟩
      · rw [afterSender, hpc]
      · rw [afterSender, hpc]
        exact List.mem_append_right _ (mem_toList.mpr ht)
    | _ =>
      rw [hpc] at ht
      cases ht
  obtain ⟨u, hu, hidle, hchannel, hinvoked⟩ := hstep
  exact ⟨o.afterSender t u, by rw [step, hu]; rfl, by rw [hchannel]; exact hidle, hinvoked⟩

/-- A poll that has returned pending has its waker invoked once a `try_send` or `close` that took
effect later has returned, or by the call that has taken it, in its next step; and messages are
received once, in order. -/
theorem pending_poll_woken {capacity : Nat} {init : Channel M W} {o : Watched M W}
    (hnew : Channel.channel capacity = .ok init) (h : Reachable step (start init) o) :
    (∀ w, o.pending = some w → o.answered = true → w ∈ o.invoked ∨
      ∃ t, (o.channel.senders t).waker = some w ∧
        ∃ p, step o (.sender t) = some p ∧ p.channel.senders t = .idle ∧ w ∈ p.invoked) ∧
    o.channel.queue.popped <+: o.channel.queue.pushed := by
  have hheard : Heard o := h.invariant (heard_start hnew) fun _ _ _ ho _ hst => ho.step hst
  refine ⟨fun w hw ha => ?_, hheard.consistent.sound.fifo⟩
  obtain hcell | ⟨t, ht⟩ | hinvoked := hheard.waker w (hheard.pending w hw)
  · cases (hheard.answered ha).symm.trans hcell
  · exact .inr ⟨t, ht, invokes ht⟩
  · exact .inl hinvoked

private def wholePoll : List (Event Nat Nat) := .poll 9 :: List.replicate 7 .receiver

private def polled : Watched Nat Nat :=
  (run step (start (.new 2)) wholePoll).get (by decide +kernel)

private def wholeSend : List (Event Nat Nat) := .trySend 0 7 :: List.replicate 9 (.sender 0)

private def sentAfterPoll : Watched Nat Nat := (run step polled wholeSend).get (by decide +kernel)

private theorem reachable_polled : Reachable step (start (.new 2)) polled :=
  reachable_of_run wholePoll (some_get _).symm

theorem send_after_poll_wakes :
    sentAfterPoll.pending = some 9 ∧ sentAfterPoll.answered = true ∧
      (9 ∈ sentAfterPoll.invoked ∨ ∃ t, (sentAfterPoll.channel.senders t).waker = some 9 ∧
        ∃ p, step sentAfterPoll (.sender t) = some p ∧ p.channel.senders t = .idle ∧
          9 ∈ p.invoked) := by
  have hnew : Channel.channel 2 = .ok (Channel.new 2 : Channel Nat Nat) := rfl
  have hreach : Reachable step (start (.new 2)) sentAfterPoll :=
    reachable_polled.trans (reachable_of_run wholeSend (some_get _).symm)
  have hpending : sentAfterPoll.pending = some 9 := by decide +kernel
  have hanswered : sentAfterPoll.answered = true := by decide +kernel
  exact ⟨hpending, hanswered, (pending_poll_woken hnew hreach).1 9 hpending hanswered⟩

/-- The send by thread 0 takes the waker and does not invoke it yet; then thread 1 closes the
channel, finds no waker and returns. -/
private def closeDuringWake : List (Event Nat Nat) :=
  .trySend 0 7 :: List.replicate 8 (.sender 0) ++ .close 1 :: List.replicate 3 (.sender 1)

private def closedDuringWake : Watched Nat Nat :=
  (run step polled closeDuringWake).get (by decide +kernel)

/-- The `close` has returned before the waker is invoked. -/
theorem returned_close_before_wake :
    run step (start (.new 2)) wholePoll = some polled ∧ polled.pending = some 9 ∧
      polled.channel.closed = false ∧ run step polled closeDuringWake = some closedDuringWake ∧
      closedDuringWake.pending = some 9 ∧ closedDuringWake.channel.closed = true ∧
      closedDuringWake.channel.senders 1 = .idle ∧ 9 ∉ closedDuringWake.channel.wakes :=
  ⟨(some_get _).symm, by decide +kernel, by decide +kernel, (some_get _).symm,
    by decide +kernel, by decide +kernel, rfl, by decide +kernel⟩

end Watched
end Sitas.Runtime
