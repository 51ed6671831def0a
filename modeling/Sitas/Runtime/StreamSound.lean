import Sitas.Lib.Entries
import Sitas.Runtime.Stream

namespace Sitas.Runtime.Stream
open Sitas.Lib List Sitas.Runtime.Stream
variable {T W : Type}

/-- Some sender can still send, or has still to take the waker on its way out. -/
def Live (s : Stream T W) : Prop := ∃ p ∈ s.senders, p = .alive ∨ p = .dropping

def Notifies (s : Stream T W) : Prop := ∃ call ∈ s.calls, ∃ waker, call.phase = .notifying waker

def Wakes (s : Stream T W) (w : W) : Prop := ∃ call ∈ s.calls, call.waker = some w

/-- A count that was read is out of date only while the last sender is dropping. -/
def Counts (s : Stream T W) (count : Nat) : Prop :=
  if count = 0 then s.senderCount = 0 else s.Live

def Attended (s : Stream T W) : StreamConsumer W → Prop
  | .counted _ count => s.state.values = [] ∧ s.Counts count
  | .polled _ count => s.Counts count
  | .blocked _ false => (s.state.values = [] ∧ s.Live) ∨ s.Notifies
  | .pending w => s.state.waker = some w ∨ s.Wakes w ∨ w ∈ s.woken
  | .blocked _ true | .idle | .polling _ _ | .gone => True

structure Sound (s : Stream T W) : Prop where
  index : s.index = 0
  conserved : s.handed ++ s.state.values = s.accepted
  counted : s.senderCount = s.senders.count .alive
  waker : ∀ w, s.state.waker = some w → s.state.values = [] ∧ s.Live
  ended : ∀ n, (n, []) ∈ s.batches → 0 < n → s.senderCount = 0 ∧ s.state.values = []
  attended : s.Attended s.consumer

theorem sound_new : Sound (new : Stream T W) where
  index := rfl
  conserved := rfl
  counted := rfl
  waker _ h := nomatch h
  ended _ h := nomatch h
  attended := trivial

section Facts
variable {s t : Stream T W} {i k : Nat}

theorem Sound.count_ne_zero (h : Sound s) (hi : s.senders[i]? = some .alive) :
    s.senderCount ≠ 0 := by
  rw [h.counted]
  exact Nat.ne_of_gt (count_pos_iff.mpr (mem_of_getElem? hi))

theorem Sound.live_of_count (h : Sound s) (hcount : s.senderCount ≠ 0) : s.Live := by
  rw [h.counted] at hcount
  exact ⟨.alive, count_pos_iff.mp (Nat.pos_of_ne_zero hcount), .inl rfl⟩

theorem Sound.counts (h : Sound s) : s.Counts s.senderCount := by
  unfold Counts
  split
  next hzero => exact hzero
  next hcount => exact h.live_of_count hcount

theorem Attended.of_calls {consumer : StreamConsumer W} (h : s.Attended consumer)
    (hfree : consumer.locks = false) (hnotifies : t.Notifies)
    (hwaker : ∀ w, s.state.waker = some w → t.Wakes w) (hcalls : ∀ w, s.Wakes w → t.Wakes w)
    (hwoken : t.woken = s.woken) : t.Attended consumer := by
  cases consumer with
  | counted | polled => cases hfree
  | blocked _ notified =>
    cases notified with
    | true => trivial
    | false => exact .inr hnotifies
  | pending w =>
    obtain hw | hw | hw := h
    · exact .inr (.inl (hwaker w hw))
    · exact .inr (.inl (hcalls w hw))
    · exact .inr (.inr (hwoken ▸ hw))
  | idle | polling | gone => trivial

theorem Attended.of_senders {consumer : StreamConsumer W} (h : s.Attended consumer)
    (hstate : t.state = s.state) (hcalls : t.calls = s.calls) (hwoken : t.woken = s.woken)
    (hcount : s.senderCount ≠ 0) (hlive : t.Live) : t.Attended consumer := by
  have hcounts : ∀ count, s.Counts count → t.Counts count := by
    intro count hc
    unfold Counts at hc ⊢
    split at hc
    next => exact absurd hc hcount
    next hne =>
      rw [if_neg hne]
      exact hlive
  cases consumer with
  | counted _ count => exact ⟨hstate ▸ h.1, hcounts count h.2⟩
  | polled _ count => exact hcounts count h
  | blocked _ notified =>
    cases notified with
    | true => trivial
    | false =>
      obtain hq | hn := h
      · exact .inl ⟨hstate ▸ hq.1, hlive⟩
      · exact .inr (by unfold Notifies; rw [hcalls]; exact hn)
  | pending w =>
    obtain hw | hw | hw := h
    · exact .inl (hstate ▸ hw)
    · exact .inr (.inl (by unfold Wakes; rw [hcalls]; exact hw))
    · exact .inr (.inr (hwoken ▸ hw))
  | idle | polling | gone => trivial

end Facts

section Senders
variable {s : Stream T W} {i k sender : Nat} {waker : Option W}

private theorem wakes_append {s t : Stream T W} {call : StreamCall W}
    (ht : t.calls = s.calls ++ [call]) {w : W} (h : s.Wakes w) : t.Wakes w := by
  obtain ⟨c, hc, hw⟩ := h
  exact ⟨c, ht ▸ mem_append_left _ hc, hw⟩

private theorem mem_last {t : Stream T W} {calls : List (StreamCall W)} {call : StreamCall W}
    (ht : t.calls = calls ++ [call]) : call ∈ t.calls :=
  ht ▸ mem_append_right _ mem_cons_self

theorem Sound.send (h : Sound s) (hi : s.senders[i]? = some .alive)
    (hfree : s.consumer.locks = false) (value : T) : Sound (s.send i value) := by
  unfold Stream.send
  split
  · exact h
  · refine ⟨h.index, ?_, h.counted, fun w hw => ?_, fun n hn hpos => ?_, ?_⟩
    · exact (append_assoc _ _ _).symm.trans (congrArg (· ++ [value]) h.conserved)
    · cases hw
    · exact absurd (h.ended n hn hpos).1 (h.count_ne_zero hi)
    · exact h.attended.of_calls hfree ⟨_, mem_last rfl, _, rfl⟩
        (fun w hw => ⟨_, mem_last rfl, hw⟩) (fun w => wakes_append rfl) rfl

theorem Sound.clone (h : Sound s) (hi : s.senders[i]? = some .alive) :
    Sound { s with senderCount := s.senderCount + 1, senders := s.senders ++ [.alive] } := by
  have hlive : Live { s with
      senderCount := s.senderCount + 1, senders := s.senders ++ [.alive] } :=
    ⟨.alive, mem_append_right _ mem_cons_self, .inl rfl⟩
  refine ⟨h.index, h.conserved, ?_, fun w hw => ⟨(h.waker w hw).1, hlive⟩, fun n hn hpos => ?_, ?_⟩
  · simp [h.counted]
  · exact absurd (h.ended n hn hpos).1 (h.count_ne_zero hi)
  · exact h.attended.of_senders rfl rfl rfl (h.count_ne_zero hi) hlive

private theorem Sound.live_dropSender (h : Sound s) (hi : s.senders[i]? = some .alive) :
    (s.dropSender i).Live ∧ (s.dropSender i).senderCount = (s.dropSender i).senders.count .alive := by
  obtain ⟨hlt, hget⟩ := List.getElem?_eq_some_iff.mp hi
  have hcount := h.counted
  have hset : ∀ p : StreamSenderState, p ≠ .alive →
      (s.senders.set i p).count .alive = s.senderCount - 1 := by
    intro p hp
    rw [count_set hlt, hget, hcount]
    simp [hp]
  unfold dropSender
  by_cases hlast : s.senderCount ≠ 1
  · rw [if_pos hlast]
    have hrest := hset .dropped nofun
    refine ⟨⟨.alive, count_pos_iff.mp ?_, .inl rfl⟩, hrest.symm⟩
    have hpos := h.count_ne_zero hi
    change 0 < (s.senders.set i .dropped).count .alive
    omega
  · rw [if_neg hlast]
    exact ⟨⟨.dropping, mem_set hlt _, .inr rfl⟩, (hset .dropping nofun).symm⟩

theorem Sound.dropSender (h : Sound s) (hi : s.senders[i]? = some .alive) :
    Sound (s.dropSender i) := by
  obtain ⟨hlive, hcount⟩ := h.live_dropSender hi
  refine ⟨h.index, h.conserved, hcount, fun w hw => ⟨(h.waker w hw).1, hlive⟩, fun n hn hpos => ?_,
    ?_⟩
  · exact absurd (h.ended n hn hpos).1 (h.count_ne_zero hi)
  · exact h.attended.of_senders rfl rfl rfl (h.count_ne_zero hi) hlive

theorem Sound.lockDrop (h : Sound s) (hi : s.senders[i]? = some .dropping)
    (hfree : s.consumer.locks = false) : Sound (s.lockDrop i) := by
  obtain ⟨hlt, hget⟩ := List.getElem?_eq_some_iff.mp hi
  refine ⟨h.index, h.conserved, ?_, nofun, h.ended, ?_⟩
  · change s.senderCount = (s.senders.set i .dropped).count .alive
    rw [count_set hlt, hget, h.counted]
    rfl
  · exact h.attended.of_calls hfree ⟨_, mem_last rfl, _, rfl⟩
      (fun w hw => ⟨_, mem_last rfl, hw⟩) (fun w => wakes_append rfl) rfl

private theorem wakes_set {s t : Stream T W} {call call' : StreamCall W}
    (hk : s.calls[k]? = some call) (ht : t.calls = s.calls.set k call') {w : W}
    (h : s.Wakes w) : t.Wakes w ∨ call.waker = some w := by
  obtain ⟨c, hc, hw⟩ := h
  obtain ⟨j, hj⟩ := getElem?_of_mem hc
  by_cases hjk : k = j
  · subst hjk
    cases hk.symm.trans hj
    exact .inr hw
  · refine .inl ⟨c, ht ▸ mem_of_getElem? (i := j) ?_, hw⟩
    rw [getElem?_set_ne hjk]
    exact hj

theorem Sound.notifyAll (h : Sound s) (hk : s.calls[k]? = some ⟨sender, .notifying waker⟩) :
    Sound { s with
      calls := s.calls.set k ⟨sender, .waking waker⟩, consumer := s.consumer.notify } := by
  refine ⟨h.index, h.conserved, h.counted, h.waker, h.ended, ?_⟩
  have hattended := h.attended
  cases hconsumer : s.consumer with
  | pending w =>
    rw [hconsumer] at hattended
    obtain hw | hw | hw := hattended
    · exact .inl hw
    · obtain ⟨hlt, _⟩ := List.getElem?_eq_some_iff.mp hk
      obtain hw | hw := wakes_set (t := { s with
        calls := s.calls.set k ⟨sender, .waking waker⟩, consumer := s.consumer.notify }) hk rfl hw
      · exact .inr (.inl hw)
      · exact .inr (.inl ⟨_, mem_set hlt _, hw⟩)
    · exact .inr (.inr hw)
  | counted | polled =>
    rw [hconsumer] at hattended
    exact hattended
  | blocked | idle | polling | gone => trivial

theorem Sound.wake (h : Sound s) (hk : s.calls[k]? = some ⟨sender, .waking waker⟩) :
    Sound { s with
      calls := s.calls.set k ⟨sender, .finished⟩, woken := s.woken ++ waker.toList } := by
  refine ⟨h.index, h.conserved, h.counted, h.waker, h.ended, ?_⟩
  have hattended := h.attended
  change Attended _ s.consumer
  cases hconsumer : s.consumer with
  | pending w =>
    rw [hconsumer] at hattended
    obtain hw | hw | hw := hattended
    · exact .inl hw
    · obtain hw | hw := wakes_set (t := { s with
        calls := s.calls.set k ⟨sender, .finished⟩, woken := s.woken ++ waker.toList }) hk rfl hw
      · exact .inr (.inl hw)
      · exact .inr (.inr (mem_append_right _ (Option.mem_toList.mpr hw)))
    · exact .inr (.inr (mem_append_left _ hw))
  | blocked _ notified =>
    rw [hconsumer] at hattended
    cases notified with
    | true => trivial
    | false =>
      obtain hquiet | ⟨c, hc, w, hphase⟩ := hattended
      · exact .inl hquiet
      · refine .inr ⟨c, ?_, w, hphase⟩
        obtain ⟨j, hj⟩ := getElem?_of_mem hc
        refine mem_of_getElem? (i := j) ?_
        rw [getElem?_set_ne]
        · exact hj
        · rintro rfl
          cases hk.symm.trans hj
          cases hphase
  | counted | polled =>
    rw [hconsumer] at hattended
    exact hattended
  | idle | polling | gone => trivial

end Senders

section Consumer
variable {s : Stream T W}

theorem take_eq (h : s.index = 0) (n : Nat) :
    s.take n = if s.state.values = [] then none
      else some (s.state.values.take n, { s.state with values := s.state.values.drop n }) := by
  simp only [take, h, Nat.sub_zero, Nat.zero_add, drop_zero, take_zero,
    nil_append]
  by_cases hvalues : s.state.values = []
  · rw [if_pos hvalues, hvalues]
    rfl
  · rw [if_pos (length_pos_iff.mpr hvalues), if_neg hvalues]
    obtain hle | hle := Nat.le_total s.state.values.length n
    · rw [Nat.min_eq_left hle, take_of_length_le hle, take_length, drop_length,
        drop_of_length_le hle]
    · rw [Nat.min_eq_right hle]

private theorem handed_hand (s : Stream T W) (state : StreamState T W) (n : Nat) (batch : List T) :
    (s.hand state n batch).handed = s.handed ++ batch := by
  simp [handed, hand]

section
variable (h : Sound s)
include h

theorem Sound.hand {state : StreamState T W} {n : Nat} {batch : List T}
    (hvalues : batch ++ state.values = s.state.values) (hwaker : state.waker = s.state.waker)
    (hend : batch = [] → 0 < n → s.senderCount = 0 ∧ s.state.values = []) :
    Sound (s.hand state n batch) := by
  have hnil : s.state.values = [] → state.values = [] := fun hnil =>
    (append_eq_nil_iff.mp (hvalues.trans hnil)).2
  refine ⟨h.index, ?_, h.counted, fun w hw => ?_, fun m hm hpos => ?_, trivial⟩
  · rw [handed_hand, append_assoc]
    exact (congrArg (s.handed ++ ·) hvalues).trans h.conserved
  · have hquiet := h.waker w (hwaker ▸ hw)
    exact ⟨hnil hquiet.1, hquiet.2⟩
  · have hended : s.senderCount = 0 ∧ s.state.values = [] := by
      obtain hm | hm := mem_append.mp hm
      · exact h.ended m hm hpos
      · cases mem_singleton.mp hm
        exact hend rfl hpos
    exact ⟨hended.1, hnil hended.2⟩

theorem Sound.turn {consumer : StreamConsumer W} (hc : s.Attended consumer) :
    Sound { s with consumer := consumer } :=
  ⟨h.index, h.conserved, h.counted, h.waker, h.ended, hc⟩

private theorem Sound.hand_taken (hne : s.state.values ≠ []) (n : Nat) :
    Sound (s.hand { s.state with values := s.state.values.drop n } n (s.state.values.take n)) := by
  refine h.hand (take_append_drop n _) rfl fun hnil hpos => ?_
  obtain hzero | hnil := take_eq_nil_iff.mp hnil
  · exact absurd hzero (Nat.ne_of_gt hpos)
  · exact absurd hnil hne

theorem Sound.recvBatch (call : RecvCall) : Sound (s.recvBatch call) := by
  unfold Stream.recvBatch
  rw [take_eq h.index]
  by_cases hvalues : s.state.values = []
  · rw [if_pos hvalues]
    exact h.turn ⟨hvalues, h.counts⟩
  · rw [if_neg hvalues]
    have hresult : call.result (s.state.values.take call.maxItems) =
        s.state.values.take call.maxItems := by
      cases call with
      | batch => rfl
      | single => cases hv : s.state.values <;> rfl
    dsimp only
    rw [hresult]
    exact h.hand_taken hvalues call.maxItems

theorem Sound.tryRecv (n : Nat) : Sound (s.tryRecv n).2 := by
  unfold Stream.tryRecv
  rw [take_eq h.index]
  by_cases hvalues : s.state.values = []
  · rw [if_pos hvalues]
    exact h.turn trivial
  · rw [if_neg hvalues]
    exact h.hand_taken hvalues n

theorem Sound.poll (waker : W) : Sound (s.poll waker) := by
  unfold Stream.poll
  rw [take_eq h.index]
  by_cases hvalues : s.state.values = []
  · rw [if_pos hvalues]
    exact h.turn trivial
  · rw [if_neg hvalues]
    exact h.hand_taken hvalues _

theorem Sound.endOrWait {call : RecvCall} {count : Nat} (hc : s.consumer = .counted call count) :
    Sound (s.endOrWait call count) := by
  have hattended := h.attended
  rw [hc] at hattended
  obtain ⟨hvalues, hcounts⟩ := hattended
  unfold Stream.endOrWait
  unfold Counts at hcounts
  by_cases hzero : count = 0
  · rw [if_pos hzero] at hcounts ⊢
    exact h.hand rfl rfl fun _ _ => ⟨hcounts, hvalues⟩
  · rw [if_neg hzero] at hcounts ⊢
    exact h.turn (.inl ⟨hvalues, hcounts⟩)

theorem Sound.endOrStore {waker : W} {count : Nat} (hc : s.consumer = .polled waker count) :
    Sound (s.endOrStore waker count) := by
  have hcounts : s.Counts count := by
    have hattended := h.attended
    rwa [hc] at hattended
  unfold Counts at hcounts
  unfold Stream.endOrStore
  by_cases hvalues : s.state.values = []
  · have hle : s.state.values.length ≤ s.index := by simp [hvalues]
    by_cases hzero : count = 0
    · rw [if_pos hzero] at hcounts
      rw [if_pos ⟨hzero, hle⟩]
      exact h.hand rfl rfl fun _ _ => ⟨hcounts, hvalues⟩
    · rw [if_neg hzero] at hcounts
      rw [if_neg fun hend => hzero hend.1, if_neg (Nat.not_lt_of_le hle)]
      exact ⟨h.index, h.conserved, h.counted, fun w hw => ⟨hvalues, hcounts⟩, h.ended, .inl rfl⟩
  · have hlt : s.index < s.state.values.length := by
      rw [h.index]
      exact length_pos_iff.mpr hvalues
    rw [if_neg fun hend => Nat.not_le_of_gt hlt hend.2, if_pos hlt]
    exact h.turn trivial

end

end Consumer

section Runs
variable {s t : Stream T W} {e : StreamEvent T W}

theorem Sound.step (h : Sound s) (hst : step s e = some t) : Sound t := by
  revert hst
  fun_cases Stream.step s e <;> rintro ⟨⟩
  next value hguard => exact h.send hguard.1 hguard.2 value
  next hguard => exact h.clone hguard
  next hguard => exact h.dropSender hguard.1
  next hguard => exact h.lockDrop hguard.1 hguard.2
  next hk => exact h.notifyAll hk
  next hk => exact h.wake hk
  next call _ => exact h.recvBatch call
  next call _ _ => exact h.recvBatch call
  next n _ => exact h.tryRecv n
  next waker _ => exact h.poll waker
  next waker _ => exact h.poll waker
  next => exact h.turn h.counts
  next hc => exact h.endOrWait hc
  next hc => exact h.endOrStore hc
  next => exact ⟨h.index, h.conserved, h.counted, h.waker, h.ended, trivial⟩

theorem sound_of_reachable (h : Reachable step (new : Stream T W) s) : Sound s :=
  h.invariant sound_new fun _ _ _ hs _ hst => hs.step hst

end Runs

end Sitas.Runtime.Stream
