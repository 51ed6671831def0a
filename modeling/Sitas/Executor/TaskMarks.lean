import Sitas.Executor.TaskState

namespace Sitas.Executor.Interleaving

/-- What is left of a task outside its own state. -/
structure Marks where
  queue : Nat
  /-- Calls about to put the task into a queue. -/
  pushing : Nat
  /-- Sections of the spawn before it is accepted. -/
  entering : Nat
  /-- Sections of wakes, aborts and ends of the task. -/
  referring : Nat
  finishing : Nat
  accepted : Nat
  finished : Nat
  woken : Bool
  popped : Bool
  polled : Bool

namespace Marks

def zero : Marks := ⟨0, 0, 0, 0, 0, 0, 0, false, false, false⟩

/-- Entries of the task in the ready queues, those about to be made and the one taken out
to be polled. -/
def entries (m : Marks) : Nat := m.queue + m.pushing + m.popped.toNat

end Marks

/-- How the state of a task and what is left of it outside fit together. -/
structure Tracked {F : Type} (state : TaskState F Unit) (m : Marks) : Prop where
  lifecycle : state.Lifecycle
  live : state.future.isSome = true → state.cancelRequested = false
  polling : state.polling = m.polled
  entries_le : m.entries ≤ 1
  queued : state.queued = true → m.entries = 1
  held : m.entries = 1 → state.queued = true ∨ state.completed = true
  woken : m.woken = true → state.completed = false → state.queued = true
  entering : m.entering + m.accepted ≤ 1
  known : 0 < m.queue + m.referring + m.woken.toNat + m.popped.toNat + m.polled.toNat →
    m.accepted = 1
  unknown : m.accepted = 0 → state.completed = false
  finish : m.finished + m.finishing = if m.accepted = 1 ∧ state.completed = true then 1 else 0

section Tracked
variable {F : Type} {state : TaskState F Unit} {m : Marks}

theorem tracked_new (future : F) (panicHandler : Option Unit) :
    Tracked (.new future panicHandler) { Marks.zero with entering := 1 } where
  lifecycle := TaskState.lifecycle_new future panicHandler
  live _ := rfl
  polling := rfl
  entries_le := Nat.zero_le 1
  queued := nofun
  held := nofun
  woken := nofun
  entering := Nat.le_refl 1
  known h := absurd h (Nat.lt_irrefl 0)
  unknown _ := rfl
  finish := rfl

section
variable (h : Tracked state m)
include h

theorem Tracked.accepted_of_woken (hw : m.woken = true) : m.accepted = 1 := by
  refine h.known ?_
  rw [hw, Bool.toNat_true]
  omega

theorem Tracked.finished_le : m.finished + m.finishing ≤ m.accepted := by
  rw [h.finish]
  split
  next hended =>
    exact Nat.le_of_eq hended.1.symm
  · exact Nat.zero_le _

theorem Tracked.leave (entering referring : Nat) (he : entering ≤ m.entering)
    (hr : referring ≤ m.referring) :
    Tracked state { m with entering := entering, referring := referring } :=
  { h with
    entering := by
      have hle := h.entering
      dsimp only
      omega
    known := fun hpos => h.known (by dsimp only at hpos; omega) }

theorem Tracked.refer (ha : m.accepted = 1) :
    Tracked state { m with referring := m.referring + 1 } :=
  { h with known := fun _ => ha }

theorem Tracked.mark {now : Nat} (woken : Bool) (hmark : (state.markQueued now).1 = true)
    (hw : woken = true → m.accepted = 1) :
    Tracked (state.markQueued now).2 { m with pushing := m.pushing + 1, woken := woken } := by
  obtain ⟨hqueued, hlive, heq⟩ := TaskState.markQueued_of_true hmark
  have hcompleted := h.lifecycle.not_completed hlive
  have hentries : m.entries = 0 := by
    have hle := h.entries_le
    by_contra hne
    have hheld := h.held (by omega)
    simp [hqueued, hcompleted] at hheld
  have hknown := h.known
  simp only [Marks.entries] at hentries
  rw [heq]
  refine { h with
    lifecycle := ⟨h.lifecycle.ended, h.lifecycle.polling, h.lifecycle.alive⟩
    entries_le := ?_, queued := ?_, held := fun _ => .inl rfl, woken := fun _ _ => rfl
    known := ?_ } <;> simp only [Marks.entries]
  · omega
  · intro _
    omega
  · intro hpos
    cases woken with
    | true => exact hw rfl
    | false => exact hknown (by simp only [Bool.toNat_false] at hpos; omega)

theorem Tracked.coalesce {now : Nat} (hmark : (state.markQueued now).1 = false)
    (ha : m.accepted = 1) : Tracked state { m with woken := true } :=
  { h with
    woken := by
      intro _ hcompleted
      rcases (TaskState.markQueued_of_false hmark).2 with hq | ⟨hfuture, hpoll⟩
      · exact hq
      · have hsome := h.lifecycle.alive hcompleted hpoll
        rw [hfuture] at hsome
        cases hsome
    known := fun _ => ha }

theorem Tracked.accept (he : 0 < m.entering) (hp : 0 < m.pushing) :
    Tracked state { m with
      queue := m.queue + 1
      pushing := m.pushing - 1
      entering := m.entering - 1
      accepted := m.accepted + 1 } := by
  have hentering := h.entering
  have hle := h.entries_le
  have hqueued := h.queued
  have hheld := h.held
  have hunknown := h.unknown (by omega)
  have hfinish := h.finish
  simp only [Marks.entries] at hle hqueued hheld
  refine { h with
    entries_le := ?_, queued := ?_, held := ?_, entering := ?_, known := ?_
    unknown := fun _ => hunknown, finish := ?_ } <;> simp only [Marks.entries]
  · omega
  · intro hq
    have := hqueued hq
    omega
  · intro _
    exact hheld (by omega)
  · omega
  · intro _
    omega
  · simpa [hunknown] using hfinish

theorem Tracked.reject (he : 0 < m.entering) (hp : 0 < m.pushing) :
    Tracked state.clearQueued { m with pushing := m.pushing - 1, entering := m.entering - 1 } := by
  have hentering := h.entering
  have hle := h.entries_le
  have hknown := h.known
  simp only [Marks.entries] at hle
  refine { h with
    lifecycle := ⟨h.lifecycle.ended, h.lifecycle.polling, h.lifecycle.alive⟩
    entries_le := ?_, queued := nofun, held := ?_, woken := ?_, entering := ?_ } <;>
    simp only [Marks.entries]
  · omega
  · intro _
    omega
  · intro hwoken
    rw [hwoken] at hknown
    have := hknown (by simp only [Bool.toNat_true]; omega)
    omega
  · omega

theorem Tracked.push (hp : 0 < m.pushing) (hr : 0 < m.referring) :
    Tracked state { m with
      queue := m.queue + 1
      pushing := m.pushing - 1
      referring := m.referring - 1 } := by
  have hle := h.entries_le
  have hqueued := h.queued
  have hheld := h.held
  have haccepted := h.known (by omega)
  simp only [Marks.entries] at hle hqueued hheld
  refine { h with
    entries_le := ?_, queued := ?_, held := ?_, known := fun _ => haccepted } <;>
    simp only [Marks.entries]
  · omega
  · intro hq
    have := hqueued hq
    omega
  · intro _
    exact hheld (by omega)

theorem Tracked.cancelPolling (hp : state.polling = true) :
    Tracked { state with cancelRequested := true } m :=
  { h with
    lifecycle := ⟨h.lifecycle.ended, h.lifecycle.polling, h.lifecycle.alive⟩
    live := by
      intro hfuture
      rw [h.lifecycle.polling hp] at hfuture
      cases hfuture }

theorem Tracked.ended (hlive : state.completed = false) (ha : m.accepted = 1)
    {next : TaskState F Unit} (hl : next.Lifecycle) (hc : next.completed = true)
    (hq : next.queued = true → state.queued = true) (referring : Nat) :
    Tracked next { m with
      polled := false
      finishing := m.finishing + 1
      referring := referring } := by
  obtain ⟨hpoll, hfuture⟩ := hl.ended hc
  have hfinish := h.finish
  refine { h with
    lifecycle := hl, polling := hpoll, live := ?_, queued := fun hn => h.queued (hq hn)
    held := fun _ => .inr hc, woken := ?_, known := fun _ => ha, unknown := ?_, finish := ?_ }
  · rw [hfuture]
    exact nofun
  · intro _ hn
    rw [hc] at hn
    cases hn
  · intro hzero
    rw [ha] at hzero
    cases hzero
  · simp only [hlive, ha, hc, Bool.false_eq_true, and_false, if_false, and_self, if_true] at hfinish ⊢
    omega

theorem Tracked.reported (hf : 0 < m.finishing) :
    Tracked state { m with
      finishing := m.finishing - 1
      finished := m.finished + 1
      referring := m.referring - 1 } := by
  have hfinish := h.finish
  have haccepted : m.accepted = 1 := by
    by_contra hne
    rw [if_neg (fun hand => hne hand.1)] at hfinish
    omega
  refine { h with known := fun _ => haccepted, finish := ?_ }
  dsimp only
  omega

theorem Tracked.pop (hq : 0 < m.queue) :
    Tracked state { m with queue := m.queue - 1, popped := true } := by
  have hle := h.entries_le
  have haccepted := h.known (by omega)
  have hpopped : m.popped = false := by
    by_contra hne
    rw [Marks.entries, Bool.of_not_eq_false hne, Bool.toNat_true] at hle
    omega
  have hentries : ({ m with queue := m.queue - 1, popped := true } : Marks).entries = m.entries := by
    simp only [Marks.entries, hpopped, Bool.toNat_true, Bool.toNat_false]
    omega
  exact { h with
    entries_le := by rwa [hentries]
    queued := by rw [hentries]; exact h.queued
    held := by rw [hentries]; exact h.held
    known := fun _ => haccepted }

end

section Poll
variable (h : Tracked state m)
include h

private theorem Tracked.lastEntry (hp : m.popped = true) : m.queue + m.pushing = 0 := by
  have hle := h.entries_le
  simp only [Marks.entries, hp, Bool.toNat_true] at hle
  omega

/-- The entry taken out is used up when the executor thread takes the future, which it
finds only in a task that has neither ended nor been cancelled. -/
theorem Tracked.take (hp : m.popped = true) {now : Nat} {future : F}
    (hf : (state.takeFutureForPoll now).1 = some future) :
    (state.completed = false ∧ state.cancelRequested = false) ∧
      Tracked (state.takeFutureForPoll now).2
        { m with popped := false, polled := true, woken := false } := by
  obtain ⟨hfuture, heq⟩ := TaskState.takeFutureForPoll_of_some hf
  have hsome : state.future.isSome = true := by rw [hfuture]; rfl
  have hentries := h.lastEntry hp
  have hl := (h.lifecycle.takeFutureForPoll now).1
  have haccepted := h.known (by rw [hp, Bool.toNat_true]; omega)
  refine ⟨⟨h.lifecycle.not_completed (.inl hsome), h.live hsome⟩, ?_⟩
  rw [heq] at hl ⊢
  refine { h with
    lifecycle := hl, live := nofun, polling := rfl, entries_le := ?_, queued := nofun
    held := ?_, woken := nofun, known := fun _ => haccepted } <;>
    simp only [Marks.entries, Bool.toNat_false]
  · omega
  · intro hone
    omega

theorem Tracked.discard (hp : m.popped = true) (hn : m.polled = false) {now : Nat}
    (hf : (state.takeFutureForPoll now).1 = none) :
    Tracked (state.takeFutureForPoll now).2 { m with popped := false } := by
  obtain ⟨hnone, heq⟩ := TaskState.takeFutureForPoll_of_none hf
  have hentries := h.lastEntry hp
  have hl := (h.lifecycle.takeFutureForPoll now).1
  have haccepted := h.known (by rw [hp, Bool.toNat_true]; omega)
  have hcompleted : state.completed = true := by
    by_contra hc
    have hsome := h.lifecycle.alive (Bool.eq_false_iff.mpr hc) (h.polling.trans hn)
    rw [hnone] at hsome
    cases hsome
  rw [heq] at hl ⊢
  refine { h with
    lifecycle := hl, entries_le := ?_, queued := nofun, held := fun _ => .inr hcompleted
    woken := fun _ hc => ?_, known := fun _ => haccepted }
  · simp only [Marks.entries, Bool.toNat_false]
    omega
  · cases hcompleted.symm.trans hc

theorem Tracked.pending (hp : m.polled = true) (hr : state.cancelRequested = false) (future : F)
    (d now : Nat) : Tracked (state.finishPending future d now).2 { m with polled := false } := by
  have hpoll := h.polling.trans hp
  have hl := (h.lifecycle.finishPending hpoll future d now).1
  have haccepted := h.known (by rw [hp, Bool.toNat_true]; omega)
  simp only [TaskState.finishPending, hr, Bool.false_eq_true, if_false] at hl ⊢
  exact { h with
    lifecycle := hl, live := fun _ => rfl, polling := rfl, known := fun _ => haccepted }

end Poll
end Tracked

end Sitas.Executor.Interleaving
