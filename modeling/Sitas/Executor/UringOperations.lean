import Sitas.Executor.UringSound

namespace Sitas.Executor.Uring
open Sitas.Lib Sitas.Os.Uring List Function Threads Option

variable {s t : Threads} {thread i fuel owner op : Nat} {kernel : Kernel} {d : IoUringDispatcher}

theorem currentDispatcher_eq_some :
    s.currentDispatcher thread = some (i, d) ↔
      s.dispatchers i = some d ∧ ∃ owner, s.current thread = some ⟨owner, i⟩ := by
  constructor
  · intro h
    obtain ⟨c, hc, hd⟩ := bind_eq_some_iff.mp h
    obtain ⟨d', hd', heq⟩ := map_eq_some_iff.mp hd
    cases heq
    exact ⟨hd', c.owner, hc⟩
  · rintro ⟨hd, owner, hc⟩
    simp [currentDispatcher, hc, hd]

section Shutdown
variable {P : Threads → Prop} (hshut : ∀ {s t i d}, P s → s.currentDispatcher thread = some (i, d) →
  d.registeredWakers = 0 → s.shutDown thread i d kernel fuel = some t → P t) (h : P s)
include hshut h

theorem shutdownCurrentIfIdle_induction (ht : s.shutdownCurrentIfIdle thread kernel fuel = some t) :
    P t := by
  revert ht
  fun_cases s.shutdownCurrentIfIdle thread kernel fuel with
  | case1 i d hcur hidle => exact hshut h hcur hidle
  | case2 | case3 => rintro ⟨⟩; exact h

theorem shutdownCurrent_induction {x : IoUringExecutorStatus × Threads}
    (hx : s.shutdownCurrent thread owner kernel fuel = some x) : P x.2 := by
  revert hx
  fun_cases s.shutdownCurrent thread owner kernel fuel with
  | case1 | case2 | case4 => rintro ⟨⟩; exact h
  | case3 c i d hcur _ _ hidle =>
    intro hx
    obtain ⟨t, ht, rfl⟩ := map_eq_some_iff.mp hx
    exact hshut h hcur (Nat.eq_zero_of_not_pos hidle) ht

/-- What the shutdown of an installed dispatcher without a waker keeps holds at the end of a call. -/
theorem leave_induction {unwinds : Bool} (ht : s.leave thread owner unwinds kernel fuel = some t) :
    P t := by
  rw [leave] at ht
  split at ht
  · exact shutdownCurrentIfIdle_induction hshut h ht
  · obtain ⟨⟨status, s₁⟩, hfirst, hsecond⟩ := bind_eq_some_iff.mp ht
    exact shutdownCurrentIfIdle_induction hshut (shutdownCurrent_induction hshut h hfirst) hsecond

end Shutdown

theorem availableIoUring_new {entries : Nat} {setup : Except Nat Unit} {required : Bool}
    {ring : IoUring} (h : availableIoUring entries setup required = .ok (some ring)) :
    ring = .new entries := by
  revert h
  fun_cases availableIoUring <;> rintro ⟨⟩
  rfl

section
variable (h : Sound s)
include h

theorem Sound.shutDown (hd : s.dispatchers i = some d)
    (ht : s.shutDown thread i d kernel fuel = some t) : Sound t := by
  obtain ⟨⟨outcome, d₁, n⟩, hdrain, hrest⟩ := bind_eq_some_iff.mp ht
  obtain ⟨⟨d₂, n'⟩, hdrop, rfl⟩ := map_eq_some_iff.mp hrest
  have hdrained := (h.kept i d hd).shutdownDrain h.distinct hdrain
  exact (h.keep hd (hdrained.drop h.distinct hdrop)).setCurrent thread none

theorem Sound.leave {unwinds : Bool} (ht : s.leave thread owner unwinds kernel fuel = some t) :
    Sound t :=
  leave_induction (fun h hcur _ => h.shutDown (currentDispatcher_eq_some.mp hcur).1) h ht

theorem Sound.installCurrentIoUring {setup : Except Nat Unit} {required : Bool}
    (ht : s.installCurrentIoUring thread owner setup required kernel fuel = some (.ok t)) :
    Sound t := by
  have hinstall : ∀ ring, availableIoUring executorIoUringEntries setup required = .ok ring →
      Sound (s.install thread owner ring) := by
    rintro (_ | ring) hring
    · exact h.setCurrent thread none
    · rw [availableIoUring_new hring]
      exact h.install thread owner _
  revert ht
  fun_cases s.installCurrentIoUring thread owner setup required kernel fuel with
  | case1 => rintro ⟨⟩; exact h
  | case2 | case4 | case5 => rintro ⟨⟩
  | case3 _ c i d hcur _ _ _ ring hring =>
    intro ht
    have hd := (currentDispatcher_eq_some.mp hcur).1
    obtain ⟨⟨d', n⟩, hdrop, heq⟩ := map_eq_some_iff.mp ht
    cases heq
    have hinstalled := hinstall ring hring
    have hstill : (s.install thread owner ring).dispatchers i = some d := by
      cases ring with
      | none => exact hd
      | some ring =>
        exact dispatchers_setDispatcher.mpr (.inr ⟨Nat.ne_of_lt (h.created i d hd), hd⟩)
    exact hinstalled.keep hstill ((hinstalled.kept i d hstill).drop hinstalled.distinct hdrop)
  | case6 _ ring hring => rintro ⟨⟩; exact hinstall ring hring

theorem Sound.create {f offset len : Nat} {transfer : Transfer} {fd : RawFd}
    (ht : s.create f transfer fd offset len = some t) : Sound t := by
  unfold Threads.create at ht
  split at ht
  · cases ht
  next hnone =>
    cases ht
    have hnot : ¬ s.Released f := by
      intro hrel
      obtain ⟨cell, hcell⟩ := h.released f hrel
      cases hnone.symm.trans hcell
    have hunqueued : ∀ g op, ¬ QueuedOn s.futures g op f := by
      rintro g op ⟨cell, hcell, _⟩
      cases hnone.symm.trans hcell
    refine h.setFuture (fun g op => ?_) ?_ (fun hsome => absurd rfl hsome) ?_
    · exact ⟨fun hq => (nomatch hq), fun hq => absurd hq (hunqueued g op)⟩
    · rintro ⟨cell, hcell, _⟩
      cases hnone.symm.trans hcell
    · refine ⟨fun op hop => ?_, fun _ _ _ => rfl, fun b hb => ?_⟩
      · cases transfer <;> cases hop
      · cases transfer <;> cases hb <;> exact ⟨rfl, hnot, rfl⟩

theorem Sound.ring {ring : IoUring} (hd : s.dispatchers i = some d)
    (hsame : SameOperations d.ring ring) : Sound (s.setDispatcher i { d with ring := ring }) :=
  h.keep hd ((carried_kept h.distinct).ring [] d ring hsame (h.kept i d hd))

theorem Sound.dispatch (ht : s.dispatch thread = some t) : Sound t := by
  obtain ⟨⟨i, d⟩, hcur, rfl⟩ := map_eq_some_iff.mp ht
  have hd := (currentDispatcher_eq_some.mp hcur).1
  have hcarried : IoUringDispatcher.Carried fun _ => Kept s.futures s.Released i :=
    carried_kept h.distinct
  have hdispatched := hcarried.dispatchAvailableLimit [] executorIoUringCompletionBudget
    (h.kept i d hd)
  exact (h.keep hd hdispatched).wakeAll _

theorem Sound.submitPending (ht : s.submitPending thread kernel = some t) : Sound t := by
  obtain ⟨⟨i, d⟩, hcur, hrest⟩ := bind_eq_some_iff.mp ht
  obtain ⟨⟨result, ring, n⟩, hsubmit, rfl⟩ := map_eq_some_iff.mp hrest
  exact h.ring (currentDispatcher_eq_some.mp hcur).1 (IoUring.sameOperations_submitLoop hsubmit)

theorem Sound.post {completions : List IoUringCompletion} (ht : s.post i completions = some t) :
    Sound t := by
  obtain ⟨d, hd, rfl⟩ := map_eq_some_iff.mp ht
  exact h.ring hd ⟨rfl, rfl⟩

theorem Sound.attempt {f g : Nat} {cell : FutureCell} {d d' : IoUringDispatcher}
    {progress : Progress} {future : TransferAtUring} (woken : List Nat)
    (hcell : s.futures f = some cell) (hwaits : cell.resolution = none ∧ cell.dropped = false)
    (hqueued : cell.queued = some (g, op)) (hop : cell.future.operation = some op)
    (hd : s.dispatchers g = some d)
    (hattempt : Attempt cell.future op f d.dispatchAvailable.2.2 progress future d') :
    Sound (s.polled f g (some (g, op)) progress future woken d') := by
  have hcarried : IoUringDispatcher.Carried fun _ => Kept s.futures s.Released g :=
    carried_kept h.distinct
  have hkept : Kept s.futures s.Released g d.dispatchAvailable.2.2 :=
    hcarried.dispatchAvailable [] (h.kept g d hd)
  have h₁ := h.keep hd hkept
  have hcell₁ : (s.setDispatcher g d.dispatchAvailable.2.2).futures f = some cell := hcell
  have hp := h₁.proper f cell hcell₁
  have hupdate : ∀ d', update (update s.dispatchers g
      (some d.dispatchAvailable.2.2)) g (some d') = update s.dispatchers g (some d') :=
    fun d' => update_idem ..
  have htake : ∀ cell', cell'.queued = some (g, op) → cell'.resolution ≠ none →
      Proper (s.setDispatcher g d.dispatchAvailable.2.2).Released f cell' →
      Sound (((s.setDispatcher g d.dispatchAvailable.2.2).setFuture f cell').setDispatcher g
        (d.dispatchAvailable.2.2.takeCompletion op).2) := by
    intro cell' hq hres hproper
    have h₂ := h₁.change hcell₁ cell' (hq.trans hqueued.symm)
      (fun hdropped => by cases hwaits.2.symm.trans hdropped)
      (fun hnone => absurd hnone hres) hproper
    have hd₂ : ((s.setDispatcher g d.dispatchAvailable.2.2).setFuture f cell').dispatchers g =
        some d.dispatchAvailable.2.2 := update_self ..
    refine h₂.keep hd₂ ((h₂.kept g _ hd₂).take fun x hx hw => ?_)
    have hx' := h₂.distinct g op x f hx (queuedOn_update_self.mpr hq)
    subst hx'
    obtain ⟨cell₀, hcell₀, hnone, _⟩ := hw
    cases (update_self ..).symm.trans hcell₀
    exact hres hnone
  cases hattempt with
  | pending hnone =>
    have hkept' : Kept s.futures s.Released g { d.dispatchAvailable.2.2 with
        waiters := d.dispatchAvailable.2.2.waiters.insert op f } := { hkept with }
    have hcell' : (⟨cell.future, some (g, op), none, false⟩ : FutureCell) = cell := by
      rw [← hqueued, ← hwaits.1, ← hwaits.2]
    refine (h.keep hd hkept').congr rfl rfl ?_ (append_nil _)
    change update s.futures f (some ⟨cell.future, some (g, op), none, false⟩) = s.futures
    rw [hcell', ← hcell, update_eq_self]
  | failed completion e taken =>
    refine (htake ⟨cell.future, some (g, op), some (.completion g completion), false⟩ rfl nofun
      ⟨fun op' hop' => ?_, fun _ _ hnone => ?_, fun b hb => ?_⟩).congr (hupdate _).symm rfl rfl
      (append_nil _)
    · cases hop.symm.trans hop'
      exact ⟨g, rfl⟩
    · cases hop.symm.trans hnone
    · obtain ⟨haddr, hheld, _⟩ := hp.buffer b hb
      exact ⟨haddr, hheld, rfl⟩
  | delivered completion bytes buffer taken held =>
    have haddr : buffer.addr = f := (hp.buffer buffer held).1
    have hdelivered : (TransferAtUring.deliver cell.future.transfer bytes buffer).2.addr = f := by
      rw [← haddr]
      cases cell.future.transfer <;> rfl
    have h₃ := htake ⟨{ cell.future with buffer := none, operation := none }, some (g, op),
      some (.completion g completion), false⟩ rfl nofun
      ⟨fun _ hnone => (by cases hnone), fun _ hnone => (by cases hnone),
        fun _ hnone => (by cases hnone)⟩
    have hover : op ∉ d.dispatchAvailable.2.2.ring.operations :=
      (hkept.completed op (AList.lookup_isSome.mp (taken ▸ rfl))).1
    refine (h₃.free (b := (TransferAtUring.deliver cell.future.transfer bytes buffer).2) ?_).congr
      (hupdate _).symm rfl rfl rfl
    rw [hdelivered]
    refine ⟨_, update_self .., rfl, fun g' op' d' hq hd' => ?_⟩
    cases hq
    rcases dispatchers_setDispatcher.mp hd' with ⟨_, rfl⟩ | ⟨hne, _⟩
    · exact hover
    · exact absurd rfl hne

end

end Sitas.Executor.Uring
