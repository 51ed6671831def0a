import Sitas.Executor.UringBuffers

namespace Sitas.Executor.Uring
open Sitas.Lib Sitas.Os.Uring List Function AList IoUringDispatcher Threads Option

/-- What the dispatcher has for the futures in `who`: the operation is in flight and its
completion will wake the future, or the completion is there and the future was woken. -/
structure Awaited (cells : Nat → Option FutureCell) (who woken : Nat → Prop) (g : Nat)
    (d : IoUringDispatcher) : Prop where
  named : ∀ op c, d.completions.lookup op = some c → c.operation = op
  awaited : ∀ op f, who f → QueuedOn cells g op f → Waits cells f →
    op ∈ d.ring.operations ∧ d.waiters.lookup op = some f ∨ op ∈ d.completions ∧ woken f

section Dispatcher
variable {cells : Nat → Option FutureCell} {released who before : Nat → Prop} {g : Nat}
  {d : IoUringDispatcher}

theorem carried_awaited (hdistinct : Distinct cells) :
    Carried fun woken d => Kept cells released g d ∧
      Awaited cells who (fun f => before f ∨ f ∈ woken) g d := by
  have hkept : Carried fun _ => Kept cells released g := carried_kept hdistinct
  refine ⟨fun woken d ring hsame h => ⟨hkept.ring woken d ring hsame h.1, h.2.named, ?_⟩,
    fun woken d ring completion hmem hops hnext h =>
      ⟨hkept.dispatch woken d ring completion hmem hops hnext h.1, ?_⟩⟩
  · simpa only [hsame.operations] using h.2.awaited
  · have hstays : ∀ op, op ≠ completion.operation → op ∈ d.ring.operations →
        op ∈ ring.operations := by
      intro op hne hop
      rw [hops, mem_erase]
      exact ⟨hne, hop⟩
    rw [IoUringDispatcher.dispatch]
    dsimp only
    split
    next hab =>
      refine ⟨h.2.named, fun op f hwho hq hw => ?_⟩
      rw [toList_none, append_nil]
      refine (h.2.awaited op f hwho hq hw).imp_left fun hkept => ⟨hstays op ?_ hkept.1, hkept.2⟩
      rintro rfl
      exact hw.not_dropped (h.1.dropped_of_abandoned hdistinct hq hab)
    · have hnamed : ∀ op c, (d.completions.insert completion.operation completion).lookup op =
          some c → c.operation = op := by
        intro op c hc
        obtain ⟨rfl, rfl⟩ | ⟨_, hc⟩ := lookup_insert_eq_some.mp hc
        · rfl
        · exact h.2.named op c hc
      have hthere : ∀ op, op = completion.operation ∨ op ∈ d.completions →
          op ∈ d.completions.insert completion.operation completion :=
        fun op => (mem_insert _).mpr
      split
      next hnone =>
        refine ⟨hnamed, fun op f hwho hq hw => ?_⟩
        rw [toList_none, append_nil]
        refine (h.2.awaited op f hwho hq hw).imp (fun hkept => ⟨hstays op ?_ hkept.1, hkept.2⟩)
          fun hfound => ⟨hthere op (.inr hfound.1), hfound.2⟩
        rintro rfl
        cases hnone.symm.trans hkept.2
      next waker hwaker =>
        refine ⟨hnamed, fun op f hwho hq hw => ?_⟩
        rcases h.2.awaited op f hwho hq hw with ⟨hop, hwaiter⟩ | ⟨hop, hwoken⟩
        · by_cases heq : op = completion.operation
          · subst heq
            cases hwaker.symm.trans hwaiter
            exact .inr ⟨hthere _ (.inl rfl), .inr (mem_append_right _ (by simp))⟩
          · refine .inl ⟨hstays op heq hop, ?_⟩
            rwa [lookup_erase_ne heq]
        · exact .inr ⟨hthere op (.inr hop), hwoken.imp_right (mem_append_left _)⟩

end Dispatcher

/-- A pending future has its dispatcher installed, and a resolved one was resolved with the
completion of its own operation. -/
structure Answers (thread : Nat) (s : Threads) (cell : FutureCell) : Prop where
  pending : ∀ g op, cell.queued = some (g, op) → cell.resolution = none → cell.dropped = false →
    (∃ d, s.currentDispatcher thread = some (g, d)) ∧ cell.future.operation = some op ∧
      ∃ b, cell.future.buffer = some b
  own : ∀ g c, cell.resolution = some (.completion g c) → cell.queued = some (g, c.operation)

/-- The invariant of the calls of one executor on one thread. Inside a poll it leaves out
the polled future. -/
structure Steady (thread owner : Nat) (who : Nat → Prop) (s : Threads) : Prop where
  sound : Sound s
  current : ∀ c, s.current thread = some c → c.owner = owner ∧ ∃ d, s.dispatchers c.dispatcher = some d
  awaited : ∀ g d, s.currentDispatcher thread = some (g, d) →
    Awaited s.futures who (fun f => s.woken f = true) g d
  cells : ∀ f cell, s.futures f = some cell → Answers thread s cell

section Steps
variable {thread owner f op i g fuel : Nat} {who : Nat → Prop} {s t : Threads} {cell : FutureCell}
  {d d' : IoUringDispatcher} {woken : List Nat} {kernel : Kernel}

theorem futures_update {cells : Nat → Option FutureCell} {cell' : FutureCell} {x : Nat}
    (h : update cells f (some cell') x = some cell) : cells x = some cell ∨ x = f ∧ cell = cell' :=
  (update_eq_some.mp h).symm.imp And.right (And.imp_right Eq.symm)

theorem Answers.same (h : Answers thread s cell) (hcurrent : t.current thread = s.current thread)
    (hdispatchers : ∀ g, (∃ d, s.dispatchers g = some d) → ∃ d, t.dispatchers g = some d) :
    Answers thread t cell := by
  refine { h with pending := fun g op hq hres halive => ?_ }
  obtain ⟨⟨d, hd⟩, hrest⟩ := h.pending g op hq hres halive
  obtain ⟨hd, o, hc⟩ := currentDispatcher_eq_some.mp hd
  obtain ⟨d', hd'⟩ := hdispatchers g ⟨d, hd⟩
  exact ⟨⟨d', currentDispatcher_eq_some.mpr ⟨hd', o, hcurrent.trans hc⟩⟩, hrest⟩

theorem Steady.change (h : Steady thread owner who s) (who' : Nat → Prop) (hsound : Sound t)
    (hcurrent : t.current thread = s.current thread)
    (hdispatchers : ∀ g, (∃ d, s.dispatchers g = some d) → ∃ d, t.dispatchers g = some d)
    (hcells : ∀ x cell, t.futures x = some cell → s.futures x = some cell ∨ Answers thread t cell)
    (hawaited : ∀ g d, t.currentDispatcher thread = some (g, d) →
      Awaited t.futures who' (fun f => t.woken f = true) g d) : Steady thread owner who' t where
  sound := hsound
  current c hc := by
    obtain ⟨howner, hd⟩ := h.current c (hcurrent ▸ hc)
    exact ⟨howner, hdispatchers _ hd⟩
  awaited := hawaited
  cells x cell hcell := by
    rcases hcells x cell hcell with hold | hnew
    · exact (h.cells x cell hold).same hcurrent hdispatchers
    · exact hnew

theorem Steady.waiting_installed (h : Steady thread owner who s)
    (hq : QueuedOn s.futures g op f) (hw : Waits s.futures f) :
    ∃ d, s.currentDispatcher thread = some (g, d) := by
  obtain ⟨cell, hcell, hqueued⟩ := hq
  obtain ⟨cell', hcell', hres, halive⟩ := hw
  cases hcell.symm.trans hcell'
  exact ((h.cells f cell hcell).pending g op hqueued hres halive).1

theorem currentDispatcher_setDispatcher
    (h : (s.setDispatcher i d').currentDispatcher thread = some (g, d)) :
    g = i ∧ d = d' ∨ s.currentDispatcher thread = some (g, d) := by
  obtain ⟨hd, o, hc⟩ := currentDispatcher_eq_some.mp h
  rcases dispatchers_setDispatcher.mp hd with hsame | ⟨_, hold⟩
  · exact .inl hsame
  · exact .inr (currentDispatcher_eq_some.mpr ⟨hold, o, hc⟩)

theorem currentDispatcher_replaced {d'' : IoUringDispatcher}
    (hcur : s.currentDispatcher thread = some (i, d))
    (ht : t.currentDispatcher thread = some (g, d''))
    (hcurrent : t.current thread = s.current thread) (hd : t.dispatchers i = some d') :
    g = i ∧ d'' = d' := by
  obtain ⟨_, o, hc⟩ := currentDispatcher_eq_some.mp hcur
  obtain ⟨hd'', o', hc'⟩ := currentDispatcher_eq_some.mp ht
  cases hc.symm.trans (hcurrent.symm.trans hc')
  cases hd.symm.trans hd''
  exact ⟨rfl, rfl⟩

theorem woken_wakeAll : (s.wakeAll woken).woken f = true ↔ s.woken f = true ∨ f ∈ woken := by
  simp [wakeAll]

theorem steady_new : Steady thread owner who .new where
  sound := .sound_new
  current c hc := by cases hc
  awaited g d hd := by cases hd
  cells f cell hcell := by cases hcell

section
variable (h : Steady thread owner who s)
include h

theorem Steady.create {offset len : Nat} {transfer : Transfer} {fd : RawFd} (hsound : Sound t)
    (ht : s.create f transfer fd offset len = some t) : Steady thread owner who t := by
  unfold Threads.create at ht
  split at ht
  · cases ht
  next hnone =>
    cases ht
    refine h.change _ hsound rfl (fun _ => id) (fun x cell hx => ?_) fun g d hd => ?_
    · refine (futures_update hx).imp_right ?_
      rintro ⟨_, rfl⟩
      exact ⟨fun g op hq => (nomatch hq), fun g c hc => (nomatch hc)⟩
    · have haw := h.awaited g d hd
      refine { haw with awaited := fun op x hwho hq hw => ?_ }
      have hne : x ≠ f := by
        rintro rfl
        cases queuedOn_update_self.mp hq
      exact haw.awaited op x hwho ((queuedOn_update_ne hne).mp hq) ((waits_update_ne hne).mp hw)

theorem Steady.ring {ring : IoUring} (hd : s.dispatchers i = some d)
    (hsame : SameOperations d.ring ring) :
    Steady thread owner who (s.setDispatcher i { d with ring := ring }) := by
  refine h.change _ (h.sound.ring hd hsame) rfl (fun _ => exists_setDispatcher) (fun _ _ => .inl)
    fun g d' hd' => ?_
  rcases currentDispatcher_setDispatcher hd' with ⟨rfl, rfl⟩ | hold
  · obtain ⟨_, o, hc⟩ := currentDispatcher_eq_some.mp hd'
    have haw := h.awaited g d (currentDispatcher_eq_some.mpr ⟨hd, o, hc⟩)
    refine ⟨haw.named, fun op f hwho hq hw => ?_⟩
    dsimp only
    rw [hsame.operations]
    exact haw.awaited op f hwho hq hw
  · exact h.awaited g d' hold

theorem Steady.dispatchedLimit
    (hcur : s.currentDispatcher thread = some (i, d)) (limit : Nat) :
    Kept s.futures s.Released i (dispatchAvailableLimit limit d).2.2 ∧
      Awaited s.futures who (fun f => s.woken f = true ∨
        f ∈ (dispatchAvailableLimit limit d).2.1) i (dispatchAvailableLimit limit d).2.2 := by
  have haw := h.awaited i d hcur
  refine (carried_awaited h.sound.distinct).dispatchAvailableLimit [] limit
    ⟨h.sound.kept i d (currentDispatcher_eq_some.mp hcur).1, haw.named, ?_⟩
  simpa using haw.awaited

theorem Steady.dispatch (hsound : Sound t) (ht : s.dispatch thread = some t) :
    Steady thread owner who t := by
  obtain ⟨⟨i, d⟩, hcur, rfl⟩ := map_eq_some_iff.mp ht
  refine h.change _ hsound rfl (fun _ => exists_setDispatcher) (fun _ _ => .inl) fun g d' hd' => ?_
  obtain ⟨rfl, rfl⟩ := currentDispatcher_replaced hcur hd' rfl (update_self ..)
  have haw := (h.dispatchedLimit hcur executorIoUringCompletionBudget).2
  refine ⟨haw.named, fun op x hwho hq hw => ?_⟩
  exact (haw.awaited op x hwho hq hw).imp_right fun ⟨hop, hwoken⟩ => ⟨hop, woken_wakeAll.mpr hwoken⟩

theorem Steady.idle (hidle : ∀ g op f, QueuedOn s.futures g op f → ¬ Waits s.futures f)
    (hsound : Sound t) (hfutures : t.futures = s.futures)
    (hcurrent : ∀ c, t.current thread = some c →
      c.owner = owner ∧ ∃ d, t.dispatchers c.dispatcher = some d)
    (hempty : ∀ g d, t.currentDispatcher thread = some (g, d) → d.completions = ∅) :
    Steady thread owner who t where
  sound := hsound
  current := hcurrent
  awaited g d hd := by
    refine ⟨fun op c hc => ?_, fun op f _ hq hw => ?_⟩
    · rw [hempty g d hd] at hc
      cases hc
    · rw [hfutures] at hq hw
      exact absurd hw (hidle g op f hq)
  cells f cell hcell := by
    rw [hfutures] at hcell
    refine { h.cells f cell hcell with pending := fun g op hq hres halive => ?_ }
    exact absurd ⟨cell, hcell, hres, halive⟩ (hidle g op f ⟨cell, hcell, hq⟩)

theorem Steady.enter {setup : Except Nat Unit} {required : Bool} (hsound : Sound t)
    (ht : s.installCurrentIoUring thread owner setup required kernel fuel = some (.ok t)) :
    Steady thread owner who t := by
  rw [installCurrentIoUring] at ht
  dsimp only at ht
  split at ht
  next c i d hc _ =>
    rw [if_pos (h.current c hc).1] at ht
    cases ht
    exact h
  next hcur =>
    have hnone : s.currentDispatcher thread = none := by
      cases hc : s.current thread with
      | none => simp [currentDispatcher, hc]
      | some c =>
        obtain ⟨_, d, hd⟩ := h.current c hc
        have hsome : s.currentDispatcher thread = some (c.dispatcher, d) := by
          simp [currentDispatcher, hc, hd]
        exact absurd hsome (hcur c c.dispatcher d hc)
    have hidle : ∀ g op f, QueuedOn s.futures g op f → ¬ Waits s.futures f := by
      intro g op f hq hw
      obtain ⟨d, hd⟩ := h.waiting_installed hq hw
      cases hnone.symm.trans hd
    split at ht
    · cases ht
    next ring _ =>
      cases ht
      cases ring with
      | none =>
        have hgone : (s.install thread owner none).current thread = none := update_self ..
        refine h.idle hidle hsound rfl (fun c hc => ?_) fun g d hd => ?_
        · cases hgone.symm.trans hc
        · obtain ⟨_, o, hc⟩ := currentDispatcher_eq_some.mp hd
          cases hgone.symm.trans hc
      | some ring =>
        have hthere : (s.install thread owner (some ring)).current thread =
          some ⟨owner, s.created⟩ := update_self ..
        have hfresh : (s.install thread owner (some ring)).dispatchers s.created =
          some (.new ring) := update_self ..
        refine h.idle hidle hsound rfl (fun c hc => ?_) fun g d hd => ?_
        · cases hthere.symm.trans hc
          exact ⟨rfl, _, hfresh⟩
        · obtain ⟨hd, o, hc⟩ := currentDispatcher_eq_some.mp hd
          cases hthere.symm.trans hc
          cases hfresh.symm.trans hd
          rfl

end

/-- What the end of a call does: nothing, or the shutdown of a dispatcher without a waker. -/
inductive Ended (thread : Nat) (s : Threads) : Threads → Prop
  | kept : Ended thread s s
  | shut (i : Nat) (d d' : IoUringDispatcher) (installed : s.currentDispatcher thread = some (i, d))
      (idle : d.registeredWakers = 0) :
      Ended thread s ((s.setDispatcher i d').setCurrent thread none)

theorem currentDispatcher_of_current_none (h : s.current thread = none) :
    s.currentDispatcher thread = none := by
  simp [currentDispatcher, h]

private theorem Ended.shutDown {r : Threads} (h : Ended thread r s)
    (hcur : s.currentDispatcher thread = some (i, d)) (hidle : d.registeredWakers = 0)
    (ht : s.shutDown thread i d kernel fuel = some t) : Ended thread r t := by
  cases h with
  | kept =>
    obtain ⟨⟨outcome, d₁, n⟩, _, hrest⟩ := bind_eq_some_iff.mp ht
    obtain ⟨⟨d₂, n'⟩, _, rfl⟩ := map_eq_some_iff.mp hrest
    exact .shut i d d₂ hcur hidle
  | shut =>
    cases (currentDispatcher_of_current_none (update_self ..)).symm.trans hcur

theorem ended_shutdownCurrentIfIdle (ht : s.shutdownCurrentIfIdle thread kernel fuel = some t) :
    Ended thread s t :=
  shutdownCurrentIfIdle_induction Ended.shutDown .kept ht

theorem ended_shutdownCurrent {x : IoUringExecutorStatus × Threads}
    (hx : s.shutdownCurrent thread owner kernel fuel = some x) : Ended thread s x.2 :=
  shutdownCurrent_induction Ended.shutDown .kept hx

theorem ended_leave {unwinds : Bool} (ht : s.leave thread owner unwinds kernel fuel = some t) :
    Ended thread s t :=
  leave_induction Ended.shutDown .kept ht

end Steps

end Sitas.Executor.Uring
