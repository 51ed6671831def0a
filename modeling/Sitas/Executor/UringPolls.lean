import Sitas.Executor.UringSteady

namespace Sitas.Executor.Uring
open Sitas.Lib Sitas.Os.Uring List Function AList IoUringDispatcher Threads Option

variable {thread owner f op g : Nat} {who : Nat → Prop} {s t : Threads} {cell : FutureCell}
  {d d' : IoUringDispatcher} {woken : List Nat} {progress : Progress} {future : TransferAtUring}

theorem woken_polled {x : Nat} {queued : Option (Nat × Nat)} (hne : x ≠ f)
    (h : s.woken x = true ∨ x ∈ woken) :
    (s.polled f g queued progress future woken d).woken x = true := by
  simpa [polled, wakeAll, setFuture, setDispatcher, hne] using h

theorem Steady.attempt {e : IoUringDispatcher} (h : Steady thread owner (· ≠ f) s)
    (hcell : s.futures f = some cell) (hwaits : cell.resolution = none ∧ cell.dropped = false)
    (hqueued : cell.queued = some (g, op)) (hcur : s.currentDispatcher thread = some (g, d))
    (hdispatch : d.dispatchAvailable.2 = (woken, e))
    (hattempt : Attempt cell.future op f e progress future d')
    (ht : s.polled f g (some (g, op)) progress future woken d' = t) (hsound : Sound t) :
    Steady thread owner (fun _ => True) t := by
  have hdispatched := h.dispatchedLimit hcur usizeMax
  rw [← dispatchAvailable, hdispatch] at hdispatched
  obtain ⟨hkept, haw⟩ := hdispatched
  have hq : QueuedOn s.futures g op f := ⟨cell, hcell, hqueued⟩
  have hw : Waits s.futures f := ⟨cell, hcell, hwaits⟩
  obtain ⟨_, o, hc⟩ := currentDispatcher_eq_some.mp hcur
  have hcur' : t.currentDispatcher thread = some (g, d') :=
    currentDispatcher_eq_some.mpr (ht ▸ ⟨update_self .., o, hc⟩)
  have hfutures : t.futures =
      update s.futures f (some ⟨future, some (g, op), progress.resolution g, false⟩) := ht ▸ rfl
  refine h.change _ hsound (ht ▸ rfl) (fun _ => ht ▸ exists_setDispatcher) (fun x cell' hx => ?_)
    fun g' d'' hd'' => ?_
  · rw [hfutures] at hx
    refine (futures_update hx).imp_right ?_
    rintro ⟨_, rfl⟩
    obtain ⟨_, hop, hb⟩ := (h.cells f cell hcell).pending g op hqueued hwaits.1 hwaits.2
    cases hattempt with
    | pending hnone =>
      refine ⟨fun g' op' hq' _ _ => ?_, fun g' c hc => (nomatch hc)⟩
      cases hq'
      exact ⟨⟨_, hcur'⟩, hop, hb⟩
    | failed completion e taken | delivered completion bytes buffer taken held =>
      refine ⟨fun g' op' hq' hres => (nomatch hres), fun g' c hc => ?_⟩
      cases hc
      rw [haw.named op completion taken]
  · cases hcur'.symm.trans hd''
    have hrest : ∀ {op' x}, x ≠ f → QueuedOn t.futures g op' x → Waits t.futures x → op' ≠ op ∧
        (op' ∈ e.ring.operations ∧ e.waiters.lookup op' = some x ∨
          op' ∈ e.completions ∧ t.woken x = true) := by
      intro op' x hne hq' hw'
      rw [hfutures] at hq' hw'
      have hold := (queuedOn_update_ne hne).mp hq'
      refine ⟨?_, (haw.awaited op' x hne hold ((waits_update_ne hne).mp hw')).imp_right
        fun ⟨hop, hwoken⟩ => ⟨hop, ht ▸ woken_polled hne hwoken⟩⟩
      rintro rfl
      exact hne (h.sound.distinct g op' x f hold hq)
    have htaken : ∀ {c}, progress.resolution g = some c → d' = (e.takeCompletion op).2 →
        Awaited t.futures (fun _ => True) (fun x => t.woken x = true) g d' := by
      intro resolution hres hd'
      refine ⟨fun op' c hc => ?_, fun op' x _ hq' hw' => ?_⟩
      · rw [hd'] at hc
        exact haw.named op' c (lookup_erase_eq_some.mp hc).2
      · have hne : x ≠ f := by
          rintro rfl
          obtain ⟨cell', hcell', hnone, _⟩ := hw'
          rw [hfutures, update_self] at hcell'
          cases hcell'
          cases hres.symm.trans hnone
        obtain ⟨hop, hthere⟩ := hrest hne hq' hw'
        rw [hd']
        exact hthere.imp_right fun ⟨hc, hwoken⟩ => ⟨mem_erase.mpr ⟨hop, hc⟩, hwoken⟩
    cases hattempt with
    | pending hnone =>
      refine ⟨haw.named, fun op' x _ hq' hw' => ?_⟩
      by_cases heq : x = f
      · subst heq
        rw [hfutures] at hq'
        cases queuedOn_update_self.mp hq'
        exact .inl ⟨(hkept.waiting op x hq hw).resolve_right hnone, lookup_insert _⟩
      · obtain ⟨hne, hthere⟩ := hrest heq hq' hw'
        refine hthere.imp_left fun ⟨hop, hwaiter⟩ => ⟨hop, ?_⟩
        rwa [lookup_insert_ne hne]
    | failed completion e taken | delivered completion bytes buffer taken held => exact htaken rfl rfl

theorem Steady.mono {who' : Nat → Prop} (h : Steady thread owner who s)
    (hwho : ∀ x, who' x → who x) : Steady thread owner who' s :=
  { h with awaited := fun g d hd => { h.awaited g d hd with
      awaited := fun op x hx => (h.awaited g d hd).awaited op x (hwho x hx) } }

theorem Steady.poll_inPlace (h : Steady thread owner who s) (ht : s.poll thread f = some t) :
    (Event.poll thread f).inPlace s = true := by
  obtain ⟨cell, hcell, hrest⟩ := bind_eq_some_iff.mp ht
  split at hrest
  · cases hrest
  next hwaits =>
    have hwaits : cell.resolution = none ∧ cell.dropped = false := by simpa using hwaits
    cases hoperation : s.operationOf f with
    | none => simp [Event.inPlace, hoperation]
    | some q =>
      obtain ⟨g, op⟩ := q
      simp only [operationOf, hcell, bind_some, bind_eq_some_iff] at hoperation
      obtain ⟨_, _, hqueued⟩ := hoperation
      obtain ⟨⟨d, hd⟩, hop, _⟩ := (h.cells f cell hcell).pending g op hqueued hwaits.1 hwaits.2
      obtain ⟨_, o, hc⟩ := currentDispatcher_eq_some.mp hd
      simp [Event.inPlace, operationOf_eq hcell hop hqueued, hc]

theorem Steady.poll (h : Steady thread owner (fun _ => True) s) (hsound : Sound t) (ht : s.poll thread f = some t) :
    Steady thread owner (fun _ => True) t := by
  obtain ⟨cell, hcell, hrest⟩ := bind_eq_some_iff.mp ht
  have hp := h.sound.proper f cell hcell
  split at hrest
  · cases hrest
  next hwaits =>
    have hwaits : cell.resolution = none ∧ cell.dropped = false := by simpa using hwaits
    split at hrest
    next hnone =>
      cases hrest
      refine h.change _ hsound rfl (fun _ => id) (fun x cell' hx => ?_) fun g d hd => ?_
      · refine (futures_update hx).imp_right ?_
        rintro ⟨_, rfl⟩
        refine ⟨fun g op _ hres => ?_, fun g c hc => ?_⟩
        · cases hres
        · cases hc
      · cases hnone.symm.trans hd
    next i d hcur =>
      obtain ⟨hd, o, hc⟩ := currentDispatcher_eq_some.mp hcur
      obtain ⟨⟨progress, future, woken, d'⟩, hpoll, rfl⟩ := map_eq_some_iff.mp hrest
      cases pollOf_of_poll (h.sound.kept i d hd).numbered hpoll with
      | again op queued attempt =>
        obtain ⟨g, hqueued⟩ := hp.operation op queued
        obtain ⟨⟨d₀, hd₀⟩, _⟩ := (h.cells f cell hcell).pending g op hqueued hwaits.1 hwaits.2
        cases hcur.symm.trans hd₀
        have hrecorded : cell.queuedAs i d = some (i, op) := by simp [FutureCell.queuedAs, hqueued]
        dsimp only at hsound ⊢
        rw [hrecorded] at hsound ⊢
        exact (h.mono fun _ _ => trivial).attempt hcell hwaits hqueued hcur rfl attempt rfl hsound
      | rejected e buffer kind unqueued held outcome ensured =>
        have hnone := hp.unqueued buffer held unqueued
        have hrecorded : cell.queuedAs i d = none := by
          simp [FutureCell.queuedAs, hnone, ensured, unqueued]
        dsimp only at hsound ⊢
        rw [hrecorded] at hsound ⊢
        refine h.change _ hsound rfl (fun _ => exists_setDispatcher) (fun x cell' hx => ?_)
          fun g d' hd' => ?_
        · refine (futures_update hx).imp_right ?_
          rintro ⟨_, rfl⟩
          refine ⟨fun g op hq => ?_, fun g c hc => ?_⟩
          · cases hq
          · cases hc
        · obtain ⟨rfl, rfl⟩ := currentDispatcher_replaced hcur hd' rfl (update_self ..)
          refine ⟨(h.awaited _ d hcur).named, fun op x _ hq hw => ?_⟩
          have hne : x ≠ f := by
            rintro rfl
            cases queuedOn_update_self.mp hq
          exact ((h.awaited _ d hcur).awaited op x trivial ((queuedOn_update_ne hne).mp hq)
            ((waits_update_ne hne).mp hw)).imp (fun hkept => ⟨outcome.mem hkept.1, hkept.2⟩)
            fun hfound => ⟨hfound.1, woken_polled hne (.inl hfound.2)⟩
      | first op buffer kind unqueued held outcome plain ensured attempt =>
        have hnone := hp.unqueued buffer held unqueued
        have hrecorded : cell.queuedAs i d = some (i, op) := by
          simp [FutureCell.queuedAs, hnone, ensured]
        dsimp only at hsound ⊢
        rw [hrecorded] at hsound ⊢
        have h₁ := h.sound.queue hcell held unqueued hd outcome plain
        have hsteady := h.change (· ≠ f) h₁ rfl (fun _ => exists_setDispatcher)
          (fun x cell' hx => ?_) fun g d' hd' => ?_
        · exact hsteady.attempt (update_self ..) hwaits rfl
            (currentDispatcher_eq_some.mpr ⟨update_self .., o, hc⟩) rfl attempt
            (by simp only [polled, setDispatcher, setFuture, wakeAll, update_idem]) hsound
        · refine (futures_update hx).imp_right ?_
          rintro ⟨_, rfl⟩
          refine ⟨fun g op' hq _ _ => ?_, fun g c hres => ?_⟩
          · cases hq
            exact ⟨⟨_, currentDispatcher_eq_some.mpr ⟨update_self .., o, hc⟩⟩, rfl, buffer, held⟩
          · cases hwaits.1.symm.trans hres
        · obtain ⟨rfl, rfl⟩ := currentDispatcher_replaced hcur hd' rfl (update_self ..)
          refine ⟨(h.awaited _ d hcur).named, fun op' x hne hq hw => ?_⟩
          exact ((h.awaited _ d hcur).awaited op' x trivial ((queuedOn_update_ne hne).mp hq)
            ((waits_update_ne hne).mp hw)).imp_left fun hkept => ⟨outcome.mem hkept.1, hkept.2⟩

end Sitas.Executor.Uring
