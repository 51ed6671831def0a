import Sitas.Executor.Backpressure

namespace Sitas.Executor.Backpressure
open Sitas.Lib List Function

namespace Guard
variable {W : Type}

/-- With no operation in progress and a permit free, every pending acquire future
has been woken since its last poll. -/
def NoStranded (s : Guard W) : Prop :=
  (∀ t, s.threads t = .idle) → s.inner.inFlight < s.inner.capacity →
    ∀ f, s.parked.waker f ≠ none → s.parked.Woken f

/-- The waker stands in the waiter list under this id, or in the hands of a thread
that is releasing a permit. -/
def Attended (s : Guard W) (f : Nat) (w : W) : Prop :=
  (f, w) ∈ s.inner.waiters ∨ ∃ t ws, s.threads t = .waking ws ∧ w ∈ ws

/-- A release under way will still take the waiter list. -/
def Contended (s : Guard W) : Prop :=
  s.inner.capacity ≤ s.inner.inFlight ∨ ∃ t, s.threads t = .draining

/-- A poll about to return pending still finds the guard contended if it registers,
and its waker attended or woken already if it registered in an earlier poll. -/
def Registers (s : Guard W) : Event W → Prop
  | .call _ _ => True
  | .advance t => ∀ f w, s.threads t = .pollRegister f w →
      if (s.futures f).any (·.registered) then s.parked.Woken f ∨ s.Attended f w
      else s.Contended

def borrower (s : Guard W) (f : Nat) : Option Nat := (s.futures f).bind AcquirePermit.polledBy

/-- Queued waiters wait for a release, and the waker of each pending future is woken,
queued, or about to be woken. -/
structure Tended (s : Guard W) : Prop where
  full : s.inner.waiters ≠ [] → s.Contended
  polls : ∀ t f w, (s.threads t).poll = some (f, w) →
    s.borrower f = some t ∧ s.parked.waker f = some w
  borrowed : ∀ t f, s.borrower f = some t → ∃ w, (s.threads t).poll = some (f, w)
  tended : ∀ f w, s.parked.waker f = some w → s.borrower f = none →
    s.parked.Woken f ∨ s.Attended f w
  fresh : ∀ f, s.inner.nextWaitId ≤ f → s.futures f = none

private theorem tended_start {capacity : Nat} {inner : BackpressureInner W}
    (h : BackpressureInner.new W capacity = some inner) : Tended (start inner) := by
  obtain ⟨_, rfl⟩ := guarded h
  exact ⟨fun hne => absurd rfl hne, fun _ _ _ hp => (nomatch hp), fun _ _ hb => (nomatch hb),
    fun _ _ hw => (nomatch hw), fun _ _ => rfl⟩

theorem Tended.noStranded {s : Guard W} (h : Tended s) : s.NoStranded := by
  intro hidle hfree f hf
  obtain ⟨w, hw⟩ := Option.ne_none_iff_exists'.mp hf
  have hempty : s.inner.waiters = [] := by
    by_contra hne
    rcases h.full hne with hcap | ⟨t, ht⟩
    · omega
    · cases (hidle t).symm.trans ht
  have hborrow : s.borrower f = none := by
    by_contra hb
    obtain ⟨t, ht⟩ := Option.ne_none_iff_exists'.mp hb
    obtain ⟨v, hv⟩ := h.borrowed t f ht
    rw [hidle t] at hv
    cases hv
  rcases h.tended f w hw hborrow with hwoken | hin | ⟨t, ws, ht, _⟩
  · exact hwoken
  · rw [hempty] at hin
    cases hin
  · cases (hidle t).symm.trans ht

section Frames
variable {s : Guard W} {t f g : Nat} {pc : Pc W} {w v : W} {waiters : List (Nat × W)}

private theorem exists_other {P : Pc W → Prop} (ht : ¬ P (s.threads t)) (h : ∃ u, P (s.threads u)) :
    ∃ u, P (update s.threads t pc u) := by
  obtain ⟨u, hu⟩ := h
  refine ⟨u, ?_⟩
  have hne : u ≠ t := fun he => ht (he ▸ hu)
  rwa [update_of_ne hne]

private theorem borrower_update (s : Guard W) (f g : Nat) (a : Option AcquirePermit) :
    ((update s.futures f a) g).bind AcquirePermit.polledBy =
      if g = f then a.bind AcquirePermit.polledBy else s.borrower g := by
  by_cases h : g = f
  · rw [if_pos h, h, update_self]
  · rw [if_neg h, update_of_ne h, borrower]

private theorem contended_update (hq : (s.threads t).Quiet) (pc : Pc W) (n : Nat)
    (hn : s.inner.inFlight ≤ n) (h : s.Contended) :
    s.inner.capacity ≤ n ∨ ∃ u, update s.threads t pc u = .draining := by
  rcases h with hcap | hd
  · exact .inl (Nat.le_trans hcap hn)
  · refine .inr (exists_other (P := (· = .draining)) (fun he => ?_) hd)
    rw [he] at hq
    exact hq

private theorem attended_update (hq : (s.threads t).Quiet) (pc : Pc W)
    (hsub : (f, w) ∈ s.inner.waiters → (f, w) ∈ waiters) (h : s.Attended f w) :
    (f, w) ∈ waiters ∨ ∃ u ws, update s.threads t pc u = .waking ws ∧ w ∈ ws := by
  rcases h with hin | hw
  · exact .inl (hsub hin)
  · refine .inr (exists_other (P := fun p => ∃ ws, p = .waking ws ∧ w ∈ ws) (fun he => ?_) hw)
    obtain ⟨ws, he, hmem⟩ := he
    rw [he] at hq
    rw [show ws = [] from hq] at hmem
    cases hmem

private theorem poll_update (hpoll : pc.poll = (s.threads t).poll) (u : Nat) :
    (update s.threads t pc u).poll = (s.threads u).poll := by
  by_cases hu : u = t
  · rw [hu, update_self, hpoll]
  · rw [update_of_ne hu]

private theorem Tended.borrowed_move (h : Tended s) (hpoll : pc.poll = (s.threads t).poll)
    (u f : Nat) (hb : s.borrower f = some u) :
    ∃ w, (update s.threads t pc u).poll = some (f, w) := by
  rw [poll_update hpoll u]
  exact h.borrowed u f hb

private theorem Tended.fresh_update (h : Tended s) (hf : s.futures f ≠ none)
    (a : Option AcquirePermit) (g : Nat) (hg : s.inner.nextWaitId ≤ g) :
    update s.futures f a g = none := by
  have hne : g ≠ f := by
    intro he
    exact hf (he ▸ h.fresh g hg)
  exact (update_of_ne hne _ _).trans (h.fresh g hg)

private theorem Tended.ne_of_poll (h : Tended s) {u : Nat} (hp : (s.threads u).poll = some (g, v))
    (hf : s.borrower f ≠ some u) : g ≠ f := by
  intro hg
  exact hf (hg ▸ (h.polls u g v hp).1)

private theorem tended_move (h : Tended s) (hq : (s.threads t).Quiet)
    (hpoll : pc.poll = (s.threads t).poll) {n : Nat} (hn : s.inner.inFlight ≤ n) (k : Nat) :
    Tended ({ s with inner := { s.inner with inFlight := n }, permits := k }.setPc t pc) where
  full hne := contended_update hq pc n hn (h.full hne)
  polls u f w hp := h.polls u f w (poll_update hpoll u ▸ hp)
  borrowed := h.borrowed_move hpoll
  tended f w hw hb := (h.tended f w hw hb).imp_right (attended_update hq pc id)
  fresh := h.fresh

private theorem Tended.polls_finish (h : Tended s) (hpc : (s.threads t).poll = some (f, w))
    {parked : Parking Nat W} (registered : Bool)
    (hother : ∀ g, g ≠ f → parked.waker g = s.parked.waker g) {u : Nat}
    (hp : (update s.threads t .idle u).poll = some (g, v)) :
    (update s.futures f (some ⟨registered, none⟩) g).bind AcquirePermit.polledBy =
      some u ∧ parked.waker g = some v := by
  have hu : u ≠ t := by
    intro hu
    rw [hu, update_self] at hp
    cases hp
  rw [update_of_ne hu] at hp
  have hg : g ≠ f := by
    apply h.ne_of_poll hp
    rw [(h.polls t f w hpc).1]
    exact fun he => hu (Option.some.inj he).symm
  obtain ⟨hb, hw⟩ := h.polls u g v hp
  rw [borrower_update, if_neg hg, hother g hg]
  exact ⟨hb, hw⟩

private theorem Tended.borrowed_finish (h : Tended s) (hpc : (s.threads t).poll = some (f, w))
    (registered : Bool) {u : Nat}
    (hb : (update s.futures f (some ⟨registered, none⟩) g).bind
      AcquirePermit.polledBy = some u) : ∃ v, (update s.threads t .idle u).poll = some (g, v) := by
  rw [borrower_update] at hb
  split at hb
  · cases hb
  next hg =>
    obtain ⟨v, hv⟩ := h.borrowed u g hb
    have hu : u ≠ t := by
      intro hu
      rw [hu, hpc] at hv
      exact hg (Prod.mk.inj (Option.some.inj hv)).1.symm
    rw [update_of_ne hu]
    exact ⟨v, hv⟩

/-- A thread finishes its poll of a future. The future is left alone afterwards, with
an entry in the waiter list or a waker that is attended otherwise. -/
private theorem tended_finish (h : Tended s) (hpc : (s.threads t).poll = some (f, w)) {n k : Nat}
    {parked : Parking Nat W} (registered : Bool)
    (hfull : waiters ≠ [] → s.inner.capacity ≤ n ∨ ∃ u, s.threads u = .draining)
    (hsub : ∀ x ∈ s.inner.waiters, x ∈ waiters)
    (hother : ∀ g, g ≠ f → parked.waker g = s.parked.waker g)
    (hwoken : ∀ g, g ≠ f → s.parked.Woken g → parked.Woken g)
    (hf : ∀ v, parked.waker f = some v → parked.Woken f ∨ (f, v) ∈ waiters ∨
      ∃ u ws, s.threads u = .waking ws ∧ v ∈ ws) :
    Tended { inner := { s.inner with inFlight := n, waiters := waiters }
             permits := k
             futures := update s.futures f (some ⟨registered, none⟩)
             parked := parked
             threads := update s.threads t .idle } := by
  have hq : (s.threads t).Quiet := by
    cases hp : s.threads t <;> rw [hp] at hpc <;> trivial
  have hsome : s.futures f ≠ none := by
    intro he
    have hborrow := (h.polls t f w hpc).1
    rw [borrower, he] at hborrow
    cases hborrow
  have hat : ∀ g v, ((g, v) ∈ waiters ∨ ∃ u ws, s.threads u = .waking ws ∧ v ∈ ws) →
      (g, v) ∈ waiters ∨
        ∃ u ws, update s.threads t .idle u = .waking ws ∧ v ∈ ws := by
    intro g v hv
    have hv : { s with inner := { s.inner with waiters := waiters } }.Attended g v := hv
    exact attended_update (s := { s with inner := { s.inner with waiters := waiters } }) hq _ id hv
  refine ⟨?_, fun _ _ _ hp => h.polls_finish hpc registered hother hp,
    fun _ _ hb => h.borrowed_finish hpc registered hb, ?_, h.fresh_update hsome _⟩
  · intro hne
    have hc : { s with inner := { s.inner with inFlight := n } }.Contended := hfull hne
    exact contended_update (s := { s with inner := { s.inner with inFlight := n } }) hq _ n
      (Nat.le_refl n) hc
  · intro g v hw (hb : (update s.futures f _ g).bind AcquirePermit.polledBy = none)
    rw [borrower_update] at hb
    by_cases hg : g = f
    · subst hg
      exact (hf v hw).imp_right (hat g v)
    · rw [if_neg hg] at hb
      rcases h.tended g v ((hother g hg).symm.trans hw) hb with hwk | hin | hwaking
      · exact .inl (hwoken g hg hwk)
      · exact .inr (.inl (hsub _ hin))
      · exact .inr (hat g v (.inr hwaking))

private theorem tended_releasing (h : Tended s) (hpc : s.threads t = .releasing) (n : Nat) :
    Tended ({ s with inner := { s.inner with inFlight := n } }.setPc t .draining) := by
  have hq : (s.threads t).Quiet := by rw [hpc]; trivial
  have hpoll : (Pc.draining : Pc W).poll = (s.threads t).poll := by rw [hpc]; rfl
  have hmove := tended_move (t := t) h hq hpoll (Nat.le_refl _) s.permits
  exact { hmove with full := fun _ => .inr ⟨t, update_self t _ _⟩ }

private theorem tended_draining (h : Tended s) (hpc : s.threads t = .draining) :
    Tended ({ s with inner := { s.inner with waiters := [] } }.setPc t
      (.waking (s.inner.waiters.map Prod.snd))) := by
  have hpoll : (Pc.waking (s.inner.waiters.map Prod.snd)).poll = (s.threads t).poll := by
    rw [hpc]
    rfl
  refine ⟨fun hne => absurd rfl hne, ?_, h.borrowed_move hpoll, ?_, h.fresh⟩
  · intro u f w hp
    exact h.polls u f w (poll_update hpoll u ▸ hp)
  · intro f w hw hb
    rcases h.tended f w hw hb with hwoken | hin | hwaking
    · exact .inl hwoken
    · exact .inr (.inr ⟨t, _, update_self t _ _, mem_map.mpr ⟨_, hin, rfl⟩⟩)
    · refine .inr (.inr (exists_other (P := fun p => ∃ ws, p = .waking ws ∧ w ∈ ws) ?_ hwaking))
      rintro ⟨ws, he, _⟩
      cases hpc.symm.trans he

private theorem tended_waking [DecidableEq W] (h : Tended s) {vs : List W}
    (hpc : s.threads t = .waking (v :: vs)) :
    Tended ({ s with parked := s.parked.wake [v] }.setPc t (.waking vs)) := by
  have hpoll : (Pc.waking vs).poll = (s.threads t).poll := by
    rw [hpc]
    rfl
  have hdrain : ∀ u, s.threads u = .draining → update s.threads t (.waking vs) u = .draining := by
    intro u hu
    have hne : u ≠ t := by
      intro he
      rw [he, hpc] at hu
      cases hu
    rw [update_of_ne hne, hu]
  refine ⟨?_, ?_, h.borrowed_move hpoll, ?_, h.fresh⟩
  · intro hne
    exact (h.full hne).imp_right fun ⟨u, hu⟩ => ⟨u, hdrain u hu⟩
  · intro u f w hp
    obtain ⟨hb, hw⟩ := h.polls u f w (poll_update hpoll u ▸ hp)
    exact ⟨hb, (Parking.waker_wake _ _ f).trans hw⟩
  · intro f w hw hb
    have hold : s.parked.waker f = some w := (Parking.waker_wake _ _ f).symm.trans hw
    rcases h.tended f w hold hb with hwoken | hin | ⟨u, ws, hu, hmem⟩
    · exact .inl (hwoken.wake _)
    · exact .inr (.inl hin)
    · by_cases hut : u = t
      · rw [hut, hpc] at hu
        cases hu
        rcases mem_cons.mp hmem with rfl | hmem
        · exact .inl (Parking.woken_of_mem hold mem_cons_self)
        · exact .inr (.inr ⟨t, vs, update_self t _ _, hmem⟩)
      · exact .inr (.inr ⟨u, ws, (update_of_ne hut _ _).trans hu, hmem⟩)

private theorem tended_acquire (h : Tended s) :
    Tended { s with
      inner := { s.inner with nextWaitId := s.inner.nextWaitId + 1 }
      futures := update s.futures s.inner.nextWaitId (some ⟨false, none⟩) } := by
  have hborrow : ∀ f, (update s.futures s.inner.nextWaitId (some ⟨false, none⟩) f).bind
      AcquirePermit.polledBy = s.borrower f := by
    intro f
    rw [borrower_update]
    split
    next hf =>
      rw [borrower, hf, h.fresh _ (Nat.le_refl _)]
      rfl
    · rfl
  refine ⟨h.full, ?_, ?_, ?_, ?_⟩
  · intro u f w hp
    exact ⟨(hborrow f).trans (h.polls u f w hp).1, (h.polls u f w hp).2⟩
  · intro u f hb
    exact h.borrowed u f ((hborrow f).symm.trans hb)
  · intro f w hw hb
    exact h.tended f w hw ((hborrow f).symm.trans hb)
  · intro f (hf : s.inner.nextWaitId + 1 ≤ f)
    have hne : f ≠ s.inner.nextWaitId := by omega
    exact (update_of_ne hne _ _).trans (h.fresh f (by omega))

private theorem tended_poll (h : Tended s) (hpc : s.threads t = .idle) {r : Bool}
    (hf : s.futures f = some ⟨r, none⟩) (w : W) :
    Tended { s with
      futures := update s.futures f (some ⟨r, some t⟩)
      parked := s.parked.park f w
      threads := update s.threads t (.pollLoad f w) } := by
  have hq : (s.threads t).Quiet := by rw [hpc]; trivial
  have hnone : s.borrower f = none := by rw [borrower, hf]; rfl
  refine ⟨?_, ?_, ?_, ?_, h.fresh_update (by simp [hf]) _⟩
  · intro hne
    exact contended_update hq _ _ (Nat.le_refl _) (h.full hne)
  · intro u g v (hp : (update s.threads t (.pollLoad f w) u).poll = some (g, v))
    by_cases hu : u = t
    · rw [hu, update_self] at hp
      cases hp
      rw [hu]
      exact ⟨(borrower_update s f f _).trans (if_pos rfl),
        (Parking.waker_park _ f f w).trans (if_pos rfl)⟩
    · rw [update_of_ne hu] at hp
      obtain ⟨hb, hw⟩ := h.polls u g v hp
      have hg : g ≠ f := h.ne_of_poll hp (by simp [hnone])
      exact ⟨(borrower_update s f g _).trans ((if_neg hg).trans hb),
        (Parking.waker_park _ f g w).trans ((if_neg hg).trans hw)⟩
  · intro u g (hb : (update s.futures f _ g).bind AcquirePermit.polledBy = some u)
    rw [borrower_update] at hb
    split at hb
    next hg =>
      cases hb
      refine ⟨w, ?_⟩
      change (update s.threads t (.pollLoad f w) t).poll = some (g, w)
      rw [update_self, hg]
      rfl
    · obtain ⟨v, hv⟩ := h.borrowed u g hb
      have hu : u ≠ t := by
        intro hu
        rw [hu, hpc] at hv
        cases hv
      exact ⟨v, (congrArg Pc.poll (update_of_ne hu _ _)).trans hv⟩
  · intro g v hw (hb : (update s.futures f _ g).bind AcquirePermit.polledBy = none)
    rw [borrower_update] at hb
    split at hb
    · cases hb
    next hg =>
      have hw : s.parked.waker g = some v :=
        ((Parking.waker_park _ f g w).trans (if_neg hg)).symm.trans hw
      rcases h.tended g v hw hb with hwoken | hat
      · exact .inl (hwoken.park hg w)
      · exact .inr (attended_update hq _ id hat)

private theorem tended_dropAcquire (h : Tended s) {r : Bool} (hf : s.futures f = some ⟨r, none⟩)
    (hsub : ∀ x ∈ waiters, x ∈ s.inner.waiters)
    (hkeep : ∀ x ∈ s.inner.waiters, x.1 ≠ f → x ∈ waiters) :
    Tended { s with
      inner := { s.inner with waiters := waiters }
      futures := update s.futures f none
      parked := s.parked.leave f } := by
  have hborrow : ∀ g, (update s.futures f none g).bind AcquirePermit.polledBy = s.borrower g := by
    intro g
    rw [borrower_update]
    split
    next hg =>
      rw [borrower, hg, hf]
      rfl
    · rfl
  refine ⟨?_, ?_, ?_, ?_, h.fresh_update (by simp [hf]) _⟩
  · intro hne
    obtain ⟨x, hx⟩ := exists_mem_of_ne_nil _ hne
    exact h.full (ne_nil_of_mem (hsub x hx))
  · intro u g v hp
    obtain ⟨hb, hw⟩ := h.polls u g v hp
    have hg : g ≠ f := h.ne_of_poll hp (by simp [borrower, hf])
    exact ⟨(hborrow g).trans hb, (Parking.waker_leave _ f g).trans ((if_neg hg).trans hw)⟩
  · intro u g hb
    exact h.borrowed u g ((hborrow g).symm.trans hb)
  · intro g v (hw : (s.parked.leave f).waker g = some v) hb
    rw [Parking.waker_leave] at hw
    split at hw
    · cases hw
    next hg =>
      rcases h.tended g v hw ((hborrow g).symm.trans hb) with hwoken | hin | hwaking
      · exact .inl (hwoken.leave hg)
      · exact .inr (.inl (hkeep _ hin hg))
      · exact .inr (.inr hwaking)

end Frames

section Steps
variable {s u : Guard W} {t : Nat}

private theorem tended_call {op : Op W} (h : Tended s) (hpc : s.threads t = .idle)
    (hst : s.call t op = some u) : Tended u := by
  have hq : (s.threads t).Quiet := by rw [hpc]; trivial
  cases op with
  | tryAcquire =>
    cases hst
    exact tended_move h hq (by rw [hpc]; rfl) (Nat.le_refl _) s.permits
  | acquire =>
    cases hst
    exact tended_acquire h
  | poll f w =>
    rw [call] at hst
    split at hst
    next r hf =>
      cases hst
      exact tended_poll h hpc hf w
    · cases hst
  | dropPermit =>
    obtain ⟨_, rfl⟩ := guarded hst
    exact tended_move h hq (by rw [hpc]; rfl) (Nat.le_refl _) (s.permits - 1)
  | dropAcquire f =>
    rw [call] at hst
    split at hst
    next r hf =>
      cases hst
      refine tended_dropAcquire h hf ?_ ?_
      · intro x hx
        cases r
        · exact hx
        · exact (mem_filter.mp hx).1
      · intro x hx hne
        cases r
        · exact hx
        · exact mem_filter.mpr ⟨hx, decide_eq_true hne⟩
    · cases hst

variable [DecidableEq W] {f : Nat} {w : W}

private theorem tended_exchange {current : Nat} (h : Tended s)
    (hpc : s.threads t = .pollExchange f w current)
    (hst : s.advance t (.pollExchange f w current) = some u) : Tended u := by
  rw [advance] at hst
  split at hst
  next hcur =>
    cases hst
    have hgrow : s.inner.inFlight ≤ current + 1 := by omega
    refine tended_finish h (by rw [hpc]; rfl) _ ?_ (fun _ hx => hx) ?_ ?_ ?_
    · intro hne
      exact (h.full hne).imp_left fun hcap => Nat.le_trans hcap hgrow
    · intro g hg
      exact (Parking.waker_leave _ f g).trans (if_neg hg)
    · intro g hg hwoken
      exact hwoken.leave hg
    · intro v (hv : (s.parked.leave f).waker f = some v)
      rw [Parking.waker_leave, if_pos rfl] at hv
      cases hv
  · cases hst
    exact tended_move h (by rw [hpc]; trivial) (by rw [hpc]; rfl) (Nat.le_refl _) s.permits

private theorem tended_register (h : Tended s) (hpc : s.threads t = .pollRegister f w)
    (hok : s.Registers (.advance t)) (hst : s.advance t (.pollRegister f w) = some u) :
    Tended u := by
  have hpoll : (s.threads t).poll = some (f, w) := by rw [hpc]; rfl
  have hwaker : ∀ v, s.parked.waker f = some v → v = w := fun v hv =>
    Option.some.inj (hv.symm.trans (h.polls t f w hpoll).2)
  have hok := hok f w hpc
  rw [advance] at hst
  split at hok
  next hreg =>
    simp only [hreg, if_true] at hst
    cases hst
    refine tended_finish h hpoll true h.full (fun _ hx => hx) (fun _ _ => rfl)
      (fun _ _ hw => hw) ?_
    intro v hv
    rw [hwaker v hv]
    exact hok
  next hreg =>
    simp only [hreg, if_false, Bool.false_eq_true] at hst
    cases hst
    refine tended_finish h hpoll true (fun _ => hok) (fun _ hx => mem_append_left _ hx)
      (fun _ _ => rfl) (fun _ _ hw => hw) ?_
    intro v hv
    rw [hwaker v hv]
    exact .inr (.inl (mem_append_right _ (mem_singleton.mpr rfl)))

private theorem tended_advance (h : Tended s) (hok : s.Registers (.advance t))
    (hst : s.advance t (s.threads t) = some u) : Tended u := by
  cases hpc : s.threads t with
  | idle => rw [hpc] at hst; cases hst
  | tryLoad | pollLoad f w =>
    rw [hpc, advance] at hst
    split at hst <;> cases hst <;>
      exact tended_move h (by rw [hpc]; trivial) (by rw [hpc]; rfl) (Nat.le_refl _) s.permits
  | tryExchange current =>
    rw [hpc, advance] at hst
    split at hst <;> cases hst
    · exact tended_move h (by rw [hpc]; trivial) (by rw [hpc]; rfl) (by omega) _
    · exact tended_move h (by rw [hpc]; trivial) (by rw [hpc]; rfl) (Nat.le_refl _) s.permits
  | pollExchange f w current => exact tended_exchange h hpc (hpc ▸ hst)
  | pollRegister f w => exact tended_register h hpc hok (hpc ▸ hst)
  | releasing =>
    rw [hpc] at hst
    cases hst
    exact tended_releasing h hpc _
  | draining =>
    rw [hpc] at hst
    cases hst
    exact tended_draining h hpc
  | waking ws =>
    cases ws with
    | nil =>
      rw [hpc] at hst
      cases hst
      exact tended_move h (by rw [hpc]; rfl) (by rw [hpc]; rfl) (Nat.le_refl _) s.permits
    | cons v vs =>
      rw [hpc] at hst
      cases hst
      exact tended_waking h hpc

private theorem tended_step {a : Event W} (h : Tended s) (hok : s.Registers a)
    (hst : s.step a = some u) : Tended u := by
  cases a with
  | call t op =>
    rw [step] at hst
    split at hst
    next hpc =>
      exact tended_call h hpc hst
    · cases hst
  | advance t => exact tended_advance h hok hst

/-- When polls register under contention and only skip registration while their waker
is attended, no pending acquirer is left asleep beside a free permit. -/
theorem pending_acquire_woken {capacity : Nat} {inner : BackpressureInner W}
    (hnew : BackpressureInner.new W capacity = some inner)
    (h : Reach step Registers (start inner) s) : s.NoStranded :=
  (h.invariant (tended_start hnew) fun _ _ _ => tended_step).noStranded

private def releaseRound : List (Event Nat) :=
  [.call 0 .tryAcquire, .advance 0, .advance 0, .call 0 .acquire, .call 0 (.poll 0 7), .advance 0,
    .advance 0, .call 0 .dropPermit, .advance 0, .advance 0, .advance 0, .advance 0]

private theorem releaseRound_allowed :
    Allowed step Registers (start ⟨1, 0, [], 0⟩) releaseRound := by
  refine .intro trivial <| .intro (fun _ _ h => nomatch h) <| .intro (fun _ _ h => nomatch h) <|
    .intro trivial <| .intro trivial <| .intro (fun _ _ h => nomatch h) <|
    .intro (fun f w h => ?_) <| .intro trivial <| .intro (fun _ _ h => nomatch h) <|
    .intro (fun _ _ h => nomatch h) <| .intro (fun _ _ h => nomatch h) <|
    .intro (fun _ _ h => nomatch h) trivial
  cases h
  exact .inl (Nat.le_refl 1)

/-- A registered future is woken by the release of the only permit. -/
theorem released_permit_wakes : ∃ s, run step (start ⟨1, 0, [], 0⟩) releaseRound = some s ∧
    s.inner.inFlight = 0 ∧ s.parked.waker 0 = some 7 ∧ s.parked.Woken 0 := by
  refine ⟨_, rfl, rfl, rfl, ?_⟩
  refine pending_acquire_woken (show BackpressureInner.new Nat 1 = _ from rfl)
    (reach_of_run releaseRound releaseRound_allowed rfl) (fun t => ?_) (by decide) 0 (by decide)
  match t with
  | 0 => rfl
  | n + 1 => rfl

/-- The first release takes the future's entry. Polled again, the future does not register, and the
second release finds no waiter. -/
theorem registered_acquirer_strands : ∃ s : Guard Nat,
    run step (start ⟨1, 0, [], 0⟩) (releaseRound ++ [.call 0 .tryAcquire, .advance 0, .advance 0,
      .call 0 (.poll 0 7), .advance 0, .advance 0, .call 0 .dropPermit, .advance 0, .advance 0,
      .advance 0]) = some s ∧ ¬ s.NoStranded := by
  refine ⟨_, rfl, fun h => ?_⟩
  obtain ⟨w, hw⟩ := h (fun t => match t with | 0 => rfl | n + 1 => rfl) (by decide) 0 (by decide)
  cases hw

end Steps
end Guard
end Sitas.Executor.Backpressure
