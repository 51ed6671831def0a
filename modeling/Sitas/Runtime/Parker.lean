import Sitas.Lib.Runs

/-! The `Mutex`/`Condvar` parker of the Unix runtime. All parked threads share
one flag: `unpark` sets it and notifies all of them, and a thread that finds it
set clears it before it returns. -/
namespace Sitas.Runtime
open Sitas.Lib Option

/-- A thread inside the wait of `park`: the deadline of a timed call, and
whether the condition variable was notified since the wait began. -/
structure ParkedThread where
  deadline : Option Nat
  signaled : Bool
  deriving DecidableEq, Repr

/-- The parker with the threads inside `park`, the time, and for each thread the
number of its `park` calls that have returned. -/
structure UnixParker (ι : Type) where
  notified : Bool
  now : Nat
  parked : ι → Option ParkedThread
  returns : ι → Nat

/-- The mutex makes each of these one critical section. -/
inductive ParkerEvent (ι : Type) where
  | park (thread : ι) (timeout : Option Nat)
  | resume (thread : ι)
  | expire (thread : ι)
  | unpark
  | tick (elapsed : Nat)
  deriving DecidableEq, Repr

def ParkerEvent.parker {ι : Type} : ParkerEvent ι → Option ι
  | .park i _ | .resume i | .expire i => some i
  | .unpark | .tick _ => none

namespace UnixParker
variable {ι : Type} [DecidableEq ι]

def new : UnixParker ι := ⟨false, 0, fun _ => none, fun _ => 0⟩

def leave (s : UnixParker ι) (i : ι) : UnixParker ι :=
  { s with
    parked := Function.update s.parked i none
    returns := Function.update s.returns i (s.returns i + 1) }

/-- The loop of `park` from the test of the flag to the next wait. -/
def recheck (s : UnixParker ι) (i : ι) (deadline : Option Nat) : UnixParker ι :=
  if s.notified then { s with notified := false }.leave i
  else if deadline.any (· ≤ s.now) then s.leave i
  else { s with parked := Function.update s.parked i (some ⟨deadline, false⟩) }

def unpark (s : UnixParker ι) : UnixParker ι :=
  { s with notified := true, parked := fun i => (s.parked i).map ({ · with signaled := true }) }

/-- A wait ends when it was notified, spuriously, or when its time is over; then the flag is
cleared without a look at it. -/
def step (s : UnixParker ι) : ParkerEvent ι → Option (UnixParker ι)
  | .park i timeout =>
    if s.parked i = none then some (s.recheck i (timeout.map (s.now + ·))) else none
  | .resume i => do
    let w ← s.parked i
    some (s.recheck i w.deadline)
  | .expire i => do
    let w ← s.parked i
    if w.deadline.any (· ≤ s.now) then some ({ s with notified := false }.leave i) else none
  | .unpark => some s.unpark
  | .tick elapsed => some { s with now := s.now + elapsed }

def Blocked (s : UnixParker ι) (i : ι) : Prop := (s.parked i).isSome

instance (s : UnixParker ι) (i : ι) : Decidable (s.Blocked i) :=
  inferInstanceAs (Decidable (_ = true))

def firstParker (evs : List (ParkerEvent ι)) : Option ι := evs.findSome? ParkerEvent.parker

section Steps
variable {s t u : UnixParker ι} {e : ParkerEvent ι} {evs : List (ParkerEvent ι)} {i j : ι}
  {w : ParkedThread}

theorem recheck_now (deadline : Option Nat) : (s.recheck i deadline).now = s.now := by
  unfold recheck
  split
  · rfl
  · split <;> rfl

theorem returns_leave_le : s.returns j ≤ (s.leave i).returns j := by
  by_cases h : j = i
  · simp [leave, h]
  · simp [leave, h]

theorem returns_recheck_le (deadline : Option Nat) :
    s.returns j ≤ (s.recheck i deadline).returns j := by
  unfold recheck
  split
  · exact returns_leave_le (s := { s with notified := false })
  · split
    · exact returns_leave_le
    · exact Nat.le_refl _

theorem step_mono (hst : s.step e = some t) : s.now ≤ t.now ∧ s.returns j ≤ t.returns j := by
  cases e with
  | park i timeout =>
    obtain ⟨_, rfl⟩ := guarded hst
    exact ⟨Nat.le_of_eq (recheck_now _).symm, returns_recheck_le _⟩
  | resume i =>
    obtain ⟨w, _, hst⟩ := bind_eq_some_iff.mp hst
    cases hst
    exact ⟨Nat.le_of_eq (recheck_now _).symm, returns_recheck_le _⟩
  | expire i =>
    obtain ⟨w, _, hst⟩ := bind_eq_some_iff.mp hst
    obtain ⟨_, rfl⟩ := guarded hst
    exact ⟨Nat.le_refl _, returns_leave_le (s := { s with notified := false })⟩
  | unpark =>
    cases hst
    exact ⟨Nat.le_refl _, Nat.le_refl _⟩
  | tick elapsed =>
    cases hst
    exact ⟨Nat.le_add_right _ _, Nat.le_refl _⟩

theorem run_mono (hrun : run step s evs = some t) : s.now ≤ t.now ∧ s.returns j ≤ t.returns j := by
  induction evs generalizing s with
  | nil =>
    cases hrun
    exact ⟨Nat.le_refl _, Nat.le_refl _⟩
  | cons e evs ih =>
    obtain ⟨u, hu, hrest⟩ := bind_eq_some_iff.mp hrun
    obtain ⟨hnow, hreturns⟩ := step_mono (j := j) hu
    obtain ⟨hnow', hreturns'⟩ := ih hrest
    exact ⟨Nat.le_trans hnow hnow', Nat.le_trans hreturns hreturns'⟩

def Timely (now : Nat) (w : ParkedThread) : Prop := ∀ d, w.deadline = some d → now < d

theorem Timely.mono {now now' : Nat} (h : Timely now' w) (hle : now ≤ now') : Timely now w :=
  fun d hd => Nat.lt_of_le_of_lt hle (h d hd)

theorem Timely.not_any {now : Nat} (h : Timely now w) : ¬ w.deadline.any (· ≤ now) := by
  cases hd : w.deadline with
  | none => simp
  | some d => simpa using h d hd

theorem recheck_of_notified (h : s.notified = true) (deadline : Option Nat) :
    s.recheck i deadline = { s with notified := false }.leave i := by
  simp [recheck, h]

theorem recheck_of_quiet (h : s.notified = false) (hw : Timely s.now w) :
    s.recheck i w.deadline =
      { s with parked := Function.update s.parked i (some ⟨w.deadline, false⟩) } := by
  simp [recheck, h, hw.not_any]

/-- The flag is cleared and the thread still is in the same call of `park`. -/
structure Stays (s : UnixParker ι) (i : ι) (deadline : Option Nat) (returned : Nat) : Prop where
  quiet : s.notified = false
  parked : ∃ signaled, s.parked i = some ⟨deadline, signaled⟩
  returns : s.returns i = returned

variable {deadline : Option Nat} {n : Nat}

section
variable (h : Stays s i deadline n)
include h

theorem Stays.leave (hne : i ≠ j) : Stays (s.leave j) i deadline n where
  quiet := h.quiet
  parked := by simpa [UnixParker.leave, hne] using h.parked
  returns := by simpa [UnixParker.leave, hne] using h.returns

theorem Stays.recheck_other (hne : i ≠ j) (other : Option Nat) :
    Stays (s.recheck j other) i deadline n := by
  simp only [recheck, h.quiet, Bool.false_eq_true, if_false]
  split
  · exact h.leave hne
  · exact ⟨rfl, by simpa [hne] using h.parked, h.returns⟩

/-- With the flag cleared no step but `unpark` lets a parked thread return in time. -/
theorem Stays.step (hne : e ≠ .unpark) (htime : ∀ d, deadline = some d → s.now < d)
    (hst : s.step e = some t) : Stays t i deadline n := by
  obtain ⟨signaled, hi⟩ := h.parked
  have hw : Timely s.now ⟨deadline, signaled⟩ := htime
  cases e with
  | park j timeout =>
    obtain ⟨hj, rfl⟩ := guarded hst
    refine h.recheck_other ?_ _
    rintro rfl
    exact absurd (hi.symm.trans hj) (some_ne_none _)
  | resume j =>
    obtain ⟨w, hj, hst⟩ := bind_eq_some_iff.mp hst
    cases hst
    by_cases hij : i = j
    · subst hij
      rw [some.inj (hj.symm.trans hi), recheck_of_quiet h.quiet hw]
      exact ⟨h.quiet, ⟨false, Function.update_self ..⟩, h.returns⟩
    · exact h.recheck_other hij _
  | expire j =>
    obtain ⟨w, hj, hst⟩ := bind_eq_some_iff.mp hst
    obtain ⟨hover, rfl⟩ := guarded hst
    have hij : i ≠ j := by
      rintro rfl
      rw [some.inj (hj.symm.trans hi)] at hover
      exact hw.not_any hover
    exact Stays.leave (s := { s with notified := false }) ⟨rfl, h.parked, h.returns⟩ hij
  | unpark => exact absurd rfl hne
  | tick elapsed =>
    cases hst
    exact ⟨h.quiet, h.parked, h.returns⟩

theorem Stays.run (hne : .unpark ∉ evs) (htime : ∀ d, deadline = some d → t.now < d)
    (hrun : run UnixParker.step s evs = some t) : Stays t i deadline n := by
  induction evs generalizing s with
  | nil =>
    cases hrun
    exact h
  | cons e evs ih =>
    obtain ⟨u, hu, hrest⟩ := bind_eq_some_iff.mp hrun
    simp only [List.mem_cons, not_or] at hne
    obtain ⟨he, hevs⟩ := hne
    have hnow := Nat.le_trans (step_mono (j := i) hu).1 (run_mono (j := i) hrest).1
    refine ih (h.step (Ne.symm he) ?_ hu) hevs hrest
    exact fun d hd => Nat.lt_of_le_of_lt hnow (htime d hd)

end

theorem step_first (hflag : s.notified = true)
    (htime : ∀ j w, s.parked j = some w → Timely s.now w) (he : e.parker = some j)
    (hst : s.step e = some t) : t = { s with notified := false }.leave j := by
  cases e with
  | park k timeout =>
    cases he
    obtain ⟨_, rfl⟩ := guarded hst
    exact recheck_of_notified hflag _
  | resume k =>
    cases he
    obtain ⟨w, _, hst⟩ := bind_eq_some_iff.mp hst
    cases hst
    exact recheck_of_notified hflag _
  | expire k =>
    obtain ⟨w, hk, hst⟩ := bind_eq_some_iff.mp hst
    obtain ⟨hover, _⟩ := ite_none_right_eq_some.mp hst
    exact absurd hover (htime k w hk).not_any
  | unpark => cases he
  | tick elapsed => cases he

/-- While the flag is set, a parked thread returns exactly if it is the first to
lock the mutex. -/
theorem returned_iff_first (hflag : s.notified = true) (hne : .unpark ∉ evs)
    (htime : ∀ j w, s.parked j = some w → Timely t.now w) (hrun : run UnixParker.step s evs = some t)
    (hi : s.Blocked i) : s.returns i < t.returns i ↔ firstParker evs = some i := by
  induction evs generalizing s with
  | nil =>
    cases hrun
    simp [firstParker]
  | cons e evs ih =>
    obtain ⟨u, hu, hrest⟩ := bind_eq_some_iff.mp hrun
    simp only [List.mem_cons, not_or] at hne
    obtain ⟨he, hevs⟩ := hne
    have hnow := Nat.le_trans (step_mono (j := i) hu).1 (run_mono (j := i) hrest).1
    cases hlock : e.parker with
    | none =>
      have htick : ∃ elapsed, u = { s with now := s.now + elapsed } := by
        cases e with
        | tick elapsed => exact ⟨elapsed, (some.inj hu).symm⟩
        | unpark => exact absurd rfl he
        | park | resume | expire => cases hlock
      obtain ⟨elapsed, rfl⟩ := htick
      simpa [firstParker, hlock] using
        ih (s := { s with now := s.now + elapsed }) hflag hevs htime hrest hi
    | some j =>
      have hfirst : firstParker (e :: evs) = some j := by simp [firstParker, hlock]
      have hu' := step_first hflag (fun k w hk => (htime k w hk).mono hnow) hlock hu
      subst hu'
      rw [hfirst, some.injEq]
      by_cases hij : j = i
      · subst hij
        have hle := (run_mono (j := j) hrest).2
        simp only [leave, Function.update_self] at hle
        exact iff_of_true hle rfl
      · obtain ⟨w, hw⟩ := isSome_iff_exists.mp hi
        have hstays : Stays { s with notified := false } i w.deadline (s.returns i) :=
          ⟨rfl, ⟨w.signaled, hw⟩, rfl⟩
        have hend := (hstays.leave (Ne.symm hij)).run hevs (htime i w hw) hrest
        exact iff_of_false (by rw [hend.returns]; exact Nat.lt_irrefl _) hij

end Steps

/-- The threads blocked in `park` at an `unpark`, whose timeouts do not expire, have all returned
from that call exactly if each of them was the first to lock the mutex. -/
theorem unpark_releases_iff_first {s t : UnixParker ι} {evs : List (ParkerEvent ι)}
    (hrun : run step s.unpark evs = some t) (hne : .unpark ∉ evs)
    (htime : ∀ i w, s.parked i = some w → Timely t.now w) :
    (∀ i, s.Blocked i → s.returns i < t.returns i) ↔
      ∀ i, s.Blocked i → firstParker evs = some i := by
  have hblocked : ∀ i, s.unpark.Blocked i ↔ s.Blocked i := by
    intro i
    simp [Blocked, unpark]
  have htime' : ∀ i w, s.unpark.parked i = some w → Timely t.now w := by
    intro i w hw
    obtain ⟨w', hw', rfl⟩ := map_eq_some_iff.mp hw
    exact htime i w' hw'
  refine forall_congr' fun i => imp_congr_right fun hi => ?_
  exact returned_iff_first (s := s.unpark) rfl hne htime' hrun ((hblocked i).mpr hi)

private def oneParked : UnixParker (Fin 1) :=
  (run step new [.park 0 none]).get (by decide +kernel)

theorem single_parked_thread_released :
    ∃ t : UnixParker (Fin 1), run step oneParked.unpark [.resume 0] = some t ∧
      oneParked.Blocked 0 ∧ ∀ i, oneParked.Blocked i → oneParked.returns i < t.returns i := by
  obtain ⟨t, ht⟩ : ∃ t, run step oneParked.unpark [.resume 0] = some t :=
    isSome_iff_exists.mp (by decide +kernel)
  have huntimed : ∀ i, (oneParked.parked i).bind ParkedThread.deadline = none := by decide +kernel
  refine ⟨t, ht, by decide +kernel, (unpark_releases_iff_first ht (by decide) ?_).mpr ?_⟩
  · intro i w hw d hd
    have hnone := huntimed i
    rw [hw, bind_some, hd] at hnone
    cases hnone
  · intro i _
    rw [Subsingleton.elim i 0]
    rfl

private def bothParked : UnixParker (Fin 2) :=
  (run step new [.park 0 none, .park 1 none]).get (by decide +kernel)

/-- Both threads were notified. The second waits again, with the flag cleared. -/
theorem second_parked_thread_stays :
    Reachable step new bothParked ∧ bothParked.Blocked 0 ∧ bothParked.Blocked 1 ∧
      ∃ t : UnixParker (Fin 2), run step bothParked.unpark [.resume 0, .resume 1] = some t ∧
        t.returns 1 = bothParked.returns 1 ∧ t.parked 1 = some ⟨none, false⟩ ∧
        t.notified = false := by
  have hrun : (run step bothParked.unpark [.resume 0, .resume 1]).map (fun t =>
      (t.returns 1, t.parked 1, t.notified)) =
      some (bothParked.returns 1, some ⟨none, false⟩, false) := by decide +kernel
  obtain ⟨t, ht, hfacts⟩ := map_eq_some_iff.mp hrun
  obtain ⟨hreturns, hfacts⟩ := Prod.mk.inj hfacts
  obtain ⟨hparked, hflag⟩ := Prod.mk.inj hfacts
  exact ⟨reachable_of_run [.park 0 none, .park 1 none] (some_get _).symm,
    by decide +kernel, by decide +kernel, t, ht, hreturns, hparked, hflag⟩

end UnixParker
end Sitas.Runtime
