import Mathlib.Data.List.Nodup
import Mathlib.Data.List.Perm.Subperm
import Sitas.Lib.Parking
import Sitas.Lib.Runs

/-! The one-shot signals of the executor, stop tokens and notifications, and the wakers that
they store before they are raised, beside the futures that await them. Neither future has a
destructor. -/
namespace Sitas.Executor
open Sitas.Lib List

structure Signal (W : Type) where
  raised : Bool
  wakers : List W
  deriving DecidableEq, Repr

namespace Signal
variable {W : Type}

def new : Signal W := ⟨false, []⟩

/-- Raise the flag: whether it was down, and the wakers to invoke. -/
def raise (s : Signal W) : Bool × List W × Signal W :=
  if s.raised then (false, [], s) else (true, s.wakers, ⟨true, []⟩)

/-- A future that awaits the signal. A waker that is stored already is not stored again. -/
def poll [DecidableEq W] (s : Signal W) (waker : W) : Poll Unit × Signal W :=
  if s.raised then (.ready (), s)
  else (.pending, if waker ∈ s.wakers then s else { s with wakers := s.wakers ++ [waker] })

@[simp] theorem raise_raised (s : Signal W) : (s.raise).2.2.raised = true := by
  unfold raise
  split
  · assumption
  · rfl

theorem poll_of_raised [DecidableEq W] {s : Signal W} (h : s.raised = true) (waker : W) :
    s.poll waker = (.ready (), s) := by
  simp [poll, h]

end Signal

abbrev StopState := Signal
abbrev NotifyState := Signal

variable {W : Type}

def StopSource.stop (s : StopState W) : Bool × List W × StopState W := s.raise

def StopToken.poll [DecidableEq W] (s : StopState W) (waker : W) : Poll Unit × StopState W :=
  Signal.poll s waker

def Notify.notifyWaiters (s : NotifyState W) : Bool × List W × NotifyState W := s.raise

def Notified.poll [DecidableEq W] (s : NotifyState W) (waker : W) : Poll Unit × NotifyState W :=
  Signal.poll s waker

inductive Awaiting where
  | stopToken
  | notified

def Awaiting.poll [DecidableEq W] : Awaiting → Signal W → W → Poll Unit × Signal W
  | .stopToken => StopToken.poll
  | .notified => Notified.poll

/-- The futures in the order of their creation, with the waker of the last poll if it returned
pending, and without an entry once they are dropped. -/
structure Waiters (W : Type) where
  signal : Signal W
  futures : List (Option (Option W))

inductive WaiterEvent (W : Type) where
  | create
  | poll (future : Nat) (waker : W)
  | drop (future : Nat)

namespace Waiters

def new : Waiters W := ⟨.new, []⟩

def pending (s : Waiters W) : List W := s.futures.filterMap Option.join

variable {s t : Waiters W}

/-- The wakers that other futures than this one wait with. -/
def others (s : Waiters W) (future : Nat) : List W :=
  (s.futures.eraseIdx future).filterMap Option.join

def waker? (s : Waiters W) (future : Nat) : Option W := s.futures[future]?.join.join

variable {future : Nat} {w : W}

theorem mem_pending (hlt : future < s.futures.length) :
    w ∈ s.pending ↔ s.waker? future = some w ∨ w ∈ s.others future := by
  rw [pending, ((getElem_cons_eraseIdx_perm hlt).filterMap Option.join).mem_iff.symm, others, waker?,
    getElem?_eq_getElem hlt, Option.join_some]
  cases h : s.futures[future].join with
  | none => rw [filterMap_cons_none h]; simp
  | some v => rw [filterMap_cons_some h, mem_cons, Option.some_inj, eq_comm]

theorem mem_pending_set (hlt : future < s.futures.length) (x : Option (Option W)) :
    w ∈ ({ s with futures := s.futures.set future x } : Waiters W).pending ↔
      x.join = some w ∨ w ∈ s.others future := by
  have hset : future < (s.futures.set future x).length := by rwa [length_set]
  rw [mem_pending hset, waker?, others, others, getElem?_set_self hlt, eraseIdx_set_eq,
    Option.join_some]

variable [DecidableEq W]

def step (kind : Awaiting) (s : Waiters W) : WaiterEvent W → Option (Waiters W)
  | .create => some { s with futures := s.futures ++ [some none] }
  | .poll future waker =>
    (s.futures[future]?.join).map fun _ =>
      let r := kind.poll s.signal waker
      ⟨r.2, s.futures.set future (some (if r.1 = .pending then some waker else none))⟩
  | .drop future => (s.futures[future]?.join).map fun _ => { s with futures := s.futures.set future none }

/-- A future that waits is dropped, or polled with another waker, only if another future waits
with its waker. -/
def Stays (s : Waiters W) : WaiterEvent W → Prop
  | .create => True
  | .poll future waker => ∀ w ∈ s.waker? future, w = waker ∨ w ∈ s.others future
  | .drop future => ∀ w ∈ s.waker? future, w ∈ s.others future

instance (s : Waiters W) (e : WaiterEvent W) : Decidable (s.Stays e) := by
  cases e <;> unfold Stays <;> infer_instance

/-- Every stored waker is that of a pending future, and none is stored twice. -/
structure Attended (s : Waiters W) : Prop where
  down : s.signal.raised = false
  nodup : s.signal.wakers.Nodup
  subset : s.signal.wakers ⊆ s.pending

variable {kind : Awaiting} {e : WaiterEvent W}

theorem Attended.poll {waker : W} (h : Attended s) (hlt : future < s.futures.length)
    (hstays : s.Stays (.poll future waker)) :
    Attended ⟨(s.signal.poll waker).2, s.futures.set future (some (some waker))⟩ := by
  have hpending := fun w => mem_pending_set (w := w) hlt (some (some waker))
  have hold : ∀ w ∈ s.signal.wakers,
      w ∈ (⟨s.signal, s.futures.set future (some (some waker))⟩ : Waiters W).pending := by
    intro w hw
    refine (hpending w).mpr ?_
    rcases (mem_pending hlt).mp (h.subset hw) with hwaker | hother
    · exact (hstays w hwaker).imp_left fun heq => congrArg some heq.symm
    · exact .inr hother
  simp only [Signal.poll, h.down]
  by_cases hmem : waker ∈ s.signal.wakers
  · rw [if_neg Bool.false_ne_true, if_pos hmem]
    exact ⟨h.down, h.nodup, hold⟩
  · rw [if_neg Bool.false_ne_true, if_neg hmem]
    refine ⟨rfl, ?_, fun w hw => ?_⟩
    · simpa using Nodup.concat hmem h.nodup
    · rcases mem_append.mp hw with hw | hw
      · exact hold w hw
      · exact (hpending w).mpr (.inl (congrArg some (mem_singleton.mp hw).symm))

theorem Attended.step (h : Attended s) (hstays : s.Stays e) (hst : s.step kind e = some t) :
    Attended t := by
  cases e with
  | create =>
    cases hst
    refine ⟨h.down, h.nodup, fun w hw => ?_⟩
    rw [pending, filterMap_append]
    exact mem_append_left _ (h.subset hw)
  | poll future waker =>
    obtain ⟨last, hfuture, rfl⟩ := Option.map_eq_some_iff.mp hst
    obtain ⟨hlt, -⟩ := List.getElem?_eq_some_iff.mp (Option.join_eq_some_iff.mp hfuture)
    have hpending : (s.signal.poll waker).1 = .pending := by simp [Signal.poll, h.down]
    have hkind : kind.poll s.signal waker = s.signal.poll waker := by cases kind <;> rfl
    simp only [hkind, if_pos hpending]
    exact h.poll hlt hstays
  | drop future =>
    obtain ⟨last, hfuture, rfl⟩ := Option.map_eq_some_iff.mp hst
    obtain ⟨hlt, -⟩ := List.getElem?_eq_some_iff.mp (Option.join_eq_some_iff.mp hfuture)
    refine ⟨h.down, h.nodup, fun w hw => (mem_pending_set hlt none).mpr (.inr ?_)⟩
    exact ((mem_pending hlt).mp (h.subset hw)).elim (hstays w) id

/-- If a waiting future is dropped, or polled with another waker, only while another one waits with
its waker, at most one waker is stored for each future that waits. -/
theorem wakers_le_pending (kind : Awaiting) (h : Reach (step kind) Stays (new : Waiters W) s) :
    s.signal.wakers.length ≤ s.pending.length := by
  have hattended : Attended s := h.invariant ⟨rfl, nodup_nil, nil_subset _⟩
    fun _ _ _ hs hok hst => hs.step hok hst
  exact (subperm_of_subset hattended.nodup hattended.subset).length_le

private def waitingTasks : List (WaiterEvent Nat) :=
  [.create, .create, .create, .poll 0 7, .poll 1 7, .poll 2 8, .poll 2 8, .drop 0]

theorem waiting_futures_are_stored : ∃ s : Waiters Nat,
    run (step .notified) new waitingTasks = some s ∧ s.signal.wakers = [7, 8] ∧
      s.pending = [7, 8] ∧ s.signal.wakers.length ≤ s.pending.length := by
  refine ⟨_, rfl, rfl, rfl, wakers_le_pending .notified ?_⟩
  exact reach_of_run waitingTasks (by decide +kernel) rfl

/-- The waker of a dropped token stays. -/
theorem dropped_token_is_retained : ∃ s : Waiters Nat, Reachable (step .stopToken) new s ∧
    s.signal.wakers.length = 1 ∧ s.pending = [] :=
  ⟨_, reachable_of_run [.create, .poll 0 7, .drop 0] rfl, rfl, rfl⟩

end Waiters
end Sitas.Executor
