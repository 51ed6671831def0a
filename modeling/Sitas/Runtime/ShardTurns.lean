import Mathlib.Data.List.Perm.Subperm
import Sitas.Runtime.ShardProgress

namespace Sitas.Runtime.ShardExecutor
open Sitas.Lib List

variable {H : Type} {s t : ShardExecutor H}

def Passes (s t : ShardExecutor H) (out : List Nat) : Prop :=
  ∃ added, s.ready.queue ++ added = out ++ t.ready.queue

theorem Passes.same (h : t.ready = s.ready) : Passes s t [] :=
  ⟨[], by rw [h, append_nil, nil_append]⟩

theorem Passes.marked {task : Nat} (h : t.ready = s.ready.markReady task) : Passes s t [] := by
  unfold ReadyQueue.markReady at h
  split at h
  · exact ⟨[task], by rw [h, nil_append]⟩
  · exact .same h

theorem Passes.trans {u : ShardExecutor H} {out out' : List Nat} (h : Passes s t out)
    (h' : Passes t u out') : Passes s u (out ++ out') := by
  obtain ⟨added, hadded⟩ := h
  obtain ⟨added', hadded'⟩ := h'
  refine ⟨added ++ added', ?_⟩
  rw [← append_assoc, hadded, append_assoc, hadded', append_assoc]

theorem Sound.queue_length_le (h : Sound s) : s.ready.queue.length ≤ s.tasks.length := by
  have hsub : s.ready.queue ⊆ List.range s.tasks.length := fun i hi => by
    have hlt := (List.getElem?_eq_some_iff.mp ((h.marked.flags i).mpr hi)).1
    rw [mem_range, ← h.marked.length]
    exact hlt
  have hle := (subperm_of_subset h.marked.nodup hsub).length_le
  rwa [length_range] at hle

theorem passes_poll {actions : List (TaskAction H)} {ready : Bool}
    (hst : s.poll actions ready = some t) : Passes s t (s.ready.queue.take 1) := by
  obtain ⟨polled, task, rest, -, -, htake, rfl⟩ := poll_cases hst
  refine ⟨[], ?_⟩
  rw [pollTask_ready, append_nil]
  unfold ReadyQueue.takeReady at htake
  split at htake
  · cases htake
  next queue hqueue =>
    cases htake
    rw [hqueue]
    rfl

theorem passes_spawn (s : ShardExecutor H) : Passes s s.spawn [] := by
  obtain ⟨added, hadded⟩ := Passes.marked (s := { s with
    ready := ⟨s.ready.queue, s.ready.queued ++ [false]⟩ }) (t := s.spawn) rfl
  exact ⟨added, hadded⟩

variable [DecidableEq H]

def takenBy (s : ShardExecutor H) : ShardEvent H → List Nat
  | .poll _ _ => s.ready.queue.take 1
  | _ => []

def taken (s : ShardExecutor H) : List (ShardEvent H) → List Nat
  | [] => []
  | e :: es => (s.step e).elim [] fun t => s.takenBy e ++ t.taken es

theorem passes_proceed (hst : s.proceed = some t) : Passes s t [] := by
  cases proceeds_of_proceed hst with
  | wake _ => exact .marked rfl
  | drain _ =>
    obtain ⟨task, io, -, heq⟩ | ⟨io, -, heq⟩ | heq := s.wakeReadable_cases _ _ <;> rw [heq]
    · exact .marked rfl
    · exact .same rfl
    · exact .same rfl
  | enter | finish | leave | register | complete | suspend | post | again | park | wait | drained
  | drainPost => exact .same rfl

theorem passes_step {e : ShardEvent H} (hst : s.step e = some t) : Passes s t (s.takenBy e) := by
  cases e with
  | spawn =>
    obtain ⟨-, rfl⟩ := guarded hst
    exact passes_spawn s
  | run | post =>
    obtain ⟨-, rfl⟩ := guarded hst
    exact .same rfl
  | wake task =>
    cases hst
    exact .marked rfl
  | register handle waker =>
    cases hst
    exact .same rfl
  | poll actions ready => exact passes_poll hst
  | proceed => exact passes_proceed hst
  | waited _ | waitFailed _ =>
    obtain ⟨read, -, ⟨readable, -, rfl⟩ | ⟨consumed, -, rfl⟩⟩ := waitReturns_cases hst <;>
      exact .same rfl

theorem passes_run {evs : List (ShardEvent H)} (hrun : run step s evs = some t) :
    Passes s t (s.taken evs) := by
  induction evs generalizing s with
  | nil =>
    cases hrun
    exact .same rfl
  | cons e evs ih =>
    obtain ⟨u, hst, hrest⟩ := Option.bind_eq_some_iff.mp hrun
    rw [taken, hst]
    exact (passes_step hst).trans (ih hrest)

/-- The tasks taken before a queued task are those ahead of it, each once and in order, and fewer
than the spawned tasks. -/
theorem queued_tasks_taken_in_order {pollBudget task : Nat} {ahead behind : List Nat}
    {evs : List (ShardEvent H)}
    (h : Reachable step ((new : ShardExecutor H).withPollBudget pollBudget) s)
    (hqueue : s.ready.queue = ahead ++ task :: behind) (hrun : run step s evs = some t) :
    (ahead ++ [task]).Nodup ∧ ahead.length < s.tasks.length ∧
    (task ∉ s.taken evs → s.taken evs <+: ahead) ∧
    (task ∈ s.taken evs → ahead ++ [task] <+: s.taken evs) := by
  have hsound : Sound s := h.invariant (sound_start pollBudget) fun _ _ _ hs _ hst => hs.step hst
  have hsplit : s.ready.queue = (ahead ++ [task]) ++ behind := by rw [hqueue, append_cons]
  have hnodup : (ahead ++ [task]).Nodup :=
    (sublist_append_left _ behind).nodup (hsplit ▸ hsound.marked.nodup)
  have hlength : ahead.length < s.tasks.length := by
    have hle := hsound.queue_length_le
    rw [hqueue, length_append, length_cons] at hle
    omega
  obtain ⟨added, hadded⟩ := passes_run hrun
  have hahead : ahead ++ [task] <+: s.taken evs ++ t.ready.queue :=
    ⟨behind ++ added, by rw [← hadded, hsplit, append_assoc _ behind]⟩
  have htaken : s.taken evs <+: s.taken evs ++ t.ready.queue := prefix_append _ _
  refine ⟨hnodup, hlength, fun hnot => ?_, fun hmem => ?_⟩
  · rcases prefix_or_prefix_of_prefix htaken hahead with hle | hle
    · rcases prefix_concat_iff.mp hle with heq | hshorter
      · exact absurd (heq ▸ mem_append_right ahead mem_cons_self) hnot
      · exact hshorter
    · exact absurd (hle.subset (mem_append_right ahead mem_cons_self)) hnot
  · rcases prefix_or_prefix_of_prefix hahead htaken with hle | hle
    · exact hle
    · rcases prefix_concat_iff.mp hle with heq | hshorter
      · exact heq ▸ prefix_rfl
      · have hfirst : task ∉ ahead := fun hin =>
          (disjoint_of_nodup_append hnodup) hin mem_cons_self
        exact absurd (hshorter.subset hmem) hfirst

private def twoSpawned : List (ShardEvent Nat) := [.spawn, .spawn, .run, .proceed]

private def twoReady : ShardExecutor Nat :=
  (run step (new.withPollBudget 1) twoSpawned).get (by decide +kernel)

private def firstTurn : List (ShardEvent Nat) :=
  [.poll [.wake 0] false, .proceed, .proceed, .proceed, .proceed, .proceed, .proceed,
    .poll [] true]

/-- The first task wakes itself while it is polled, and the second one is taken next. -/
theorem second_task_taken_after_first :
    (run step twoReady firstTurn).isSome = true ∧ twoReady.taken firstTurn = [0, 1] ∧
      [0] ++ [1] <+: twoReady.taken firstTurn := by
  obtain ⟨t, hrun⟩ := Option.isSome_iff_exists.mp
    (show (run step twoReady firstTurn).isSome = true by decide +kernel)
  have htaken : twoReady.taken firstTurn = [0, 1] := by decide +kernel
  have hmem : 1 ∈ twoReady.taken firstTurn := by rw [htaken]; decide
  refine ⟨by rw [hrun]; rfl, htaken, ?_⟩
  have hqueue : twoReady.ready.queue = [0] ++ 1 :: [] := by decide +kernel
  exact (queued_tasks_taken_in_order (reachable_of_run twoSpawned (Option.some_get _).symm)
    hqueue hrun).2.2.2 hmem

end Sitas.Runtime.ShardExecutor
