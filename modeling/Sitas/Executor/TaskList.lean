import Sitas.Executor.TaskQueues
import Sitas.Lib.Runs

/-! The weak list of all tasks before the executor is closed. -/
namespace Sitas.Executor
open Sitas.Lib List

/-- Beside the task set stand the tasks with a strong reference outside the ready queues, and
those ever accepted. -/
structure TaskList where
  set : SchedulerTaskSet
  held : Nat → Bool
  accepted : List Nat

inductive TaskListEvent where
  | createSchedulingGroup (shares : Nat)
  | scheduleNew (group task : Nat)
  | scheduleExisting (group task : Nat)
  | nextTask
  | recordTaskPoll (group pollDuration : Nat)
  | finishTask
  | release (task : Nat)

namespace TaskList

def start : TaskList := ⟨.new, fun _ => false, []⟩

def strong (s : TaskList) (task : Nat) : Bool := s.held task || s.set.queued.contains task

/-- A task is scheduled as new only once, and in a group that exists: groups are named by the
handles that their creation returns and are never removed. A wake-up has a reference to its
task, and the executor to the task that it takes. -/
def step (s : TaskList) : TaskListEvent → Option TaskList
  | .createSchedulingGroup shares =>
    if shares = 0 then none else some { s with set := (s.set.createSchedulingGroup shares).2 }
  | .scheduleNew group task =>
    if task ∉ s.accepted ∧ group < s.set.groups.length then
      match s.set.scheduleNew s.strong group task with
      | .ok set => some ⟨set, Function.update s.held task true, task :: s.accepted⟩
      | .error _ => some s
    else none
  | .scheduleExisting group task =>
    if s.held task then
      match s.set.scheduleExisting group task with
      | .ok set => some { s with set }
      | .error _ => some s
    else none
  | .nextTask =>
    s.set.nextTask.map fun (task, set) => { s with set, held := Function.update s.held task true }
  | .recordTaskPoll group pollDuration =>
    some { s with set := s.set.recordTaskPoll group pollDuration }
  | .finishTask => some { s with set := s.set.finishTask }
  | .release task => some { s with held := Function.update s.held task false }

variable {s t : TaskList}

theorem strong_iff {task : Nat} :
    s.strong task = true ↔ s.held task = true ∨ 0 < s.set.queued.count task := by
  rw [strong, Bool.or_eq_true, contains_iff_mem, count_pos_iff]

theorem tasks_scheduleNew {s t : SchedulerTaskSet} {alive : Nat → Bool} {group task : Nat}
    (h : s.scheduleNew alive group task = .ok t) :
    (t.tasks = s.tasks ++ [task] ∧ (s.tasks.length < 64 ∨ s.tasks.length ≤ t.taskCount * 2)) ∨
      t.tasks = s.tasks.filter alive ++ [task] := by
  rw [SchedulerTaskSet.scheduleNew] at h
  split at h <;> cases h
  rw [SchedulerTaskSet.maybeCompactTasks]
  split
  next => exact .inr rfl
  next hsmall =>
    refine .inl ⟨rfl, ?_⟩
    rw [Bool.and_eq_true, decide_eq_true_eq, decide_eq_true_eq, not_and] at hsmall
    exact (Nat.lt_or_ge s.tasks.length 64).imp_right fun hge => Nat.le_of_not_lt (hsmall hge)

structure Listed (s : TaskList) : Prop where
  accepting : s.set.accepting = true
  indexed : s.set.Indexed
  known : ∀ task ∈ s.set.tasks, task ∈ s.accepted
  once : ∀ task ∈ s.accepted, s.strong task → s.set.tasks.count task = 1

theorem listed_start : Listed start := ⟨rfl, SchedulerTaskSet.indexed_new, nofun, nofun⟩

theorem Listed.same (h : Listed s) {set : SchedulerTaskSet} {held : Nat → Bool}
    (haccepting : set.accepting = s.set.accepting) (hindexed : set.Indexed)
    (htasks : set.tasks = s.set.tasks)
    (hstrong : ∀ task, strong ⟨set, held, s.accepted⟩ task → s.strong task) :
    Listed ⟨set, held, s.accepted⟩ := by
  refine ⟨haccepting.trans h.accepting, hindexed, ?_, fun task htask hs => ?_⟩
  · rw [htasks]
    exact h.known
  · rw [htasks]
    exact h.once task htask (hstrong task hs)

theorem Listed.scheduleNew (h : Listed s) {group task : Nat} {set : SchedulerTaskSet}
    (hnew : task ∉ s.accepted) (hset : s.set.scheduleNew s.strong group task = .ok set) :
    Listed ⟨set, Function.update s.held task true, task :: s.accepted⟩ := by
  obtain ⟨hpushed, _⟩ := SchedulerTaskSet.pushed_scheduleNew hset
  have hkept : ∃ kept, set.tasks = kept ++ [task] ∧ kept ⊆ s.set.tasks ∧
      ∀ i, s.strong i → kept.count i = s.set.tasks.count i := by
    rcases tasks_scheduleNew hset with ⟨htasks, _⟩ | htasks
    · exact ⟨_, htasks, fun _ hi => hi, fun _ _ => rfl⟩
    · exact ⟨_, htasks, filter_sublist.subset, fun _ hi => count_filter hi⟩
  obtain ⟨kept, htasks, hsub, hcount⟩ := hkept
  have hnone : kept.count task = 0 := count_eq_zero.mpr fun hmem => hnew (h.known task (hsub hmem))
  refine ⟨hpushed.accepting.trans h.accepting, hpushed.clocks.indexed h.indexed, fun i hi => ?_,
    fun i hi hstrong => ?_⟩
  · rw [htasks, mem_append, mem_singleton] at hi
    exact mem_cons.mpr (hi.symm.imp_right fun hi => h.known i (hsub hi))
  · change set.tasks.count i = 1
    rw [htasks, count_append]
    by_cases heq : i = task
    · subst heq
      rw [hnone, count_singleton_self]
    · have hqueued := hpushed.count i
      rw [if_neg (Ne.symm heq)] at hqueued
      have hstrong : s.strong i := by
        simpa [strong_iff, heq, hqueued] using hstrong
      rw [hcount i hstrong, h.once i ((mem_cons.mp hi).resolve_left heq) hstrong]
      simp [Ne.symm heq]

theorem Listed.step (h : Listed s) {e : TaskListEvent} (hst : s.step e = some t) : Listed t := by
  cases e with
  | createSchedulingGroup shares =>
    obtain ⟨hshares, hst⟩ := Option.ite_none_left_eq_some.mp hst
    cases hst
    refine h.same rfl (h.indexed.createSchedulingGroup hshares) rfl fun task => ?_
    rw [strong, s.set.queued_createSchedulingGroup]
    exact id
  | scheduleNew group task =>
    obtain ⟨⟨hnew, _⟩, hst⟩ := Option.ite_none_right_eq_some.mp hst
    split at hst <;> cases hst
    next hset => exact h.scheduleNew hnew hset
    next => exact h
  | scheduleExisting group task =>
    obtain ⟨hheld, hst⟩ := Option.ite_none_right_eq_some.mp hst
    split at hst <;> cases hst
    next set hset =>
      obtain ⟨hpushed, _⟩ := SchedulerTaskSet.pushed_scheduleExisting hset
      refine h.same hpushed.accepting (hpushed.clocks.indexed h.indexed) ?_ fun i hi => ?_
      · rw [SchedulerTaskSet.scheduleExisting] at hset
        split at hset <;> cases hset
        rfl
      · by_cases heq : i = task
        · simp [strong, heq, hheld]
        · have hqueued := hpushed.count i
          rw [if_neg (Ne.symm heq)] at hqueued
          simpa [strong_iff, hqueued] using hi
    next => exact h
  | nextTask =>
    obtain ⟨⟨task, set⟩, hnext, rfl⟩ := Option.map_eq_some_iff.mp hst
    have htaken := h.indexed.taken_nextTask hnext
    refine h.same htaken.accepting (htaken.clocks.indexed h.indexed) ?_ fun i hi => ?_
    · obtain ⟨_, _, _, rfl⟩ := SchedulerTaskSet.nextTask_cases hnext
      rfl
    · have hqueued := htaken.count i
      by_cases heq : task = i
      · rw [if_pos heq] at hqueued
        exact strong_iff.mpr (.inr (by omega))
      · rw [if_neg heq] at hqueued
        simpa [strong_iff, Ne.symm heq, ← hqueued] using hi
  | recordTaskPoll group pollDuration =>
    cases hst
    refine h.same ?_ (h.indexed.recordTaskPoll group pollDuration) ?_ fun i hi => ?_
    · rw [SchedulerTaskSet.recordTaskPoll]
      split <;> rfl
    · rw [SchedulerTaskSet.recordTaskPoll]
      split <;> rfl
    · simpa [strong_iff, h.indexed.count_recordTaskPoll] using hi
  | finishTask =>
    cases hst
    exact h.same rfl ⟨h.indexed.id, h.indexed.shares⟩ rfl fun _ => id
  | release task =>
    cases hst
    refine h.same rfl h.indexed rfl fun i hi => ?_
    rw [strong_iff] at hi ⊢
    refine hi.imp_left fun hheld => ?_
    by_cases heq : i = task
    · simp [heq] at hheld
    · simpa [heq] using hheld

/-- Before the close every accepted task with a strong reference is listed once, and a task in
a group that exists is accepted and leaves a short list. -/
theorem list_compacted {s : TaskList} (h : Reachable step start s) :
    (∀ task ∈ s.accepted, s.strong task → s.set.tasks.count task = 1) ∧
    ∀ group task, group < s.set.groups.length →
      ∃ set, s.set.scheduleNew s.strong group task = .ok set ∧ set.tasks.length ≤
        max 64 (max (2 * set.taskCount + 1) (1 + (s.set.tasks.filter s.strong).length)) := by
  have hlisted : Listed s := h.invariant listed_start fun _ _ _ hs _ hst => hs.step hst
  refine ⟨hlisted.once, fun group task hgroup => ?_⟩
  have haccepts : s.set.accepts group = true := by
    rw [SchedulerTaskSet.accepts, hlisted.accepting, hlisted.indexed.groupIndex_eq]
    simpa using hgroup
  obtain ⟨set, hset⟩ : ∃ set, s.set.scheduleNew s.strong group task = .ok set :=
    ⟨_, if_pos haccepts⟩
  refine ⟨set, hset, ?_⟩
  rcases tasks_scheduleNew hset with ⟨htasks, hlength⟩ | htasks <;>
    rw [htasks, length_append, length_singleton] <;> omega

private def churn : List TaskListEvent :=
  .createSchedulingGroup 50 ::
    (List.range 64).flatMap (fun i => [.scheduleNew (i % 2) i, .nextTask]) ++
    (List.range 60).flatMap fun i => [.finishTask, .release i]

private def churned : TaskList := (run step start churn).get (by decide +kernel)

theorem churned_compacted : churned.set.tasks.length = 64 ∧ churned.set.tasks.count 62 = 1 ∧
    ∃ set, churned.set.scheduleNew churned.strong 1 64 = .ok set ∧
      set.tasks = [60, 61, 62, 63, 64] ∧ set.tasks.length ≤ max 64 (max (2 * set.taskCount + 1) 5) := by
  obtain ⟨honce, hshort⟩ := list_compacted (s := churned)
    (reachable_of_run churn (Option.some_get _).symm)
  obtain ⟨set, hset, hlength⟩ := hshort 1 64 (by decide +kernel)
  have htasks : (churned.set.scheduleNew churned.strong 1 64).map (·.tasks) =
      .ok [60, 61, 62, 63, 64] := by decide +kernel
  have hstrong : 1 + (churned.set.tasks.filter churned.strong).length = 5 := by decide +kernel
  rw [hset] at htasks
  rw [hstrong] at hlength
  exact ⟨by decide +kernel, honce 62 (by decide +kernel) (by decide +kernel), set, hset,
    Except.ok.inj htasks, hlength⟩

end TaskList
end Sitas.Executor
