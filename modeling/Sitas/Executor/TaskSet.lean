import Mathlib.Data.List.Basic
import Mathlib.Data.List.Induction

/-! The ready queues of the scheduling groups and the weak list of all tasks. Tasks
are named by their identifier: a queue entry is a strong reference. -/
namespace Sitas.Executor
open List

inductive SpawnError where
  | closed
  | schedulingGroupExecutorMismatch
  | backpressure
  deriving DecidableEq, Repr

def defaultSchedulingGroupShares : Nat := 100

def taskSetCompactionMin : Nat := 64

structure SchedulerGroup where
  id : Nat
  shares : Nat
  virtualRuntime : Nat
  totalPolls : Nat
  totalPollTime : Nat
  queue : List Nat
  deriving DecidableEq, Repr

structure SchedulerTaskSet where
  groups : List SchedulerGroup
  tasks : List Nat
  accepting : Bool
  spawnerCount : Nat
  taskCount : Nat
  nextTaskId : Nat
  deriving DecidableEq, Repr

namespace SchedulerTaskSet

def new : SchedulerTaskSet where
  groups := [⟨0, defaultSchedulingGroupShares, 0, 0, 0, []⟩]
  tasks := []
  accepting := true
  spawnerCount := 1
  taskCount := 0
  nextTaskId := 0

def minimumVirtualRuntime (s : SchedulerTaskSet) : Nat :=
  ((s.groups.map SchedulerGroup.virtualRuntime).min?).getD 0

def createSchedulingGroup (s : SchedulerTaskSet) (shares : Nat) : Nat × SchedulerTaskSet :=
  let id := s.groups.length
  (id, { s with groups := s.groups ++ [⟨id, shares, s.minimumVirtualRuntime, 0, 0, []⟩] })

def addSpawner (s : SchedulerTaskSet) : SchedulerTaskSet :=
  { s with spawnerCount := s.spawnerCount + 1 }

def removeSpawner (s : SchedulerTaskSet) : SchedulerTaskSet :=
  { s with spawnerCount := s.spawnerCount - 1 }

def groupIndex (s : SchedulerTaskSet) (id : Nat) : Option Nat :=
  (s.groups[id]?).bind fun g => if g.id = id then some id else none

def push (s : SchedulerTaskSet) (group task : Nat) : SchedulerTaskSet :=
  { s with groups := s.groups.modify group fun g => { g with queue := g.queue ++ [task] } }

/-- Whether a task of the group is taken in. A rejected one is marked as not queued. -/
def accepts (s : SchedulerTaskSet) (group : Nat) : Bool :=
  s.accepting && (s.groupIndex group).isSome

/-- The list of all tasks forgets those without a strong reference when it is long. -/
def maybeCompactTasks (s : SchedulerTaskSet) (alive : Nat → Bool) : SchedulerTaskSet :=
  if s.tasks.length ≥ taskSetCompactionMin && s.tasks.length > s.taskCount * 2 then
    { s with tasks := s.tasks.filter alive }
  else s

def scheduleNew (s : SchedulerTaskSet) (alive : Nat → Bool) (group task : Nat) :
    Except SpawnError SchedulerTaskSet :=
  if s.accepts group then
    let s := { s with taskCount := s.taskCount + 1 }.maybeCompactTasks alive
    .ok ({ s with tasks := s.tasks ++ [task] }.push group task)
  else .error .closed

def scheduleExisting (s : SchedulerTaskSet) (group task : Nat) :
    Except SpawnError SchedulerTaskSet :=
  if s.accepts group then .ok (s.push group task) else .error .closed

def before (a b : SchedulerGroup) : Bool :=
  a.virtualRuntime < b.virtualRuntime ||
    (a.virtualRuntime == b.virtualRuntime && a.id < b.id)

def nextGroup (groups : List SchedulerGroup) : Option SchedulerGroup :=
  groups.foldl (fun best g =>
    if g.queue.isEmpty then best
    else match best with
      | none => some g
      | some b => if before g b then some g else best) none

def nextTask (s : SchedulerTaskSet) : Option (Nat × SchedulerTaskSet) :=
  match nextGroup s.groups with
  | none => none
  | some g =>
    g.queue.head?.map fun task =>
      (task, { s with groups := s.groups.modify g.id fun g => { g with queue := g.queue.tail } })

def recordTaskPoll (s : SchedulerTaskSet) (group pollDuration : Nat) : SchedulerTaskSet :=
  match s.groupIndex group with
  | none => s
  | some i =>
    { s with groups := s.groups.modify i fun g => { g with
        totalPollTime := g.totalPollTime + pollDuration
        totalPolls := g.totalPolls + 1
        virtualRuntime := g.virtualRuntime +
          max pollDuration 1 * defaultSchedulingGroupShares / g.shares } }

def readyQueueLen (s : SchedulerTaskSet) : Nat :=
  s.groups.foldl (fun n g => n + g.queue.length) 0

def isDrained (s : SchedulerTaskSet) : Bool :=
  s.readyQueueLen == 0 && s.spawnerCount == 0 && s.taskCount == 0

def hasReadyTasks (s : SchedulerTaskSet) : Bool := s.readyQueueLen > 0

def finishTask (s : SchedulerTaskSet) : SchedulerTaskSet :=
  { s with taskCount := s.taskCount - 1 }

/-- All queued references, in the order in which closing drops them. -/
def queued (s : SchedulerTaskSet) : List Nat := s.groups.flatMap SchedulerGroup.queue

/-- Clearing the queues. The weak list is emptied as well and handed to the caller. -/
def close (s : SchedulerTaskSet) : List Nat × SchedulerTaskSet :=
  (s.tasks, { s with
    accepting := false
    taskCount := 0
    groups := s.groups.map fun g => { g with queue := [] }
    tasks := [] })

theorem le_of_before {a b : SchedulerGroup} (h : before a b = true) :
    a.virtualRuntime ≤ b.virtualRuntime := by
  simp only [before, Bool.or_eq_true, Bool.and_eq_true, decide_eq_true_eq, beq_iff_eq] at h
  omega

theorem le_of_not_before {a b : SchedulerGroup} (h : ¬ before a b = true) :
    b.virtualRuntime ≤ a.virtualRuntime := by
  simp only [before, Bool.or_eq_true, Bool.and_eq_true, decide_eq_true_eq, beq_iff_eq] at h
  omega

/-- A group with work and no more virtual runtime than any other group with work. -/
structure Least (groups : List SchedulerGroup) (g : SchedulerGroup) : Prop where
  mem : g ∈ groups
  busy : g.queue ≠ []
  le : ∀ h ∈ groups, h.queue ≠ [] → g.virtualRuntime ≤ h.virtualRuntime

private theorem least_append {groups : List SchedulerGroup} {g b : SchedulerGroup}
    (h : Least groups b) (hg : g.queue ≠ [] → b.virtualRuntime ≤ g.virtualRuntime) :
    Least (groups ++ [g]) b := by
  refine ⟨mem_append_left _ h.mem, h.busy, fun k hk hbusy => ?_⟩
  rcases mem_append.mp hk with hk | hk
  · exact h.le k hk hbusy
  · cases mem_singleton.mp hk
    exact hg hbusy

private theorem least_last {groups : List SchedulerGroup} {g : SchedulerGroup}
    (hbusy : g.queue ≠ [])
    (hle : ∀ h ∈ groups, h.queue ≠ [] → g.virtualRuntime ≤ h.virtualRuntime) :
    Least (groups ++ [g]) g := by
  refine ⟨mem_append_right _ (mem_singleton.mpr rfl), hbusy, fun k hk hb => ?_⟩
  rcases mem_append.mp hk with hk | hk
  · exact hle k hk hb
  · cases mem_singleton.mp hk
    exact Nat.le_refl _

theorem nextGroup_spec (groups : List SchedulerGroup) :
    (nextGroup groups = none → ∀ h ∈ groups, h.queue = []) ∧
      ∀ g, nextGroup groups = some g → Least groups g := by
  induction groups using reverseRecOn with
  | nil => exact ⟨nofun, nofun⟩
  | append_singleton groups g ih =>
    obtain ⟨hnone, hsome⟩ := ih
    have heq : nextGroup (groups ++ [g]) = if g.queue.isEmpty then nextGroup groups
        else match nextGroup groups with
          | none => some g
          | some b => if before g b then some g else nextGroup groups := by
      simp only [nextGroup, foldl_append, foldl_cons, foldl_nil]
    rw [heq]
    by_cases hempty : g.queue = []
    · rw [if_pos (isEmpty_iff.mpr hempty)]
      refine ⟨fun hn h hh => ?_, fun b hb => least_append (hsome b hb) (absurd hempty)⟩
      rcases mem_append.mp hh with hh | hh
      · exact hnone hn h hh
      · cases mem_singleton.mp hh
        exact hempty
    · rw [if_neg (mt List.isEmpty_iff.mp hempty)]
      cases hb : nextGroup groups with
      | none =>
        refine ⟨nofun, fun k hk => ?_⟩
        cases hk
        exact least_last hempty fun h hh hbusy => absurd (hnone hb h hh) hbusy
      | some b =>
        have hleast := hsome b hb
        by_cases hbefore : before g b = true
        · simp only [if_pos hbefore]
          refine ⟨nofun, fun k hk => ?_⟩
          cases hk
          exact least_last hempty fun h hh hbusy =>
            Nat.le_trans (le_of_before hbefore) (hleast.le h hh hbusy)
        · simp only [if_neg hbefore]
          refine ⟨nofun, fun k hk => ?_⟩
          cases hk
          exact least_append hleast fun _ => le_of_not_before hbefore

variable {s t : SchedulerTaskSet} {task : Nat}

theorem scheduleNew_cases {alive : Nat → Bool} {group : Nat}
    (h : s.scheduleNew alive group task = .ok t) : s.accepts group = true ∧ ∃ tasks,
      t = { s with taskCount := s.taskCount + 1, tasks := tasks }.push group task := by
  rw [scheduleNew] at h
  split at h <;> cases h
  next haccepts =>
    rw [maybeCompactTasks]
    split <;> exact ⟨haccepts, _, rfl⟩

theorem nextTask_cases (h : s.nextTask = some (task, t)) :
    ∃ g, nextGroup s.groups = some g ∧ g.queue.head? = some task ∧
      t = { s with groups := s.groups.modify g.id fun g => { g with queue := g.queue.tail } } := by
  rw [nextTask] at h
  split at h
  · cases h
  next g hg =>
    obtain ⟨_, hhead, heq⟩ := Option.map_eq_some_iff.mp h
    cases heq
    exact ⟨g, hg, hhead, rfl⟩

theorem scheduleNew_nextTaskId {alive : Nat → Bool} {group : Nat}
    (h : s.scheduleNew alive group task = .ok t) : t.nextTaskId = s.nextTaskId := by
  obtain ⟨_, _, rfl⟩ := scheduleNew_cases h
  rfl

theorem recordTaskPoll_nextTaskId (s : SchedulerTaskSet) (group pollDuration : Nat) :
    (s.recordTaskPoll group pollDuration).nextTaskId = s.nextTaskId := by
  rw [recordTaskPoll]
  split <;> rfl

theorem nextTask_nextTaskId (h : s.nextTask = some (task, t)) : t.nextTaskId = s.nextTaskId := by
  obtain ⟨_, _, _, rfl⟩ := nextTask_cases h
  rfl

end SchedulerTaskSet
end Sitas.Executor
