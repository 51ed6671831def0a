import Sitas.Executor.TaskSet

namespace Sitas.Executor
open List Option

namespace SchedulerTaskSet

def virtualRuntimeOf (s : SchedulerTaskSet) (group : Nat) : Nat :=
  (s.groups[group]?).elim 0 SchedulerGroup.virtualRuntime

def Busy (s : SchedulerTaskSet) (group : Nat) : Prop :=
  ∃ g, s.groups[group]? = some g ∧ g.queue ≠ []

instance (s : SchedulerTaskSet) (group : Nat) : Decidable (s.Busy group) :=
  decidable_of_iff ((s.groups[group]?).any fun g => !g.queue.isEmpty) (by
    cases h : s.groups[group]? <;> simp [Busy, h])

def chargeOf (s : SchedulerTaskSet) (group pollDuration : Nat) : Nat :=
  (s.groups[group]?).elim 0 fun g => max pollDuration 1 * defaultSchedulingGroupShares / g.shares

/-- Groups are found by their identifier, and no group has zero shares. -/
structure Indexed (s : SchedulerTaskSet) : Prop where
  id : ∀ (i : Nat) (g : SchedulerGroup), s.groups[i]? = some g → g.id = i
  shares : ∀ (i : Nat) (g : SchedulerGroup), s.groups[i]? = some g → 0 < g.shares

def SameClocks (s t : SchedulerTaskSet) : Prop :=
  ∀ i : Nat, (t.groups[i]?).map (fun g : SchedulerGroup => (g.id, g.shares, g.virtualRuntime)) =
    (s.groups[i]?).map fun g : SchedulerGroup => (g.id, g.shares, g.virtualRuntime)

section Frame
variable {s t : SchedulerTaskSet}

theorem indexed_new : Indexed new := by
  refine ⟨fun i g h => ?_, fun i g h => ?_⟩ <;>
    cases i <;> simp_all [new, defaultSchedulingGroupShares] <;> simp [← h]

theorem sameClocks_of_groups (h : t.groups = s.groups) : SameClocks s t := by
  intro i
  rw [h]

theorem sameClocks_modify (s : SchedulerTaskSet) (i : Nat) (queue : List Nat → List Nat) :
    SameClocks s { s with groups := s.groups.modify i fun g => { g with queue := queue g.queue } } := by
  intro j
  simp only [getElem?_modify]
  cases s.groups[j]? with
  | none => rfl
  | some g => by_cases hij : i = j <;> simp [hij]

theorem SameClocks.virtualRuntimeOf_eq (h : SameClocks s t) :
    t.virtualRuntimeOf = s.virtualRuntimeOf := by
  funext i
  have hi := h i
  cases hs : s.groups[i]? <;> cases ht : t.groups[i]? <;>
    simp_all [virtualRuntimeOf]

theorem SameClocks.indexed (h : SameClocks s t) (hs : Indexed s) : Indexed t := by
  refine ⟨fun i g hg => ?_, fun i g hg => ?_⟩ <;>
  · have hi := h i
    rw [hg] at hi
    obtain ⟨k, hk, hkey⟩ := map_eq_some_iff.mp hi.symm
    have hid := hs.id i k hk
    have hshares := hs.shares i k hk
    simp_all

theorem SameClocks.length_eq (h : SameClocks s t) : t.groups.length = s.groups.length := by
  have hnone : ∀ i : Nat, t.groups[i]? = none ↔ s.groups[i]? = none := by
    intro i
    have hi := h i
    cases hs : s.groups[i]? <;> cases ht : t.groups[i]? <;> simp_all
  have h1 := (hnone t.groups.length).mp (by simp)
  have h2 := (hnone s.groups.length).mpr (by simp)
  rw [getElem?_eq_none_iff] at h1 h2
  omega

variable {group task : Nat} {alive : Nat → Bool}

theorem sameClocks_scheduleExisting (h : s.scheduleExisting group task = .ok t) :
    SameClocks s t := by
  rw [scheduleExisting] at h
  split at h <;> cases h
  exact sameClocks_modify s group (· ++ [task])

theorem sameClocks_scheduleNew (h : s.scheduleNew alive group task = .ok t) : SameClocks s t := by
  obtain ⟨_, _, rfl⟩ := scheduleNew_cases h
  exact sameClocks_modify s group (· ++ [task])

theorem sameClocks_close (s : SchedulerTaskSet) : SameClocks s s.close.2 := by
  intro i
  simp only [close, getElem?_map, Option.map_map]
  rfl

theorem sameClocks_nextTask (h : s.nextTask = some (task, t)) : SameClocks s t := by
  obtain ⟨g, _, _, rfl⟩ := nextTask_cases h
  exact sameClocks_modify s g.id tail

theorem Indexed.groupIndex_eq (h : Indexed s) (group : Nat) :
    s.groupIndex group = (s.groups[group]?).map fun _ => group := by
  rw [groupIndex]
  cases hg : s.groups[group]? with
  | none => rfl
  | some g => simp [h.id group g hg]

theorem Indexed.recordTaskPoll_eq (h : Indexed s) (group pollDuration : Nat) :
    (s.recordTaskPoll group pollDuration).groups = s.groups.modify group fun g => { g with
      totalPollTime := g.totalPollTime + pollDuration
      totalPolls := g.totalPolls + 1
      virtualRuntime := g.virtualRuntime +
        max pollDuration 1 * defaultSchedulingGroupShares / g.shares } := by
  rw [recordTaskPoll, h.groupIndex_eq]
  cases hg : s.groups[group]? with
  | none =>
    rw [modify_eq_self (getElem?_eq_none_iff.mp hg)]
    rfl
  | some g => rfl

theorem Indexed.recordTaskPoll (h : Indexed s) (group pollDuration : Nat) :
    Indexed (s.recordTaskPoll group pollDuration) := by
  refine ⟨fun i g hg => ?_, fun i g hg => ?_⟩ <;>
  · rw [h.recordTaskPoll_eq, getElem?_modify] at hg
    obtain ⟨k, hk, rfl⟩ := map_eq_some_iff.mp hg
    have hid := h.id i k hk
    have hshares := h.shares i k hk
    split <;> assumption

theorem Indexed.virtualRuntimeOf_recordTaskPoll (h : Indexed s) (group pollDuration : Nat) :
    (s.recordTaskPoll group pollDuration).virtualRuntimeOf =
      Function.update s.virtualRuntimeOf group
        (s.virtualRuntimeOf group + s.chargeOf group pollDuration) := by
  funext i
  rw [virtualRuntimeOf, h.recordTaskPoll_eq, getElem?_modify]
  by_cases hi : i = group
  · subst hi
    rw [Function.update_self, virtualRuntimeOf, chargeOf]
    cases s.groups[i]? <;> simp
  · rw [Function.update_of_ne hi, virtualRuntimeOf]
    cases s.groups[i]? <;> simp [Ne.symm hi]

theorem createSchedulingGroup_groups (s : SchedulerTaskSet) (shares i : Nat) :
    (s.createSchedulingGroup shares).2.groups[i]? =
      if i = s.groups.length then
        some ⟨s.groups.length, shares, s.minimumVirtualRuntime, 0, 0, []⟩ else s.groups[i]? := by
  rw [createSchedulingGroup]
  dsimp only
  split
  next hi =>
    rw [hi, getElem?_concat_length]
  next hi =>
    rcases Nat.lt_or_gt_of_ne hi with hlt | hgt
    · rw [getElem?_append_left hlt]
    · rw [getElem?_eq_none (by simp only [length_append, length_singleton]; omega),
        getElem?_eq_none (by omega)]

theorem Indexed.createSchedulingGroup (h : Indexed s) {shares : Nat} (hshares : shares ≠ 0) :
    Indexed (s.createSchedulingGroup shares).2 := by
  refine ⟨fun i g hg => ?_, fun i g hg => ?_⟩ <;>
    rw [createSchedulingGroup_groups] at hg <;> split at hg
  next hi =>
    cases hg
    exact hi.symm
  · exact h.id i g hg
  · cases hg
    exact Nat.pos_of_ne_zero hshares
  · exact h.shares i g hg

theorem virtualRuntimeOf_createSchedulingGroup (s : SchedulerTaskSet) (shares : Nat) :
    (s.createSchedulingGroup shares).2.virtualRuntimeOf =
      Function.update s.virtualRuntimeOf s.groups.length s.minimumVirtualRuntime := by
  funext i
  rw [virtualRuntimeOf, createSchedulingGroup_groups]
  by_cases hi : i = s.groups.length
  · subst hi
    simp
  · rw [if_neg hi, Function.update_of_ne hi, virtualRuntimeOf]

/-- A task is taken from a group with work and the least virtual runtime. -/
theorem Indexed.nextTask_spec (h : Indexed s) (hnext : s.nextTask = some (task, t)) :
    ∃ g, nextGroup s.groups = some g ∧ s.Busy g.id ∧
      ∀ j, s.Busy j → s.virtualRuntimeOf g.id ≤ s.virtualRuntimeOf j := by
  rw [nextTask] at hnext
  split at hnext
  · cases hnext
  next g hg =>
    have hleast := (nextGroup_spec s.groups).2 g hg
    obtain ⟨i, hi⟩ := mem_iff_getElem?.mp hleast.mem
    cases h.id i g hi
    refine ⟨g, hg, ⟨g, hi, hleast.busy⟩, ?_⟩
    rintro j ⟨k, hk, hbusy⟩
    have hle := hleast.le k (mem_iff_getElem?.mpr ⟨j, hk⟩) hbusy
    simpa [virtualRuntimeOf, hi, hk] using hle

theorem nextTask_of_busy (h : s.Busy group) : s.nextTask ≠ none := by
  obtain ⟨k, hk, hbusy⟩ := h
  intro hnone
  rw [nextTask] at hnone
  split at hnone
  next hg =>
    exact hbusy ((nextGroup_spec s.groups).1 hg k (mem_iff_getElem?.mpr ⟨group, hk⟩))
  next g hg =>
    have hempty := head?_eq_none_iff.mp (map_eq_none_iff.mp hnone)
    exact ((nextGroup_spec s.groups).2 g hg).busy hempty

private theorem count_flatMap_modify {groups : List SchedulerGroup} {i : Nat} {g : SchedulerGroup}
    (h : groups[i]? = some g) (f : SchedulerGroup → SchedulerGroup) (id : Nat) :
    ((groups.modify i f).flatMap SchedulerGroup.queue).count id + g.queue.count id =
      (groups.flatMap SchedulerGroup.queue).count id + (f g).queue.count id := by
  induction groups generalizing i with
  | nil => cases h
  | cons k groups ih =>
    cases i with
    | zero =>
      cases h
      simp only [modify_zero_cons, flatMap_cons, count_append]
      omega
    | succ i =>
      have hi := ih (i := i) h
      simp only [modify_succ_cons, flatMap_cons, count_append]
      omega

structure Pushed (s t : SchedulerTaskSet) (task : Nat) : Prop where
  accepting : t.accepting = s.accepting
  spawnerCount : t.spawnerCount = s.spawnerCount
  nextTaskId : t.nextTaskId = s.nextTaskId
  clocks : SameClocks s t
  count : ∀ id, t.queued.count id = s.queued.count id + if task = id then 1 else 0

private theorem count_push (h : s.accepts group = true) (id : Nat) :
    (s.push group task).queued.count id = s.queued.count id + if task = id then 1 else 0 := by
  have hsome : (s.groupIndex group).isSome = true := (Bool.and_eq_true_iff.mp h).2
  obtain ⟨i, hi⟩ := isSome_iff_exists.mp hsome
  obtain ⟨g, hg, _⟩ := bind_eq_some_iff.mp hi
  have hcount := count_flatMap_modify hg (fun g => { g with queue := g.queue ++ [task] }) id
  simp only [count_append, count_singleton, beq_iff_eq] at hcount
  simp only [queued, push]
  omega

theorem pushed_scheduleExisting (h : s.scheduleExisting group task = .ok t) :
    Pushed s t task ∧ t.taskCount = s.taskCount := by
  have hclocks := sameClocks_scheduleExisting h
  rw [scheduleExisting] at h
  split at h <;> cases h
  rename_i haccepts
  exact ⟨⟨rfl, rfl, rfl, hclocks, count_push haccepts⟩, rfl⟩

theorem pushed_scheduleNew (h : s.scheduleNew alive group task = .ok t) :
    Pushed s t task ∧ t.taskCount = s.taskCount + 1 ∧ s.accepts group = true := by
  have hclocks := sameClocks_scheduleNew h
  obtain ⟨haccepts, _, rfl⟩ := scheduleNew_cases h
  exact ⟨⟨rfl, rfl, rfl, hclocks, count_push haccepts⟩, rfl, haccepts⟩

theorem scheduleExisting_of_accepts (h : s.accepts group = true) :
    s.scheduleExisting group task = .ok (s.push group task) := by
  rw [scheduleExisting, if_pos h]

structure Taken (s t : SchedulerTaskSet) (task : Nat) : Prop where
  accepting : t.accepting = s.accepting
  spawnerCount : t.spawnerCount = s.spawnerCount
  taskCount : t.taskCount = s.taskCount
  nextTaskId : t.nextTaskId = s.nextTaskId
  clocks : SameClocks s t
  count : ∀ id, t.queued.count id + (if task = id then 1 else 0) = s.queued.count id

theorem Indexed.taken_nextTask (h : Indexed s) (hnext : s.nextTask = some (task, t)) :
    Taken s t task := by
  have hclocks := sameClocks_nextTask hnext
  obtain ⟨g, hg, hhead, rfl⟩ := nextTask_cases hnext
  refine ⟨rfl, rfl, rfl, rfl, hclocks, fun id => ?_⟩
  obtain ⟨i, hi⟩ := mem_iff_getElem?.mp ((nextGroup_spec s.groups).2 g hg).mem
  cases h.id i g hi
  have hcount := count_flatMap_modify hi (fun g => { g with queue := g.queue.tail }) id
  obtain ⟨rest, hqueue⟩ := head?_eq_some_iff.mp hhead
  simp only [hqueue, tail_cons, count_cons, beq_iff_eq] at hcount
  simp only [queued]
  omega

section
variable (s : SchedulerTaskSet)

theorem queued_createSchedulingGroup (shares : Nat) :
    (s.createSchedulingGroup shares).2.queued = s.queued := by
  simp [createSchedulingGroup, queued]

@[simp] theorem queued_finishTask : s.finishTask.queued = s.queued := rfl

@[simp] theorem queued_addSpawner : s.addSpawner.queued = s.queued := rfl

@[simp] theorem queued_removeSpawner : s.removeSpawner.queued = s.queued := rfl

theorem queued_close : s.close.2.queued = [] := by
  simp [close, queued]

end

theorem Indexed.count_recordTaskPoll (h : Indexed s) (group pollDuration id : Nat) :
    (s.recordTaskPoll group pollDuration).queued.count id = s.queued.count id := by
  rw [queued, h.recordTaskPoll_eq]
  cases hg : s.groups[group]? with
  | none => rw [modify_eq_self (getElem?_eq_none_iff.mp hg), queued]
  | some g =>
    exact Nat.add_right_cancel (count_flatMap_modify hg _ id)

theorem readyQueueLen_eq (s : SchedulerTaskSet) : s.readyQueueLen = s.queued.length := by
  have hfold : ∀ (groups : List SchedulerGroup) (n : Nat),
      groups.foldl (fun n g => n + g.queue.length) n =
        n + (groups.flatMap SchedulerGroup.queue).length := by
    intro groups
    induction groups with
    | nil => simp
    | cons g groups ih =>
      intro n
      simp only [foldl_cons, ih, flatMap_cons, length_append]
      omega
  rw [readyQueueLen, hfold, queued, Nat.zero_add]

def queueOf (s : SchedulerTaskSet) (group : Nat) : List Nat :=
  (s.groups[group]?).elim [] SchedulerGroup.queue

theorem busy_iff : s.Busy group ↔ s.queueOf group ≠ [] := by
  rw [Busy, queueOf]
  cases s.groups[group]? <;> simp

theorem Busy.lt_length (h : s.Busy group) : group < s.groups.length := by
  obtain ⟨g, hg, _⟩ := h
  exact (List.getElem?_eq_some_iff.mp hg).1

theorem mem_queued {id : Nat} : id ∈ s.queued ↔ ∃ group, id ∈ s.queueOf group := by
  rw [queued, mem_flatMap]
  constructor
  · rintro ⟨g, hg, hid⟩
    obtain ⟨i, hi⟩ := mem_iff_getElem?.mp hg
    exact ⟨i, by rwa [queueOf, hi]⟩
  · rintro ⟨i, hid⟩
    rw [queueOf] at hid
    cases hi : s.groups[i]? with
    | none => rw [hi] at hid; cases hid
    | some g => exact ⟨g, mem_iff_getElem?.mpr ⟨i, hi⟩, by rwa [hi] at hid⟩

theorem hasReadyTasks_of_mem {id : Nat} (h : id ∈ s.queueOf group) : s.hasReadyTasks = true := by
  have hmem := mem_queued.mpr ⟨group, h⟩
  rw [hasReadyTasks, readyQueueLen_eq]
  exact decide_eq_true (length_pos_of_mem hmem)

theorem queueOf_of_groups (h : t.groups = s.groups) (group : Nat) :
    t.queueOf group = s.queueOf group := by
  rw [queueOf, queueOf, h]

theorem lt_of_accepts (h : s.accepts group = true) : group < s.groups.length := by
  obtain ⟨_, hk⟩ := isSome_iff_exists.mp (Bool.and_eq_true_iff.mp h).2
  obtain ⟨g, hg, _⟩ := bind_eq_some_iff.mp hk
  exact (List.getElem?_eq_some_iff.mp hg).1

private theorem queueOf_push (h : s.accepts group = true) (i : Nat) :
    (s.push group task).queueOf i = if i = group then s.queueOf i ++ [task] else s.queueOf i := by
  rw [queueOf, queueOf, push, getElem?_modify]
  by_cases hi : i = group
  · subst hi
    simp [getElem?_eq_getElem (lt_of_accepts h)]
  · rw [if_neg hi]
    cases s.groups[i]? <;> simp [Ne.symm hi]

theorem queueOf_scheduleExisting (h : s.scheduleExisting group task = .ok t) (i : Nat) :
    t.queueOf i = if i = group then s.queueOf i ++ [task] else s.queueOf i := by
  rw [scheduleExisting] at h
  split at h <;> cases h
  rename_i haccepts
  exact queueOf_push haccepts i

theorem queueOf_scheduleNew (h : s.scheduleNew alive group task = .ok t) (i : Nat) :
    t.queueOf i = if i = group then s.queueOf i ++ [task] else s.queueOf i := by
  obtain ⟨haccepts, _, rfl⟩ := scheduleNew_cases h
  exact queueOf_push haccepts i

theorem Indexed.queueOf_nextTask (h : Indexed s) (hnext : s.nextTask = some (task, t)) :
    ∃ g, nextGroup s.groups = some g ∧ s.queueOf g.id = task :: t.queueOf g.id ∧
      ∀ i, i ≠ g.id → t.queueOf i = s.queueOf i := by
  obtain ⟨g, hg, hhead, rfl⟩ := nextTask_cases hnext
  obtain ⟨i, hi⟩ := mem_iff_getElem?.mp ((nextGroup_spec s.groups).2 g hg).mem
  cases h.id i g hi
  obtain ⟨rest, hqueue⟩ := head?_eq_some_iff.mp hhead
  refine ⟨g, hg, ?_, fun j hj => ?_⟩
  · simp [queueOf, hi, hqueue]
  · rw [queueOf, queueOf, getElem?_modify]
    cases s.groups[j]? <;> simp [Ne.symm hj]

theorem Indexed.queueOf_recordTaskPoll (h : Indexed s) (group pollDuration i : Nat) :
    (s.recordTaskPoll group pollDuration).queueOf i = s.queueOf i := by
  rw [queueOf, h.recordTaskPoll_eq, getElem?_modify, queueOf]
  cases s.groups[i]? with
  | none => rfl
  | some g => by_cases hi : group = i <;> simp [hi]

theorem queueOf_createSchedulingGroup (s : SchedulerTaskSet) (shares i : Nat) :
    (s.createSchedulingGroup shares).2.queueOf i = s.queueOf i := by
  rw [queueOf, createSchedulingGroup_groups, queueOf]
  split
  next hi =>
    rw [getElem?_eq_none (Nat.le_of_eq hi.symm)]
    rfl
  · rfl

end Frame
end SchedulerTaskSet
end Sitas.Executor
