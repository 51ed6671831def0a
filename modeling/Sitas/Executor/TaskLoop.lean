import Sitas.Executor.TaskSections

namespace Sitas.Executor.Interleaving
open Sitas.Lib List Function SchedulerTaskSet Shared TaskState Access

variable {F : Type} {s : Shared F} {focus : Focus} {work : List (Access F)} {a : Access F} {id : Nat}

section Loop
variable {cell : TaskCell F} {now : Nat}

theorem Open.cons (h : Open s focus work) (hs : a.subject = none) (hr : a.removes = false)
    (hd : a.drops = false) : Open s focus (a :: work) := by
  refine ⟨h.tasks.same rfl (fun id => marks_cons_of_ne (by rw [hs]; nofun)) rfl le_rfl,
    { h.counts with spawners := ?_, drops := ?_ }⟩
  · rw [countP_cons_of_neg (by rw [hr]; exact Bool.false_ne_true)]
    exact h.counts.spawners
  · rw [countP_cons_of_neg (by rw [hd]; exact Bool.false_ne_true)]
    exact h.counts.drops

theorem Open.refer (h : Open s focus work) (ha : id ∈ s.accepted)
    (hs : a = .markExisting id ∨ a = .cancel id) : Open s focus (a :: work) := by
  have hne : marks s focus work id ≠ .zero := by
    intro hzero
    have hcount : s.accepted.count id = 0 := congrArg Marks.accepted hzero
    exact count_eq_zero.mp hcount ha
  obtain ⟨cell, hcell⟩ := h.tasks.exists_cell hne
  have htask := h.tasks.tracked hcell
  have haccepted : s.accepted.count id = 1 := by
    have hle : work.countP (enters id) + s.accepted.count id ≤ 1 := htask.entering
    have hpos := count_pos_iff.mpr ha
    omega
  refine ⟨h.tasks.touch hcell ?_ (fun ha => h.tasks.group id cell hcell ha) (fun i hne => ⟨rfl, ?_⟩)
    (h.tasks.lt_nextTaskId hcell) le_rfl rfl, { h.counts with spawners := ?_, drops := ?_ }⟩
  · rcases hs with rfl | rfl <;> simpa [marks] using htask.refer haccepted
  · refine marks_cons_of_ne ?_
    rcases hs with rfl | rfl <;> simpa using hne
  · rcases hs with rfl | rfl <;> exact h.counts.spawners
  · rcases hs with rfl | rfl <;> exact h.counts.drops

theorem Open.pop (h : Open s .nothing work) {tasks : SchedulerTaskSet}
    (hnext : s.tasks.nextTask = some (id, tasks)) :
    Open { s with tasks := tasks } (.popped id) work := by
  have htaken := h.counts.indexed.taken_nextTask hnext
  have hcount := htaken.count id
  rw [if_pos rfl] at hcount
  have hqueue : 0 < s.tasks.queued.count id := by omega
  have hne : marks s .nothing work id ≠ .zero := fun hzero =>
    Nat.ne_of_gt hqueue (congrArg Marks.queue hzero)
  obtain ⟨cell, hcell⟩ := h.tasks.exists_cell hne
  have htask := h.tasks.tracked hcell
  refine ⟨h.tasks.queued hcell rfl htaken.clocks htaken.nextTaskId ?_ (h.tasks.group id cell hcell)
    fun i hne => ?_, { h.counts with
      accepting := htaken.accepting.trans h.counts.accepting
      indexed := htaken.clocks.indexed h.counts.indexed
      taskCount := by rw [htaken.taskCount]; exact h.counts.taskCount
      spawners := htaken.spawnerCount.trans h.counts.spawners }⟩
  · have hpop := htask.pop hqueue
    have heq : tasks.queued.count id = s.tasks.queued.count id - 1 := by omega
    simpa [marks, heq] using hpop
  · have hother := htaken.count i
    rw [if_neg hne, Nat.add_zero] at hother
    simp [marks, hother, hne]

theorem Open.exists_popped (h : Open s (.popped id) work) : ∃ cell, s.cells id = some cell :=
  h.tasks.exists_cell fun hzero => by simpa [marks, Marks.zero] using congrArg Marks.popped hzero

theorem CountsOk.setState (h : CountsOk s work) (id : Nat) (cell : TaskCell F)
    (state : TaskState F Unit) (woken : Nat → Bool) :
    CountsOk { s.setState id cell state with woken := woken } work :=
  ⟨h.accepting, h.indexed, h.taskCount, h.spawned, h.completed, h.spawners, h.drops⟩

theorem Open.take (h : Open s (.popped id) work) (hcell : s.cells id = some cell) {future : F}
    (hf : (cell.state.takeFutureForPoll now).1 = some future) :
    Open { s.setState id cell (cell.state.takeFutureForPoll now).2 with
      woken := update s.woken id false } (.polled id) work := by
  have htask := h.tasks.tracked hcell
  refine ⟨h.tasks.setState hcell _ _ ?_ fun i hne => ?_, h.counts.setState ..⟩
  · simpa [marks] using (htask.take (by simp [marks]) hf).2
  · simp [marks, hne, update_of_ne hne.symm]

theorem Open.discard (h : Open s (.popped id) work) (hcell : s.cells id = some cell)
    (hf : (cell.state.takeFutureForPoll now).1 = none) :
    Open (s.setState id cell (cell.state.takeFutureForPoll now).2) .nothing work := by
  have htask := h.tasks.tracked hcell
  refine ⟨h.tasks.setState hcell _ s.woken ?_ fun i hne => ?_, h.counts.setState id cell _ s.woken⟩
  · simpa [marks] using htask.discard (by simp [marks]) (by simp [marks]) hf
  · simp [marks, hne]

theorem Open.polling (h : Open s (.polled id) work) (hcell : s.cells id = some cell) :
    cell.state.Lifecycle ∧ cell.state.polling = true := by
  have htask := h.tasks.tracked hcell
  exact ⟨htask.lifecycle, htask.polling.trans (decide_eq_true rfl)⟩

theorem Open.ended (h : Open s (.polled id) work) (hcell : s.cells id = some cell)
    {next : TaskState F Unit} (hl : next.Lifecycle) (hc : next.completed = true)
    (hq : next.queued = true → cell.state.queued = true) :
    Open (s.setState id cell next) .nothing (.finishTask id :: work) := by
  have htask := h.tasks.tracked hcell
  have hpolled := (h.polling hcell).2
  have haccepted : s.accepted.count id = 1 := htask.known (by simp [marks])
  have hcounts := h.counts.setState id cell next s.woken
  refine ⟨h.tasks.setState hcell _ s.woken ?_ fun i hne => ?_,
    { hcounts with spawners := hcounts.spawners, drops := hcounts.drops }⟩
  · simpa [marks] using htask.ended (htask.lifecycle.not_completed (.inr hpolled)) haccepted hl hc hq
      (work.countP (refers id) + 1)
  · simp [marks, hne]

theorem Open.pending (h : Open s (.polled id) work) (hcell : s.cells id = some cell)
    (hr : cell.state.cancelRequested = false) (future : F) (d now : Nat) :
    Open (s.setState id cell (cell.state.finishPending future d now).2) .nothing work := by
  have htask := h.tasks.tracked hcell
  refine ⟨h.tasks.setState hcell _ s.woken ?_ fun i hne => ?_, h.counts.setState id cell _ s.woken⟩
  · simpa [marks] using htask.pending (by simp [marks]) hr future d now
  · simp [marks, hne]

theorem Open.recordTaskPoll (h : Open s focus work) (group pollDuration : Nat) :
    Open { s with tasks := s.tasks.recordTaskPoll group pollDuration } focus work := by
  have hindexed := h.counts.indexed
  have hgroups := hindexed.recordTaskPoll_eq group pollDuration
  obtain ⟨groups, heq⟩ : ∃ groups, s.tasks.recordTaskPoll group pollDuration =
      { s.tasks with groups := groups } := by
    rw [SchedulerTaskSet.recordTaskPoll]
    split
    · exact ⟨s.tasks.groups, rfl⟩
    · exact ⟨_, rfl⟩
  refine ⟨h.tasks.same rfl (fun id => ?_) (by rw [heq]) (by simp [hgroups]), ?_⟩
  · simp [marks, hindexed.count_recordTaskPoll]
  · have hrecorded := hindexed.recordTaskPoll group pollDuration
    rw [heq] at hrecorded ⊢
    exact { h.counts with indexed := hrecorded }

end Loop

section Close
variable {now : Nat} {alive : Nat → Bool}

theorem Shared.onTask_tasks (s : Shared F) (id : Nat)
    (access : TaskCell F → TaskState F Unit × List (Access F)) :
    (s.onTask id access).1.tasks = s.tasks := by
  rw [onTask]
  split <;> rfl

theorem Shared.begins_of_mem_perform {b : Access F} (h : b ∈ (s.perform now alive a).2) :
    b.begins = false := by
  cases a <;> simp only [perform, onTask] at h <;> grind [begins]

theorem Shared.close_notMem_perform : Access.close ∉ (s.perform now alive a).2 :=
  fun h => Bool.noConfusion (begins_of_mem_perform h)

theorem Shared.perform_closed (h : s.tasks.accepting = false) (hq : s.tasks.queued = []) :
    (s.perform now alive a).1.tasks.accepting = false ∧
      (s.perform now alive a).1.tasks.queued = [] := by
  have hrejects : ∀ group, s.tasks.accepts group = false := by
    intro group
    rw [accepts, h]
    rfl
  cases a with
  | markNew id | markExisting id | cancel id | dropFuture id =>
    rw [perform, onTask_tasks]
    exact ⟨h, hq⟩
  | scheduleNew id =>
    simp only [perform, SchedulerTaskSet.scheduleNew, hrejects]
    split <;> exact ⟨h, hq⟩
  | scheduleExisting id =>
    simp only [perform, SchedulerTaskSet.scheduleExisting, hrejects]
    split <;> exact ⟨h, hq⟩
  | createSchedulingGroup shares =>
    simp only [perform]
    split
    · exact ⟨h, hq⟩
    · exact ⟨h, (SchedulerTaskSet.queued_createSchedulingGroup ..).trans hq⟩
  | close => exact ⟨rfl, SchedulerTaskSet.queued_close s.tasks⟩
  | allocateTask future panicHandler group | finishTask id | addSpawner | removeSpawner
  | requestStop | markReady root | wakeReactor => exact ⟨h, hq⟩

end Close

end Sitas.Executor.Interleaving
