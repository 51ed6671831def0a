import Mathlib.Data.List.Perm.Subperm
import Sitas.Executor.TaskInvariant

namespace Sitas.Executor.Interleaving
open Sitas.Lib List Function SchedulerTaskSet Shared TaskState Access

variable {F : Type} {s : Shared F} {focus : Focus} {work : List (Access F)} {a : Access F} {id : Nat}
  {now : Nat} {alive : Nat → Bool}

private abbrev TasksKept (s : Shared F) (now : Nat) (alive : Nat → Bool) (focus : Focus)
    (work : List (Access F)) (a : Access F) : Prop :=
  TasksOk (s.perform now alive a).1 focus ((s.perform now alive a).2 ++ work)

private theorem TasksOk.exists_cell_of_mem (h : TasksOk s focus (a :: work))
    (ha : a.subject = some id) : ∃ cell, s.cells id = some cell ∧
      Tracked cell.state (marks s focus (a :: work) id) := by
  have hne : marks s focus (a :: work) id ≠ .zero := by
    intro hzero
    have hentering := congrArg Marks.entering hzero
    have hreferring := congrArg Marks.referring hzero
    cases a <;> simp_all [marks, Marks.zero]
  obtain ⟨cell, hcell⟩ := h.exists_cell hne
  exact ⟨cell, hcell, h.tracked hcell⟩

theorem TasksOk.allocateTask {future : F} {panicHandler : Option Unit} {group : Nat}
    (h : TasksOk s focus (.allocateTask future panicHandler group :: work)) :
    TasksKept s now alive focus work (.allocateTask future panicHandler group) := by
  have hzero := h.task s.tasks.nextTaskId
  rw [h.fresh _ le_rfl, TaskOk] at hzero
  have haccepted : s.tasks.nextTaskId ∉ s.accepted :=
    count_eq_zero.mp (congrArg Marks.accepted hzero)
  refine h.touch (update_self s.tasks.nextTaskId _ _) ?_ (fun ha => absurd ha haccepted)
    (fun i hne => ⟨update_of_ne hne.symm .., ?_⟩) (Nat.lt_succ_self _) (Nat.le_succ _) rfl
  · have hmarks : marks (s.perform now alive (.allocateTask future panicHandler group)).1 focus
        ([.markNew s.tasks.nextTaskId] ++ work) s.tasks.nextTaskId =
        { marks s focus (.allocateTask future panicHandler group :: work) s.tasks.nextTaskId with
          entering := (marks s focus (.allocateTask future panicHandler group :: work)
            s.tasks.nextTaskId).entering + 1 } := by
      simp [marks, perform, SchedulerTaskSet.queued]
    rw [hzero] at hmarks
    exact hmarks ▸ tracked_new future panicHandler
  · simp [marks, perform, SchedulerTaskSet.queued, hne]

theorem TasksOk.markNew (h : TasksOk s focus (.markNew id :: work)) :
    TasksKept s now alive focus work (.markNew id) := by
  obtain ⟨cell, hcell, htask⟩ := h.exists_cell_of_mem rfl
  simp only [TasksKept, perform, onTask, hcell]
  refine h.setState hcell _ s.woken ?_ fun i hne => ?_
  · cases hmark : (cell.state.markQueued now).1 with
    | true => simpa [marks] using htask.mark (s.woken id) hmark htask.accepted_of_woken
    | false =>
      rw [(markQueued_of_false hmark).1]
      simpa [marks] using htask.leave (work.countP (enters id)) (work.countP (refers id))
        (by simp [marks]) (by simp [marks])
  · split <;> simp [marks, hne]

theorem TasksOk.markExisting (h : TasksOk s focus (.markExisting id :: work)) :
    TasksKept s now alive focus work (.markExisting id) := by
  obtain ⟨cell, hcell, htask⟩ := h.exists_cell_of_mem rfl
  have haccepted : s.accepted.count id = 1 := htask.known (by simp [marks])
  simp only [TasksKept, perform, onTask, hcell]
  refine h.setState hcell _ (update s.woken id true) ?_ fun i hne => ?_
  · cases hmark : (cell.state.markQueued now).1 with
    | true => simpa [marks] using htask.mark true hmark fun _ => haccepted
    | false =>
      rw [(markQueued_of_false hmark).1]
      simpa [marks] using (htask.coalesce hmark haccepted).leave (work.countP (enters id))
        (work.countP (refers id)) (by simp [marks]) (by simp [marks])
  · split <;> simp [marks, hne, update_of_ne hne.symm]

theorem TasksOk.cancel (h : TasksOk s focus (.cancel id :: work)) :
    TasksKept s now alive focus work (.cancel id) := by
  obtain ⟨cell, hcell, htask⟩ := h.exists_cell_of_mem rfl
  have haccepted : s.accepted.count id = 1 := htask.known (by simp [marks])
  have hleave := htask.leave (work.countP (enters id)) (work.countP (refers id))
    (by simp [marks]) (by simp [marks])
  simp only [TasksKept, perform, onTask, hcell]
  refine h.setState hcell _ s.woken ?_ fun i hne => ?_
  · cases hphase : cell.state.phase with
    | ended =>
      rw [htask.lifecycle.cancel_ended hphase]
      simpa [marks] using hleave
    | polling =>
      rw [htask.lifecycle.cancel_polling hphase]
      simpa [marks] using hleave.cancelPolling (htask.lifecycle.phase_eq_polling.mp hphase)
    | waiting =>
      obtain ⟨hlive, hpoll⟩ := htask.lifecycle.phase_eq_waiting.mp hphase
      obtain ⟨hresult, hended, _⟩ := htask.lifecycle.cancel_waiting hphase
      have hpolled : decide (focus = .polled id) = false := htask.polling.symm.trans hpoll
      have hnext := htask.ended (htask.lifecycle.not_completed (.inl hlive)) haccepted
        htask.lifecycle.cancel (phase_eq_ended.mp hended)
        queued_of_cancel (work.countP (refers id) + 1)
      rw [hresult]
      simpa [marks, hpolled] using hnext
  · split <;> simp [marks, hne]

theorem TasksOk.finishTask (h : TasksOk s focus (.finishTask id :: work)) :
    TasksKept s now alive focus work (.finishTask id) := by
  obtain ⟨cell, hcell, htask⟩ := h.exists_cell_of_mem rfl
  refine h.touch hcell ?_ (fun ha => h.group id cell hcell ha) (fun i hne => ⟨rfl, ?_⟩)
    (h.lt_nextTaskId hcell) le_rfl rfl
  · have hreported := htask.reported (by simp [marks])
    simp only [perform]
    split <;> simpa [marks] using hreported
  · simp only [perform]
    split <;> simp [marks, hne]

theorem TasksOk.scheduleExisting (h : TasksOk s focus (.scheduleExisting id :: work))
    (hc : CountsOk s (.scheduleExisting id :: work)) :
    TasksKept s now alive focus work (.scheduleExisting id) := by
  obtain ⟨cell, hcell, htask⟩ := h.exists_cell_of_mem rfl
  have haccepted : s.accepted.count id = 1 := htask.known (by simp [marks])
  have hgroup := h.group id cell hcell (count_pos_iff.mp (by omega))
  have haccepts : s.tasks.accepts cell.group = true := by
    rw [accepts, hc.accepting, hc.indexed.groupIndex_eq,
      getElem?_eq_getElem hgroup]
    rfl
  have hschedule : s.tasks.scheduleExisting cell.group id = .ok (s.tasks.push cell.group id) :=
    scheduleExisting_of_accepts haccepts
  have hpushed := (pushed_scheduleExisting hschedule).1
  simp only [TasksKept, perform, hcell, hschedule]
  refine h.queued hcell rfl hpushed.clocks hpushed.nextTaskId ?_ (fun _ => hgroup) fun i hne => ?_
  · simpa [marks, hpushed.count] using htask.push (by simp [marks]) (by simp [marks])
  · simp [marks, hne, hpushed.count]

theorem TasksOk.scheduleNew (h : TasksOk s focus (.scheduleNew id :: work))
    (hc : CountsOk s (.scheduleNew id :: work)) :
    TasksKept s now alive focus work (.scheduleNew id) := by
  obtain ⟨cell, hcell, htask⟩ := h.exists_cell_of_mem rfl
  cases hschedule : s.tasks.scheduleNew alive cell.group id with
  | error e =>
    simp only [TasksKept, perform, hcell, hschedule]
    refine h.setState hcell _ s.woken ?_ fun i hne => ?_
    · simpa [marks] using htask.reject (by simp [marks]) (by simp [marks])
    · simp [marks, hne]
  | ok tasks =>
    obtain ⟨hpushed, _, haccepts⟩ := pushed_scheduleNew hschedule
    have hgroup : cell.group < s.tasks.groups.length := by
      have hsome := (Bool.and_eq_true_iff.mp haccepts).2
      rw [hc.indexed.groupIndex_eq, Option.isSome_map] at hsome
      simpa using hsome
    simp only [TasksKept, perform, hcell, hschedule]
    refine h.queued hcell rfl hpushed.clocks hpushed.nextTaskId ?_ (fun _ => hgroup) fun i hne => ?_
    · simpa [marks, hpushed.count] using htask.accept (by simp [marks]) (by simp [marks])
    · simp [marks, hne, hpushed.count]

theorem Open.finished_le (h : Open s focus work) (id : Nat) :
    s.finished.count id + work.countP (finishes id) ≤ s.accepted.count id ∧
      s.accepted.count id ≤ 1 := by
  have htask := h.tasks.task id
  cases hcell : s.cells id with
  | none =>
    rw [hcell, TaskOk] at htask
    have hfinishing : work.countP (finishes id) = 0 := congrArg Marks.finishing htask
    have hfinished : s.finished.count id = 0 := congrArg Marks.finished htask
    have haccepted : s.accepted.count id = 0 := congrArg Marks.accepted htask
    omega
  | some cell =>
    have htracked := h.tasks.tracked hcell
    have hentering : work.countP (enters id) + s.accepted.count id ≤ 1 := htracked.entering
    exact ⟨htracked.finished_le, by omega⟩

theorem Open.taskCount_pos (h : Open s focus work) (hf : 0 < work.countP (finishes id)) :
    0 < s.tasks.taskCount := by
  have hsub : (id :: s.finished).Subperm s.accepted := by
    refine subperm_ext_iff.mpr fun i _ => ?_
    have hle := (h.finished_le i).1
    by_cases hii : id = i
    · subst hii
      rw [count_cons_self]
      omega
    · rw [count_cons_of_ne hii]
      omega
  have hlength := hsub.length_le
  have hcount := h.counts.taskCount
  simp only [length_cons] at hlength
  omega

private theorem CountsOk.exchange (h : CountsOk s (a :: work)) (ha : a.removes = false)
    (new : List (Access F)) (hr : new.countP Access.removes = 0) (hd : new.countP Access.drops = 0)
    {cells : Nat → Option (TaskCell F)} {stopping rootReady wakePending : Bool}
    {woken : Nat → Bool} :
    CountsOk { s with
      cells := cells, stopping := stopping, rootReady := rootReady
      wakePending := wakePending, woken := woken } (new ++ work) := by
  have hspawners := h.spawners
  have hdrops := h.drops
  refine { h with spawners := ?_, drops := ?_ }
  · rw [countP_append, hr, Nat.zero_add]
    rwa [countP_cons_of_neg (by rw [ha]; exact Bool.false_ne_true)] at hspawners
  · rw [countP_append, hd, Nat.zero_add]
    rw [countP_cons] at hdrops
    omega

theorem Open.perform_counts (h : Open s focus (a :: work)) (hclose : a ≠ .close) :
    CountsOk (s.perform now alive a).1 ((s.perform now alive a).2 ++ work) := by
  have hcounts := h.counts
  cases a with
  | close => exact absurd rfl hclose
  | dropFuture id => simpa using hcounts.drops
  | allocateTask future panicHandler group =>
    have hc : CountsOk s ([.markNew s.tasks.nextTaskId] ++ work) := hcounts.exchange rfl _ rfl rfl
    exact { hc with indexed := ⟨hc.indexed.id, hc.indexed.shares⟩ }
  | markNew id | markExisting id | cancel id =>
    obtain ⟨cell, hcell, _⟩ := h.tasks.exists_cell_of_mem rfl
    simp only [perform, onTask, hcell]
    exact hcounts.exchange rfl _ (by split <;> rfl) (by split <;> rfl)
  | scheduleNew id =>
    obtain ⟨cell, hcell, _⟩ := h.tasks.exists_cell_of_mem rfl
    simp only [perform, hcell]
    split
    next tasks hschedule =>
      obtain ⟨hpushed, hcount, _⟩ := pushed_scheduleNew hschedule
      have hc : CountsOk s ([.wakeReactor] ++ work) := hcounts.exchange rfl _ rfl rfl
      have htaskCount := hc.taskCount
      refine ⟨hpushed.accepting.trans hc.accepting, hpushed.clocks.indexed hc.indexed, ?_, ?_,
        hc.completed, hpushed.spawnerCount.trans hc.spawners, hc.drops⟩
      · simp only [hcount, length_append, length_singleton]
        omega
      · simp only [hc.spawned, length_append, length_singleton]
    · exact hcounts.exchange rfl _ rfl rfl
  | scheduleExisting id =>
    obtain ⟨cell, hcell, _⟩ := h.tasks.exists_cell_of_mem rfl
    simp only [perform, hcell]
    split
    next tasks hschedule =>
      obtain ⟨hpushed, hcount⟩ := pushed_scheduleExisting hschedule
      have hc : CountsOk s ([.wakeReactor] ++ work) := hcounts.exchange rfl _ rfl rfl
      exact { hc with
        accepting := hpushed.accepting.trans hc.accepting
        indexed := hpushed.clocks.indexed hc.indexed
        taskCount := by rw [hcount]; exact hc.taskCount
        spawners := hpushed.spawnerCount.trans hc.spawners }
    · exact hcounts.exchange rfl _ rfl rfl
  | finishTask id =>
    have hpos : 0 < s.tasks.taskCount :=
      h.taskCount_pos (countP_pos_iff.mpr ⟨.finishTask id, mem_cons_self, beq_self_eq_true id⟩)
    have hc : CountsOk s ((if s.tasks.finishTask.isDrained then [.wakeReactor] else []) ++ work) :=
      hcounts.exchange rfl _ (by split <;> rfl) (by split <;> rfl)
    have htaskCount := hc.taskCount
    have hcompleted := hc.completed
    refine { hc with
      indexed := ⟨hc.indexed.id, hc.indexed.shares⟩, taskCount := ?_, completed := ?_ }
    · simp only [perform, SchedulerTaskSet.finishTask, length_append,
        length_singleton]
      omega
    · simp only [perform, length_append, length_singleton, hcompleted]
  | createSchedulingGroup shares =>
    have hc : CountsOk s ([] ++ work) := hcounts.exchange rfl _ rfl rfl
    simp only [perform]
    split
    · exact hc
    next hshares =>
      exact { hc with indexed := hc.indexed.createSchedulingGroup hshares }
  | addSpawner =>
    have hc : CountsOk s ([] ++ work) := hcounts.exchange rfl _ rfl rfl
    have hspawners := hc.spawners
    refine { hc with indexed := ⟨hc.indexed.id, hc.indexed.shares⟩, spawners := ?_ }
    simp only [perform, SchedulerTaskSet.addSpawner]
    omega
  | removeSpawner =>
    have hspawners := hcounts.spawners
    have hdrops := hcounts.drops
    simp only [perform]
    refine { hcounts with
      indexed := ⟨hcounts.indexed.id, hcounts.indexed.shares⟩, spawners := ?_, drops := ?_ }
    · rw [countP_append, show (if s.tasks.removeSpawner.spawnerCount = 0 then
        [wakeReactor] else []).countP removes = 0 by split <;> rfl]
      rw [countP_cons_of_pos rfl] at hspawners
      simp only [SchedulerTaskSet.removeSpawner]
      omega
    · split <;> simpa using hdrops
  | requestStop | markReady root | wakeReactor => exact hcounts.exchange rfl _ rfl rfl

/-- A section other than the scheduler's close keeps the invariant. -/
theorem Open.perform (h : Open s focus (a :: work)) (hclose : a ≠ .close) :
    Open (s.perform now alive a).1 focus ((s.perform now alive a).2 ++ work) := by
  refine ⟨?_, h.perform_counts hclose⟩
  cases a with
  | close => exact absurd rfl hclose
  | dropFuture id => simpa using h.counts.drops
  | allocateTask future panicHandler group => exact h.tasks.allocateTask
  | markNew id => exact h.tasks.markNew
  | scheduleNew id => exact h.tasks.scheduleNew h.counts
  | markExisting id => exact h.tasks.markExisting
  | scheduleExisting id => exact h.tasks.scheduleExisting h.counts
  | cancel id => exact h.tasks.cancel
  | finishTask id => exact h.tasks.finishTask
  | createSchedulingGroup shares =>
    simp only [perform]
    split
    · exact h.tasks.same rfl (fun id => by simp [marks]) rfl le_rfl
    · refine h.tasks.same rfl (fun id => ?_) rfl ?_
      · simp [marks, queued_createSchedulingGroup]
      · simp [SchedulerTaskSet.createSchedulingGroup]
  | removeSpawner =>
    simp only [perform]
    refine h.tasks.same rfl (fun id => ?_) rfl le_rfl
    split <;> simp [marks]
  | addSpawner | requestStop | markReady root | wakeReactor =>
    exact h.tasks.same rfl (fun id => by simp [marks, perform]) rfl le_rfl

end Sitas.Executor.Interleaving
