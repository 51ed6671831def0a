import Sitas.Executor.TaskQueues
import Sitas.Executor.Waits
import Sitas.Lib.Entries

namespace Sitas.Executor
open List Function SchedulerTaskSet Sitas.Lib
namespace Scheduler
variable {F : Type}

def phaseOf (s : Scheduler F) (id : Nat) : Option TaskState.Phase :=
  (s.cells id).map fun cell => cell.state.phase

def endedEntries (s : Scheduler F) : Nat :=
  s.tasks.queued.countP fun id => s.phaseOf id = some .ended

/-- Every queued task exists and stands in the queue of its own group. -/
structure Sound (s : Scheduler F) : Prop where
  indexed : s.tasks.Indexed
  bounded : s.Bounded
  grouped : ∀ id cell, s.cells id = some cell → cell.group < s.tasks.groups.length
  placed : ∀ group, ∀ id ∈ s.tasks.queueOf group, ∃ cell, s.cells id = some cell ∧ cell.group = group
  lifecycle : ∀ id cell, s.cells id = some cell → cell.state.Lifecycle

/-- No task is taken from a queue and no poll begins or ends. Under the condition, which
is that nothing is cancelled, no queued task ends either. -/
structure Kept (c : Prop) (s t : Scheduler F) : Prop where
  sound : Sound t
  clocks : SchedulerTaskSet.SameClocks s.tasks t.tasks
  queues : ∀ group, s.tasks.queueOf group <+: t.tasks.queueOf group
  cells : ∀ id cell, s.cells id = some cell → ∃ next, t.cells id = some next ∧ next.group = cell.group
  polling : ∀ id, t.phaseOf id = some .polling ↔ s.phaseOf id = some .polling
  ended : c → t.endedEntries ≤ s.endedEntries

section Kept
variable {s t u : Scheduler F} {c : Prop}

theorem Kept.refl (h : Sound s) : Kept c s s :=
  ⟨h, fun _ => rfl, fun _ => prefix_rfl, fun _ cell hcell => ⟨cell, hcell, rfl⟩,
    fun _ => Iff.rfl, fun _ => le_rfl⟩

theorem Kept.trans (h : Kept c s t) (h' : Kept c t u) : Kept c s u where
  sound := h'.sound
  clocks i := (h'.clocks i).trans (h.clocks i)
  queues group := (h.queues group).trans (h'.queues group)
  cells id cell hcell := by
    obtain ⟨mid, hmid, hgroup⟩ := h.cells id cell hcell
    obtain ⟨next, hnext, hgroup'⟩ := h'.cells id mid hmid
    exact ⟨next, hnext, hgroup'.trans hgroup⟩
  polling id := (h'.polling id).trans (h.polling id)
  ended hc := Nat.le_trans (h'.ended hc) (h.ended hc)

theorem Kept.mono {c' : Prop} (h : Kept c s t) (hc : c' → c) : Kept c' s t :=
  { h with ended := fun hc' => h.ended (hc hc') }

theorem kept_same (h : Sound s) (hgroups : t.tasks.groups = s.tasks.groups)
    (hnext : s.tasks.nextTaskId ≤ t.tasks.nextTaskId) (hcells : t.cells = s.cells) :
    Kept c s t := by
  have hqueue : ∀ group, t.tasks.queueOf group = s.tasks.queueOf group := queueOf_of_groups hgroups
  have hclocks := sameClocks_of_groups hgroups
  refine ⟨⟨hclocks.indexed h.indexed, ?_, ?_, ?_, ?_⟩, hclocks, fun group => ?_, ?_, ?_, fun _ => ?_⟩
  · intro id hid
    rw [hcells] at hid
    exact Nat.lt_of_lt_of_le (h.bounded id hid) hnext
  · rw [hcells, hgroups]
    exact h.grouped
  · rw [hcells]
    intro group id hid
    exact h.placed group id (hqueue group ▸ hid)
  · rw [hcells]
    exact h.lifecycle
  · exact ⟨[], by rw [append_nil, hqueue]⟩
  · rw [hcells]
    exact fun id cell hcell => ⟨cell, hcell, rfl⟩
  · intro id
    rw [phaseOf, hcells, phaseOf]
  · have hphase : t.phaseOf = s.phaseOf := by
      funext id
      rw [phaseOf, hcells, phaseOf]
    rw [endedEntries, endedEntries, hphase, queued, hgroups, queued]

theorem phaseOf_setState (id : Nat) (cell : TaskCell F) (state : TaskState F Unit) (other : Nat) :
    (s.setState id cell state).phaseOf other =
      if other = id then some state.phase else s.phaseOf other := by
  rw [phaseOf, setState_cells]
  by_cases ho : other = id
  · subst ho
    simp
  · rw [update_of_ne ho, if_neg ho, phaseOf]

variable {id : Nat} {cell : TaskCell F} {state : TaskState F Unit}

theorem Sound.setState (h : Sound s) (hcell : s.cells id = some cell) (hl : state.Lifecycle) :
    Sound (s.setState id cell state) where
  indexed := h.indexed
  bounded := h.bounded.of_same (sameTasks_setState hcell state)
  grouped other found hfound := by
    rw [setState_cells] at hfound
    obtain ⟨rfl, rfl⟩ | ⟨_, hfound⟩ := update_eq_some.mp hfound
    · exact h.grouped other cell hcell
    · exact h.grouped other found hfound
  placed group other ho := by
    obtain ⟨found, hfound, hgroup⟩ := h.placed group other ho
    rw [setState_cells]
    by_cases heq : other = id
    · subst heq
      cases hcell.symm.trans hfound
      exact ⟨_, update_self _ _ _, hgroup⟩
    · exact ⟨found, by rw [update_of_ne heq, hfound], hgroup⟩
  lifecycle other found hfound := by
    rw [setState_cells] at hfound
    obtain ⟨rfl, rfl⟩ | ⟨_, hfound⟩ := update_eq_some.mp hfound
    · exact hl
    · exact h.lifecycle other found hfound

theorem exists_setState (hcell : s.cells id = some cell) (state : TaskState F Unit) (other : Nat)
    (found : TaskCell F) (hfound : s.cells other = some found) :
    ∃ next, (s.setState id cell state).cells other = some next ∧ next.group = found.group := by
  rw [setState_cells]
  by_cases heq : other = id
  · subst heq
    cases hcell.symm.trans hfound
    exact ⟨_, update_self _ _ _, rfl⟩
  · exact ⟨found, by rw [update_of_ne heq, hfound], rfl⟩

theorem phaseOf_eq (hcell : s.cells id = some cell) : s.phaseOf id = some cell.state.phase := by
  rw [phaseOf, hcell]
  rfl

section
variable (h : Sound s)
include h

theorem kept_setState (hcell : s.cells id = some cell) (hl : state.Lifecycle)
    (hp : state.phase = cell.state.phase) : Kept c s (s.setState id cell state) := by
  have hphase : (s.setState id cell state).phaseOf = s.phaseOf := by
    funext other
    rw [phaseOf_setState]
    split
    next heq =>
      rw [heq, phaseOf_eq hcell, hp]
    · rfl
  refine ⟨h.setState hcell hl, fun _ => rfl, fun _ => prefix_rfl, exists_setState hcell state,
    fun other => by rw [hphase], fun _ => ?_⟩
  rw [endedEntries, hphase]
  exact le_rfl

theorem kept_push {tasks : SchedulerTaskSet} (hcell : s.cells id = some cell)
    (hp : cell.state.phase ≠ .ended) (hpushed : Pushed s.tasks tasks id)
    (hqueue : ∀ i, tasks.queueOf i =
      if i = cell.group then s.tasks.queueOf i ++ [id] else s.tasks.queueOf i) :
    Kept c s { s with tasks := tasks } := by
  refine ⟨⟨hpushed.clocks.indexed h.indexed, ?_, ?_, ?_, h.lifecycle⟩, hpushed.clocks,
    fun group => ?_, fun _ found hfound => ⟨found, hfound, rfl⟩, fun _ => Iff.rfl, fun _ => ?_⟩
  · exact h.bounded.of_same ⟨fun _ => rfl, hpushed.nextTaskId⟩
  · dsimp only
    rw [hpushed.clocks.length_eq]
    exact h.grouped
  · intro group other ho
    dsimp only at ho
    rw [hqueue] at ho
    split at ho
    next hgroup =>
      rcases mem_append.mp ho with ho | ho
      · exact h.placed group other ho
      · cases mem_singleton.mp ho
        exact ⟨cell, hcell, hgroup.symm⟩
    · exact h.placed group other ho
  · dsimp only
    rw [hqueue]
    split
    · exact prefix_append _ _
    · exact prefix_rfl
  · have hperm : tasks.queued.Perm (s.tasks.queued ++ [id]) := by
      refine perm_iff_count.mpr fun other => ?_
      rw [hpushed.count, count_append, count_singleton]
      simp only [beq_iff_eq]
    have hnot : decide (s.phaseOf id = some .ended) = false := by
      rw [phaseOf_eq hcell]
      exact decide_eq_false fun heq => hp (Option.some.inj heq)
    change tasks.queued.countP (fun id => s.phaseOf id = some .ended) ≤ s.endedEntries
    rw [hperm.countP_eq, countP_append, countP_singleton, hnot]
    exact le_rfl

theorem kept_scheduleExisting (id now : Nat) : Kept c s (s.scheduleExisting id now) := by
  rw [scheduleExisting]
  cases hcell : s.cells id with
  | none => exact .refl h
  | some cell =>
    obtain ⟨hl, hp⟩ := (h.lifecycle id cell hcell).markQueued now
    dsimp only
    split
    next hmark =>
      have hcell' : (s.setState id cell (cell.state.markQueued now).2).cells id =
          some { cell with state := (cell.state.markQueued now).2 } := update_self _ _ _
      have hkept := kept_setState (c := c) h hcell hl hp
      split
      next tasks hok =>
        have hlive : (cell.state.markQueued now).2.phase ≠ .ended := by
          rw [hp, Ne, TaskState.phase_eq_ended,
            (h.lifecycle id cell hcell).not_completed (TaskState.markQueued_of_true hmark).2.1]
          exact Bool.false_ne_true
        exact hkept.trans (kept_push hkept.sound hcell' hlive
          (pushed_scheduleExisting hok).1
          (queueOf_scheduleExisting hok))
      · exact kept_setState h hcell ⟨hl.ended, hl.polling, hl.alive⟩ hp
    · exact .refl h

theorem kept_wake (now : Nat) (waker : TaskWaker) : Kept c s (s.wake now waker) := by
  cases waker with
  | root => exact kept_same h rfl le_rfl rfl
  | task id => exact kept_scheduleExisting h id now

theorem kept_wakeAll (now : Nat) (wakers : List TaskWaker) : Kept c s (s.wakeAll now wakers) := by
  induction wakers generalizing s with
  | nil => exact .refl h
  | cons waker wakers ih =>
    have hkept := kept_wake (c := c) h now waker
    exact hkept.trans (ih hkept.sound)

theorem kept_wakeExpiredTimers (now : Nat) : Kept c s (s.wakeExpiredTimers now) := by
  have hkept : Kept c s { s with timers := (s.timers.expired now).2 } := kept_same h rfl le_rfl rfl
  exact hkept.trans (kept_wakeAll hkept.sound now _)

theorem kept_wakeReadableFds (fds : List Int) (now : Nat) :
    Kept c s (s.wakeReadableFds fds now) := by
  have hkept : Kept c s { s with
      interests := { s.interests with reads := (s.interests.reads.wakeReady fds).2 } } :=
    kept_same h rfl le_rfl rfl
  exact hkept.trans (kept_wakeAll hkept.sound now _)

theorem kept_wakeWritableFds (fds : List Int) (now : Nat) :
    Kept c s (s.wakeWritableFds fds now) := by
  have hkept : Kept c s { s with
      interests := { s.interests with writes := (s.interests.writes.wakeReady fds).2 } } :=
    kept_same h rfl le_rfl rfl
  exact hkept.trans (kept_wakeAll hkept.sound now _)

private theorem kept_insertTask (hfresh : s.cells s.tasks.nextTaskId = none) {group : Nat}
    (hgroup : group < s.tasks.groups.length) (hl : state.Lifecycle) (hp : state.phase = .waiting) :
    Kept c s { s with
      tasks := { s.tasks with nextTaskId := s.tasks.nextTaskId + 1 }
      cells := update s.cells s.tasks.nextTaskId (some ⟨group, state⟩) } := by
  have hother : ∀ id cell, s.cells id = some cell → id ≠ s.tasks.nextTaskId := by
    rintro id cell hcell rfl
    cases hfresh.symm.trans hcell
  have hcells : ∀ id cell, s.cells id = some cell →
      update s.cells s.tasks.nextTaskId (some ⟨group, state⟩) id = some cell :=
    fun id cell hcell => (update_of_ne (hother id cell hcell) _ _).trans hcell
  refine ⟨⟨⟨h.indexed.id, h.indexed.shares⟩, fun id hid => ?_, fun id cell hcell => ?_,
    fun i id hid => ?_, fun id cell hcell => ?_⟩, fun _ => rfl, fun _ => prefix_rfl,
    fun id cell hcell => ⟨cell, hcells id cell hcell, rfl⟩, fun id => ?_, fun _ => ?_⟩
  · dsimp only at hid ⊢
    by_cases heq : id = s.tasks.nextTaskId
    · omega
    · rw [update_of_ne heq] at hid
      exact Nat.lt_succ_of_lt (h.bounded id hid)
  · obtain ⟨rfl, rfl⟩ | ⟨_, hcell⟩ := update_eq_some.mp hcell
    · exact hgroup
    · exact h.grouped id cell hcell
  · obtain ⟨cell, hcell, hgroup⟩ := h.placed i id hid
    exact ⟨cell, hcells id cell hcell, hgroup⟩
  · obtain ⟨rfl, rfl⟩ | ⟨_, hcell⟩ := update_eq_some.mp hcell
    · exact hl
    · exact h.lifecycle id cell hcell
  · rw [phaseOf, phaseOf]
    dsimp only
    by_cases heq : id = s.tasks.nextTaskId
    · subst heq
      rw [update_self, hfresh]
      simp [hp]
    · rw [update_of_ne heq]
  · refine Nat.le_of_eq (countP_congr fun id hid => ?_)
    have hqueued : id ∈ s.tasks.queued := hid
    obtain ⟨i, hi⟩ := mem_queued.mp hqueued
    obtain ⟨cell, hcell, _⟩ := h.placed i id hi
    rw [decide_eq_true_eq, decide_eq_true_eq, phaseOf_eq hcell, phaseOf]
    dsimp only
    rw [hcells id cell hcell]
    rfl

theorem kept_spawn (future : F) (panicHandler : Option Unit) (group now : Nat) :
    Kept c s (s.spawn future panicHandler group now).2 := by
  rw [spawn]
  dsimp only
  split
  next tasks hok =>
    have hfresh : s.cells s.tasks.nextTaskId = none := by
      by_contra hsome
      exact Nat.lt_irrefl _ (h.bounded _ (Option.isSome_iff_ne_none.mpr hsome))
    obtain ⟨hl, hp⟩ := (TaskState.lifecycle_new future panicHandler).markQueued now
    have hgroup : group < s.tasks.groups.length := lt_of_accepts (pushed_scheduleNew hok).2.2
    have hkept := kept_insertTask (c := c) h hfresh hgroup hl hp
    have hcell : (update s.cells s.tasks.nextTaskId
        (some ⟨group, ((TaskState.new future panicHandler).markQueued now).2⟩))
          s.tasks.nextTaskId = some ⟨group, ((TaskState.new future panicHandler).markQueued now).2⟩ :=
      update_self _ _ _
    refine hkept.trans (kept_push hkept.sound hcell ?_ (pushed_scheduleNew hok).1
      (queueOf_scheduleNew hok))
    rw [hp]
    intro hended
    cases hended
  · exact kept_same h rfl (Nat.le_succ _) rfl

theorem kept_setCurrentTaskWaitingFor (wait : TaskWait) (waker : TaskWaker) :
    Kept c s (s.setCurrentTaskWaitingFor wait waker) := by
  cases waker with
  | root => exact .refl h
  | task id =>
    rw [setCurrentTaskWaitingFor]
    cases hcell : s.cells id with
    | none => exact .refl h
    | some cell =>
      obtain ⟨hl, hp⟩ := (h.lifecycle id cell hcell).setWaitingFor wait
      exact kept_setState h hcell hl hp

theorem kept_cancel (id : Nat) : Kept False s (s.cancel id).2 := by
  rw [cancel]
  cases hcell : s.cells id with
  | none => exact .refl h
  | some cell =>
    have hl := h.lifecycle id cell hcell
    have hpolling : ∀ other, (s.setState id cell cell.state.cancel.2).phaseOf other = some .polling ↔
        s.phaseOf other = some .polling := by
      intro other
      rw [phaseOf_setState]
      split
      next heq =>
        rw [heq, phaseOf_eq hcell, Option.some.injEq, Option.some.injEq, hl.cancel.phase_eq_polling,
          hl.phase_eq_polling]
        cases hp : cell.state.phase with
        | ended => rw [hl.cancel_ended hp]
        | polling => rw [hl.cancel_polling hp]
        | waiting =>
          have hnot := (hl.phase_eq_waiting.mp hp).2
          have hend := hl.cancel.ended (TaskState.phase_eq_ended.mp (hl.cancel_waiting hp).2.1)
          rw [hnot, hend.1]
      · exact Iff.rfl
    have hkept : Kept False s (s.setState id cell cell.state.cancel.2) :=
      ⟨h.setState hcell hl.cancel, fun _ => rfl, fun _ => prefix_rfl, exists_setState hcell _,
        hpolling, False.elim⟩
    dsimp only
    split
    · exact hkept.trans (kept_same hkept.sound rfl le_rfl rfl)
    · exact hkept

theorem Sound.take {tasks : SchedulerTaskSet} (hnext : s.tasks.nextTask = some (id, tasks)) :
    Sound { s with tasks := tasks } ∧ ∃ cell, s.cells id = some cell := by
  obtain ⟨g, _, hhead, hothers⟩ := h.indexed.queueOf_nextTask hnext
  have hmem : id ∈ s.tasks.queueOf g.id := by
    rw [hhead]
    exact mem_cons_self
  obtain ⟨cell, hcell, _⟩ := h.placed g.id id hmem
  have hclocks := sameClocks_nextTask hnext
  refine ⟨⟨hclocks.indexed h.indexed, ?_, ?_, ?_, h.lifecycle⟩, cell, hcell⟩
  · exact h.bounded.of_same ⟨fun _ => rfl, nextTask_nextTaskId hnext⟩
  · dsimp only
    rw [hclocks.length_eq]
    exact h.grouped
  · intro group other ho
    refine h.placed group other ?_
    by_cases hgroup : group = g.id
    · subst hgroup
      rw [hhead]
      exact mem_cons_of_mem _ ho
    · rw [← hothers group hgroup]
      exact ho

theorem Sound.endPoll {pollDuration : Nat} {finish : TaskState F Unit → Bool × TaskState F Unit}
    (hcell : s.cells id = some cell) (hl : (finish cell.state).2.Lifecycle) :
    Sound (s.endPoll id pollDuration finish) ∧
      (s.endPoll id pollDuration finish).tasks.groups =
        (s.tasks.recordTaskPoll cell.group pollDuration).groups ∧
      ∀ other, (s.endPoll id pollDuration finish).phaseOf other =
        if other = id then some (finish cell.state).2.phase else s.phaseOf other := by
  have hset := h.setState hcell hl
  have hendPoll : ∃ tasks : SchedulerTaskSet, tasks.groups = s.tasks.groups ∧
      tasks.nextTaskId = s.tasks.nextTaskId ∧
      s.endPoll id pollDuration finish = { s.setState id cell (finish cell.state).2 with
          tasks := tasks.recordTaskPoll cell.group pollDuration } := by
    rw [Scheduler.endPoll, hcell]
    dsimp only
    split
    · exact ⟨s.tasks.finishTask, rfl, rfl, rfl⟩
    · exact ⟨s.tasks, rfl, rfl, rfl⟩
  obtain ⟨tasks, hgroups, hnext, heq⟩ := hendPoll
  have hindexed : tasks.Indexed := (sameClocks_of_groups hgroups).indexed h.indexed
  rw [heq]
  refine ⟨⟨hindexed.recordTaskPoll _ _, ?_, ?_, ?_, hset.lifecycle⟩, ?_, phaseOf_setState id cell _⟩
  · refine hset.bounded.of_same ⟨fun _ => rfl, ?_⟩
    exact (recordTaskPoll_nextTaskId _ _ _).trans hnext
  · dsimp only
    rw [hindexed.recordTaskPoll_eq, length_modify, hgroups]
    exact hset.grouped
  · intro group other ho
    dsimp only at ho
    rw [hindexed.queueOf_recordTaskPoll, queueOf_of_groups hgroups] at ho
    exact hset.placed group other ho
  · dsimp only
    rw [hindexed.recordTaskPoll_eq, h.indexed.recordTaskPoll_eq, hgroups]

end

end Kept
end Scheduler

namespace Leaf
open Scheduler
variable {F : Type} {s : Scheduler F} {c : Prop}

theorem kept_drop (h : Sound s) (leaf : Leaf) : Kept c s (leaf.drop s) := by
  cases leaf with
  | sleep _ id | readable _ id | writable _ id =>
    cases id with
    | none => exact .refl h
    | some id => exact kept_same h rfl le_rfl rfl
  | spawner => exact kept_same h rfl le_rfl rfl

private theorem kept_register (h : Sound s) (waker : TaskWaker) (leaf : Leaf) :
    Kept c s (leaf.register s waker) := by
  have hwait := fun wait => kept_setCurrentTaskWaitingFor (c := c) h wait waker
  cases leaf with
  | sleep deadline id | readable fd id | writable fd id =>
    cases id with
    | none => exact .refl h
    | some id => exact (hwait _).trans (kept_same (hwait _).sound rfl le_rfl rfl)
  | spawner => exact .refl h

private theorem kept_prepare (h : Sound s) {now : Nat} {leaf : Leaf}
    {r : Lib.Poll Unit × Leaf × Scheduler F} (hr : leaf.prepare s now = some r) :
    Kept c s r.2.2 := by
  cases leaf with
  | sleep deadline id =>
    cases hr
    rw [prepareSleep]
    split <;> cases id <;> exact kept_same h rfl le_rfl rfl
  | readable fd id | writable fd id =>
    cases hr
    cases id <;> exact kept_same h rfl le_rfl rfl
  | spawner => cases hr

theorem kept_poll (h : Sound s) {now : Nat} {waker : TaskWaker} {leaf : Leaf}
    {r : Lib.Poll Unit × Leaf × Scheduler F} (hr : leaf.poll s now waker = some r) :
    Kept c s r.2.2 := by
  obtain ⟨p, hp, rfl⟩ := Option.map_eq_some_iff.mp hr
  have hkept := kept_prepare (c := c) h hp
  split
  · exact hkept
  · exact hkept.trans (kept_register hkept.sound waker _)

end Leaf
end Sitas.Executor
