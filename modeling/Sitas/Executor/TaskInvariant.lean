import Sitas.Executor.Interleaving
import Sitas.Executor.TaskMarks
import Sitas.Executor.TaskQueues

namespace Sitas.Executor.Interleaving
open Sitas.Lib List Function SchedulerTaskSet Executing Shared TaskState Access

inductive Focus where
  | nothing
  | popped (id : Nat)
  | polled (id : Nat)
  deriving DecidableEq, Repr

section Model
variable {F : Type}

def Stage.focus : Stage F → Focus
  | .popped id _ => .popped id
  | .inTask id _ _ => .polled id
  | _ => .nothing

def Stage.sections : Stage F → List (Access F)
  | .ending _ _ _ sections => sections
  | _ => []

def Executing.work (s : Executing F) : List (Access F) := s.stage.sections ++ Calls.due s.calls

namespace Access

@[simp] def pushes (id : Nat) : Access F → Bool
  | .scheduleNew i | .scheduleExisting i => i == id
  | _ => false

@[simp] def enters (id : Nat) : Access F → Bool
  | .markNew i | .scheduleNew i => i == id
  | _ => false

@[simp] def refers (id : Nat) : Access F → Bool
  | .markExisting i | .scheduleExisting i | .cancel i | .finishTask i => i == id
  | _ => false

@[simp] def finishes (id : Nat) : Access F → Bool
  | .finishTask i => i == id
  | _ => false

@[simp] def removes : Access F → Bool
  | .removeSpawner => true
  | _ => false

@[simp] def drops : Access F → Bool
  | .dropFuture _ => true
  | _ => false

def begins : Access F → Bool
  | .markNew _ | .scheduleNew _ | .scheduleExisting _ | .finishTask _ | .dropFuture _
  | .wakeReactor => false
  | _ => true

/-- The task whose sections are counted. -/
@[simp] def subject : Access F → Option Nat
  | .markNew id | .scheduleNew id | .markExisting id | .scheduleExisting id | .cancel id
  | .finishTask id => some id
  | _ => none

end Access

def marks (s : Shared F) (focus : Focus) (work : List (Access F)) (id : Nat) : Marks where
  queue := s.tasks.queued.count id
  pushing := work.countP (Access.pushes id)
  entering := work.countP (Access.enters id)
  referring := work.countP (Access.refers id)
  finishing := work.countP (Access.finishes id)
  accepted := s.accepted.count id
  finished := s.finished.count id
  woken := s.woken id
  popped := decide (focus = .popped id)
  polled := decide (focus = .polled id)

/-- Nothing is left of a task that does not exist. -/
def TaskOk : Option (TaskCell F) → Marks → Prop
  | none, m => m = .zero
  | some cell, m => Tracked cell.state m

/-- Every task is tracked, and an accepted one belongs to a group that exists. -/
structure TasksOk (s : Shared F) (focus : Focus) (work : List (Access F)) : Prop where
  task : ∀ id, TaskOk (s.cells id) (marks s focus work id)
  fresh : ∀ id, s.tasks.nextTaskId ≤ id → s.cells id = none
  group : ∀ id cell, s.cells id = some cell → id ∈ s.accepted →
    cell.group < s.tasks.groups.length

/-- The counters agree with the tasks and spawners they count. -/
structure CountsOk (s : Shared F) (work : List (Access F)) : Prop where
  accepting : s.tasks.accepting = true
  indexed : s.tasks.Indexed
  taskCount : s.tasks.taskCount + s.finished.length = s.accepted.length
  spawned : s.totalSpawnedTasks = s.accepted.length
  completed : s.totalCompletedTasks = s.finished.length
  spawners : s.tasks.spawnerCount = s.spawners + work.countP Access.removes
  drops : work.countP Access.drops = 0

/-- The invariant of a scheduler that has not been closed. -/
structure Open (s : Shared F) (focus : Focus) (work : List (Access F)) : Prop where
  tasks : TasksOk s focus work
  counts : CountsOk s work

theorem open_new : Open (.new : Shared F) .nothing [] := by
  refine ⟨⟨fun id => ?_, fun _ _ => rfl, fun _ _ hcell => by cases hcell⟩,
    ⟨rfl, SchedulerTaskSet.indexed_new, rfl, rfl, rfl, rfl, rfl⟩⟩
  simp [TaskOk, marks, Shared.new, SchedulerTaskSet.new, SchedulerTaskSet.queued, Marks.zero]

variable {s t : Shared F} {focus focus' : Focus} {work work' : List (Access F)} {a : Access F}
  {id : Nat}

theorem Open.perm (h : Open s focus work) (hp : work.Perm work') : Open s focus work' := by
  refine ⟨{ h.tasks with task := fun id => ?_ }, { h.counts with spawners := ?_, drops := ?_ }⟩
  · have htask := h.tasks.task id
    simpa only [marks, hp.countP_eq] using htask
  · rw [← hp.countP_eq]
    exact h.counts.spawners
  · rw [← hp.countP_eq]
    exact h.counts.drops

theorem marks_cons_of_ne (h : a.subject ≠ some id) :
    marks s focus (a :: work) id = marks s focus work id := by
  cases a <;> simp_all [marks]

private theorem mem_accepted (hmarks : marks t focus' work' id = marks s focus work id)
    (ha : id ∈ t.accepted) : id ∈ s.accepted := by
  have hcount : t.accepted.count id = s.accepted.count id := congrArg Marks.accepted hmarks
  rw [← count_pos_iff, ← hcount]
  exact count_pos_iff.mpr ha

section Change
variable {cell : TaskCell F} (h : TasksOk s focus work)
include h

theorem TasksOk.tracked (hcell : s.cells id = some cell) :
    Tracked cell.state (marks s focus work id) := by
  have htask := h.task id
  rwa [hcell] at htask

theorem TasksOk.exists_cell (hne : marks s focus work id ≠ .zero) :
    ∃ cell, s.cells id = some cell := by
  have htask := h.task id
  cases hcell : s.cells id with
  | none =>
    rw [hcell] at htask
    exact absurd htask hne
  | some cell => exact ⟨cell, rfl⟩

theorem TasksOk.lt_nextTaskId (hcell : s.cells id = some cell) : id < s.tasks.nextTaskId := by
  by_contra hle
  rw [h.fresh id (Nat.le_of_not_lt hle)] at hcell
  cases hcell

theorem TasksOk.same (hcells : t.cells = s.cells)
    (hmarks : ∀ id, marks t focus' work' id = marks s focus work id)
    (hnext : t.tasks.nextTaskId = s.tasks.nextTaskId)
    (hgroups : s.tasks.groups.length ≤ t.tasks.groups.length) : TasksOk t focus' work' := by
  refine ⟨fun id => ?_, fun id hid => ?_, fun id cell hcell ha => ?_⟩
  · rw [hcells, hmarks]
    exact h.task id
  · rw [hcells]
    exact h.fresh id (hnext ▸ hid)
  · have haccepted := mem_accepted (hmarks id) ha
    exact Nat.lt_of_lt_of_le (h.group id cell (hcells ▸ hcell) haccepted) hgroups

theorem TasksOk.touch (hat : t.cells id = some cell)
    (htask : Tracked cell.state (marks t focus' work' id))
    (hgroup : id ∈ t.accepted → cell.group < t.tasks.groups.length)
    (hoff : ∀ i, id ≠ i → t.cells i = s.cells i ∧ marks t focus' work' i = marks s focus work i)
    (hid : id < t.tasks.nextTaskId) (hnext : s.tasks.nextTaskId ≤ t.tasks.nextTaskId)
    (hgroups : s.tasks.groups.length = t.tasks.groups.length) : TasksOk t focus' work' := by
  refine ⟨fun i => ?_, fun i hi => ?_, fun i c hc ha => ?_⟩
  · by_cases hii : id = i
    · subst hii
      rw [hat]
      exact htask
    · obtain ⟨hcell, hmarks⟩ := hoff i hii
      rw [hcell, hmarks]
      exact h.task i
  · rw [(hoff i (by omega)).1]
    exact h.fresh i (by omega)
  · by_cases hii : id = i
    · subst hii
      cases hat.symm.trans hc
      exact hgroup ha
    · obtain ⟨hcell, hmarks⟩ := hoff i hii
      exact hgroups ▸ h.group i c (hcell ▸ hc) (mem_accepted hmarks ha)

theorem TasksOk.setState (hcell : s.cells id = some cell)
    (state : TaskState F Unit) (woken : Nat → Bool)
    (htask : Tracked state (marks { s with woken := woken } focus' work' id))
    (hother : ∀ i, id ≠ i → marks { s with woken := woken } focus' work' i = marks s focus work i) :
    TasksOk { s.setState id cell state with woken := woken } focus' work' :=
  h.touch (update_self id _ _) htask (fun ha => h.group id cell hcell ha)
    (fun i hne => ⟨update_of_ne hne.symm .., hother i hne⟩) (h.lt_nextTaskId hcell)
    le_rfl rfl

theorem TasksOk.queued (hcell : s.cells id = some cell)
    (hcells : t.cells = s.cells) (hclocks : SameClocks s.tasks t.tasks)
    (hnext : t.tasks.nextTaskId = s.tasks.nextTaskId)
    (htask : Tracked cell.state (marks t focus' work' id))
    (hgroup : id ∈ t.accepted → cell.group < s.tasks.groups.length)
    (hother : ∀ i, id ≠ i → marks t focus' work' i = marks s focus work i) :
    TasksOk t focus' work' := by
  have hlength := hclocks.length_eq
  exact h.touch (hcells ▸ hcell) htask (fun ha => hlength ▸ hgroup ha)
    (fun i hne => ⟨by rw [hcells], hother i hne⟩) (hnext ▸ h.lt_nextTaskId hcell)
    (Nat.le_of_eq hnext.symm) hlength.symm

end Change

end Model

end Sitas.Executor.Interleaving
