import Sitas.Executor.Locking

/-! The order in which the scheduler's mutex and the mutex of a task are taken. Futures
dropped under a task's mutex lock the scheduler. A rejected wake locks the task while the
scheduler is locked, and so may futures that closing destroys. -/
namespace Sitas.Executor.Locking.Machine
open Sitas.Lib Sitas.Lib.Locks

/-- One thread holds a task's mutex and waits for the scheduler's, and another holds the
scheduler's and waits for that task's. -/
def Crossed (s : Machine) : Prop :=
  ∃ i j id, s.owner (.task id) = some i ∧ program.wants (s.work i) = some .scheduler ∧
    s.owner .scheduler = some j ∧ program.wants (s.work j) = some (.task id)

/-- The scheduler takes in the task that an action is about to queue, and the futures that
closing destroys while it is locked lock nothing but the scheduler. -/
def inOrder (s : Shared) : Action → Bool
  | .scheduler (.scheduleExisting id) | .scheduler (.scheduleNew id) =>
    (s.scheduler.cells id).all fun cell => s.scheduler.tasks.accepts cell.group
  | .scheduler (.close unheld) =>
    (s.lastReferences unheld).all fun id =>
      (dropParts (s.futureOf id)).all (·.mutex == some .scheduler)
  | _ => true

/-- No section of the scheduler's mutex goes on to lock a task. -/
def InOrder (s : Machine) (e : Event) : Prop :=
  (match e with
  | .advance i => ((s.work i).head?.bind Frame.body?).all (inOrder s.data)
  | _ => true) = true

instance (s : Machine) (e : Event) : Decidable (s.InOrder e) := by
  unfold InOrder
  infer_instance

private theorem scheduleExisting_inside {s : Shared} {id : Nat} {cell : TaskCell (List Part)}
    (h : s.scheduler.tasks.accepts cell.group = true) :
    (s.scheduleExisting id cell).inside = [] := by
  rw [Shared.scheduleExisting, SchedulerTaskSet.scheduleExisting, if_pos h]

private theorem scheduleNew_inside {s : Shared} {id : Nat} {cell : TaskCell (List Part)}
    (h : s.scheduler.tasks.accepts cell.group = true) : (s.scheduleNew id cell).inside = [] := by
  rw [Shared.scheduleNew, SchedulerTaskSet.scheduleNew, if_pos h]

private theorem prepareLeaf_inside (s : Shared) (poll : Running) (index : Nat) (leaf : Leaf) :
    (s.prepareLeaf poll index leaf).inside = [] := by
  rw [Shared.prepareLeaf]
  split <;> rfl

/-- Sections of the scheduler's mutex call nothing before unlocking but destructors that lock
it again. -/
private theorem mutex_of_inside {s : Shared} {step : SchedulerStep}
    (h : inOrder s (.scheduler step) = true) {b : Action}
    (hb : b ∈ (s.execScheduler step).inside) : b.mutex = some .scheduler := by
  cases step with
  | scheduleExisting id | scheduleNew id =>
    rw [inOrder] at h
    rw [Shared.execScheduler] at hb
    cases hcell : s.scheduler.cells id with
    | none =>
      rw [hcell] at hb
      cases hb
    | some cell =>
      rw [hcell] at h hb
      rw [Option.elim_some] at hb
      first
      | rw [scheduleExisting_inside h] at hb
      | rw [scheduleNew_inside h] at hb
      cases hb
  | close unheld =>
    obtain ⟨id, hid, hb⟩ := List.mem_flatMap.mp hb
    exact beq_iff_eq.mp (List.all_eq_true.mp (List.all_eq_true.mp h id hid) b hb)
  | nextTask =>
    rw [Shared.execScheduler] at hb
    split at hb <;> cases hb
  | prepareLeaf index =>
    obtain ⟨r, hb⟩ := exists_of_mem_inside hb
    rw [prepareLeaf_inside] at hb
    cases hb
  | insertLeaf index =>
    obtain ⟨r, hb⟩ := exists_of_mem_inside hb
    cases hb
  | allocateTask parts panicHandler group | finishTask | recordTaskPoll group duration
  | createLeaf leaf | dropLeaf leaf | expireTimers | wakeReadable fds | wakeWritable fds =>
    cases hb

/-- A thread that holds the scheduler's mutex wants none but this. -/
structure Ordered (s : Machine) : Prop where
  owned : program.Owned s.owner s.work
  self : ∀ i, program.SelfOnly .scheduler (s.work i)

section Steps
variable {s t : Machine}

theorem Ordered.not_crossed (h : Ordered s) : ¬ s.Crossed := by
  rintro ⟨i, j, id, _, _, hj, hwants⟩
  cases Program.wants_of_selfOnly (h.self j) ((h.owned.held _ _).mp hj) hwants

private theorem ordered_advance {i : Nat} (h : Ordered s) (hok : s.InOrder (.advance i))
    (hst : program.advance s i (s.work i) = some t) : Ordered t := by
  obtain ⟨howned, hfree, stack, hmoves, hwork⟩ := h.owned.advance hst
  refine ⟨howned, forall_work h.self ?_ hwork⟩
  apply Program.selfOnly_move (h.self i) (hfree _) ?_ hmoves
  intro a rest hstack hlock b hb
  cases a with
  | scheduler step =>
    rw [InOrder, hstack] at hok
    exact mutex_of_inside hok hb
  | task id step | release r | wakeRoot => cases hlock

private theorem ordered_begin {i : Nat} {data : Shared} {calls : List Action} (h : Ordered s)
    (hst : begin s i data calls = some t) : Ordered t := by
  obtain ⟨_, hwork, _⟩ := begin_work hst
  refine ⟨h.owned.begin hst, forall_work h.self ?_ hwork⟩
  intro hmem
  have hheld := Program.held_tail_subset _ hmem
  rw [Program.held_push] at hheld
  cases hheld

private theorem ordered_step {e : Event} (h : Ordered s) (hok : s.InOrder e)
    (hst : s.step e = some t) : Ordered t := by
  rcases step_cases hst with ⟨i, rfl, hadvance⟩ | ⟨i, data, calls, hbegin⟩ | ⟨hwork, howner⟩
  · exact ordered_advance h hok hadvance
  · exact ordered_begin h hbegin
  · exact ⟨howner ▸ hwork ▸ h.owned, hwork ▸ h.self⟩

/-- As long as no wake and no spawn is rejected, and closing destroys no future under the
scheduler's mutex that wakes or aborts a task, no two threads wait for each other with the
scheduler's mutex and the mutex of a task. -/
theorem locks_never_crossed (data : Shared) (h : Reach step InOrder (idle data) s) :
    ¬ s.Crossed := by
  have hidle : Ordered (idle data) :=
    ⟨⟨fun _ _ => ⟨nofun, nofun⟩, fun _ => List.nodup_nil⟩, fun _ => nofun⟩
  exact (h.invariant hidle fun _ _ _ => ordered_step).not_crossed

end Steps

private def leaveSleeping : List Event :=
  .spawn 0 [] (some ()) 0 :: sections 0 3 ++ .pollNext :: sections 0 2 ++
    [.future (.come (.wait (.sleep 10 none))), .future (.poll 0)] ++ sections 0 3 ++
    .future .pending :: sections 0 2

private def abortSleeping : List Event := [.abort 1 0, .advance 1, .advance 1]

private def wakeDuringAbort : List Event :=
  leaveSleeping ++ .wake 2 0 :: sections 2 1 ++ abortSleeping ++ [.advance 2]

theorem wake_during_abort_not_crossed : ∃ s : Machine,
    run step (idle .fresh) wakeDuringAbort = some s ∧ s.owner (.task 0) = some 1 ∧
      program.wants (s.work 1) = some .scheduler ∧ s.owner .scheduler = some 2 ∧
      ¬ s.Crossed := by
  refine ⟨_, rfl, rfl, rfl, rfl, ?_⟩
  exact locks_never_crossed .fresh (reach_of_run wakeDuringAbort (by decide +kernel) rfl)

/-- The executor is dropped between the two critical sections of the wake. -/
private def wakeDuringClose : List Event :=
  leaveSleeping ++ .wake 2 0 :: sections 2 1 ++ .close [] :: sections 0 1 ++
    abortSleeping ++ [.advance 2, .advance 2]

theorem rejected_wake_crosses_abort : ∃ s : Machine,
    run step (idle .fresh) wakeDuringClose = some s ∧ s.Crossed := by
  exact ⟨_, rfl, 1, 2, 0, rfl, rfl, rfl, rfl⟩

end Sitas.Executor.Locking.Machine
