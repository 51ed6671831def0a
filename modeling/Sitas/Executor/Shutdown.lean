import Mathlib.Data.Finset.Card
import Sitas.Executor.Waits
import Sitas.Lib.Entries
import Sitas.Lib.Runs

/-! Dropping an executor. A task, and its future with it, is destroyed when its last
strong reference goes. Such references are the entries of the ready queues, timers and
interests, the join handle, clones of the waker kept elsewhere and the poll in progress. -/
namespace Sitas.Executor
open Sitas.Lib List Function Option

structure CurrentPoll where
  id : Nat
  startedAt : Nat
  leaves : List Leaf

/-- An executor with everything that holds references to its tasks. -/
structure Ownership where
  scheduler : Scheduler (List Leaf)
  spawners : Nat
  handles : Nat → Bool
  wakers : Nat → Nat
  current : Option CurrentPoll

inductive OwnershipEvent where
  | createSchedulingGroup (shares : Nat)
  | cloneSpawner
  | dropSpawner
  | spawn (leaves : List Leaf) (group now : Nat) (withHandle : Bool)
  | pollNext (now : Nat)
  | createLeaf (leaf : Leaf)
  | pollLeaf (index now : Nat)
  | dropLeaf (index : Nat)
  | cloneWaker
  | returns (now : Nat)
  | pending (now : Nat)
  | panics (now : Nat)
  | wake (id now : Nat)
  | dropWaker (id : Nat)
  | abort (id : Nat)
  | dropHandle (id : Nat)
  | expireTimers (now : Nat)
  | wakeFds (readable writable : List Int) (now : Nat)
  | requestStop

namespace Ownership

def new : Ownership := ⟨.new, 1, fun _ => false, fun _ => 0, none⟩

def outside (s : Ownership) (id : Nat) : Nat :=
  (s.handles id).toNat + s.wakers id + (s.current.any (·.id == id)).toNat

def strongCount (s : Ownership) (id : Nat) : Nat :=
  s.outside id + s.scheduler.references.count id

def dropLeaves {F : Type} (s : Scheduler F) (leaves : List Leaf) : Scheduler F :=
  leaves.foldl Leaf.drop s

def unreferenced (s : Ownership) : Option Nat :=
  (List.range s.scheduler.tasks.nextTaskId).find? fun id =>
    (s.scheduler.cells id).isSome && s.strongCount id == 0

def destroy (s : Ownership) (id : Nat) : Ownership :=
  let future := (s.scheduler.cells id).bind fun cell => cell.state.future
  let scheduler := { s.scheduler with cells := Function.update s.scheduler.cells id none }
  { s with scheduler := dropLeaves scheduler (future.getD []) }

/-- Destroy the tasks that have lost their last reference. Dropping their futures may
take further references away. -/
def collect (s : Ownership) : Ownership :=
  settle unreferenced destroy (s.scheduler.tasks.nextTaskId + 1) s

def withScheduler (s : Ownership) (scheduler : Scheduler (List Leaf)) : Ownership :=
  { s with scheduler := scheduler }

def hasSpawner (s : Ownership) : Bool :=
  0 < s.spawners || s.current.any (·.leaves.contains .spawner)

def spawn (s : Ownership) (leaves : List Leaf) (group now : Nat) (withHandle : Bool) : Ownership :=
  let panicHandler := if withHandle then some () else none
  match (leaves.foldl Leaf.create s.scheduler).spawn leaves panicHandler group now with
  | (.ok id, scheduler) =>
    { s with scheduler := scheduler, handles := Function.update s.handles id withHandle }
  | (.error _, scheduler) => s.withScheduler (dropLeaves scheduler leaves)

def pollNext (s : Ownership) (now : Nat) : Option Ownership :=
  match s.current, s.scheduler.tasks.nextTask with
  | none, some (id, tasks) =>
    (s.scheduler.cells id).map fun cell =>
      let r := cell.state.takeFutureForPoll now
      { s with
        scheduler := { s.scheduler.setState id cell r.2 with tasks := tasks }
        current := r.1.map fun leaves => ⟨id, now, leaves⟩ }
  | _, _ => none

/-- The poll ends. Leaves that are not stored again are dropped after the task's state
is unlocked, or inside `finish_pending`; the scheduler is not locked in either place. -/
def endPoll (s : Ownership) (now : Nat)
    (finish : CurrentPoll → Nat → TaskState (List Leaf) Unit →
      Bool × TaskState (List Leaf) Unit) : Option Ownership :=
  s.current.map fun c =>
    let duration := now - c.startedAt
    let scheduler := s.scheduler.endPoll c.id duration (finish c duration)
    let stored := ((scheduler.cells c.id).bind fun cell => cell.state.future).isSome
    { s with
      scheduler := if stored then scheduler else dropLeaves scheduler c.leaves
      current := none }

/-- Cancelling drops the future while the task's state is locked. -/
def abort (s : Ownership) (id : Nat) : Ownership :=
  let r := s.scheduler.cancel id
  s.withScheduler (dropLeaves r.2 (r.1.getD []))

def exec (s : Ownership) : OwnershipEvent → Option Ownership
  | .createSchedulingGroup shares =>
    some (s.withScheduler { s.scheduler with
      tasks := (s.scheduler.tasks.createSchedulingGroup shares).2 })
  | .cloneSpawner =>
    if s.hasSpawner then
      some { s with
        scheduler := Leaf.create s.scheduler .spawner
        spawners := s.spawners + 1 }
    else none
  | .dropSpawner =>
    if 0 < s.spawners then
      some { s with
        scheduler := Leaf.drop s.scheduler .spawner
        spawners := s.spawners - 1 }
    else none
  | .spawn leaves group now withHandle =>
    if s.hasSpawner && leaves.all Leaf.fresh then some (s.spawn leaves group now withHandle)
    else none
  | .pollNext now => s.pollNext now
  | .createLeaf leaf =>
    s.current.bind fun c =>
      if leaf.fresh && (leaf ≠ .spawner || s.hasSpawner) then
        some { s with
          scheduler := leaf.create s.scheduler
          current := some { c with leaves := c.leaves ++ [leaf] } }
      else none
  | .pollLeaf index now =>
    s.current.bind fun c =>
      (c.leaves[index]?.bind fun leaf => leaf.poll s.scheduler now (.task c.id)).map fun r =>
        { s with
          scheduler := r.2.2
          current := some { c with leaves := c.leaves.set index r.2.1 } }
  | .dropLeaf index =>
    s.current.bind fun c =>
      c.leaves[index]?.map fun leaf =>
        { s with
          scheduler := leaf.drop s.scheduler
          current := some { c with leaves := c.leaves.eraseIdx index } }
  | .cloneWaker =>
    s.current.map fun c =>
      { s with wakers := Function.update s.wakers c.id (s.wakers c.id + 1) }
  | .returns now => s.endPoll now fun _ d state => (true, state.finishReady d now)
  | .pending now => s.endPoll now fun c d state => state.finishPending c.leaves d now
  | .panics now => s.endPoll now fun _ d state => (true, (state.finishPanicked d now).2)
  | .wake id now =>
    if 0 < s.wakers id || s.current.any (·.id == id) then
      some (s.withScheduler (s.scheduler.wake now (.task id)))
    else none
  | .dropWaker id =>
    if 0 < s.wakers id then
      some { s with wakers := Function.update s.wakers id (s.wakers id - 1) }
    else none
  | .abort id => if s.handles id then some (s.abort id) else none
  | .dropHandle id =>
    if s.handles id then
      some { s.abort id with handles := Function.update s.handles id false }
    else none
  | .expireTimers now =>
    some (s.withScheduler (s.scheduler.wakeExpiredTimers now))
  | .wakeFds readable writable now =>
    some (s.withScheduler ((s.scheduler.wakeReadableFds readable now).wakeWritableFds writable now))
  | .requestStop => some (s.withScheduler { s.scheduler with stopping := true })

def step (s : Ownership) (event : OwnershipEvent) : Option Ownership :=
  (s.exec event).map collect

/-- Destroy futures in turn while the scheduler is locked: which ones, and whether the
thread blocks on the mutex it holds. It gets no further then. -/
def destroyLocked : List (Nat × List Leaf) → List Nat × Bool
  | [] => ([], false)
  | (id, leaves) :: rest =>
    if leaves.any Leaf.locks then ([id], true)
    else
      let r := destroyLocked rest
      (id :: r.1, r.2)

def dropFuture (s : Scheduler (List Leaf)) (id : Nat) : Scheduler (List Leaf) :=
  match s.cells id with
  | none => s
  | some cell =>
    let dropped := if cell.state.polling then none else cell.state.future
    dropLeaves (s.setState id cell cell.state.dropFuture) (dropped.getD [])

structure CloseResult where
  /-- The tasks whose futures were destroyed while the scheduler was locked. -/
  underLock : List Nat
  after : Option Ownership

/-- `Scheduler::close`. Clearing timers, interests and queues drops their references
under the lock; the remaining futures are dropped after unlocking. Destructors that do
not block leave the references alone, so which tasks are freed is known beforehand. -/
def close (s : Ownership) : CloseResult :=
  let gone := freed s.outside s.scheduler.references
  let futures := gone.filterMap fun id =>
    (s.scheduler.cells id).bind fun cell => cell.state.future.map fun leaves => (id, leaves)
  let r := destroyLocked futures
  if r.2 then ⟨r.1, none⟩
  else
    let scheduler := { s.scheduler with
      timers := s.scheduler.timers.clear
      interests := s.scheduler.interests.clear
      tasks := s.scheduler.tasks.close.2
      cells := fun id => if id ∈ gone then none else s.scheduler.cells id }
    let upgraded := s.scheduler.tasks.close.1.filter fun id => (scheduler.cells id).isSome
    ⟨r.1, some (s.withScheduler (upgraded.foldl dropFuture scheduler))⟩

/-- Closing destroys no future under the lock, and it returns. -/
def ClosesCleanly (s : Ownership) : Prop := s.close.underLock = [] ∧ s.close.after.isSome = true

def HeldOutside (s : Ownership) : Prop :=
  ∀ id cell, s.scheduler.cells id = some cell → cell.state.future.isSome = true →
    0 < s.outside id

def Settled (s : Ownership) : Prop :=
  ∀ id, (s.scheduler.cells id).isSome = true → 0 < s.strongCount id

section Collect
open Scheduler
variable {F : Type} {s t : Ownership}

theorem sameTasks_dropLeaves (s : Scheduler F) (leaves : List Leaf) :
    SameTasks s (dropLeaves s leaves) := by
  induction leaves generalizing s with
  | nil => exact .refl s
  | cons leaf leaves ih => exact (leaf.sameTasks_drop s).trans (ih _)

theorem sameTasks_createLeaves (s : Scheduler F) (leaves : List Leaf) :
    SameTasks s (leaves.foldl Leaf.create s) := by
  induction leaves generalizing s with
  | nil => exact .refl s
  | cons leaf leaves ih => exact (leaf.sameTasks_create s).trans (ih _)

def existing (s : Ownership) : Finset Nat :=
  (Finset.range s.scheduler.tasks.nextTaskId).filter fun id =>
    (s.scheduler.cells id).isSome = true

private theorem destroy_spec (s : Ownership) (id : Nat) :
    (s.destroy id).scheduler.tasks.nextTaskId = s.scheduler.tasks.nextTaskId ∧
      ∀ t, ((s.destroy id).scheduler.cells t).isSome =
        (update s.scheduler.cells id none t).isSome := by
  have h := sameTasks_dropLeaves
    { s.scheduler with cells := update s.scheduler.cells id none }
    (((s.scheduler.cells id).bind fun cell => cell.state.future).getD [])
  exact ⟨h.nextTaskId, h.exists_eq⟩

private theorem unreferenced_mem {id : Nat} (h : s.unreferenced = some id) : id ∈ s.existing := by
  have hid := find?_some h
  have hmem := mem_of_find?_eq_some h
  rw [Bool.and_eq_true] at hid
  exact Finset.mem_filter.mpr ⟨Finset.mem_range.mpr (mem_range.mp hmem), hid.1⟩

private theorem existing_destroy {id : Nat} (h : id ∈ s.existing) :
    (s.destroy id).existing.card < s.existing.card := by
  obtain ⟨hnext, hcells⟩ := destroy_spec s id
  apply Finset.card_lt_card
  refine (Finset.ssubset_iff_of_subset ?_).mpr ⟨id, h, ?_⟩
  · intro t ht
    obtain ⟨hrange, hsome⟩ := Finset.mem_filter.mp ht
    rw [hnext] at hrange
    rw [hcells] at hsome
    by_cases hid : t = id
    · rw [hid, update_self] at hsome
      cases hsome
    · rw [update_of_ne hid] at hsome
      exact Finset.mem_filter.mpr ⟨hrange, hsome⟩
  · intro hmem
    have hsome := (Finset.mem_filter.mp hmem).2
    rw [hcells, update_self] at hsome
    cases hsome

private theorem bounded_destroy (h : Bounded s.scheduler) (id : Nat) :
    Bounded (s.destroy id).scheduler := by
  obtain ⟨hnext, hcells⟩ := destroy_spec s id
  intro t ht
  rw [hnext]
  rw [hcells] at ht
  by_cases hid : t = id
  · rw [hid, update_self] at ht
    cases ht
  · rw [update_of_ne hid] at ht
    exact h t ht

private theorem bounded_collect (h : Bounded s.scheduler) : Bounded s.collect.scheduler :=
  settle_invariant (fun u : Ownership => Bounded u.scheduler) (fun _ id _ hb => bounded_destroy hb id) _ h

private theorem settled_collect (h : Bounded s.scheduler) : Settled s.collect := by
  have hnone : s.collect.unreferenced = none := by
    apply settle_due fun u => u.existing.card
    · intro u id hdue
      exact existing_destroy (unreferenced_mem hdue)
    · calc s.existing.card ≤ (Finset.range s.scheduler.tasks.nextTaskId).card :=
            Finset.card_filter_le _ _
        _ = s.scheduler.tasks.nextTaskId := Finset.card_range _
        _ < s.scheduler.tasks.nextTaskId + 1 := Nat.lt_succ_self _
  intro id hid
  have hmem := mem_range.mpr (bounded_collect h id hid)
  have hid' := find?_eq_none.mp hnone id hmem
  rw [hid, Bool.true_and, beq_iff_eq] at hid'
  exact Nat.pos_of_ne_zero hid'

end Collect

section Reached
open Scheduler
variable {s t : Ownership}

section
variable (h : Bounded s.scheduler)
include h

private theorem bounded_spawn (leaves : List Leaf) (group now : Nat) (withHandle : Bool) :
    Bounded (s.spawn leaves group now withHandle).scheduler := by
  have hspawned := (h.of_same (sameTasks_createLeaves s.scheduler leaves)).spawn leaves
    (if withHandle then some () else none) group now
  rw [Ownership.spawn]
  split
  next id scheduler hspawn =>
    rw [hspawn] at hspawned
    exact hspawned
  next e scheduler hspawn =>
    rw [hspawn] at hspawned
    exact hspawned.of_same (sameTasks_dropLeaves scheduler leaves)

private theorem bounded_pollNext {now : Nat} (hst : s.pollNext now = some t) :
    Bounded t.scheduler := by
  rw [pollNext] at hst
  split at hst
  next id tasks hcurrent hnext =>
    obtain ⟨cell, hcell, rfl⟩ := map_eq_some_iff.mp hst
    have hsame := sameTasks_setState hcell (cell.state.takeFutureForPoll now).2
    exact h.of_same ⟨hsame.exists_eq, SchedulerTaskSet.nextTask_nextTaskId hnext⟩
  · cases hst

private theorem bounded_endPoll {now : Nat}
    {finish : CurrentPoll → Nat → TaskState (List Leaf) Unit →
      Bool × TaskState (List Leaf) Unit} (hst : s.endPoll now finish = some t) :
    Bounded t.scheduler := by
  obtain ⟨c, _, rfl⟩ := map_eq_some_iff.mp hst
  have hend := h.of_same (sameTasks_endPoll s.scheduler c.id (now - c.startedAt)
    (finish c (now - c.startedAt)))
  dsimp only
  split
  · exact hend
  · exact hend.of_same (sameTasks_dropLeaves _ _)

private theorem bounded_abort (id : Nat) : Bounded (s.abort id).scheduler :=
  h.of_same ((sameTasks_cancel s.scheduler id).trans (sameTasks_dropLeaves _ _))

private theorem bounded_exec {event : OwnershipEvent} (hst : s.exec event = some t) :
    Bounded t.scheduler := by
  cases event with
  | createSchedulingGroup shares | requestStop =>
    cases hst
    exact h
  | cloneSpawner | dropSpawner | dropWaker id =>
    obtain ⟨_, rfl⟩ := guarded hst
    exact h
  | spawn leaves group now withHandle =>
    obtain ⟨_, rfl⟩ := guarded hst
    exact bounded_spawn h leaves group now withHandle
  | pollNext now => exact bounded_pollNext h hst
  | createLeaf leaf =>
    obtain ⟨c, _, hst⟩ := bind_eq_some_iff.mp hst
    split at hst <;> cases hst
    exact h.of_same (leaf.sameTasks_create s.scheduler)
  | pollLeaf index now =>
    obtain ⟨c, _, hst⟩ := bind_eq_some_iff.mp hst
    obtain ⟨r, hr, rfl⟩ := map_eq_some_iff.mp hst
    obtain ⟨leaf, _, hpoll⟩ := bind_eq_some_iff.mp hr
    exact h.of_same (Leaf.sameTasks_poll hpoll)
  | dropLeaf index =>
    obtain ⟨c, _, hst⟩ := bind_eq_some_iff.mp hst
    obtain ⟨leaf, _, rfl⟩ := map_eq_some_iff.mp hst
    exact h.of_same (leaf.sameTasks_drop s.scheduler)
  | cloneWaker =>
    obtain ⟨c, _, rfl⟩ := map_eq_some_iff.mp hst
    exact h
  | returns now | pending now | panics now =>
    rw [exec] at hst
    exact bounded_endPoll h hst
  | wake id now =>
    obtain ⟨_, rfl⟩ := guarded hst
    exact h.of_same (sameTasks_wake s.scheduler now (.task id))
  | abort id | dropHandle id =>
    obtain ⟨_, rfl⟩ := guarded hst
    exact bounded_abort h id
  | expireTimers now =>
    cases hst
    exact h.of_same (sameTasks_wakeExpiredTimers s.scheduler now)
  | wakeFds readable writable now =>
    cases hst
    exact h.of_same ((sameTasks_wakeReadableFds s.scheduler readable now).trans
      (sameTasks_wakeWritableFds (s.scheduler.wakeReadableFds readable now) writable now))

end

private structure Collected (s : Ownership) : Prop where
  bounded : Bounded s.scheduler
  settled : Settled s

private theorem collected_step {event : OwnershipEvent} (h : Collected s)
    (hst : s.step event = some t) : Collected t := by
  obtain ⟨u, hexec, rfl⟩ := map_eq_some_iff.mp hst
  have hbounded := bounded_exec h.bounded hexec
  exact ⟨bounded_collect hbounded, settled_collect hbounded⟩

private theorem collected_reachable (h : Reachable step new s) : Collected s :=
  h.invariant ⟨nofun, nofun⟩ fun _ _ _ hs _ => collected_step hs

end Reached

section Close
variable {s : Ownership}

private theorem destroyLocked_eq_nil {futures : List (Nat × List Leaf)} :
    (destroyLocked futures).1 = [] ↔ futures = [] := by
  cases futures with
  | nil => exact ⟨fun _ => rfl, fun _ => rfl⟩
  | cons future rest =>
    rw [destroyLocked]
    split <;> exact ⟨nofun, nofun⟩

private theorem close_underLock (s : Ownership) :
    s.close.underLock = (destroyLocked ((freed s.outside s.scheduler.references).filterMap fun id =>
      (s.scheduler.cells id).bind fun cell =>
        cell.state.future.map fun leaves => (id, leaves))).1 := by
  rw [close]
  dsimp only
  split <;> rfl

/-- A future is destroyed under the lock just if some task with a future is referred to
by the scheduler alone. -/
private theorem underLock_eq_nil_iff :
    s.close.underLock = [] ↔ ∀ id ∈ freed s.outside s.scheduler.references, ∀ cell,
      s.scheduler.cells id = some cell → cell.state.future = none := by
  rw [close_underLock, destroyLocked_eq_nil, filterMap_eq_nil_iff]
  refine forall₂_congr fun id _ => ?_
  cases hcell : s.scheduler.cells id with
  | none =>
    refine ⟨?_, fun _ => rfl⟩
    intro _ cell hsome
    cases hsome
  | some cell =>
    constructor
    · intro h cell' hcell'
      cases hcell'
      exact map_eq_none_iff.mp h
    · intro h
      exact map_eq_none_iff.mpr (h cell rfl)

private theorem closesCleanly_iff_underLock : s.ClosesCleanly ↔ s.close.underLock = [] := by
  refine ⟨And.left, fun h => ⟨h, ?_⟩⟩
  have hnone := destroyLocked_eq_nil.mp ((close_underLock s).symm.trans h)
  rw [close]
  dsimp only
  rw [hnone]
  rfl

/-- Closing an executor destroys no future under the scheduler's lock, and returns, just
if every task that has its future is also referred to from outside the scheduler. -/
theorem closes_cleanly_iff (h : Reachable step new s) : s.ClosesCleanly ↔ s.HeldOutside := by
  rw [closesCleanly_iff_underLock, underLock_eq_nil_iff]
  constructor
  · intro hnone id cell hcell hfuture
    apply Nat.pos_of_ne_zero
    intro hout
    have hcount : 0 < s.outside id + s.scheduler.references.count id :=
      (collected_reachable h).settled id (by rw [hcell]; rfl)
    rw [hout, Nat.zero_add, count_pos_iff] at hcount
    have hgone := hnone id (mem_freed_iff.mpr ⟨hcount, hout⟩) cell hcell
    rw [hgone] at hfuture
    cases hfuture
  · intro hheld id hid cell hcell
    obtain ⟨_, hout⟩ := mem_freed_iff.mp hid
    apply not_isSome_iff_eq_none.mp
    intro hfuture
    exact absurd hout (Nat.ne_of_gt (hheld id cell hcell hfuture))

private def spawnSleeper (withHandle : Bool) : List OwnershipEvent :=
  [.spawn [] 0 0 withHandle, .pollNext 0, .createLeaf (.sleep 10 none), .pollLeaf 0 0, .pending 0]

theorem joined_sleeper_closes_cleanly : ∃ s,
    run step new (spawnSleeper true) = some s ∧ s.ClosesCleanly ∧ s.HeldOutside := by
  refine ⟨_, rfl, ⟨rfl, rfl⟩, ?_⟩
  exact (closes_cleanly_iff (reachable_of_run (spawnSleeper true) rfl)).mp ⟨rfl, rfl⟩

/-- The future of a sleeping task without a handle is destroyed under the lock and blocks on the
mutex. -/
theorem detached_sleeper_blocks_close : ∃ s,
    run step new (spawnSleeper false) = some s ∧ s.close.underLock = [0] ∧
      s.close.after.isNone = true ∧ ¬ s.ClosesCleanly := by
  refine ⟨_, rfl, rfl, rfl, ?_⟩
  rintro ⟨hnone, _⟩
  cases hnone

end Close

end Ownership
end Sitas.Executor
