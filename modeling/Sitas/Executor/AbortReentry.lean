import Sitas.Executor.Locking

/-! Wakes made by destructors that run under the mutex of a task. Cancelling a task drops
its future while the task's state is locked, and the parts of the future invoke wakers
that they find in mailboxes, permit guards and join states. -/
namespace Sitas.Executor.Locking
open List Shared

/-- Steps that destructors and the wakes they make lead to. -/
def TaskStep.nested : TaskStep → Bool
  | .clearQueued | .abort => true
  | _ => false

def SchedulerStep.nested : SchedulerStep → Bool
  | .scheduleExisting _ | .finishTask | .dropLeaf _ => true
  | _ => false

def Nestable : Action → Mutex → Prop
  | .task id .markQueued, l => l ≠ .task id
  | .task _ step, _ => step.nested = true
  | .scheduler step, _ => step.nested = true
  | .release _, _ | .wakeRoot, _ => True

private theorem nestable_drop {part : Part} {a : Action} (h : a ∈ part.drop) (l : Mutex) :
    Nestable a l := by
  cases part with
  | wait leaf =>
    rw [Part.drop] at h
    split at h
    · cases mem_singleton.mp h
      rfl
    · cases h
  | send mailbox message | acquire guard waitId registered =>
    rw [Part.drop] at h
    split at h
    · cases mem_singleton.mp h
      trivial
    · cases h
  | sender mailbox | receiver mailbox | permit guard =>
    cases mem_singleton.mp h
    trivial
  | handle task =>
    cases mem_singleton.mp h
    rfl

private theorem nestable_dropParts {parts : List Part} {a : Action} (h : a ∈ dropParts parts)
    (l : Mutex) : Nestable a l := by
  obtain ⟨part, _, ha⟩ := mem_flatMap.mp h
  exact nestable_drop ha l

section Calls
variable {s : Shared} {a b : Action}

variable {id : Nat} {cell : TaskCell (List Part)}

private theorem nestable_execTask {step : TaskStep} (h : b ∈ (s.execTask id cell step).inside)
    (l : Mutex) : Nestable b l := by
  cases step with
  | finishPending poll =>
    rw [execTask] at h
    split at h
    · exact nestable_dropParts h l
    · cases h
  | abort =>
    rw [execTask] at h
    split at h
    · cases h
    · cases h
    · exact nestable_dropParts h l
  | dropFuture => exact nestable_dropParts h l
  | markQueued | markQueuedNew | clearQueued | setWaitingFor wait | takeFuture
  | finishReady poll | finishPanicked poll => cases h

private theorem nestable_rejected (h : b ∈ [Action.task id .clearQueued]) (l : Mutex) :
    Nestable b l := by
  cases mem_singleton.mp h
  rfl

private theorem nestable_scheduleExisting
    (h : b ∈ (s.scheduleExisting id cell).inside) (l : Mutex) : Nestable b l := by
  rw [scheduleExisting] at h
  split at h
  · cases h
  · exact nestable_rejected h l

private theorem nestable_scheduleNew (h : b ∈ (s.scheduleNew id cell).inside) (l : Mutex) :
    Nestable b l := by
  rw [scheduleNew] at h
  split at h
  · cases h
  · exact nestable_rejected h l

private theorem nestable_execScheduler {step : SchedulerStep}
    (h : b ∈ (s.execScheduler step).inside) (l : Mutex) : Nestable b l := by
  cases step with
  | scheduleExisting id =>
    obtain ⟨cell, h⟩ := exists_of_mem_inside h
    exact nestable_scheduleExisting h l
  | scheduleNew id =>
    obtain ⟨cell, h⟩ := exists_of_mem_inside h
    exact nestable_scheduleNew h l
  | nextTask =>
    rw [execScheduler] at h
    split at h <;> cases h
  | prepareLeaf index =>
    obtain ⟨r, h⟩ := exists_of_mem_inside h
    rw [prepareLeaf] at h
    split at h <;> cases h
  | insertLeaf index =>
    obtain ⟨r, h⟩ := exists_of_mem_inside h
    cases h
  | close unheld =>
    obtain ⟨id, _, h⟩ := mem_flatMap.mp h
    exact nestable_dropParts h l
  | allocateTask parts panicHandler group | finishTask | recordTaskPoll group duration
  | createLeaf leaf | dropLeaf leaf | expireTimers | wakeReadable fds | wakeWritable fds =>
    cases h

private theorem nestable_inside (h : b ∈ (s.exec a).inside) (l : Mutex) : Nestable b l := by
  cases a with
  | task id step =>
    obtain ⟨cell, h⟩ := exists_of_mem_inside h
    exact nestable_execTask h l
  | scheduler step => exact nestable_execScheduler h l
  | release r => cases h
  | wakeRoot => cases h

private theorem nestable_abort (h : b ∈ (s.execTask id cell .abort).after) (l : Mutex) :
    Nestable b l := by
  rw [execTask] at h
  split at h
  · cases h
  · cases mem_singleton.mp h
    trivial
  · rcases mem_cons.mp h with rfl | h
    · rfl
    · cases mem_singleton.mp h
      trivial

private theorem nestable_markQueued (h : b ∈ (s.execTask id cell .markQueued).after) (l : Mutex) :
    Nestable b l := by
  rw [execTask] at h
  dsimp only at h
  split at h
  · cases mem_singleton.mp h
    rfl
  · cases h

private theorem nestable_after {l : Mutex} (hlock : a.mutex.isSome = true)
    (h : b ∈ (s.exec a).after) (hnest : Nestable a l) : Nestable b l := by
  cases a with
  | task id step =>
    obtain ⟨cell, h⟩ := exists_of_mem_after h
    cases step with
    | markQueued => exact nestable_markQueued h l
    | abort => exact nestable_abort h l
    | clearQueued => cases h
    | markQueuedNew | setWaitingFor wait | takeFuture | finishReady poll | finishPending poll
    | finishPanicked poll | dropFuture => cases hnest
  | scheduler step =>
    cases step with
    | scheduleExisting id =>
      obtain ⟨cell, h⟩ := exists_of_mem_after h
      rw [scheduleExisting] at h
      split at h <;> cases h
    | finishTask | dropLeaf leaf => cases h
    | scheduleNew id | allocateTask parts panicHandler group | nextTask
    | recordTaskPoll group duration | createLeaf leaf | prepareLeaf index | insertLeaf index
    | expireTimers | wakeReadable fds | wakeWritable fds | close unheld => cases hnest
  | release r | wakeRoot => cases hlock

end Calls

namespace Machine
open Sitas.Lib Sitas.Lib.Locks

/-- A thread is to wake a task whose mutex it holds, and waits for itself. -/
def WakesHeld (s : Machine) : Prop :=
  ∃ i id rest, s.work i = .call (.task id .markQueued) :: rest ∧
    s.owner (.task id) = some i

/-- The wakers that stand where a destructor is about to take them: at the front of a mailbox's
senders, in its receive slot, in a guard's list or in a join state. -/
def takenBy (s : Shared) : Action → List TaskWaker
  | .release (.wakeOneSender mailbox) => (s.mailboxes mailbox).sendWakers.head?.toList
  | .release (.dropSender mailbox) =>
    let m := s.mailboxes mailbox
    if !m.senderFactoryOpen ∧ m.senderCount ≤ 1 ∧ m.queue = [] then m.recvWaker.toList else []
  | .release (.closeReceiver mailbox) =>
    let m := s.mailboxes mailbox
    if m.receiverClosed then [] else m.recvWaker.toList ++ m.sendWakers
  | .release (.permit guard) => (s.guards guard).waiters.map Prod.snd
  | .release (.completeJoin task _) =>
    if (s.joins task).result = none then (s.joins task).waker.toList else []
  | _ => []

theorem release_taken (s : Shared) (r : Release) : (s.release r).2 = takenBy s (.release r) := by
  cases r with
  | wakeOneSender mailbox | permit guard | waiter guard waitId => rfl
  | dropSender mailbox =>
    simp only [release, Mailbox.SharedMailbox.dropSender, takenBy, Bool.and_eq_true, beq_iff_eq,
      List.isEmpty_iff, Nat.sub_eq_zero_iff_le, and_assoc]
    split <;> rfl
  | closeReceiver mailbox =>
    simp only [release, Mailbox.SharedMailbox.closeReceiver, takenBy]
    split <;> rfl
  | completeJoin task result =>
    simp only [release, JoinState.complete, takenBy]
    cases (s.joins task).result <;> rfl

/-- No thread takes the waker of a task whose mutex it holds. -/
def Spares (s : Machine) : Event → Prop
  | .advance i => ∀ a ∈ (s.work i).head?.bind Frame.call?, ∀ waker ∈ takenBy s.data a,
      ∀ l ∈ (wakeAction waker).mutex, l ∉ program.held (s.work i)
  | _ => True

instance (s : Machine) (e : Event) : Decidable (s.Spares e) := by
  cases e <;> unfold Spares <;> infer_instance

/-- Threads run nothing with a mutex held that may not be nested there. -/
structure Reentrant (s : Machine) : Prop where
  owned : program.Owned s.owner s.work
  nests : ∀ i, program.Nests Nestable (s.work i)

section Steps
variable {s t : Machine}

theorem Reentrant.not_wakesHeld (h : Reentrant s) : ¬ s.WakesHeld := by
  rintro ⟨i, id, rest, hstack, howner⟩
  have hheld := (h.owned.held _ _).mp howner
  have hnests := h.nests i
  rw [hstack] at hheld hnests
  exact hnests.1 _ rfl _ hheld rfl

variable {l : Mutex} {i : Nat}

private theorem nestable_wake {waker : TaskWaker} (h : ∀ k ∈ (wakeAction waker).mutex, k ≠ l) :
    Nestable (wakeAction waker) l := by
  cases waker with
  | root => trivial
  | task id => exact (h _ rfl).symm

private theorem nestable_taken {a b : Action} {rest : List (Frame Mutex Action)}
    (hok : s.Spares (.advance i)) (hstack : s.work i = .call a :: rest) (hfree : a.mutex = none)
    (hb : b ∈ (s.data.exec a).inside ++ (s.data.exec a).after) (hl : l ∈ program.held rest) :
    Nestable b l := by
  cases a with
  | release r =>
    obtain ⟨waker, hwaker, rfl⟩ := mem_map.mp hb
    rw [release_taken] at hwaker
    apply nestable_wake
    rintro k hk rfl
    rw [Spares, hstack] at hok
    exact hok _ rfl waker hwaker k hk hl
  | wakeRoot => cases hb
  | task id step | scheduler step => cases hfree

private theorem reentrant_advance (h : Reentrant s) (hok : s.Spares (.advance i))
    (hst : program.advance s i (s.work i) = some t) : Reentrant t := by
  obtain ⟨howned, _, stack, hmoves, hwork⟩ := h.owned.advance hst
  refine ⟨howned, forall_work h.nests ?_ hwork⟩
  apply Program.nests_move (h.nests i) ?_ ?_ hmoves
  · intro a rest hstack hfree _ b hb l hl
    exact nestable_taken hok hstack hfree hb hl
  · intro k a rest hstack hlock hnest
    refine ⟨fun b hb l _ => nestable_inside hb l, fun b hb l hl => ?_⟩
    exact nestable_after (Option.isSome_of_mem hlock) hb (hnest l hl)

private theorem reentrant_begin {data : Shared} {calls : List Action} (h : Reentrant s)
    (hst : begin s i data calls = some t) : Reentrant t := by
  obtain ⟨_, hwork, _⟩ := begin_work hst
  have hnests : program.Nests Nestable (push calls []) :=
    Program.nests_push (fun _ _ _ hl => nomatch hl) trivial
  exact ⟨h.owned.begin hst, forall_work h.nests hnests hwork⟩

private theorem reentrant_step {e : Event} (h : Reentrant s) (hok : s.Spares e)
    (hst : s.step e = some t) : Reentrant t := by
  rcases step_cases hst with ⟨i, rfl, hadvance⟩ | ⟨i, data, calls, hbegin⟩ | ⟨hwork, howner⟩
  · exact reentrant_advance h hok hadvance
  · exact reentrant_begin h hbegin
  · exact ⟨howner ▸ hwork ▸ h.owned, hwork ▸ h.nests⟩

/-- As long as no destructor takes the waker of a task whose mutex its thread holds, no thread waits
for itself in order to wake a task. -/
theorem abort_never_wakes_held (data : Shared) (h : Reach step Spares (idle data) s) :
    ¬ s.WakesHeld := by
  have hidle : Reentrant (idle data) :=
    ⟨⟨fun _ _ => ⟨nofun, nofun⟩, fun _ => nodup_nil⟩, fun _ => trivial⟩
  exact (h.invariant hidle fun _ _ _ => reentrant_step).not_wakesHeld

end Steps

private def leaveSending : List Event :=
  .spawn 0 [.send 0 (some 9), .sender 0] (some ()) 0 :: sections 0 3 ++
    .pollNext :: sections 0 2 ++ [.future (.poll 0), .future .pending] ++ sections 0 2

private def abortSending (id : Nat) : List Event :=
  [.abort 1 id, .advance 1, .advance 1, .advance 1]

private def abortSecondSender : List Event :=
  .trySend 0 0 7 :: leaveSending ++ leaveSending ++ abortSending 1

theorem second_sender_wakes_first : ∃ s : Machine,
    run step (idle .fresh) abortSecondSender = some s ∧ s.owner (.task 1) = some 1 ∧
      program.wants (s.work 1) = some (.task 0) ∧ ¬ s.WakesHeld := by
  refine ⟨_, rfl, rfl, rfl, ?_⟩
  exact abort_never_wakes_held .fresh (reach_of_run abortSecondSender (by decide +kernel) rfl)

private def abortOnlySender : List Event := .trySend 0 0 7 :: leaveSending ++ abortSending 0

theorem aborted_sender_wakes_itself : ∃ s : Machine,
    run step (idle .fresh) abortOnlySender = some s ∧ s.WakesHeld := by
  exact ⟨_, rfl, 1, 0, _, rfl, rfl⟩

end Machine
end Sitas.Executor.Locking
