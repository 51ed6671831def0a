import Sitas.Executor.TaskAccounting
import Sitas.Lib.Entries

namespace Sitas.Executor.Interleaving
open Sitas.Lib List SchedulerTaskSet Executing Shared

inductive Role where
  | idle
  | choosing
  | popped (id : Nat)
  | polling (id : Nat)
  deriving DecidableEq, Repr

section Turns
variable {F : Type}

def Stage.role : Stage F → Role
  | .next _ => .choosing
  | .popped id _ => .popped id
  | .inTask id _ _ | .ending id _ _ _ => .polling id
  | _ => .idle

def Executing.groupPolls (s : Executing F) : Nat :=
  (s.shared.tasks.groups.map SchedulerGroup.totalPolls).sum

inductive Turn (s : Executing F) (e : Event F) (t : Executing F) : Prop where
  | same (hrole : t.stage.role = s.stage.role) (hsub : s.shared.accepted ⊆ t.shared.accepted)
    (hpolls : t.groupPolls = s.groupPolls)
  | begins (hs : s.stage.role = .idle) (ht : t.stage.role = .choosing)
    (hpolls : t.groupPolls = s.groupPolls)
  | pops (id : Nat) (hs : s.stage.role = .choosing) (ht : t.stage.role = .popped id)
    (hmem : id ∈ t.shared.accepted) (hpolls : t.groupPolls = s.groupPolls)
  | ends (hs : s.stage.role = .choosing) (ht : t.stage.role = .idle)
    (hpolls : t.groupPolls = s.groupPolls)
  | takes (id : Nat) (hs : s.stage.role = .popped id) (ht : t.stage.role = .polling id)
    (hsub : s.shared.accepted ⊆ t.shared.accepted) (hpolls : t.groupPolls = s.groupPolls)
  /-- The queue entry has outlived the future of its task. -/
  | skips (id budget now : Nat) (alive : Nat → Bool) (he : e = .advance now alive)
    (hs : s.stage = .popped id budget) (ht : t.stage.role = .choosing)
    (hgone : ∀ cell, s.shared.cells id = some cell → cell.state.future = none)
    (hpolls : t.groupPolls = s.groupPolls)
  | charges (id : Nat) (hs : s.stage.role = .polling id) (ht : t.stage.role = .choosing)
    (hpolls : id ∈ s.shared.accepted → t.groupPolls = s.groupPolls + 1)

theorem map_totalPolls_modify (groups : List SchedulerGroup) (i : Nat)
    (queue : List Nat → List Nat) :
    (groups.modify i fun g => { g with queue := queue g.queue }).map SchedulerGroup.totalPolls =
      groups.map SchedulerGroup.totalPolls := by
  apply ext_getElem?
  intro j
  simp only [getElem?_map, getElem?_modify]
  cases groups[j]? with
  | none => rfl
  | some g => by_cases hij : i = j <;> simp [hij]

theorem map_totalPolls_push (tasks : SchedulerTaskSet) (group task : Nat) :
    (tasks.push group task).groups.map SchedulerGroup.totalPolls =
      tasks.groups.map SchedulerGroup.totalPolls :=
  map_totalPolls_modify tasks.groups group (· ++ [task])

theorem Shared.perform_totalPolls (s : Shared F) (now : Nat) (alive : Nat → Bool) (a : Access F) :
    ((s.perform now alive a).1.tasks.groups.map SchedulerGroup.totalPolls).sum =
      (s.tasks.groups.map SchedulerGroup.totalPolls).sum := by
  cases a with
  | markNew id | markExisting id | cancel id | dropFuture id =>
    simp only [perform, onTask_tasks]
  | scheduleNew id =>
    rw [perform]
    cases s.cells id with
    | none => rfl
    | some cell =>
      simp only [scheduleNew]
      split
      next tasks hschedule =>
        split at hschedule <;> cases hschedule
        simp only [map_totalPolls_push, maybeCompactTasks]
        split <;> rfl
      · rfl
  | scheduleExisting id =>
    rw [perform]
    cases s.cells id with
    | none => rfl
    | some cell =>
      simp only [scheduleExisting]
      split
      next tasks hschedule =>
        split at hschedule <;> cases hschedule
        simp only [map_totalPolls_push]
      · rfl
  | createSchedulingGroup shares =>
    simp only [perform]
    split
    · rfl
    · simp [createSchedulingGroup]
  | close => simp [perform, close, Function.comp_def]
  | _ => rfl

theorem Shared.perform_accepted (s : Shared F) (now : Nat) (alive : Nat → Bool) (a : Access F) :
    s.accepted ⊆ (s.perform now alive a).1.accepted := by
  have honTask : ∀ (u : Shared F) (id : Nat)
      (access : TaskCell F → TaskState F Unit × List (Access F)),
      (u.onTask id access).1.accepted = u.accepted := by
    intro u id access
    rw [onTask]
    split <;> rfl
  cases a with
  | markNew id | markExisting id | cancel id | dropFuture id =>
    simp only [perform, honTask]
    exact Subset.refl _
  | scheduleNew id | scheduleExisting id =>
    rw [perform]
    split
    · exact Subset.refl _
    · split
      · first | exact subset_append_left _ _ | exact Subset.refl _
      · exact Subset.refl _
  | createSchedulingGroup shares =>
    simp only [perform]
    split <;> exact Subset.refl _
  | _ => exact Subset.refl _

variable {s t : Executing F} {e : Event F}

theorem role_of_resting {stage : Stage F} (h : stage.resting = true) : stage.role = .idle := by
  cases stage <;> first | rfl | cases h

theorem turn_of_takeFuture {id budget now : Nat} {alive : Nat → Bool}
    (hs : s.stage = .popped id budget) :
    Turn s (.advance now alive) (s.takeFuture now id budget) := by
  rw [takeFuture]
  cases hcell : s.shared.cells id with
  | none => exact .skips id budget now alive rfl hs rfl (by simp [hcell]) rfl
  | some cell =>
    simp only
    split
    · exact .takes id (by rw [hs]; rfl) rfl (Subset.refl _) rfl
    next hfuture =>
      refine .skips id budget now alive rfl hs rfl (fun other hother => ?_) rfl
      cases hcell.symm.trans hother
      cases hf : cell.state.future with
      | none => rfl
      | some future => simp [TaskState.takeFutureForPoll, hf] at hfuture

theorem groupPolls_recordTaskPoll {id pollDuration : Nat} {focus : Focus} {work : List (Access F)}
    (h : Open s.shared focus work) (hmem : id ∈ s.shared.accepted) :
    ((s.recordTaskPoll id pollDuration).groups.map SchedulerGroup.totalPolls).sum =
      s.groupPolls + 1 := by
  have hne : marks s.shared focus work id ≠ .zero := fun hzero =>
    count_eq_zero.mp (congrArg Marks.accepted hzero) hmem
  obtain ⟨cell, hcell⟩ := h.tasks.exists_cell hne
  have hlt := h.tasks.group id cell hcell hmem
  have hsum := sum_map_modify SchedulerGroup.totalPolls (g := fun g : SchedulerGroup =>
    { g with
      totalPollTime := g.totalPollTime + pollDuration
      totalPolls := g.totalPolls + 1
      virtualRuntime := g.virtualRuntime +
        max pollDuration 1 * defaultSchedulingGroupShares / g.shares })
    (getElem?_eq_getElem hlt)
  simp only [Executing.recordTaskPoll, hcell, h.counts.indexed.recordTaskPoll_eq]
  rw [groupPolls]
  dsimp only at hsum
  omega

theorem turn_of_polled (he : e.endsPoll = true) (hstep : s.step e = some t) : Turn s e t := by
  cases e with
  | taskReturns | taskPending | taskPanics =>
    rw [step, finishPoll] at hstep
    split at hstep
    next hstage =>
      obtain ⟨cell, hcell, rfl⟩ := Option.map_eq_some_iff.mp hstep
      exact .same (by rw [hstage]; rfl) (Subset.refl _) rfl
    · cases hstep
  | _ => cases he

theorem Sound.turn (h : Sound s) (hstep : s.step e = some t) : Turn s e t := by
  have hrefl := Subset.refl s.shared.accepted
  cases steps_of_step hstep with
  | called hcall =>
    obtain ⟨⟨_, htasks⟩, hstage, haccepted⟩ := call_frame hcall
    exact .same (by rw [hstage]) (by rw [haccepted]; exact hrefl)
      (by rw [groupPolls, htasks]; rfl)
  | performed => exact .same rfl (s.shared.perform_accepted ..) (s.shared.perform_totalPolls ..)
  | looped mode stage root rootReady wakePending he hs ht =>
    rcases ht with ht | rfl
    · exact .same ((role_of_resting ht).trans (role_of_resting hs).symm) hrefl rfl
    · exact .begins (role_of_resting hs) rfl rfl
  | exhausted hs =>
    exact .ends (by rw [hs]; rfl) (role_of_resting (checks_resting s.mode)) rfl
  | @picked now budget id alive tasks hs hnext =>
    obtain ⟨ho, _⟩ := h.running (by simp [hs])
    rw [work, hs] at ho
    have hpop := ho.pop hnext
    obtain ⟨cell, hcell⟩ := hpop.exists_popped
    have hone : s.shared.accepted.count id = 1 := (hpop.tasks.tracked hcell).known (by simp [marks])
    refine .pops id (by rw [hs]; rfl) rfl (count_pos_iff.mp (by dsimp only; omega)) ?_
    rw [nextTask] at hnext
    split at hnext
    · cases hnext
    · obtain ⟨_, _, heq⟩ := Option.map_eq_some_iff.mp hnext
      cases heq
      exact congrArg sum (map_totalPolls_modify _ _ tail)
  | took hs => exact turn_of_takeFuture hs
  | @recorded now id pollDuration budget alive hs =>
    obtain ⟨ho, _⟩ := h.running (by simp [hs])
    exact .charges id (by rw [hs]; rfl) rfl fun hmem => groupPolls_recordTaskPoll ho hmem
  | sectioned hs =>
    exact .same (by rw [hs]; rfl) (s.shared.perform_accepted ..) (s.shared.perform_totalPolls ..)
  | polled he hst => exact turn_of_polled he hst

end Turns

/-- The executor with its counter of task polls, the count of the batch that it is in, and the
number of times that the future of a task has been polled. -/
structure Metered (F : Type) where
  executing : Executing F
  totalTaskPolls : Nat
  polled : Nat
  polls : Nat

namespace Metered
variable {F : Type} {m : Metered F}

def new : Metered F := ⟨.new, 0, 0, 0⟩

/-- A task is counted when it is taken from its queue, and the batch is recorded at its end. -/
def meter (m : Metered F) (t : Executing F) : Metered F :=
  match m.executing.stage.role, t.stage.role with
  | .choosing, .popped _ => { m with executing := t, polled := m.polled + 1 }
  | .popped _, .polling _ => { m with executing := t, polls := m.polls + 1 }
  | .choosing, .idle =>
    { m with executing := t, totalTaskPolls := m.totalTaskPolls + m.polled, polled := 0 }
  | _, _ => { m with executing := t }

def step (m : Metered F) (e : Event F) : Option (Metered F) := (m.executing.step e).map m.meter

def live (m : Metered F) : Event F → Bool
  | .advance _ _ =>
    match m.executing.stage with
    | .popped id _ => (m.executing.shared.cells id).any fun cell => cell.state.future.isSome
    | _ => true
  | _ => true

/-- How the counters are related at each point of a batch. -/
def Counted (m : Metered F) : Prop :=
  match m.executing.stage.role with
  | .idle => m.polled = 0 ∧ m.executing.groupPolls = m.polls ∧ m.totalTaskPolls = m.polls
  | .choosing => m.executing.groupPolls = m.polls ∧ m.totalTaskPolls + m.polled = m.polls
  | .popped id => id ∈ m.executing.shared.accepted ∧ m.executing.groupPolls = m.polls ∧
      m.totalTaskPolls + m.polled = m.polls + 1
  | .polling id => id ∈ m.executing.shared.accepted ∧ m.executing.groupPolls + 1 = m.polls ∧
      m.totalTaskPolls + m.polled = m.polls

theorem Counted.meter {e : Event F} {t : Executing F} (h : m.Counted)
    (hturn : Turn m.executing e t) (hlive : m.live e = true) : (m.meter t).Counted := by
  unfold Counted at h
  cases hturn with
  | same hrole hsub hpolls =>
    have hmeter : m.meter t = { m with executing := t } := by
      unfold Metered.meter
      rw [hrole]
      cases m.executing.stage.role <;> rfl
    rw [hmeter]
    unfold Counted
    dsimp only
    rw [hrole, hpolls]
    cases hs : m.executing.stage.role with
    | idle | choosing =>
      rw [hs] at h
      exact h
    | popped id | polling id =>
      rw [hs] at h
      exact ⟨hsub h.1, h.2⟩
  | begins hs ht hpolls =>
    rw [hs] at h
    obtain ⟨hzero, hgroups, htotal⟩ := h
    simp only [Counted, Metered.meter, hs, ht, hpolls]
    exact ⟨hgroups, by omega⟩
  | pops id hs ht hmem hpolls =>
    rw [hs] at h
    simp only [Counted, Metered.meter, hs, ht, hpolls]
    exact ⟨hmem, h.1, by omega⟩
  | ends hs ht hpolls =>
    rw [hs] at h
    simp only [Counted, Metered.meter, hs, ht, hpolls]
    exact ⟨trivial, h⟩
  | takes id hs ht hsub hpolls =>
    rw [hs] at h
    obtain ⟨hmem, hgroups, htotal⟩ := h
    simp only [Counted, Metered.meter, hs, ht, hpolls]
    exact ⟨hsub hmem, by omega, htotal⟩
  | skips id budget now alive he hs ht hgone hpolls =>
    subst he
    simp only [live, hs, Option.any_eq_true] at hlive
    obtain ⟨cell, hcell, hfuture⟩ := hlive
    rw [hgone cell hcell] at hfuture
    cases hfuture
  | charges id hs ht hpolls =>
    rw [hs] at h
    obtain ⟨hmem, hgroups, htotal⟩ := h
    simp only [Counted, Metered.meter, hs, ht, hpolls hmem]
    exact ⟨hgroups, htotal⟩

theorem meter_executing (m : Metered F) (t : Executing F) : (m.meter t).executing = t := by
  unfold meter
  split <;> rfl

theorem counted_of_reach (hr : Reach step (fun m e => m.live e = true) (.new : Metered F) m) :
    Sound m.executing ∧ m.Counted := by
  apply hr.invariant
  · exact ⟨sound_new, rfl, rfl, rfl⟩
  · intro s e t h hlive hstep
    obtain ⟨next, hnext, rfl⟩ := Option.map_eq_some_iff.mp hstep
    exact ⟨by rw [meter_executing]; exact h.1.step hnext, h.2.meter (h.1.turn hnext) hlive⟩

/-- Outside a batch of polls the executor's counter and the sum over the scheduling groups are
the number of polls that took place. -/
theorem poll_counters_agree (hr : Reach step (fun m e => m.live e = true) (.new : Metered F) m)
    (hidle : m.executing.stage.role = .idle) :
    m.totalTaskPolls = m.executing.groupPolls ∧ m.executing.groupPolls = m.polls := by
  obtain ⟨_, hcounted⟩ := counted_of_reach hr
  unfold Counted at hcounted
  rw [hidle] at hcounted
  obtain ⟨_, hgroups, htotal⟩ := hcounted
  exact ⟨htotal.trans hgroups.symm, hgroups⟩

private def spawned : List (Event Unit) :=
  [.call (.spawn () none 0), .thread 0 0 (fun _ => true), .thread 0 0 (fun _ => true),
    .thread 0 0 (fun _ => true)]

private def polledOnce : List (Event Unit) :=
  spawned ++ [.start .run, .advance 0 (fun _ => true), .advance 0 (fun _ => true),
    .taskPending () 1, .advance 1 (fun _ => true), .advance 1 (fun _ => true)]

private def afterPoll : Metered Unit := (run step .new polledOnce).get (by decide +kernel)

theorem one_poll_is_counted :
    afterPoll.polls = 1 ∧ afterPoll.totalTaskPolls = afterPoll.executing.groupPolls := by
  have hreach : Reach step (fun m e => m.live e = true) .new afterPoll :=
    reach_of_run polledOnce (by decide +kernel) (Option.some_get _).symm
  exact ⟨by decide +kernel, (poll_counters_agree hreach (by decide +kernel)).1⟩

private def abortedInQueue : List (Event Unit) :=
  spawned ++ [.call (.abort 0), .thread 1 0 (fun _ => true), .start .run,
    .advance 0 (fun _ => true), .advance 0 (fun _ => true), .advance 0 (fun _ => true)]

private def afterAbort : Metered Unit := (run step .new abortedInQueue).get (by decide +kernel)

/-- A task is aborted before its first poll. Its queue entry is counted as a poll. -/
theorem aborted_task_is_counted :
    Reachable step .new afterAbort ∧ afterAbort.executing.stage.role = .idle ∧
      afterAbort.totalTaskPolls = 1 ∧ afterAbort.executing.groupPolls = 0 ∧
      afterAbort.polls = 0 :=
  ⟨reachable_of_run abortedInQueue (Option.some_get _).symm, by decide +kernel⟩

end Metered
end Sitas.Executor.Interleaving
