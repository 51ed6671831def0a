import Sitas.Executor.Permits
import Sitas.Executor.TaskAccounting

namespace Sitas.Executor.Interleaving
open Sitas.Lib List Function Executing Shared TaskState Option
variable {F : Type}

def Access.allocates : Access F → Bool
  | .allocateTask _ _ _ => true
  | _ => false

/-- How a section changes the state of a task, and whether it drops the future there. -/
structure Moves (x y : TaskState F Unit) (drops : Bool) : Prop where
  life : x.Lifecycle → y.Lifecycle
  polling : y.polling = x.polling
  completed : x.Lifecycle → y.completed = (x.completed || drops)

section Moves
variable (x : TaskState F Unit)

theorem moves_refl : Moves x x false := ⟨id, rfl, fun _ => (Bool.or_false _).symm⟩

theorem moves_clearQueued : Moves x x.clearQueued false :=
  ⟨fun h => ⟨h.ended, h.polling, h.alive⟩, rfl, fun _ => (Bool.or_false _).symm⟩

theorem moves_markQueued (now : Nat) : Moves x (x.markQueued now).2 false := by
  refine ⟨fun h => (h.markQueued now).1, ?_, fun _ => ?_⟩ <;>
  · simp only [markQueued]
    split <;> simp

theorem moves_cancel : Moves x x.cancel.2 (x.cancel.1 == some true) := by
  refine ⟨fun h => h.cancel, ?_, fun h => ?_⟩
  · simp only [cancel]
    split
    · rfl
    · split <;> rfl
  · simp only [cancel]
    split
    · simp
    · split <;> simp

theorem moves_dropFuture : Moves x x.dropFuture x.future.isSome := by
  refine ⟨fun h => h.dropFuture.1, ?_, fun h => ?_⟩
  · simp only [dropFuture]
    split <;> rfl
  · cases hp : x.polling with
    | true => simp [dropFuture, hp, h.polling hp]
    | false =>
      cases hc : x.completed with
      | true => simp [dropFuture, hp]
      | false => simp [dropFuture, hp, h.alive hc hp]

end Moves

/-- A section leaves the cell of a task in place, and drops its future or does not. -/
def Changes (s t : Shared F) (drops : Option Nat) (id : Nat) : Prop :=
  (s.cells id = none → t.cells id = none) ∧ ∀ cell, s.cells id = some cell →
    ∃ state, t.cells id = some { cell with state } ∧
      Moves cell.state state (decide (drops = some id))

private theorem decide_ite_some (b : Bool) (i : Nat) :
    decide ((if b then some i else none) = some i) = b := by
  cases b <;> simp

section Sections
variable {s t : Shared F} {a : Access F} {now id : Nat} {alive : Nat → Bool}

theorem changes_of_cells (h : t.cells = s.cells) : Changes s t none id := by
  refine ⟨fun hn => h ▸ hn, fun cell hcell => ⟨cell.state, h ▸ hcell, ?_⟩⟩
  exact moves_refl cell.state

theorem changes_setState {i : Nat} {cell : TaskCell F} {state : TaskState F Unit}
    {drops : Option Nat} (hcell : s.cells i = some cell)
    (hmoves : Moves cell.state state (decide (drops = some i)))
    (hother : ∀ j, j ≠ i → drops ≠ some j) : Changes s (s.setState i cell state) drops id := by
  by_cases hid : id = i
  · subst hid
    refine ⟨fun hn => absurd (hcell.symm.trans hn) (some_ne_none _), fun c hc => ?_⟩
    cases hcell.symm.trans hc
    exact ⟨state, by simp [setState], hmoves⟩
  · have hsame : (s.setState i cell state).cells id = s.cells id := by simp [setState, hid]
    refine ⟨fun hn => hsame.trans hn, fun c hc => ⟨c.state, hsame.trans hc, ?_⟩⟩
    rw [decide_eq_false (hother id hid)]
    exact moves_refl c.state

theorem changes_onTask {i : Nat} {access : TaskCell F → TaskState F Unit × List (Access F)}
    {drops : Option Nat}
    (hmoves : ∀ cell, s.cells i = some cell →
      Moves cell.state (access cell).1 (decide (drops = some i)))
    (hnone : s.cells i = none → drops = none)
    (hother : ∀ j, j ≠ i → drops ≠ some j) : Changes s (s.onTask i access).1 drops id := by
  unfold onTask
  cases hcell : s.cells i with
  | none =>
    rw [hnone hcell]
    exact changes_of_cells rfl
  | some cell => exact changes_setState hcell (hmoves cell hcell) hother

theorem Shared.perform_changes (ha : a.allocates = false) :
    Changes s (s.perform now alive a).1 (s.futureDrop a) id := by
  cases a with
  | allocateTask future panicHandler group => cases ha
  | markNew i =>
    exact changes_onTask (fun cell _ => moves_markQueued cell.state now) (fun _ => rfl)
      (by simp [futureDrop])
  | markExisting i =>
    change Changes { s with woken := update s.woken i true } _ none id
    exact changes_onTask (fun cell _ => moves_markQueued cell.state now) (fun _ => rfl) (by simp)
  | scheduleNew i | scheduleExisting i =>
    simp only [perform]
    cases hcell : s.cells i with
    | none => exact changes_of_cells rfl
    | some cell =>
      dsimp only
      split
      · exact changes_of_cells rfl
      · exact changes_setState hcell (moves_clearQueued cell.state) (by simp [futureDrop])
  | cancel i | dropFuture i =>
    refine changes_onTask (fun cell hcell => ?_) (fun hnone => ?_) (fun j hj => ?_)
    · rw [futureDrop, hcell, decide_ite_some]
      first | exact moves_cancel cell.state | exact moves_dropFuture cell.state
    · simp [futureDrop, hnone]
    · simp [futureDrop, Ne.symm hj]
  | createSchedulingGroup shares =>
    simp only [perform]
    split <;> exact changes_of_cells rfl
  | finishTask | addSpawner | removeSpawner | requestStop | markReady | close | wakeReactor =>
    exact changes_of_cells rfl

theorem Shared.perform_nextTaskId (ha : a.allocates = false) :
    (s.perform now alive a).1.tasks.nextTaskId = s.tasks.nextTaskId := by
  cases a with
  | allocateTask future panicHandler group => cases ha
  | markNew i | markExisting i | cancel i | dropFuture i =>
    rw [perform, onTask_tasks]
  | scheduleNew i =>
    simp only [perform]
    split
    · rfl
    · split
      next hok =>
        exact SchedulerTaskSet.scheduleNew_nextTaskId hok
      · rfl
  | scheduleExisting i =>
    simp only [perform, SchedulerTaskSet.scheduleExisting]
    split
    · rfl
    · split
      next hok =>
        split at hok
        · cases hok
          rfl
        · cases hok
      · rfl
  | createSchedulingGroup shares =>
    simp only [perform]
    split <;> rfl
  | finishTask | addSpawner | removeSpawner | requestStop | markReady | close | wakeReactor => rfl

end Sections

/-- The future of a task stands in its state or is being polled until the task has
ended. Only a call allocates tasks. -/
structure Alive (s : Executing F) : Prop where
  life : ∀ id cell, s.shared.cells id = some cell →
    cell.state.Lifecycle ∧ (cell.state.polling = true ↔ s.polled = some id)
  polls : ∀ id, s.polled = some id → s.shared.cells id ≠ none
  fresh : ∀ id, s.shared.tasks.nextTaskId ≤ id → s.shared.cells id = none
  endings : ∀ a ∈ s.stage.sections, a.allocates = false

def Executing.endedAfter (s : Executing F) (e : Event F) (id : Nat) : Option Bool :=
  if (s.allocation e).any (·.1 == id) then some false
  else (s.ended id).map (· || decide (s.futureDrop e = some id))

section Events
variable {s t : Executing F} {e : Event F} {now : Nat} {alive : Nat → Bool}

theorem Alive.frame (h : Alive s) (hcells : t.shared.cells = s.shared.cells)
    (hnext : t.shared.tasks.nextTaskId = s.shared.tasks.nextTaskId) (hpolled : t.polled = s.polled)
    (hsections : t.stage.sections = [] ∨ t.stage = s.stage) (hcurrent : s.current e = none)
    (hdrop : s.futureDrop e = none) : Alive t ∧ ∀ id, t.ended id = s.endedAfter e id := by
  refine ⟨⟨?_, ?_, ?_, ?_⟩, fun id => ?_⟩
  · rw [hcells, hpolled]
    exact h.life
  · rw [hcells, hpolled]
    exact h.polls
  · rw [hcells, hnext]
    exact h.fresh
  · rcases hsections with hnil | hstage
    · rw [hnil]
      exact fun a ha => absurd ha not_mem_nil
    · rw [hstage]
      exact h.endings
  · simp [Executing.endedAfter, Executing.allocation, hcurrent, hdrop, Executing.ended, hcells,
      comp_def]

theorem Executing.allocation_of_current {a : Access F} (hcurrent : s.current e = some (a, alive))
    (ha : a.allocates = false) : s.allocation e = none := by
  rw [allocation, hcurrent]
  cases a <;> first | rfl | cases ha

theorem Alive.perform (h : Alive s) {a : Access F} (hcurrent : s.current e = some (a, alive))
    (hdrop : s.futureDrop e = s.shared.futureDrop a)
    (hshared : t.shared = (s.shared.perform now alive a).1) (hpolled : t.polled = s.polled)
    (hsections : ∀ b ∈ t.stage.sections, b.allocates = false) :
    Alive t ∧ ∀ id, t.ended id = s.endedAfter e id := by
  cases ha : a.allocates with
  | true =>
    cases a with
    | allocateTask future panicHandler group =>
      have hnew : s.shared.cells s.shared.tasks.nextTaskId = none := h.fresh _ le_rfl
      have hcells : t.shared.cells = update s.shared.cells s.shared.tasks.nextTaskId
          (some ⟨group, .new future panicHandler⟩) := by rw [hshared]; rfl
      have hnext : t.shared.tasks.nextTaskId = s.shared.tasks.nextTaskId + 1 := by rw [hshared]; rfl
      refine ⟨⟨fun id cell hcell => ?_, fun id hid => ?_, fun id hid => ?_, hsections⟩, fun id => ?_⟩
      · rw [hpolled]
        by_cases hid : id = s.shared.tasks.nextTaskId
        · rw [hcells, hid, update_self] at hcell
          cases hcell
          refine ⟨TaskState.lifecycle_new _ _, iff_of_false (by simp [TaskState.new]) fun hp => ?_⟩
          exact h.polls id hp (hid ▸ hnew)
        · rw [hcells, update_of_ne hid] at hcell
          exact h.life id cell hcell
      · have hold := h.polls id (hpolled ▸ hid)
        rw [hcells, update_apply]
        split
        · exact some_ne_none _
        · exact hold
      · rw [hnext] at hid
        rw [hcells, update_of_ne (by omega)]
        exact h.fresh id (by omega)
      · have hnone : s.shared.futureDrop (.allocateTask future panicHandler group) = none := rfl
        by_cases hid : id = s.shared.tasks.nextTaskId
        · simp [Executing.endedAfter, Executing.allocation, hcurrent, Executing.ended, hcells, hid,
            TaskState.new]
        · simp [Executing.endedAfter, Executing.allocation, hcurrent, Executing.ended, hcells, hid,
            hdrop, hnone, Ne.symm hid, comp_def]
    | _ => cases ha
  | false =>
    have hchanges : ∀ id, Changes s.shared t.shared (s.futureDrop e) id := by
      intro id
      rw [hdrop, hshared]
      exact perform_changes ha
    have hback : ∀ id cell, t.shared.cells id = some cell → ∃ old, s.shared.cells id = some old ∧
        Moves old.state cell.state (decide (s.futureDrop e = some id)) := by
      intro id cell hcell
      cases hold : s.shared.cells id with
      | none => exact absurd (((hchanges id).1 hold).symm.trans hcell).symm (some_ne_none _)
      | some old =>
        obtain ⟨state, hstate, hmoves⟩ := (hchanges id).2 old hold
        cases hstate.symm.trans hcell
        exact ⟨old, rfl, hmoves⟩
    refine ⟨⟨fun id cell hcell => ?_, fun id hid => ?_, fun id hid => ?_, hsections⟩, fun id => ?_⟩
    · obtain ⟨old, hold, hmoves⟩ := hback id cell hcell
      obtain ⟨hlife, hpoll⟩ := h.life id old hold
      rw [hmoves.polling, hpolled]
      exact ⟨hmoves.life hlife, hpoll⟩
    · obtain ⟨old, hold⟩ := ne_none_iff_exists'.mp (h.polls id (hpolled ▸ hid))
      obtain ⟨state, hstate, _⟩ := (hchanges id).2 old hold
      rw [hstate]
      exact some_ne_none _
    · rw [hshared, perform_nextTaskId ha] at hid
      exact (hchanges id).1 (h.fresh id hid)
    · have hno := allocation_of_current hcurrent ha
      simp only [endedAfter, hno, any_none, Bool.false_eq_true, if_false]
      cases hold : s.shared.cells id with
      | none => simp [Executing.ended, hold, (hchanges id).1 hold]
      | some old =>
        obtain ⟨state, hstate, hmoves⟩ := (hchanges id).2 old hold
        simp [Executing.ended, hold, hstate, hmoves.completed (h.life id old hold).1]

theorem Alive.setState (h : Alive s) {id : Nat} {cell : TaskCell F} {state : TaskState F Unit}
    (hcell : s.shared.cells id = some cell)
    (hcells : t.shared.cells = (s.shared.setState id cell state).cells)
    (hnext : t.shared.tasks.nextTaskId = s.shared.tasks.nextTaskId)
    (hsections : ∀ a ∈ t.stage.sections, a.allocates = false) (hcurrent : s.current e = none)
    (hother : ∀ i, i ≠ id → s.polled ≠ some i ∧ t.polled ≠ some i ∧ s.futureDrop e ≠ some i)
    (hlife : state.Lifecycle) (hpolling : state.polling = true ↔ t.polled = some id)
    (hcompleted : state.completed = (cell.state.completed || decide (s.futureDrop e = some id))) :
    Alive t ∧ ∀ i, t.ended i = s.endedAfter e i := by
  have hself : t.shared.cells id = some { cell with state } := by simp [hcells, Shared.setState]
  have hsame : ∀ i, i ≠ id → t.shared.cells i = s.shared.cells i := by
    intro i hi
    simp [hcells, Shared.setState, hi]
  have hno : s.allocation e = none := by simp [Executing.allocation, hcurrent]
  refine ⟨⟨fun i c hc => ?_, fun i hi => ?_, fun i hi => ?_, hsections⟩, fun i => ?_⟩
  · by_cases hi : i = id
    · subst hi
      cases hself.symm.trans hc
      exact ⟨hlife, hpolling⟩
    · obtain ⟨hlife', hpoll⟩ := h.life i c (hsame i hi ▸ hc)
      exact ⟨hlife', hpoll.trans (iff_of_false (hother i hi).1 (hother i hi).2.1)⟩
  · by_cases hid : i = id
    · rw [hid, hself]
      exact some_ne_none _
    · exact absurd hi (hother i hid).2.1
  · rw [hnext] at hi
    have hne : i ≠ id := by
      rintro rfl
      exact absurd (hcell.symm.trans (h.fresh i hi)) (some_ne_none _)
    rw [hsame i hne]
    exact h.fresh i hi
  · simp only [endedAfter, hno, any_none, Bool.false_eq_true, if_false]
    by_cases hi : i = id
    · subst hi
      simp [Executing.ended, hself, hcell, hcompleted]
    · simp [Executing.ended, hsame i hi, (hother i hi).2.2, comp_def]

theorem Alive.takeFuture (h : Alive s) {id budget : Nat} (hstage : s.stage = .popped id budget)
    (hcurrent : s.current e = none) (hdrop : s.futureDrop e = none) :
    Alive (s.takeFuture now id budget) ∧
      ∀ i, (s.takeFuture now id budget).ended i = s.endedAfter e i := by
  have hpolled : s.polled = none := by simp [polled, Stage.polled, hstage]
  unfold Executing.takeFuture
  cases hcell : s.shared.cells id with
  | none => exact h.frame rfl rfl hpolled.symm (.inl rfl) hcurrent hdrop
  | some cell =>
    obtain ⟨hlife, hpoll⟩ := h.life id cell hcell
    have hidle : cell.state.polling = false := by
      rw [hpolled] at hpoll
      simpa using hpoll
    have hlife' := (hlife.takeFutureForPoll now).1
    dsimp only
    cases htake : (cell.state.takeFutureForPoll now).1 with
    | none =>
      obtain ⟨_, hstate⟩ := takeFutureForPoll_of_none htake
      rw [hstate] at hlife' ⊢
      refine h.setState hcell rfl rfl (fun a ha => absurd ha not_mem_nil) hcurrent ?_ hlife' ?_ ?_
      · exact fun i _ => ⟨by simp [hpolled], by simp [polled, Stage.polled], by simp [hdrop]⟩
      · simp [polled, Stage.polled, hidle]
      · simp [hdrop]
    | some future =>
      obtain ⟨_, hstate⟩ := takeFutureForPoll_of_some htake
      rw [hstate] at hlife' ⊢
      refine h.setState hcell rfl rfl (fun a ha => absurd ha not_mem_nil) hcurrent ?_ hlife' ?_ ?_
      · intro i hi
        exact ⟨by simp [hpolled], by simp [polled, Stage.polled, Ne.symm hi], by simp [hdrop]⟩
      · simp [polled, Stage.polled]
      · simp [hdrop]

theorem Alive.finishPoll (h : Alive s) {after : List (Access F)}
    {finish : Nat → TaskState F Unit → Bool × TaskState F Unit}
    (hst : s.finishPoll now after finish = some t) (hafter : ∀ a ∈ after, a.allocates = false)
    (hcurrent : s.current e = none) (hdrop : ∀ id, s.futureDrop e = some id → s.polled = some id)
    (hfinish : ∀ id cell d, s.polled = some id → s.shared.cells id = some cell →
      cell.state.Lifecycle → cell.state.polling = true →
      (finish d cell.state).2.Lifecycle ∧ (finish d cell.state).2.polling = false ∧
      (finish d cell.state).2.completed = decide (s.futureDrop e = some id)) :
    Alive t ∧ ∀ i, t.ended i = s.endedAfter e i := by
  unfold Executing.finishPoll at hst
  split at hst
  next id startedAt budget hstage =>
    have hpolled : s.polled = some id := by simp [polled, Stage.polled, hstage]
    obtain ⟨cell, hcell, rfl⟩ := map_eq_some_iff.mp hst
    obtain ⟨hlife, hpoll⟩ := h.life id cell hcell
    obtain ⟨hlife', hidle, hcompleted⟩ :=
      hfinish id cell (now - startedAt) hpolled hcell hlife (hpoll.mpr hpolled)
    refine h.setState hcell rfl rfl (fun a ha => ?_) hcurrent ?_ hlife' ?_ ?_
    · simp only [Stage.sections] at ha
      split at ha
      · rcases mem_cons.mp ha with rfl | ha
        · rfl
        · exact hafter a ha
      · cases ha
    · intro i hi
      have hne : s.polled ≠ some i := by simp [hpolled, Ne.symm hi]
      exact ⟨hne, by simp [polled, Stage.polled], fun hd => hne (hdrop i hd)⟩
    · simp [polled, Stage.polled, hidle]
    · rw [hcompleted, hlife.not_completed (.inr (hpoll.mpr hpolled)), Bool.false_or]
  · cases hst

private theorem polled_of_resting {stage : Stage F} (h : stage.resting = true) :
    stage.polled = none := by
  cases stage <;> first | rfl | cases h

private theorem Alive.loop (h : Alive s) (he : e.loops = true) (hcurrent : s.current e = none)
    (hpolled : s.polled = none) (hcells : t.shared.cells = s.shared.cells)
    (hnext : t.shared.tasks.nextTaskId = s.shared.tasks.nextTaskId) (hpolled' : t.polled = none)
    (hsections : t.stage.sections = []) : Alive t ∧ ∀ i, t.ended i = s.endedAfter e i := by
  refine h.frame hcells hnext (hpolled'.trans hpolled.symm) (.inl hsections) hcurrent ?_
  cases e with
  | call | thread | taskReturns | taskPending | taskPanics => cases he
  | _ => simp [Executing.futureDrop, hcurrent]

theorem Alive.allocation_advance (h : Alive s) : s.allocation (.advance now alive) = none := by
  cases hstage : s.stage with
  | ending id pollDuration budget sections =>
    cases sections with
    | nil => simp [allocation, current, hstage]
    | cons a sections =>
      have hcurrent : s.current (.advance now alive) = some (a, alive) := by
        simp [current, hstage]
      exact allocation_of_current hcurrent (h.endings a (by simp [Stage.sections, hstage]))
  | _ => simp [allocation, current, hstage]

private theorem Alive.polled (h : Alive s) (he : e.endsPoll = true) (hst : s.step e = some t) :
    Alive t ∧ ∀ i, t.ended i = s.endedAfter e i := by
  cases e with
  | call | thread | advance | start | rootPending | rootEnds | reactor => cases he
  | taskReturns now =>
    rw [step] at hst
    refine h.finishPoll hst (fun a ha => absurd ha not_mem_nil) rfl (fun id hid => hid) ?_
    intro id cell d hpolled _ hlife hpoll
    refine ⟨(hlife.finishReady hpoll d now).1, rfl, ?_⟩
    exact (decide_eq_true hpolled).symm
  | taskPending future now =>
    rw [step] at hst
    refine h.finishPoll hst ?_ rfl ?_ ?_
    · intro a ha
      rw [mem_singleton.mp ha]
      rfl
    · intro id hid
      exact (filter_eq_some_iff.mp hid).1
    · intro id cell d hpolled hcell hlife hpoll
      have hdrop : decide (s.futureDrop (.taskPending future now) = some id) =
          cell.state.cancelRequested := by
        rw [Executing.futureDrop, hpolled, filter_some, hcell]
        exact decide_ite_some _ id
      rw [hdrop]
      obtain ⟨hlife', _, _⟩ := hlife.finishPending hpoll future d now
      have hcompleted := hlife.not_completed (.inr hpoll)
      refine ⟨hlife', ?_, ?_⟩ <;> cases hc : cell.state.cancelRequested <;>
        simp [finishPending, hc, hcompleted]
  | taskPanics now =>
    rw [step] at hst
    refine h.finishPoll hst (fun a ha => absurd ha not_mem_nil) rfl (fun id hid => hid) ?_
    intro id cell d hpolled _ _ _
    refine ⟨(finishPanicked_ended cell.state d now).1, rfl, ?_⟩
    exact (decide_eq_true hpolled).symm

/-- Every event keeps the futures where the scheduler expects them, and a task ends by
the drop of its future only. -/
theorem Alive.step (h : Alive s) (hst : s.step e = some t) :
    Alive t ∧ ∀ i, t.ended i = s.endedAfter e i := by
  cases steps_of_step hst with
  | called hcall =>
    obtain ⟨hshared, hstage, _⟩ := call_frame hcall
    refine h.frame hshared.1 (by rw [hshared.2]) ?_ (.inr hstage) rfl rfl
    rw [Executing.polled, hstage, Executing.polled]
  | @performed i now alive a rest hnext =>
    have hcurrent : s.current (.thread i now alive) = some (a, alive) := by
      simp [current, hnext]
    refine h.perform hcurrent ?_ rfl rfl h.endings
    simp [Executing.futureDrop, hcurrent]
  | looped mode stage root rootReady wakePending he hs ht =>
    have hcurrent : s.current e = none := by
      cases e with
      | thread => cases he
      | advance => cases hstage : s.stage <;> simp_all [current, Stage.resting]
      | _ => rfl
    refine h.loop he hcurrent (polled_of_resting hs) rfl rfl ?_ ?_ <;> rcases ht with ht | rfl
    · exact polled_of_resting ht
    · rfl
    · exact (focus_of_resting ht).2
    · rfl
  | exhausted hs =>
    have hrest := checks_resting (F := F) s.mode
    exact h.loop rfl (by simp [current, hs])
      (by simp [Executing.polled, Stage.polled, hs]) rfl rfl (polled_of_resting hrest)
      (focus_of_resting hrest).2
  | picked hs hnext =>
    exact h.loop rfl (by simp [current, hs])
      (by simp [Executing.polled, Stage.polled, hs]) rfl
      (SchedulerTaskSet.nextTask_nextTaskId hnext) rfl rfl
  | @took now id budget alive hs =>
    have hcurrent : s.current (.advance now alive) = none := by simp [current, hs]
    exact h.takeFuture hs hcurrent (by simp [Executing.futureDrop, hcurrent])
  | recorded hs =>
    refine h.loop rfl (by simp [current, hs])
      (by simp [Executing.polled, Stage.polled, hs]) rfl ?_ rfl rfl
    simp only [recordTaskPoll]
    split
    · rfl
    · exact SchedulerTaskSet.recordTaskPoll_nextTaskId ..
  | @sectioned now id pollDuration budget alive a sections hs =>
    have hcurrent : s.current (.advance now alive) = some (a, alive) := by
      simp [current, hs]
    refine h.perform hcurrent (by simp [Executing.futureDrop, hcurrent]) rfl
      (by simp [Executing.polled, Stage.polled, hs]) fun b hb => ?_
    rcases mem_append.mp hb with hnew | hold
    · have hbegins := begins_of_mem_perform hnew
      cases b <;> first | rfl | cases hbegins
    · exact h.endings b (by simp [Stage.sections, hs, hold])
  | polled he hst => exact h.polled he hst

private theorem Alive.ended_of_section (h : Alive s) {a : Access F} {id : Nat}
    (hdrop : s.shared.futureDrop a = some id) : s.ended id = some false := by
  have hplaced : ∀ cell, s.shared.cells id = some cell → cell.state.future.isSome = true →
      s.ended id = some false := by
    intro cell hcell hfuture
    simp [Executing.ended, hcell, (h.life id cell hcell).1.not_completed (.inl hfuture)]
  cases a with
  | cancel i =>
    obtain ⟨hany, ⟨⟩⟩ := guarded hdrop
    cases hcell : s.shared.cells id with
    | none => simp [hcell] at hany
    | some cell =>
      refine hplaced cell hcell ?_
      cases hfuture : cell.state.future with
      | some future => rfl
      | none =>
        cases hp : cell.state.polling <;> simp [hcell, cancel, hfuture, hp] at hany
  | dropFuture i =>
    obtain ⟨hany, ⟨⟩⟩ := guarded hdrop
    cases hcell : s.shared.cells id with
    | none => simp [hcell] at hany
    | some cell =>
      rw [hcell] at hany
      exact hplaced cell hcell hany
  | _ => cases hdrop

theorem Alive.ended_of_futureDrop (h : Alive s) {id : Nat} (hdrop : s.futureDrop e = some id) :
    s.ended id = some false := by
  have hpolled : s.polled = some id → s.ended id = some false := by
    intro hp
    obtain ⟨cell, hcell⟩ := ne_none_iff_exists'.mp (h.polls id hp)
    obtain ⟨hlife, hpoll⟩ := h.life id cell hcell
    simp [Executing.ended, hcell, hlife.not_completed (.inr (hpoll.mpr hp))]
  cases e with
  | taskReturns now | taskPanics now => exact hpolled hdrop
  | taskPending future now => exact hpolled (filter_eq_some_iff.mp hdrop).1
  | thread | advance =>
    obtain ⟨a, _, ha⟩ := bind_eq_some_iff.mp hdrop
    exact h.ended_of_section ha
  | call | start | rootPending | rootEnds | reactor => cases hdrop

theorem Alive.ended_of_allocation (h : Alive s) {id : Nat} {future : F}
    (halloc : s.allocation e = some (id, future)) : s.ended id = none ∧ s.futureDrop e = none := by
  unfold allocation at halloc
  split at halloc
  next future' panicHandler group alive hcurrent =>
    cases halloc
    refine ⟨by simp [Executing.ended, h.fresh _ le_rfl], ?_⟩
    cases e with
    | thread | advance => simp [Executing.futureDrop, hcurrent, Shared.futureDrop]
    | _ => cases hcurrent
  · cases halloc

theorem Executing.ended_of_rejection {id : Nat} (h : s.rejection e = some id) :
    s.ended id ≠ none := by
  unfold rejection at h
  split at h
  · obtain ⟨cell, hcell, h⟩ := bind_eq_some_iff.mp h
    split at h
    · cases h
    · cases h
      simp [ended, hcell]
  · cases h

theorem Executing.endedAfter_ne_none {id : Nat} (h : s.ended id ≠ none) :
    s.endedAfter e id ≠ none := by
  unfold endedAfter
  split
  · exact some_ne_none _
  · rwa [ne_eq, map_eq_none_iff]

theorem Executing.step_calls (hst : s.step e = some t) (hcall : ∀ c, e ≠ .call c)
    (hthread : ∀ i now alive, e ≠ .thread i now alive) : t.calls = s.calls := by
  cases steps_of_step hst with
  | called => exact absurd rfl (hcall _)
  | performed => exact absurd rfl (hthread _ _ _)
  | looped | exhausted | picked | recorded | sectioned => rfl
  | took =>
    unfold takeFuture
    split
    · rfl
    · dsimp only
      split <;> rfl
  | polled he hst =>
    cases e with
    | taskReturns | taskPending | taskPanics =>
      simp only [step, finishPoll] at hst
      split at hst
      · obtain ⟨cell, _, rfl⟩ := map_eq_some_iff.mp hst
        rfl
      · cases hst
    | _ => cases he

end Events
end Sitas.Executor.Interleaving
