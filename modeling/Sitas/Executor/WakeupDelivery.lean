import Sitas.Executor.TaskAccounting

/-! No wake-up is lost: a woken task keeps its entry in the ready queues until it is polled,
and whatever would end the wait of the loop posts a reactor wake if it happens after the
loop has looked for it. -/
namespace Sitas.Executor.Interleaving
open Sitas.Lib List SchedulerTaskSet Executing Shared
variable {F : Type}

/-- What the loop looks for before it waits. -/
inductive Condition where
  | ready
  | root
  | drained
  | stopping
  deriving DecidableEq, Repr

def Shared.holds (s : Shared F) : Condition → Bool
  | .ready => s.tasks.hasReadyTasks
  | .root => s.rootReady
  | .drained => s.tasks.isDrained
  | .stopping => s.stopping

/-- The conditions that a round of the loop has checked before it comes to a stage. -/
def checkedAt : LoopMode → Stage F → List Condition
  | .run, .checkStopping => [.drained]
  | .run, .checkReady => [.drained, .stopping]
  | .run, .wait => [.drained, .stopping, .ready]
  | .runUntil, .checkReady => [.root]
  | .runUntil, .wait => [.root, .ready]
  | _, _ => []

/-- Only `run` looks for the end of the work, only `run_until` for its root future. -/
def belongs : LoopMode → Stage F → Bool
  | .run, .checkRoot => false
  | .runUntil, .checkDrained | .runUntil, .checkStopping => false
  | _, _ => true

def Executing.WakeDue (s : Executing F) : Prop := s.shared.wakePending = true ∨ .wakeReactor ∈ s.work

structure Delivered (s : Executing F) : Prop where
  mode : belongs s.mode s.stage = true
  due : ∀ c ∈ checkedAt s.mode s.stage, s.shared.holds c = true → s.WakeDue

section Perform
variable {s : Shared F} {a : Access F} {now : Nat} {alive : Nat → Bool}

private theorem holds_of_tasks {s t : Shared F} (htasks : t.tasks = s.tasks)
    (hroot : t.rootReady = s.rootReady) (hstop : t.stopping = s.stopping) (c : Condition) :
    t.holds c = s.holds c := by
  cases c <;> simp only [holds, htasks, hroot, hstop]

private theorem onTask_holds (s : Shared F) (id : Nat)
    (access : TaskCell F → TaskState F Unit × List (Access F)) (c : Condition) :
    (s.onTask id access).1.holds c = s.holds c := by
  rw [onTask]
  split
  · rfl
  · exact holds_of_tasks rfl rfl rfl c

/-- A section that brings about a condition is followed by a reactor wake. -/
theorem Shared.holds_perform {c : Condition} (h : (s.perform now alive a).1.holds c = true) :
    s.holds c = true ∨ .wakeReactor ∈ (s.perform now alive a).2 := by
  cases a with
  | markNew id | cancel id | dropFuture id =>
    rw [perform, onTask_holds] at h
    exact .inl h
  | markExisting id =>
    rw [perform, onTask_holds] at h
    exact .inl ((holds_of_tasks rfl rfl rfl c).symm.trans h)
  | scheduleNew id | scheduleExisting id =>
    simp only [perform] at h ⊢
    split at h
    · exact .inl h
    · split at h
      · exact .inr mem_cons_self
      · exact .inl h
  | requestStop | markReady root => exact .inr mem_cons_self
  | close => exact .inr (mem_append_right _ mem_cons_self)
  | allocateTask future panicHandler group | wakeReactor =>
    exact .inl ((holds_of_tasks (by rfl) rfl rfl c).symm.trans h)
  | finishTask id =>
    cases c with
    | drained =>
      have hd : s.tasks.finishTask.isDrained = true := h
      rw [perform, if_pos hd]
      exact .inr mem_cons_self
    | ready | root | stopping => exact .inl h
  | removeSpawner =>
    cases c with
    | drained =>
      have hd : s.tasks.removeSpawner.isDrained = true := h
      simp only [isDrained, Bool.and_eq_true, beq_iff_eq] at hd
      rw [perform, if_pos hd.1.2]
      exact .inr mem_cons_self
    | ready | root | stopping => exact .inl h
  | addSpawner =>
    cases c with
    | drained =>
      have hd : s.tasks.addSpawner.isDrained = true := h
      simp [isDrained, addSpawner] at hd
    | ready | root | stopping => exact .inl h
  | createSchedulingGroup shares =>
    simp only [perform] at h
    split at h
    · exact .inl h
    · cases c with
      | drained | ready =>
        left
        simp only [holds, isDrained, hasReadyTasks,
          readyQueueLen_eq, queued_createSchedulingGroup] at h ⊢
        exact h
      | root | stopping => exact .inl h

theorem Shared.wakePending_perform (h : s.wakePending = true ∨ a = .wakeReactor) :
    (s.perform now alive a).1.wakePending = true := by
  by_cases ha : a = .wakeReactor
  · subst ha
    rfl
  · have hkept : (s.perform now alive a).1.wakePending = s.wakePending := by
      cases a with
      | wakeReactor => exact absurd rfl ha
      | markNew id | cancel id | dropFuture id | markExisting id =>
        simp only [perform, onTask]
        split <;> rfl
      | scheduleNew id | scheduleExisting id =>
        simp only [perform]
        split
        · rfl
        · split <;> rfl
      | createSchedulingGroup shares =>
        simp only [perform]
        split <;> rfl
      | allocateTask future panicHandler group | finishTask id | addSpawner | removeSpawner
      | requestStop | markReady root | close => rfl
    rw [hkept]
    exact h.resolve_right ha

end Perform

section Delivered
variable {s t : Executing F}

theorem delivered_new : Delivered (.new : Executing F) := ⟨rfl, nofun⟩

private theorem delivered_unchecked (hf : belongs t.mode t.stage = true)
    (hc : checkedAt t.mode t.stage = []) : Delivered t :=
  ⟨hf, fun _ hmem => absurd hmem (hc ▸ not_mem_nil)⟩

/-- What a call of another thread brings about is followed by a reactor wake, and a posted
wake stays posted. -/
theorem Delivered.thread (h : Delivered s) {i now : Nat} {alive : Nat → Bool}
    (hstep : s.step (.thread i now alive) = some t) : Delivered t := by
  obtain ⟨⟨a, rest⟩, hnext, heq⟩ := Option.map_eq_some_iff.mp hstep
  subst heq
  obtain ⟨hdue, hdue'⟩ := Calls.due_perform hnext
  refine ⟨h.mode, fun c hc hholds => ?_⟩
  have hnew := (hdue' (s.shared.perform now alive a).2).mem_iff (a := .wakeReactor)
  rcases holds_perform hholds with hbefore | hwake
  · rcases h.due c hc hbefore with hpending | hmem
    · exact .inl (wakePending_perform (.inl hpending))
    · rw [work, mem_append, hdue.mem_iff, mem_cons] at hmem
      rcases hmem with hmem | heq | hmem
      · exact .inr (mem_append_left _ hmem)
      · exact .inl (wakePending_perform (.inr heq.symm))
      · exact .inr (mem_append_right _ (hnew.mpr (mem_append_right _ hmem)))
  · exact .inr (mem_append_right _ (hnew.mpr (mem_append_left _ hwake)))

theorem Delivered.call (h : Delivered s) {call : Call F} (hcall : s.call call = some t) :
    Delivered t := by
  have hkept : t.mode = s.mode ∧ t.stage = s.stage ∧ (∀ c, t.shared.holds c = s.shared.holds c) ∧
      t.shared.wakePending = s.shared.wakePending ∧ ∃ sections, t.calls = s.calls ++ [sections] := by
    cases call <;> simp only [Executing.call] at hcall <;> (try split at hcall) <;> cases hcall <;>
      exact ⟨rfl, rfl, holds_of_tasks rfl rfl rfl, rfl, _, rfl⟩
  obtain ⟨hmode, hstage, hholds, hpending, sections, hcalls⟩ := hkept
  refine ⟨by rw [hmode, hstage]; exact h.mode, fun c hc hh => ?_⟩
  rw [hmode, hstage] at hc
  rcases h.due c hc (hholds c ▸ hh) with hp | hmem
  · exact .inl (hpending.trans hp)
  · right
    rw [work, hstage, hcalls, Calls.due, flatten_append, ← append_assoc]
    exact mem_append_left _ hmem

private theorem Delivered.check (h : Delivered s) {c : Condition} {stage : Stage F}
    (hf : belongs s.mode stage = true) (hn : s.shared.holds c = false)
    (hc : ∀ d ∈ checkedAt s.mode stage, d = c ∨ d ∈ checkedAt s.mode s.stage)
    (hsections : s.stage.sections = []) : Delivered { s with stage := stage } := by
  refine ⟨hf, fun d hd hholds => ?_⟩
  rcases hc d hd with rfl | hbefore
  · cases hn.symm.trans hholds
  · rcases h.due d hbefore hholds with hpending | hmem
    · exact .inl hpending
    · rw [work, hsections] at hmem
      exact .inr (mem_append_right _ hmem)

private theorem delivered_top {shared : Shared F} (s : Executing F) :
    Delivered { s with shared := shared, stage := top s.mode } := by
  refine delivered_unchecked ?_ ?_ <;> dsimp only <;> cases s.mode <;> rfl

private theorem delivered_checks (s : Executing F) :
    Delivered { s with stage := checks s.mode } := by
  refine delivered_unchecked ?_ ?_ <;> dsimp only <;> cases s.mode <;> rfl

private theorem delivered_between {stage : Stage F} (hstage : t.stage = stage)
    (h : match stage with
      | .outside | .inRoot | .next _ | .popped _ _ | .inTask _ _ _ | .ending _ _ _ _ => True
      | _ => False) : Delivered t := by
  refine delivered_unchecked ?_ ?_ <;> rw [hstage] <;> cases t.mode <;> cases stage <;>
    first | rfl | cases h

private theorem mode_eq_run {mode : LoopMode} {stage : Stage F}
    (hs : stage = .checkDrained ∨ stage = .checkStopping) (h : belongs mode stage = true) :
    mode = .run := by
  rcases hs with rfl | rfl <;> cases mode <;> first | rfl | cases h

private theorem mode_eq_runUntil {mode : LoopMode} (h : belongs mode (.checkRoot : Stage F) = true) :
    mode = .runUntil := by
  cases mode
  · cases h
  · rfl

theorem Delivered.advance (h : Delivered s) {now : Nat} {alive : Nat → Bool}
    (hstep : s.step (.advance now alive) = some t) : Delivered t := by
  have hadvance : s.advance now alive s.stage = some t := hstep
  have hmode := h.mode
  cases hstage : s.stage with
  | outside | inRoot | inTask id startedAt budget | wait =>
    rw [hstage] at hadvance
    cases hadvance
  | takeRoot =>
    rw [hstage, Executing.advance] at hadvance
    split at hadvance <;> cases hadvance <;> exact delivered_between rfl trivial
  | popped id budget =>
    rw [hstage] at hadvance
    cases hadvance
    rw [takeFuture]
    split
    · exact delivered_between rfl trivial
    · dsimp only
      split <;> exact delivered_between rfl trivial
  | next budget =>
    rw [hstage] at hadvance
    cases budget with
    | zero =>
      cases hadvance
      exact delivered_checks s
    | succ budget =>
      rw [Executing.advance] at hadvance
      split at hadvance <;> cases hadvance
      · exact delivered_checks s
      · exact delivered_between rfl trivial
  | ending id pollDuration budget sections =>
    rw [hstage] at hadvance
    cases sections <;> cases hadvance <;> exact delivered_between rfl trivial
  | checkDrained =>
    rw [hstage] at hadvance hmode
    cases hadvance
    cases hd : s.shared.tasks.isDrained with
    | true => exact delivered_between rfl trivial
    | false =>
      have hrun := mode_eq_run (.inl rfl) hmode
      refine h.check (c := .drained) (by rw [hrun]; rfl) hd ?_ (by rw [hstage]; rfl)
      simp [hrun, checkedAt]
  | checkStopping =>
    rw [hstage] at hadvance hmode
    cases hadvance
    cases hd : s.shared.stopping with
    | true => exact delivered_between rfl trivial
    | false =>
      have hrun := mode_eq_run (.inr rfl) hmode
      refine h.check (c := .stopping) (by rw [hrun]; rfl) hd ?_ (by rw [hstage]; rfl)
      simp [hrun, hstage, checkedAt]
  | checkRoot =>
    rw [hstage] at hadvance hmode
    cases hadvance
    cases hd : s.shared.rootReady with
    | true => exact delivered_top s
    | false =>
      have hrun := mode_eq_runUntil hmode
      refine h.check (c := .root) (by rw [hrun]; rfl) hd ?_ (by rw [hstage]; rfl)
      simp [hrun, checkedAt]
  | checkReady =>
    rw [hstage] at hadvance
    cases hadvance
    cases hd : s.shared.tasks.hasReadyTasks with
    | true => exact delivered_top s
    | false =>
      refine h.check (c := .ready) (by cases s.mode <;> rfl) hd ?_ (by rw [hstage]; rfl)
      cases hrun : s.mode <;> simp [hstage, checkedAt]

theorem Delivered.step (h : Delivered s) {e : Event F} (hstep : s.step e = some t) :
    Delivered t := by
  cases e with
  | call call => exact h.call hstep
  | thread i now alive => exact h.thread hstep
  | advance now alive => exact h.advance hstep
  | start mode =>
    simp only [Executing.step] at hstep
    split at hstep <;> cases hstep
    exact delivered_top { s with mode := mode }
  | rootPending | rootEnds =>
    simp only [Executing.step] at hstep
    split at hstep <;> cases hstep
    exact delivered_between rfl trivial
  | reactor woke =>
    simp only [Executing.step] at hstep
    split at hstep
    · split at hstep <;> cases hstep
      exact delivered_top s
    · cases hstep
  | taskReturns now | taskPending future now | taskPanics now =>
    rw [Executing.step, Executing.finishPoll] at hstep
    split at hstep
    · obtain ⟨cell, _, heq⟩ := Option.map_eq_some_iff.mp hstep
      subst heq
      exact delivered_between rfl trivial
    · cases hstep

theorem delivered_of_reachable (hr : Reachable step (.new : Executing F) s) : Delivered s :=
  hr.invariant delivered_new fun _ _ _ h _ hstep => h.step hstep

end Delivered

section Poll
variable {s t : Executing F}

private theorem begins_of_step {e : Event F} {id startedAt budget : Nat}
    (hstep : s.step e = some t) (ht : t.stage = .inTask id startedAt budget) :
    t.stage = s.stage ∨
      ∃ now budget, s.stage = .popped id budget ∧ t = s.takeFuture now id budget := by
  cases steps_of_step hstep with
  | called hcall => exact .inl (call_frame hcall).2.1
  | performed => exact .inl rfl
  | looped mode stage root rootReady wakePending he hs hrest =>
    rw [show stage = _ from ht] at hrest
    rcases hrest with hrest | hrest <;> cases hrest
  | exhausted hs =>
    have hrest := checks_resting (F := F) s.mode
    rw [show checks s.mode = _ from ht] at hrest
    cases hrest
  | @took now i budget alive hs =>
    have hid : i = id := by
      rw [takeFuture] at ht
      split at ht
      · cases ht
      · dsimp only at ht
        split at ht <;> cases ht
        rfl
    subst hid
    exact .inr ⟨now, budget, hs, rfl⟩
  | picked | recorded | sectioned => cases ht
  | polled he hst =>
    cases e with
    | taskReturns | taskPending | taskPanics =>
      rw [step, finishPoll] at hst
      split at hst
      · obtain ⟨cell, _, rfl⟩ := Option.map_eq_some_iff.mp hst
        cases ht
      · cases hst
    | _ => cases he

/-- The future of a task that has ended or been cancelled is not there to be polled. -/
private theorem Sound.begins (h : Sound s) {e : Event F} {id startedAt budget : Nat}
    (hstep : s.step e = some t) (ht : t.stage = .inTask id startedAt budget)
    (hne : s.stage ≠ t.stage) : ∃ cell, s.shared.cells id = some cell ∧
      cell.state.completed = false ∧ cell.state.cancelRequested = false := by
  rcases begins_of_step hstep ht with hsame | ⟨now, left, hstage, rfl⟩
  · exact absurd hsame.symm hne
  · obtain ⟨ho, _, _⟩ := h.running (by rw [hstage]; nofun)
    rw [hstage] at ho
    obtain ⟨cell, hcell⟩ := ho.exists_popped
    refine ⟨cell, hcell, ?_⟩
    simp only [Executing.takeFuture, hcell] at ht
    cases hf : (cell.state.takeFutureForPoll now).1 with
    | none =>
      rw [hf] at ht
      cases ht
    | some future => exact ((ho.tasks.tracked hcell).take (by simp [marks, Stage.focus]) hf).1

end Poll

section Wakeups
variable {s : Executing F}

theorem Sound.nodup_queued (h : Sound s) : s.shared.tasks.queued.Nodup := by
  cases haccepting : s.shared.tasks.accepting with
  | false =>
    rw [h.closed haccepting]
    exact nodup_nil
  | true =>
    have ho := h.tracked haccepting
    refine nodup_iff_count.mpr fun id => ?_
    have htask := ho.tasks.task id
    cases hcell : s.shared.cells id with
    | none =>
      rw [hcell, TaskOk] at htask
      have hqueue : s.shared.tasks.queued.count id = 0 := congrArg Marks.queue htask
      omega
    | some cell =>
      have hle := (ho.tasks.tracked hcell).entries_le
      simp only [Marks.entries, marks] at hle
      omega

theorem Sound.woken_entry (h : Sound s) (hopen : s.shared.tasks.accepting = true) {id : Nat}
    {cell : TaskCell F} (hcell : s.shared.cells id = some cell)
    (hlive : cell.state.completed = false) (hw : s.shared.woken id = true) :
    id ∈ s.shared.tasks.queued ∨ (∃ a ∈ s.work, Access.pushes id a = true) ∨
      ∃ budget, s.stage = .popped id budget := by
  have htask := (h.tracked hopen).tasks.tracked hcell
  have hentries := htask.queued (htask.woken hw hlive)
  simp only [Marks.entries, marks] at hentries
  by_cases hqueue : id ∈ s.shared.tasks.queued
  · exact .inl hqueue
  · by_cases hpush : ∃ a ∈ s.work, Access.pushes id a = true
    · exact .inr (.inl hpush)
    · rw [count_eq_zero.mpr hqueue,
        countP_eq_zero.mpr fun a ha hp => hpush ⟨a, ha, hp⟩] at hentries
      have hfocus : s.stage.focus = .popped id := by
        by_contra hne
        rw [decide_eq_false hne] at hentries
        cases hentries
      cases hstage : s.stage <;> rw [hstage] at hfocus <;> cases hfocus
      exact .inr (.inr ⟨_, rfl⟩)

end Wakeups

/-- The conditions that end the wait of the loop: `run` returns when the scheduler is
drained or stopping, `run_until` polls its root future, and both poll queued tasks. -/
def looksFor : LoopMode → List Condition
  | .run => [.drained, .stopping, .ready]
  | .runUntil => [.root, .ready]

/-- A woken task has its one entry until its next poll begins, no task that has ended or been
cancelled is polled, and a loop in the reactor wait is woken by whatever it has looked for in vain.
-/
theorem wakeups_never_lost {s : Executing F} (hr : Reachable Executing.step .new s) :
    s.shared.tasks.queued.Nodup ∧
    (s.shared.tasks.accepting = true → ∀ id cell, s.shared.cells id = some cell →
      cell.state.completed = false → s.shared.woken id = true →
      id ∈ s.shared.tasks.queued ∨ (∃ a ∈ s.work, Access.pushes id a = true) ∨
        ∃ budget, s.stage = .popped id budget) ∧
    (∀ e t id startedAt budget, s.step e = some t → t.stage = .inTask id startedAt budget →
      s.stage ≠ t.stage → ∃ cell, s.shared.cells id = some cell ∧
        cell.state.completed = false ∧ cell.state.cancelRequested = false) ∧
    (s.stage = .wait → ∀ c ∈ looksFor s.mode, s.shared.holds c = true →
      s.shared.wakePending = true ∨ .wakeReactor ∈ s.work) := by
  have hs := sound_of_reachable hr
  refine ⟨hs.nodup_queued, fun hopen id cell => hs.woken_entry hopen,
    fun e t id startedAt budget hstep ht hne => hs.begins hstep ht hne, fun hstage c hc => ?_⟩
  refine (delivered_of_reachable hr).due c ?_
  rw [hstage]
  cases hmode : s.mode <;> rw [hmode] at hc <;> exact hc

/-- A task is spawned while the loop waits. It is queued, and the spawn is about to wake the
reactor. -/
theorem spawn_during_wait_not_lost :
    let s := (run Executing.step (.new : Executing Unit)
      [.start .run, .advance 0 (fun _ => true), .advance 0 (fun _ => true),
        .advance 0 (fun _ => true), .advance 0 (fun _ => true), .call (.spawn () none 0),
        .thread 0 0 (fun _ => true), .thread 0 0 (fun _ => true),
        .thread 0 0 (fun _ => true)]).get rfl
    s.shared.tasks.queued = [0] ∧ (s.shared.wakePending = true ∨ .wakeReactor ∈ s.work) := by
  intro s
  have hs := wakeups_never_lost (s := s) (reachable_of_run _ (Option.some_get _).symm)
  exact ⟨rfl, hs.2.2.2 rfl .ready (by decide) rfl⟩

end Sitas.Executor.Interleaving
