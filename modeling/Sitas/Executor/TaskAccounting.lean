import Sitas.Executor.TaskLoop

namespace Sitas.Executor.Interleaving
open Sitas.Lib List Function SchedulerTaskSet Executing Shared TaskState Access

variable {F : Type}

/-- The invariant of the whole executor. The scheduler is closed by dropping the executor,
which is no longer in its loop then. -/
structure Sound (s : Executing F) : Prop where
  tracked : s.shared.tasks.accepting = true → Open s.shared s.stage.focus s.work
  closed : s.shared.tasks.accepting = false → s.shared.tasks.queued = []
  closing : s.dropped = false → s.shared.tasks.accepting = true ∧ Access.close ∉ s.work
  dropped : s.dropped = true → s.stage = .outside

theorem sound_new : Sound (.new : Executing F) :=
  ⟨fun _ => open_new, nofun, fun _ => ⟨rfl, not_mem_nil⟩, nofun⟩

section Sound
variable {s t : Executing F}

theorem sound_of_open (ho : Open t.shared t.stage.focus t.work) (hd : t.dropped = false)
    (hclose : Access.close ∉ t.work) : Sound t := by
  refine ⟨fun _ => ho, fun hc => ?_, fun _ => ⟨ho.counts.accepting, hclose⟩, fun h => ?_⟩
  · cases ho.counts.accepting.symm.trans hc
  · cases hd.symm.trans h

section
variable (h : Sound s)
include h

theorem Sound.running (hstage : s.stage ≠ .outside) :
    Open s.shared s.stage.focus s.work ∧ s.dropped = false ∧ Access.close ∉ s.work := by
  have hd : s.dropped = false := by
    by_contra hne
    exact hstage (h.dropped (Bool.of_not_eq_false hne))
  obtain ⟨haccepting, hclose⟩ := h.closing hd
  exact ⟨h.tracked haccepting, hd, hclose⟩

private theorem Sound.enter {shared : Shared F} {dropped : Bool} {a : Access F}
    (htasks : shared.tasks = s.shared.tasks)
    (ho : s.shared.tasks.accepting = true → Open shared s.stage.focus (a :: s.work))
    (hclose : dropped = false → s.dropped = false ∧ a ≠ .close)
    (hd : dropped = true → s.stage = .outside) :
    Sound ({ s with shared := shared, dropped := dropped }.enter [a]) := by
  have hwork : ({ s with shared := shared, dropped := dropped }.enter [a]).work = s.work ++ [a] := by
    simp [Executing.work, Executing.enter, Calls.due]
  refine ⟨fun hopen => ?_, fun hnot => ?_, fun hnot => ?_, hd⟩
  · rw [hwork]
    exact (ho (htasks ▸ hopen)).perm (perm_append_singleton a s.work).symm
  · have hqueued := h.closed (htasks ▸ hnot)
    rwa [← htasks] at hqueued
  · obtain ⟨hdropped, hne⟩ := hclose hnot
    obtain ⟨haccepting, hmem⟩ := h.closing hdropped
    rw [hwork]
    refine ⟨htasks ▸ haccepting, ?_⟩
    simp [hmem, hne.symm]

theorem Sound.call {call : Call F} (hcall : s.call call = some t) : Sound t := by
  cases call with
  | spawn future panicHandler group | createSchedulingGroup shares | cloneSpawner =>
    obtain ⟨_, rfl⟩ := guarded hcall
    exact h.enter rfl (fun hopen => (h.tracked hopen).cons rfl rfl rfl) (fun hd => ⟨hd, by simp⟩)
      h.dropped
  | wake id | abort id =>
    obtain ⟨hid, rfl⟩ := guarded hcall
    exact h.enter rfl (fun hopen => (h.tracked hopen).refer hid (by simp)) (fun hd => ⟨hd, by simp⟩)
      h.dropped
  | requestStop | wakeRoot root =>
    cases hcall
    exact h.enter rfl (fun hopen => (h.tracked hopen).cons rfl rfl rfl) (fun hd => ⟨hd, by simp⟩)
      h.dropped
  | dropSpawner =>
    obtain ⟨hpos, rfl⟩ := guarded hcall
    refine h.enter rfl (fun hopen => ?_) (fun hd => ⟨hd, by simp⟩) h.dropped
    have ho := h.tracked hopen
    have hspawners := ho.counts.spawners
    refine ⟨ho.tasks.same rfl (fun id => marks_cons_of_ne (by simp [subject])) rfl le_rfl,
      { ho.counts with spawners := ?_ }⟩
    rw [countP_cons_of_pos rfl]
    dsimp only
    omega
  | dropExecutor =>
    rw [Executing.call] at hcall
    split at hcall <;> cases hcall
    rename_i hstage hdropped
    exact h.enter rfl (fun hopen => (h.tracked hopen).cons rfl rfl rfl) (by simp) fun _ => hstage

private theorem Sound.perform {a : Access F} (rest : List (Access F)) {now : Nat}
    {alive : Nat → Bool} (hwork : s.work.Perm (a :: rest))
    (hshared : t.shared = (s.shared.perform now alive a).1)
    (hwork' : t.work.Perm ((s.shared.perform now alive a).2 ++ rest))
    (hfocus : t.stage.focus = s.stage.focus) (hd : t.dropped = s.dropped)
    (hstage : s.stage = .outside → t.stage = .outside) : Sound t := by
  have hclosing : t.dropped = false → s.shared.tasks.accepting = true ∧ a ≠ .close ∧
      Access.close ∉ rest := by
    intro hnot
    obtain ⟨haccepting, hclose⟩ := h.closing (hd ▸ hnot)
    rw [hwork.mem_iff] at hclose
    exact ⟨haccepting, fun ha => hclose (ha ▸ mem_cons_self),
      fun hmem => hclose (mem_cons_of_mem a hmem)⟩
  have hopens : s.shared.tasks.accepting = true → a ≠ .close →
      Open t.shared t.stage.focus t.work := by
    intro haccepting hne
    rw [hshared, hfocus]
    exact (((h.tracked haccepting).perm hwork).perform hne).perm hwork'.symm
  refine ⟨fun hopen => ?_, fun hnot => ?_, fun hnot => ?_, fun hdropped => ?_⟩
  · cases haccepting : s.shared.tasks.accepting with
    | false =>
      have hclosed : (s.shared.perform now alive a).1.tasks.accepting = false :=
        (perform_closed haccepting (h.closed haccepting)).1
      rw [← hshared, hopen] at hclosed
      cases hclosed
    | true =>
      refine hopens haccepting ?_
      rintro rfl
      rw [hshared] at hopen
      cases hopen
  · cases haccepting : s.shared.tasks.accepting with
    | false =>
      rw [hshared]
      exact (perform_closed haccepting (h.closed haccepting)).2
    | true =>
      by_cases hne : a = .close
      · subst hne
        rw [hshared]
        exact queued_close s.shared.tasks
      · cases (hopens haccepting hne).counts.accepting.symm.trans hnot
  · obtain ⟨haccepting, hne, hclose⟩ := hclosing hnot
    refine ⟨(hopens haccepting hne).counts.accepting, ?_⟩
    rw [hwork'.mem_iff, mem_append]
    rintro (hmem | hmem)
    · exact close_notMem_perform hmem
    · exact hclose hmem
  · exact hstage (h.dropped (hd ▸ hdropped))

theorem Sound.thread {i now : Nat} {alive : Nat → Bool} {a : Access F} {rest : List (Access F)}
    (hnext : Calls.next s.calls i = some (a, rest)) : Sound { s with
      shared := (s.shared.perform now alive a).1
      calls := s.calls.set i ((s.shared.perform now alive a).2 ++ rest) } := by
  obtain ⟨hdue, hdue'⟩ := Calls.due_perform hnext
  refine h.perform (s.stage.sections ++ Calls.due (s.calls.set i rest)) ?_ rfl ?_ rfl rfl id
  · exact (hdue.append_left s.stage.sections).trans perm_middle
  · refine ((hdue' _).append_left s.stage.sections).trans ?_
    simpa only [append_assoc] using
      perm_append_comm.append_right (Calls.due (s.calls.set i rest))

private theorem Sound.move (hdropped : s.dropped = false) {root : Nat}
    {rootReady wakePending : Bool} {mode : LoopMode} {stage : Stage F}
    (hfocus : stage.focus = s.stage.focus) (hsections : stage.sections = s.stage.sections) :
    Sound { s with
      shared := { s.shared with root := root, rootReady := rootReady, wakePending := wakePending }
      mode := mode, stage := stage } := by
  obtain ⟨haccepting, hclose⟩ := h.closing hdropped
  have ho := h.tracked haccepting
  rw [work, ← hsections] at ho hclose
  rw [← hfocus] at ho
  exact sound_of_open ⟨⟨ho.tasks.task, ho.tasks.fresh, ho.tasks.group⟩,
    { ho.counts with spawners := ho.counts.spawners }⟩ hdropped hclose

theorem Sound.takeFuture {id budget : Nat} (hstage : s.stage = .popped id budget) (now : Nat) :
    Sound (s.takeFuture now id budget) := by
  obtain ⟨ho, hd, hclose⟩ := h.running (by rw [hstage]; nofun)
  rw [work, hstage] at ho hclose
  obtain ⟨cell, hcell⟩ := ho.exists_popped
  simp only [Executing.takeFuture, hcell]
  cases hf : (cell.state.takeFutureForPoll now).1 with
  | some future => exact sound_of_open (ho.take hcell hf) hd hclose
  | none => exact sound_of_open (ho.discard hcell hf) hd hclose

end

theorem focus_of_resting {stage : Stage F} (h : stage.resting = true) :
    stage.focus = .nothing ∧ stage.sections = [] := by
  cases stage <;> first | exact ⟨rfl, rfl⟩ | cases h

private theorem Sound.finishPoll (h : Sound s) {now : Nat} {after : List (Access F)}
    {finish : Nat → TaskState F Unit → Bool × TaskState F Unit}
    (hfinish : ∀ (shared : Shared F) (id : Nat) (cell : TaskCell F) (d : Nat)
      (work : List (Access F)), Open shared (.polled id) work → shared.cells id = some cell →
      Open (shared.setState id cell (finish d cell.state).2) .nothing
        ((if (finish d cell.state).1 then .finishTask id :: after else []) ++ work))
    (hafter : Access.close ∉ after) (hstep : s.finishPoll now after finish = some t) : Sound t := by
  rw [Executing.finishPoll] at hstep
  split at hstep
  next id startedAt budget hstage =>
    obtain ⟨cell, hcell, heq⟩ := Option.map_eq_some_iff.mp hstep
    subst heq
    obtain ⟨ho, hd, hclose⟩ := h.running (by rw [hstage]; nofun)
    rw [work, hstage] at ho hclose
    refine sound_of_open (hfinish _ _ _ _ _ ho hcell) hd ?_
    simp only [work, Stage.sections, mem_append]
    rintro (hmem | hmem)
    · split at hmem
      · simp [hafter] at hmem
      · cases hmem
    · exact hclose hmem
  · cases hstep

theorem Sound.polled (h : Sound s) {e : Event F} (he : e.endsPoll = true)
    (hstep : s.step e = some t) : Sound t := by
  cases e with
  | call | thread | advance | start | rootPending | rootEnds | reactor => cases he
  | taskReturns now =>
    rw [step] at hstep
    refine h.finishPoll (fun shared id cell d work ho hcell => ?_) not_mem_nil hstep
    obtain ⟨hl, hpolled⟩ := ho.polling hcell
    obtain ⟨hnext, _⟩ := hl.finishReady hpolled d now
    exact ho.ended hcell hnext rfl fun hq => hq
  | taskPending future now =>
    rw [step] at hstep
    refine h.finishPoll (fun shared id cell d work ho hcell => ?_) (by simp) hstep
    obtain ⟨hl, hpolled⟩ := ho.polling hcell
    obtain ⟨hnext, hresult, hphase⟩ := hl.finishPending hpolled future d now
    cases hr : cell.state.cancelRequested with
    | true =>
      rw [hr, if_pos rfl] at hphase
      have hended := ho.ended hcell hnext (phase_eq_ended.mp hphase)
        (by rw [finishPending_queued]; exact fun hq => hq)
      rw [hresult, hr, if_pos rfl]
      exact (hended.cons (a := .wakeReactor) rfl rfl rfl).perm (List.Perm.swap ..)
    | false =>
      rw [hresult, hr, if_neg Bool.false_ne_true]
      exact ho.pending hcell hr future d now
  | taskPanics now =>
    rw [step] at hstep
    refine h.finishPoll (fun shared id cell d work ho hcell => ?_) not_mem_nil hstep
    obtain ⟨hnext, _⟩ := finishPanicked_ended cell.state d now
    exact ho.ended hcell hnext rfl fun hq => hq

theorem Sound.step (h : Sound s) {e : Event F} (hstep : s.step e = some t) : Sound t := by
  cases steps_of_step hstep with
  | called hcall => exact h.call hcall
  | performed hnext => exact h.thread hnext
  | looped mode stage root rootReady wakePending he hs ht hd =>
    obtain ⟨hfocus, hsections⟩ := focus_of_resting hs
    have hstage : stage.focus = .nothing ∧ stage.sections = [] := by
      rcases ht with ht | rfl
      · exact focus_of_resting ht
      · exact ⟨rfl, rfl⟩
    have hdropped : s.dropped = false := by
      by_cases hout : s.stage = .outside
      · exact hd hout
      · exact (h.running hout).2.1
    exact h.move hdropped (hstage.1.trans hfocus.symm) (hstage.2.trans hsections.symm)
  | exhausted hs =>
    obtain ⟨hfocus, hsections⟩ := focus_of_resting (checks_resting (F := F) s.mode)
    exact h.move (h.running (by rw [hs]; nofun)).2.1 (hfocus.trans (by rw [hs]; rfl))
      (hsections.trans (by rw [hs]; rfl))
  | picked hs hnext =>
    obtain ⟨ho, hd, hclose⟩ := h.running (by rw [hs]; nofun)
    rw [work, hs] at ho hclose
    exact sound_of_open (ho.pop hnext) hd hclose
  | took hs => exact h.takeFuture hs _
  | recorded hs =>
    obtain ⟨ho, hd, hclose⟩ := h.running (by rw [hs]; nofun)
    rw [work, hs] at ho hclose
    refine sound_of_open ?_ hd hclose
    simp only [Executing.recordTaskPoll]
    split
    · exact ho
    · exact ho.recordTaskPoll ..
  | @sectioned now id pollDuration budget alive a sections hs =>
    refine h.perform (sections ++ Calls.due s.calls) ?_ rfl ?_ ?_ rfl ?_
    · rw [Executing.work, hs]
      exact List.Perm.refl _
    · exact List.Perm.of_eq (append_assoc ..)
    · rw [hs]
      rfl
    · intro hout
      cases hs.symm.trans hout
  | polled he hstep => exact h.polled he hstep

theorem sound_of_reachable (hr : Reachable step (.new : Executing F) s) : Sound s :=
  hr.invariant sound_new fun _ _ _ h _ hstep => h.step hstep

end Sound

def Shared.ended (s : Shared F) (id : Nat) : Bool :=
  (s.cells id).any fun cell => cell.state.completed

/-- The accepted tasks on whose behalf `finish_task` has not been invoked. -/
def Shared.unfinished (s : Shared F) : List Nat := s.accepted.filter fun id => id ∉ s.finished

section Accounting
variable {s : Shared F} {focus : Focus} {work : List (Access F)}

theorem Open.finish_eq (h : Open s focus work) {id : Nat} (ha : id ∈ s.accepted) :
    s.finished.count id + work.countP (finishes id) = if s.ended id then 1 else 0 := by
  have hpos := count_pos_iff.mpr ha
  have hle := (h.finished_le id).2
  have hone : s.accepted.count id = 1 := by omega
  have hne : marks s focus work id ≠ .zero := by
    intro hzero
    have hcount : s.accepted.count id = 0 := congrArg Marks.accepted hzero
    omega
  obtain ⟨cell, hcell⟩ := h.tasks.exists_cell hne
  have hfinish := (h.tasks.tracked hcell).finish
  simpa [marks, hone, Shared.ended, hcell] using hfinish

theorem Open.unfinished_length (h : Open s focus work) :
    s.tasks.taskCount = s.unfinished.length := by
  have hnodup : s.accepted.Nodup := nodup_iff_count.mpr fun id => (h.finished_le id).2
  have hfinished : s.finished.Nodup := by
    refine nodup_iff_count.mpr fun id => ?_
    have hle := h.finished_le id
    omega
  have hperm : (s.accepted.filter fun id => id ∈ s.finished).Perm s.finished := by
    refine (perm_ext_iff_of_nodup (hnodup.filter _) hfinished).mpr fun id => ?_
    have hle := (h.finished_le id).1
    simp only [mem_filter, decide_eq_true_eq, and_iff_right_iff_imp]
    intro hmem
    have hpos := count_pos_iff.mpr hmem
    exact count_pos_iff.mp (by omega)
  have hsplit := length_eq_countP_add_countP (fun id => decide (id ∈ s.finished)) (l := s.accepted)
  have hcount := h.counts.taskCount
  have hlength := hperm.length_eq
  rw [← countP_eq_length_filter] at hlength
  simp only [unfinished, ← countP_eq_length_filter]
  simp only [decide_not, decide_eq_true_eq] at hsplit ⊢
  omega

end Accounting

/-- Every end of an accepted task is reported once, by the party that ended it, and the scheduler's
counters agree with this. -/
theorem completion_accounting {s : Executing F} (hr : Reachable Executing.step .new s)
    (hopen : s.shared.tasks.accepting = true) :
    (∀ id ∈ s.shared.accepted, s.shared.finished.count id ≤ 1 ∧
      s.shared.finished.count id + s.work.countP (Access.finishes id) =
        if s.shared.ended id then 1 else 0) ∧
    (∀ id ∉ s.shared.accepted, id ∉ s.shared.finished ∧ .finishTask id ∉ s.work) ∧
    s.shared.tasks.taskCount = s.shared.unfinished.length ∧
    (∀ id, .finishTask id ∈ s.work → 0 < s.shared.tasks.taskCount) ∧
    s.shared.totalCompletedTasks ≤ s.shared.totalSpawnedTasks ∧
    (s.shared.tasks.isDrained = true ↔ s.shared.spawners = 0 ∧ .removeSpawner ∉ s.work ∧
      s.shared.tasks.taskCount = 0 ∧ s.shared.tasks.queued = []) := by
  have ho := (sound_of_reachable hr).tracked hopen
  have hpending : ∀ id, .finishTask id ∈ s.work → 0 < s.work.countP (finishes id) :=
    fun id hmem => countP_pos_iff.mpr ⟨_, hmem, beq_self_eq_true id⟩
  refine ⟨fun id ha => ⟨?_, ho.finish_eq ha⟩, fun id ha => ?_, ho.unfinished_length,
    fun id hmem => ho.taskCount_pos (hpending id hmem), ?_, ?_⟩
  · have hle := ho.finished_le id
    omega
  · have hle := (ho.finished_le id).1
    rw [count_eq_zero.mpr ha] at hle
    refine ⟨count_eq_zero.mp (by omega), fun hmem => ?_⟩
    have hpos := hpending id hmem
    omega
  · have hcount := ho.counts.taskCount
    rw [ho.counts.completed, ho.counts.spawned]
    omega
  · have hspawners := ho.counts.spawners
    have hremoves : s.work.countP removes = 0 ↔ .removeSpawner ∉ s.work := by
      rw [countP_eq_zero]
      refine ⟨fun h hmem => h _ hmem rfl, fun h a hmem ha => h ?_⟩
      cases a <;> first | exact hmem | cases ha
    rw [isDrained, readyQueueLen_eq, ← hremoves]
    simp only [Bool.and_eq_true, beq_iff_eq, length_eq_zero_iff]
    constructor
    · rintro ⟨⟨hqueued, hzero⟩, hcount⟩
      exact ⟨by omega, by omega, hcount, hqueued⟩
    · rintro ⟨hs, hw, hcount, hqueued⟩
      exact ⟨⟨hqueued, by omega⟩, hcount⟩

/-- A task is aborted while it is being polled. The executor thread reports its end. -/
theorem completion_accounting_aborted_in_poll :
    let s := (run Executing.step (.new : Executing Unit)
      [.call (.spawn () none 0), .thread 0 0 (fun _ => true), .thread 0 0 (fun _ => true),
        .thread 0 0 (fun _ => true), .start .run, .advance 0 (fun _ => true),
        .advance 0 (fun _ => true), .call (.abort 0), .thread 1 0 (fun _ => true),
        .taskPending () 1]).get rfl
    s.shared.finished = [] ∧ s.shared.finished.count 0 + s.work.countP (Access.finishes 0) = 1 ∧
      s.shared.tasks.taskCount = s.shared.unfinished.length := by
  intro s
  have hs := completion_accounting (s := s) (reachable_of_run _ (Option.some_get _).symm) rfl
  exact ⟨rfl, (hs.1 0 (mem_singleton.mpr rfl)).2, hs.2.2.1⟩

end Sitas.Executor.Interleaving
