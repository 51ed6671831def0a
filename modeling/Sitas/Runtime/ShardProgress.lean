import Mathlib.Data.Prod.Lex
import Sitas.Runtime.ShardWakeups

namespace Sitas.Runtime
open Sitas.Lib List

/-- The steps of the executor's own thread inside `run`. -/
def ShardEvent.Own {H : Type} : ShardEvent H → Prop
  | .poll _ _ | .proceed | .waited _ | .waitFailed _ => True
  | _ => False

namespace ShardExecutor
variable {H : Type}

/-- `run` can go on: the wait returns once a wake is pending or it covers a ready handle. -/
def CanGoOn (ready : H → Prop) (s : ShardExecutor H) : Prop :=
  s.phase.InRun ∧ ∀ read, s.phase = .waiting read → s.reactorWoken = true ∨ ∃ h ∈ read, ready h

/-- Neither the executor nor a wake in progress is held up forever. -/
structure Fair (ready : H → Prop) (st : Nat → ShardExecutor H) (ev : Nat → ShardEvent H) : Prop where
  executor : ∀ n, (∀ m ≥ n, CanGoOn ready (st m)) → ∃ m ≥ n, (ev m).Own
  wakes : ∀ n, (∀ m ≥ n, 0 < (st m).wakesInProgress) → ∃ m ≥ n, ev m = .post

def stage (s : ShardExecutor H) : Nat :=
  match s.phase with
  | .polling polled => if polled < s.pollBudget then 0 else 3
  | .top => 1
  | .checkReady => 2
  | .running .. | .posting .. => 4
  | .draining _ | .drainPosting _ => 5
  | .waiting _ => 6
  | .readHandles => 7
  | .idle | .returned => 0

def remaining (s : ShardExecutor H) : Nat :=
  match s.phase with
  | .running _ _ actions _ => 2 * actions.length
  | .posting _ _ actions _ => 2 * actions.length + 1
  | .draining handles => 2 * handles.length
  | .drainPosting handles => 2 * handles.length + 1
  | _ => 0

def turns (task : Nat) (s : ShardExecutor H) : ℕ ×ₗ ℕ ×ₗ ℕ :=
  toLex (s.ready.queue.idxOf task, toLex (s.stage, s.remaining))

variable {s t : ShardExecutor H} {task : Nat}

theorem fair_of_settled {st : Nat → ShardExecutor H} {ev : Nat → ShardEvent H} {ready : H → Prop}
    {k : Nat} (hlast : ∀ n, k ≤ n → st n = t)
    (hphase : t.phase = .returned) (hwakes : t.wakesInProgress = 0) : Fair ready st ev := by
  have hafter : ∀ n, st (n + k) = t := fun n => hlast _ (Nat.le_add_left k n)
  refine ⟨fun n hcan => ?_, fun n hpos => ?_⟩
  · have hinRun := (hcan (n + k) (Nat.le_add_right n k)).1
    rw [hafter] at hinRun
    exact absurd hphase hinRun.2
  · have hpos := hpos (n + k) (Nat.le_add_right n k)
    rw [hafter, hwakes] at hpos
    exact absurd hpos (Nat.lt_irrefl 0)

theorem turns_lt (hindex : t.ready.queue.idxOf task = s.ready.queue.idxOf task)
    (h : t.stage < s.stage ∨ t.stage = s.stage ∧ t.remaining < s.remaining) :
    t.turns task < s.turns task :=
  Prod.Lex.toLex_lt_toLex.mpr (.inr ⟨hindex, Prod.Lex.toLex_lt_toLex.mpr h⟩)

/-- A task that waits for its turn in `run`, with the number of its polls so far. -/
structure Queued (task polls : Nat) (s : ShardExecutor H) : Prop where
  sound : Sound s
  inRun : s.phase.InRun
  mem : task ∈ s.ready.queue
  polls : s.polls.count task = polls

/-- It has been polled once more, or it has completed. -/
def Served (task polls : Nat) (s : ShardExecutor H) : Prop :=
  polls < s.polls.count task ∨ s.unfinished[task]? ≠ some true

variable {polls : Nat}

theorem Sound.live_pos (h : Sound s) (htask : s.unfinished[task]? = some true) : 0 < s.live := by
  rw [h.live]
  exact count_pos_iff.mpr (mem_of_getElem? htask)

theorem idxOf_markReady (h : Sound s) (hmem : task ∈ s.ready.queue) (other : Nat) :
    (s.ready.markReady other).queue.idxOf task = s.ready.queue.idxOf task := by
  rw [h.marked.markReady_queue]
  split
  · rw [idxOf_append, if_pos hmem]
  · rfl

theorem mem_markReady (h : Sound s) (hmem : task ∈ s.ready.queue) (other : Nat) :
    task ∈ (s.ready.markReady other).queue := by
  rw [h.marked.markReady_queue]
  split
  · exact mem_append_left _ hmem
  · exact hmem

section PollTask
variable {other polled : Nat} {actions : List (TaskAction H)} {ready : Bool}

theorem pollTask_ready : (s.pollTask other polled actions ready).ready = s.ready := by
  unfold pollTask
  split <;> rfl

theorem pollTask_inRun : (s.pollTask other polled actions ready).phase.InRun := by
  unfold pollTask
  split <;> simp [RunPhase.InRun]

theorem pollTask_polls_of_ne (hne : other ≠ task) :
    (s.pollTask other polled actions ready).polls.count task = s.polls.count task := by
  unfold pollTask
  split
  · simp [hne]
  · rfl

theorem pollTask_polls_of_slot (hslot : s.tasks[task]? = some true) :
    (s.pollTask task polled actions ready).polls = s.polls ++ [task] := by
  rw [pollTask, if_pos hslot]

end PollTask

section
variable (h : Queued task polls s)
include h

theorem Queued.poll {actions : List (TaskAction H)} {ready : Bool} (hserved : ¬ Served task polls s)
    (hst : s.poll actions ready = some t) :
    Served task polls t ∨ Queued task polls t ∧ t.turns task < s.turns task := by
  have hsound := h.sound.poll hst
  obtain ⟨polled, other, queue, hphase, -, htake, rfl⟩ := poll_cases hst
  obtain ⟨-, hqueue⟩ := h.sound.marked.takeReady htake
  by_cases hother : other = task
  · subst hother
    have hslot : s.tasks[other]? = some true := by
      have hunfinished := not_not.mp (not_or.mp hserved).2
      rwa [unfinished_of_resting (by rw [hphase]; rfl)] at hunfinished
    left; left
    rw [pollTask_polls_of_slot (by exact hslot), count_append, h.polls]
    simp
  · right
    have hmem := h.mem
    rw [hqueue, mem_cons] at hmem
    refine ⟨⟨hsound, pollTask_inRun, ?_, ?_⟩, ?_⟩
    · rw [pollTask_ready]
      exact hmem.resolve_left (Ne.symm hother)
    · rw [pollTask_polls_of_ne hother]
      exact h.polls
    · refine Prod.Lex.toLex_lt_toLex.mpr (.inl ?_)
      rw [pollTask_ready, hqueue, idxOf_cons_ne _ hother]
      exact Nat.lt_succ_self _

theorem Queued.advance (hsound : Sound t) (hrun : t.phase.InRun) (hready : t.ready = s.ready)
    (hpolls : t.polls = s.polls)
    (hlt : t.stage < s.stage ∨ t.stage = s.stage ∧ t.remaining < s.remaining) :
    Queued task polls t ∧ t.turns task < s.turns task :=
  ⟨⟨hsound, hrun, hready ▸ h.mem, hpolls ▸ h.polls⟩, turns_lt (by rw [hready]) hlt⟩

theorem Queued.mark {other : Nat} (hsound : Sound t) (hrun : t.phase.InRun)
    (hready : t.ready = s.ready.markReady other) (hpolls : t.polls = s.polls)
    (hlt : t.stage < s.stage ∨ t.stage = s.stage ∧ t.remaining < s.remaining) :
    Queued task polls t ∧ t.turns task < s.turns task :=
  ⟨⟨hsound, hrun, hready ▸ mem_markReady h.sound h.mem other, hpolls ▸ h.polls⟩,
    turns_lt (by rw [hready, idxOf_markReady h.sound h.mem]) hlt⟩

theorem Queued.waitReturns {result : Except Bool (List H)} (hst : s.waitReturns result = some t) :
    Queued task polls t ∧ t.turns task < s.turns task := by
  have hsound := h.sound.waitReturns hst
  obtain ⟨read, hphase, ⟨readable, -, rfl⟩ | ⟨consumed, -, rfl⟩⟩ := waitReturns_cases hst <;>
    exact h.advance hsound (by simp [RunPhase.InRun]) rfl rfl (.inl (by simp [stage, hphase]))

end

variable [DecidableEq H]

section
variable (h : Queued task polls s)
include h

theorem Queued.wakeReadable {handle : H} {handles : List H}
    (hphase : s.phase = .draining (handle :: handles)) :
    Queued task polls (s.wakeReadable handle handles) ∧
      (s.wakeReadable handle handles).turns task < s.turns task := by
  have hsound : Sound (s.wakeReadable handle handles) := h.sound.wakeReadable (by rw [hphase]; rfl)
  obtain ⟨other, io, -, heq⟩ | ⟨io, -, heq⟩ | heq := s.wakeReadable_cases handle handles <;>
    rw [heq] at hsound ⊢
  · exact h.mark hsound (by simp [RunPhase.InRun]) rfl rfl
      (.inr (by simp [stage, remaining, hphase]; omega))
  all_goals
    exact h.advance hsound (by simp [RunPhase.InRun]) rfl rfl
      (.inr (by simp [stage, remaining, hphase]))

/-- The access of `run` that is next brings the turn of a queued task nearer. -/
theorem Queued.proceed (hlive : 0 < s.live) (hst : s.proceed = some t) :
    Queued task polls t ∧ t.turns task < s.turns task := by
  have hsound := h.sound.proceed hst
  have hready : s.ready.hasReady = true := by
    simp [ReadyQueue.hasReady, ne_nil_of_mem h.mem]
  cases proceeds_of_proceed hst with
  | finish _ hzero => exact absurd hzero (Nat.ne_of_gt hlive)
  | park _ hempty => exact absurd hready (by simp [hempty])
  | enter hphase _ =>
    exact h.advance hsound (by simp [RunPhase.InRun]) rfl rfl
      (.inl (by simp [stage, hphase, h.sound.budget]))
  | leave hphase hend _ =>
    have hover : ¬ _ < s.pollBudget := fun hlt => hend ⟨hlt, hready⟩
    exact h.advance hsound (by simp [RunPhase.InRun]) rfl rfl
      (.inl (by simp [stage, hphase, hover]))
  | wake hphase =>
    exact h.mark hsound (by simp [RunPhase.InRun]) rfl rfl
      (.inr (by simp [stage, remaining, hphase]; omega))
  | complete hphase | suspend hphase =>
    exact h.advance hsound (by simp [RunPhase.InRun]) rfl rfl
      (.inl (by simp [stage, hphase]; split <;> omega))
  | again hphase _ | wait hphase | drained hphase =>
    exact h.advance hsound (by simp [RunPhase.InRun]) rfl rfl (.inl (by simp [stage, hphase]))
  | drain hphase => exact h.wakeReadable hphase
  | register hphase | post hphase | drainPost hphase =>
    exact h.advance hsound (by simp [RunPhase.InRun]) rfl rfl
      (.inr (by simp [stage, remaining, hphase]))

theorem Queued.own {e : ShardEvent H} (hserved : ¬ Served task polls s) (hown : e.Own)
    (hst : s.step e = some t) :
    Served task polls t ∨ Queued task polls t ∧ t.turns task < s.turns task := by
  have hlive : 0 < s.live := h.sound.live_pos (not_not.mp (not_or.mp hserved).2)
  cases e with
  | poll actions ready => exact h.poll hserved hst
  | proceed => exact .inr (h.proceed hlive hst)
  | waited readable | waitFailed consumed => exact .inr (h.waitReturns hst)
  | spawn | run | wake _ | post | register _ _ => exact hown.elim

theorem Queued.other {e : ShardEvent H} (hother : ¬ e.Own) (hst : s.step e = some t) :
    Queued task polls t ∧ t.turns task = s.turns task ∧ t.phase = s.phase ∧
      (s.reactorWoken = true → t.reactorWoken = true) ∧ (e = .post → t.reactorWoken = true) := by
  have hsound := h.sound.step hst
  have hbetween : ¬ (s.phase = .idle ∨ s.phase = .returned) := not_or.mpr h.inRun
  cases e with
  | spawn | run =>
    obtain ⟨hphase, _⟩ := Option.ite_none_right_eq_some.mp hst
    exact absurd hphase hbetween
  | wake other =>
    cases hst
    refine ⟨⟨hsound, h.inRun, mem_markReady h.sound h.mem other, h.polls⟩, ?_, rfl, id, fun he => ?_⟩
    · exact congrArg (fun index => toLex (index, toLex (s.stage, s.remaining)))
        (idxOf_markReady h.sound h.mem other)
    · cases he
  | post =>
    obtain ⟨_, rfl⟩ := guarded hst
    exact ⟨⟨hsound, h.inRun, h.mem, h.polls⟩, rfl, rfl, fun _ => rfl, fun _ => rfl⟩
  | register handle waker =>
    cases hst
    refine ⟨⟨hsound, h.inRun, h.mem, h.polls⟩, rfl, rfl, id, fun he => ?_⟩
    cases he
  | poll _ _ | proceed | waited _ | waitFailed _ => exact absurd trivial hother

end

section Execution
variable {st : Nat → ShardExecutor H} {ev : Nat → ShardEvent H} {ready : H → Prop}

theorem phase_of_others (hrun : Forever step st ev) {n : Nat}
    (hothers : ∀ m ≥ n, Queued task polls (st m) ∧ ¬ (ev m).Own) (m : Nat) (hm : n ≤ m) :
    (st m).phase = (st n).phase := by
  induction m, hm using Nat.le_induction with
  | base => rfl
  | succ m hm ih =>
    obtain ⟨hqueued, hother⟩ := hothers m hm
    exact (hqueued.other hother (hrun m)).2.2.1.trans ih

/-- While a task is queued the executor is not held up: a wait returns for the wake that
came with the task. -/
theorem not_held_up (hrun : Forever step st ev) (hfair : Fair ready st ev) (n : Nat) :
    ¬ ∀ m ≥ n, Queued task polls (st m) ∧ ¬ (ev m).Own := by
  intro hothers
  have hphase := phase_of_others hrun hothers
  have hstays : ∀ k ≥ n, (st k).reactorWoken = true → ∀ m ≥ k, (st m).reactorWoken = true :=
    fun k hk hwoken m hm => by
      induction m, hm using Nat.le_induction with
      | base => exact hwoken
      | succ m hm ih =>
        obtain ⟨hqueued, hother⟩ := hothers m (Nat.le_trans hk hm)
        exact (hqueued.other hother (hrun m)).2.2.2.1 ih
  have hidle : ∀ k ≥ n, ¬ ∀ m ≥ k, CanGoOn ready (st m) := fun k hk hcan => by
    obtain ⟨m, hm, hown⟩ := hfair.executor k hcan
    exact (hothers m (Nat.le_trans hk hm)).2 hown
  have hnever : ∀ k ≥ n, (st k).reactorWoken = false := fun k hk => by
    by_contra hwoken
    refine hidle k hk fun m hm => ⟨(hothers m (Nat.le_trans hk hm)).1.inRun, fun _ _ => .inl ?_⟩
    exact hstays k hk (Bool.not_eq_false _ ▸ hwoken) m hm
  have hwaiting : ∃ read, (st n).phase = .waiting read := by
    by_contra hnot
    push Not at hnot
    refine hidle n (Nat.le_refl n) fun m hm => ⟨(hothers m hm).1.inRun, fun read hread => ?_⟩
    exact absurd ((hphase m hm).symm.trans hread) (hnot read)
  obtain ⟨read, hread⟩ := hwaiting
  have hprogress : ∀ m ≥ n, 0 < (st m).wakesInProgress := fun m hm => by
    have hqueued := (hothers m hm).1
    have hblocking : (st m).phase.Blocking := by rw [hphase m hm, hread]; trivial
    rcases hqueued.sound.waits hblocking with hnil | hwoken | hpos
    · exact absurd hnil (ne_nil_of_mem hqueued.mem)
    · exact absurd hwoken (by rw [hnever m hm]; exact Bool.false_ne_true)
    · exact hpos
  obtain ⟨m, hm, hpost⟩ := hfair.wakes n hprogress
  obtain ⟨hqueued, hother⟩ := hothers m hm
  have hposted := (hqueued.other hother (hrun m)).2.2.2.2 hpost
  exact absurd hposted (by rw [hnever (m + 1) (Nat.le_succ_of_le hm)]; exact Bool.false_ne_true)

theorem Queued.eventually_served (h : Queued task polls (st 0)) (hrun : Forever step st ev)
    (hfair : Fair ready st ev) : ∃ n, Served task polls (st n) := by
  refine exists_goal_of_recurring (Queued task polls) (Served task polls) ShardEvent.Own
    (turns task)
    (fun n hn hserved hown => hn.own hserved hown (hrun n))
    (fun n hn _ hother => .inr ⟨(hn.other hother (hrun n)).1, (hn.other hother (hrun n)).2.1.le⟩)
    (fun n hall => ?_) h
  exact not_held_up hrun hfair n fun m hm => ⟨(hall m hm).1, (hall m hm).2.2⟩

end Execution

/-- In every interleaving flags, queue and live count agree, a wait is entered with no task queued
or a wake on its way, `run` returns with every task completed, and a task woken after it was last
taken comes to be polled again or completes. -/
theorem no_lost_wakeups {pollBudget : Nat}
    (h : Reachable step ((new : ShardExecutor H).withPollBudget pollBudget) s) :
    (∀ i, s.ready.queued[i]? = some true ↔ i ∈ s.ready.queue) ∧
    (∀ i ∈ s.ready.queue, s.ready.queue.count i = 1) ∧
    s.live = s.unfinished.count true ∧
    (∀ i < s.tasks.length, s.woken i = true → i ∈ s.ready.queue ∧
      (s.phase.InRun → ∀ st ev ready, st 0 = s → Forever step st ev → Fair ready st ev →
        ∃ n, s.polls.count i < (st n).polls.count i ∨ (st n).unfinished[i]? ≠ some true)) ∧
    (∀ read, s.phase = .waiting read →
      s.ready.queue = [] ∨ s.reactorWoken = true ∨ 0 < s.wakesInProgress) ∧
    (s.phase = .returned → true ∉ s.unfinished) := by
  have hsound : Sound s := h.invariant (sound_start pollBudget) fun _ _ _ hs _ hst => hs.step hst
  refine ⟨hsound.marked.flags, fun i hi => count_eq_one_of_mem hsound.marked.nodup hi,
    hsound.live, fun i hi hwoken => ?_, fun read hread => ?_, fun hreturned => ?_⟩
  · have hmem := hsound.marked.woken i hi hwoken
    refine ⟨hmem, fun hinRun st ev ready hstart hrun hfair => ?_⟩
    have hqueued : Queued i (s.polls.count i) s := ⟨hsound, hinRun, hmem, rfl⟩
    exact Queued.eventually_served (hstart ▸ hqueued) hrun hfair
  · exact hsound.waits (by rw [hread]; trivial)
  · have hzero := hsound.live.symm.trans (hsound.returned hreturned)
    exact count_eq_zero.mp hzero

/-- Two tasks return pending, and another thread has marked the second one while the executor
is in the wait. -/
private def wokenCalls : List (ShardEvent Nat) :=
  [.register 7 none, .spawn, .spawn, .run, .proceed, .poll [] false, .proceed, .poll [] false,
    .proceed, .proceed, .proceed, .proceed, .waited [], .proceed, .proceed, .proceed, .proceed,
    .proceed, .wake 1]

private def wokenInWait : ShardExecutor Nat :=
  (Lib.run step (new.withPollBudget 2) wokenCalls).get (by decide +kernel)

private def completion : List (ShardEvent Nat) :=
  [.post, .waited [], .proceed, .proceed, .poll [.wake 0] true, .proceed, .proceed, .proceed,
    .poll [] true, .proceed, .proceed]

private def completed : ShardExecutor Nat :=
  (Lib.run step wokenInWait completion).get (by decide +kernel)

theorem woken_in_wait_is_polled : wokenInWait.phase = .waiting [7] ∧
    wokenInWait.reactorWoken = false ∧ wokenInWait.ready.queue = [1] ∧
    ∃ st ev, st 0 = wokenInWait ∧ Forever step st ev ∧ Fair (fun _ => False) st ev ∧
      ∃ n, wokenInWait.polls.count 1 < (st n).polls.count 1 ∨
        (st n).unfinished[1]? ≠ some true := by
  have hallowed : Allowed step (fun _ _ => True) wokenInWait completion :=
    allowed_of_forall completion fun _ _ _ => trivial
  have hcompletes : Lib.run step wokenInWait completion = some completed := (Option.some_get _).symm
  have hstays : step completed (.register 7 none) = some completed := rfl
  obtain ⟨st, ev, hstart, hforever, -, hlast⟩ :=
    exists_forever_of_run completion hallowed hcompletes trivial hstays
  have hfair : Fair (fun _ => False) st ev :=
    fair_of_settled (fun n hn => (hlast n hn).1) (by decide +kernel) (by decide +kernel)
  have hreach : Reachable step (new.withPollBudget 2) wokenInWait :=
    reachable_of_run wokenCalls (Option.some_get _).symm
  have hwoken := (no_lost_wakeups hreach).2.2.2.1 1 (by decide +kernel) (by decide +kernel)
  exact ⟨by decide +kernel, by decide +kernel, by decide +kernel, st, ev, hstart, hforever, hfair,
    hwoken.2 ⟨by decide +kernel, by decide +kernel⟩ st ev _ hstart hforever hfair⟩

end ShardExecutor

end Sitas.Runtime
