import Sitas.Executor.LoopEffects
import Sitas.Lib.VirtualTime

/-! Tasks in the ready queues are polled in the end. What one step of the run loop does
to the queues is said once; the loop comes back to its ready batch, a group that keeps
work is served again and again, and each time its first task is taken. -/
namespace Sitas.Executor
open Sitas.Lib List SchedulerTaskSet Option

namespace RunLoop
open Scheduler
variable {F : Type} {s t : RunLoop F} {e : LoopEvent F}

def rank : LoopPc → Nat
  | .poll (_ + 1) | .stopped => 0
  | .inTask _ _ (_ + 1) | .inRoot => 1
  | .rootCheck => 2
  | .wait => 3
  | .check => 4
  | .dispatch => 5
  | .timers => 6
  | .poll 0 => 7
  | .inTask _ _ 0 => 8

theorem rank_top (mode : LoopMode) : rank (top mode) ≤ 2 := by
  cases mode <;> decide

theorem pc_step (hst : s.step e = some t) (hd : e.drives = false) : t.pc = s.pc := by
  cases e with
  | pollLeaf leaf now =>
    obtain ⟨r, _, rfl⟩ := map_eq_some_iff.mp hst
    rfl
  | dropLeaf leaf | wake waker now | spawn future panicHandler group now | cloneSpawner | requestStop
  | cancel id =>
    cases hst
    rfl
  | _ => cases hd

theorem not_drives_of_wait (hpc : s.pc = .wait) (hst : s.step e = some t)
    (hreactor : ∀ readable writable completions now, e ≠ .reactor readable writable completions now) :
    e.drives = false := by
  cases e with
  | reactor readable writable completions now => exact absurd rfl (hreactor _ _ _ _)
  | advance now | dispatch completions now | rootPending | rootReturns | rootPanics =>
    rw [step, hpc] at hst
    cases hst
  | taskReturns now | taskPending future now | taskPanics now =>
    rw [step, finishPoll, hpc] at hst
    cases hst
  | _ => rfl

private theorem rank_finishPoll {now : Nat}
    {finish : Nat → TaskState F Unit → Bool × TaskState F Unit}
    (hst : s.finishPoll now finish = some t) : rank t.pc < rank s.pc := by
  rw [finishPoll] at hst
  split at hst
  next id startedAt budget hpc =>
    cases hst
    rw [hpc]
    cases budget <;> exact Nat.lt_succ_self _
  · cases hst

/-- A loop that goes on is about to take a task, stops, or comes closer to taking one. -/
theorem rank_step (hst : s.step e = some t) (hd : e.drives = true) :
    (∃ budget now, s.pc = .poll (budget + 1) ∧ e = .advance now) ∨ t.pc = .stopped ∨
      rank t.pc < rank s.pc := by
  cases e with
  | advance now =>
    rw [step] at hst
    cases hpc : s.pc with
    | rootCheck =>
      rw [hpc, advance] at hst
      split at hst <;> cases hst
      · exact .inr (.inr (Nat.lt_succ_self _))
      · exact .inr (.inr (Nat.succ_pos _))
    | poll budget =>
      cases budget with
      | succ budget => exact .inl ⟨budget, now, rfl, rfl⟩
      | zero =>
        rw [hpc] at hst
        cases hst
        exact .inr (.inr (Nat.lt_succ_self _))
    | timers =>
      rw [hpc] at hst
      cases hst
      exact .inr (.inr (Nat.lt_succ_self _))
    | check =>
      rw [hpc, advance] at hst
      split at hst
      · cases hst
        exact .inr (.inl rfl)
      · split at hst <;> cases hst
        · exact .inr (.inr (Nat.lt_of_le_of_lt (rank_top s.mode) (Nat.le_add_left 3 _)))
        · exact .inr (.inr (Nat.lt_succ_self _))
    | inRoot | inTask id startedAt budget | dispatch | wait | stopped =>
      rw [hpc] at hst
      cases hst
  | dispatch completions now | rootPending =>
    rw [step] at hst
    split at hst <;> cases hst
    rename_i hpc
    rw [hpc]
    exact .inr (.inr (Nat.lt_succ_self _))
  | reactor readable writable completions now =>
    rw [step] at hst
    split at hst <;> cases hst
    rename_i hpc
    rw [hpc]
    exact .inr (.inr (Nat.lt_of_le_of_lt (rank_top s.mode) (Nat.le_add_left 3 _)))
  | rootReturns | rootPanics =>
    rw [step] at hst
    split at hst <;> cases hst
    exact .inr (.inl rfl)
  | taskReturns now | taskPending future now | taskPanics now =>
    rw [step] at hst
    exact .inr (.inr (rank_finishPoll hst))
  | _ => cases hd

theorem took_of_poll (h : Valid s) {budget now group : Nat} (hpc : s.pc = .poll (budget + 1))
    (hbusy : s.scheduler.tasks.Busy group) (hst : s.step (.advance now) = some t) :
    ∃ id, Took s t id := by
  obtain ⟨r, hr⟩ := ne_none_iff_exists'.mp (nextTask_of_busy hbusy)
  rw [step, hpc] at hst
  cases hst
  exact ⟨r.1, (took_pollNext h (by rw [hpc]; rfl) hr now budget).2⟩

def picked (s : RunLoop F) : Option Nat :=
  s.pc.polled.bind fun id => (s.scheduler.cells id).map TaskCell.group

def view (s : RunLoop F) : VirtualTime Nat := ⟨s.scheduler.tasks.virtualRuntimeOf, s.picked⟩

/-- The poll that ends is long enough for the shares of its group to advance the virtual
runtime. -/
def Charged (s : RunLoop F) (e : LoopEvent F) : Prop :=
  ∀ (id startedAt budget now : Nat) (cell : TaskCell F) (g : SchedulerGroup),
    s.pc = .inTask id startedAt budget → e.finishedAt = some now →
    s.scheduler.cells id = some cell → s.scheduler.tasks.groups[cell.group]? = some g →
      g.shares ≤ max (now - startedAt) 1 * defaultSchedulingGroupShares

theorem charged_of_not_finished (h : e.finishedAt = none) : s.Charged e := by
  intro id startedAt budget now cell g _ htime
  cases h.symm.trans htime

section Moves

theorem picked_of_idle (h : s.pc.polled = none) : s.picked = none := by
  rw [picked, h]
  rfl

theorem picked_of_polled {id : Nat} {cell : TaskCell F} (h : s.pc.polled = some id)
    (hcell : s.scheduler.cells id = some cell) : s.picked = some cell.group := by
  rw [picked, h, bind_some, hcell]
  rfl

private theorem picked_kept {c : Prop} (h : Valid s) (hk : Kept c s.scheduler t.scheduler)
    (hp : t.pc.polled = s.pc.polled) : t.picked = s.picked := by
  cases hs : s.pc.polled with
  | none => rw [picked_of_idle hs, picked_of_idle (hp.trans hs)]
  | some id =>
    obtain ⟨cell, hcell, _⟩ := map_eq_some_iff.mp ((h.polling id).mpr hs)
    obtain ⟨next, hnext, hgroup⟩ := hk.cells id cell hcell
    rw [picked_of_polled hs hcell, picked_of_polled (hp.trans hs) hnext, hgroup]

theorem Took.group {id : Nat} (h : Valid s) (ht : Took s t id) :
    ∃ g, nextGroup s.scheduler.tasks.groups = some g ∧
      s.scheduler.tasks.queueOf g.id = id :: t.scheduler.tasks.queueOf g.id ∧
      (∀ i, i ≠ g.id → t.scheduler.tasks.queueOf i = s.scheduler.tasks.queueOf i) ∧
      (t.pc.polled = some id → t.picked = some g.id) := by
  obtain ⟨g, hg, hhead, hothers⟩ := h.sound.indexed.queueOf_nextTask ht.next
  refine ⟨g, hg, hhead, hothers, fun hpolled => ?_⟩
  have hmem : id ∈ s.scheduler.tasks.queueOf g.id := by
    rw [hhead]
    exact mem_cons_self
  obtain ⟨cell, hcell, hgroup⟩ := h.sound.placed g.id id hmem
  obtain ⟨next, hnext, hsame⟩ := ht.cells id cell hcell
  rw [picked_of_polled hpolled hnext, hsame, hgroup]

theorem exists_move (h : Valid s) (heff : Effect s e t) (hc : s.Charged e) :
    ∃ act, VirtualTime.Move s.scheduler.tasks.Busy s.view act t.view ∧
      (∀ i, act ≠ .release i) ∧ (∀ i, act ≠ .enter i) ∧
      ∀ i amount, act = .charge i amount → 0 < amount := by
  cases heff with
  | kept hk hp =>
    refine ⟨.rest, ?_, nofun, nofun, nofun⟩
    rw [VirtualTime.Move, view, hk.clocks.virtualRuntimeOf_eq, picked_kept h hk hp, view]
  | took id ht =>
    obtain ⟨g, hg, _, _, hpicked⟩ := ht.group h
    have hclocks := sameClocks_nextTask ht.next
    have hidle := picked_of_idle ht.idle
    rcases ht.outcome with hlive | ⟨hdead, _⟩
    · refine ⟨.pick g.id, ?_, nofun, nofun, nofun⟩
      obtain ⟨k, hk, hbusy, hleast⟩ := h.sound.indexed.nextTask_spec ht.next
      cases hg.symm.trans hk
      refine ⟨hidle, hbusy, hleast, ?_⟩
      rw [view, hclocks.virtualRuntimeOf_eq, hpicked hlive]
      rfl
    · refine ⟨.rest, ?_, nofun, nofun, nofun⟩
      rw [VirtualTime.Move, view, hclocks.virtualRuntimeOf_eq, picked_of_idle hdead, view, hidle]
  | finished id startedAt budget now cell hpc htime hf =>
    have hexists := getElem?_eq_getElem (h.sound.grouped id cell hf.found)
    have hadvances := hc id startedAt budget now cell _ hpc htime hf.found hexists
    refine ⟨.charge cell.group (s.scheduler.tasks.chargeOf cell.group (now - startedAt)), ?_, nofun,
      nofun, fun i amount heq => ?_⟩
    · refine ⟨picked_of_polled hf.polled hf.found, ?_⟩
      rw [view, picked_of_idle hf.idle,
        (sameClocks_of_groups hf.groups).virtualRuntimeOf_eq,
        h.sound.indexed.virtualRuntimeOf_recordTaskPoll]
      rfl
    · cases heq
      rw [chargeOf, hexists]
      exact Nat.div_pos hadvances (h.sound.indexed.shares _ _ hexists)

theorem length_step (h : Valid s) (heff : Effect s e t) :
    t.scheduler.tasks.groups.length = s.scheduler.tasks.groups.length := by
  cases heff with
  | kept hk _ => exact hk.clocks.length_eq
  | took id ht => exact (sameClocks_nextTask ht.next).length_eq
  | finished id startedAt budget now cell _ _ hf =>
    rw [hf.groups, h.sound.indexed.recordTaskPoll_eq, length_modify]

theorem queue_step (h : Valid s) (heff : Effect s e t) (group : Nat) :
    (s.scheduler.tasks.queueOf group <+: t.scheduler.tasks.queueOf group ∧
      (s.picked = none → t.picked ≠ some group)) ∨
    ∃ id, Took s t id ∧
      s.scheduler.tasks.queueOf group = id :: t.scheduler.tasks.queueOf group := by
  cases heff with
  | kept hk hp =>
    refine .inl ⟨hk.queues group, fun hnone => ?_⟩
    rw [picked_kept h hk hp, hnone]
    nofun
  | took id ht =>
    obtain ⟨g, _, hhead, hothers, hpicked⟩ := ht.group h
    by_cases hgroup : group = g.id
    · subst hgroup
      exact .inr ⟨id, ht, hhead⟩
    · refine .inl ⟨?_, fun _ => ?_⟩
      · exact ⟨[], by rw [append_nil, hothers group hgroup]⟩
      · rcases ht.outcome with hlive | ⟨hdead, _⟩
        · rw [hpicked hlive]
          exact fun heq => hgroup (some.inj heq).symm
        · rw [picked_of_idle hdead]
          nofun
  | finished id startedAt budget now cell _ _ hf =>
    refine .inl ⟨?_, fun _ => ?_⟩
    · refine ⟨[], ?_⟩
      rw [append_nil, queueOf_of_groups hf.groups,
        h.sound.indexed.queueOf_recordTaskPoll]
    · rw [picked_of_idle hf.idle]
      nofun

/-- A queued task that is not taken stays queued and comes no further behind. It comes
forward when its group is picked. -/
theorem position_step (h : Valid s) (heff : Effect s e t) {id group : Nat}
    (hid : id ∈ s.scheduler.tasks.queueOf group) (hnot : ¬ Took s t id) :
    id ∈ t.scheduler.tasks.queueOf group ∧
      (t.scheduler.tasks.queueOf group).idxOf id ≤ (s.scheduler.tasks.queueOf group).idxOf id ∧
      (s.picked = none → t.picked = some group →
        (t.scheduler.tasks.queueOf group).idxOf id < (s.scheduler.tasks.queueOf group).idxOf id) := by
  rcases queue_step h heff group with ⟨⟨rest, hrest⟩, hpicked⟩ | ⟨other, ht, hhead⟩
  · rw [← hrest, idxOf_append_of_mem hid]
    exact ⟨mem_append_left _ hid, le_rfl, fun hnone hsome => absurd hsome (hpicked hnone)⟩
  · have hne : other ≠ id := by
      rintro rfl
      exact hnot ht
    rw [hhead] at hid ⊢
    rw [idxOf_cons_ne _ hne]
    refine ⟨(mem_cons.mp hid).resolve_left hne.symm, Nat.le_succ _, fun _ _ => Nat.lt_succ_self _⟩

theorem Took.ended_lt {id : Nat} (h : Valid s) (ht : Took s t id) (hdead : t.pc.polled = none) :
    t.scheduler.endedEntries < s.scheduler.endedEntries := by
  obtain ⟨hended, hphase⟩ : s.scheduler.phaseOf id = some .ended ∧
      t.scheduler.phaseOf = s.scheduler.phaseOf := by
    rcases ht.outcome with hlive | ⟨_, houtcome⟩
    · cases hdead.symm.trans hlive
    · exact houtcome
  have hperm : s.scheduler.tasks.queued.Perm (id :: t.scheduler.tasks.queued) := by
    refine perm_iff_count.mpr fun other => ?_
    rw [count_cons, ← (h.sound.indexed.taken_nextTask ht.next).count other]
    simp only [beq_iff_eq]
  rw [endedEntries, endedEntries, hphase, hperm.countP_eq, countP_cons,
    if_pos (decide_eq_true hended)]
  exact Nat.lt_succ_self _

theorem ended_step (h : Valid s) (heff : Effect s e t) (hcalm : e.cancels = false)
    (hidle : s.pc.polled = none) (hdead : t.pc.polled = none) :
    t.scheduler.endedEntries ≤ s.scheduler.endedEntries := by
  cases heff with
  | kept hk _ => exact hk.ended hcalm
  | took id ht => exact Nat.le_of_lt (ht.ended_lt h hdead)
  | finished id startedAt budget now cell _ _ hf => cases hidle.symm.trans hf.polled

end Moves

section Progress
variable {lp : Nat → RunLoop F} {le : Nat → LoopEvent F}

theorem valid_forever (h : Valid (lp 0)) (hrun : Forever step lp le) (n : Nat) : Valid (lp n) := by
  induction n with
  | zero => exact h
  | succ n ih => exact (effect_step ih (hrun n)).1

/-- While a group has work, a loop that goes on takes tasks again and again. -/
private theorem takes_infinitely_often (hvalid : ∀ n, Valid (lp n)) (hrun : Forever step lp le)
    (hstay : ∀ n, (lp n).pc ≠ .stopped) (hdrives : ∀ n, ∃ m, n ≤ m ∧ (le m).drives = true)
    {group : Nat} (hbusy : ∀ n, (lp n).scheduler.tasks.Busy group) (n : Nat) :
    ∃ m, n ≤ m ∧ ∃ id, Took (lp m) (lp (m + 1)) id := by
  refine infinitely_often_of_rank (f := fun n => rank (lp n).pc)
    (fun n hn => congrArg rank (pc_step (hrun n) (Bool.eq_false_iff.mpr hn))) (fun n hn => ?_) hdrives n
  rcases rank_step (hrun n) hn with ⟨budget, now, hpc, hev⟩ | hstop | hlt
  · have hst := hrun n
    rw [hev] at hst
    exact .inl (took_of_poll (hvalid n) hpc (hbusy n) hst)
  · exact absurd hstop (hstay (n + 1))
  · exact .inr hlt

/-- Tasks that have ended use up their entries, so that others are polled again and
again. -/
private theorem picks_infinitely_often (hvalid : ∀ n, Valid (lp n))
    (heff : ∀ n, Effect (lp n) (le n) (lp (n + 1))) (hcalm : ∀ n, (le n).cancels = false)
    (htakes : ∀ n, ∃ m, n ≤ m ∧ ∃ id, Took (lp m) (lp (m + 1)) id) (n : Nat) :
    ∃ m, n ≤ m ∧ (lp m).picked = none ∧ (lp (m + 1)).picked ≠ none := by
  by_contra hnever
  have hdead : ∀ m, n ≤ m → ∀ id, Took (lp m) (lp (m + 1)) id → (lp (m + 1)).pc.polled = none := by
    intro m hm id ht
    rcases ht.outcome with hlive | ⟨hdead, _⟩
    · obtain ⟨g, _, _, _, hpicked⟩ := ht.group (hvalid m)
      refine absurd ⟨m, hm, picked_of_idle ht.idle, ?_⟩ hnever
      rw [hpicked hlive]
      nofun
    · exact hdead
  obtain ⟨k, hk, id, htook⟩ := htakes n
  have hidle : ∀ m, k ≤ m → (lp m).pc.polled = none := by
    intro m hm
    induction m, hm using Nat.le_induction with
    | base => exact htook.idle
    | succ m hm ih =>
      cases heff m with
      | kept _ hp => exact hp.trans ih
      | took id ht => exact hdead m (Nat.le_trans hk hm) id ht
      | finished id startedAt budget now cell _ _ hf => exact hf.idle
  refine not_infinitely_often_lt (f := fun m => (lp m).scheduler.endedEntries) (N := k)
    (fun m hm => ended_step (hvalid m) (heff m) (hcalm m) (hidle m hm) (hidle (m + 1) (by omega)))
    fun m => ?_
  obtain ⟨j, hj, id, ht⟩ := htakes (max m k)
  exact ⟨j, by omega, ht.ended_lt (hvalid j) (hidle (j + 1) (by omega))⟩

private theorem serves_forever (hvalid : ∀ n, Valid (lp n))
    (heff : ∀ n, Effect (lp n) (le n) (lp (n + 1))) (hcharged : ∀ n, (lp n).Charged (le n)) :
    ∃ act, VirtualTime.Serves (fun n => (lp n).scheduler.tasks.Busy) (fun n => (lp n).view) act 0 := by
  choose act hmove hrelease henter hpos using
    fun n => exists_move (hvalid n) (heff n) (hcharged n)
  exact ⟨act, fun n _ => hmove n, fun n i _ => hrelease n i, fun n i _ => henter n i,
    fun n i amount _ => hpos n i amount⟩

/-- In every infinite run of the loop in which nothing is cancelled and every poll
advances the virtual runtime of its group, a queued task is taken, provided the loop
goes on for as long as it is not. -/
theorem ready_task_taken (h : Valid (lp 0)) (hrun : Forever step lp le)
    (hstay : ∀ n, (lp n).pc ≠ .stopped) (hcalm : ∀ n, (le n).cancels = false)
    (hcharged : ∀ n, (lp n).Charged (le n)) {id group : Nat}
    (hid : id ∈ (lp 0).scheduler.tasks.queueOf group)
    (hdrives : (∀ n, id ∈ (lp n).scheduler.tasks.queueOf group) →
      ∀ n, ∃ m, n ≤ m ∧ (le m).drives = true) : ∃ n, Took (lp n) (lp (n + 1)) id := by
  by_contra hnever
  have hvalid := valid_forever h hrun
  have heff : ∀ n, Effect (lp n) (le n) (lp (n + 1)) := fun n => (effect_step (hvalid n) (hrun n)).2
  have hnot : ∀ n, ¬ Took (lp n) (lp (n + 1)) id := fun n ht => hnever ⟨n, ht⟩
  have hqueued : ∀ n, id ∈ (lp n).scheduler.tasks.queueOf group := by
    intro n
    induction n with
    | zero => exact hid
    | succ n ih => exact (position_step (hvalid n) (heff n) ih (hnot n)).1
  have hposition := fun n => position_step (hvalid n) (heff n) (hqueued n) (hnot n)
  have hbusy : ∀ n, (lp n).scheduler.tasks.Busy group := fun n =>
    busy_iff.mpr (ne_nil_of_mem (hqueued n))
  have htakes := takes_infinitely_often hvalid hrun hstay (hdrives hqueued) hbusy
  have hpicks := picks_infinitely_often hvalid heff hcalm htakes
  obtain ⟨act, hserves⟩ := serves_forever hvalid heff hcharged
  have hlength : ∀ n, (lp n).scheduler.tasks.groups.length = (lp 0).scheduler.tasks.groups.length := by
    intro n
    induction n with
    | zero => rfl
    | succ n ih => rw [length_step (hvalid n) (heff n), ih]
  have hmembers : ∀ n i, 0 ≤ n → (lp n).scheduler.tasks.Busy i →
      i ∈ Finset.range (lp 0).scheduler.tasks.groups.length := by
    intro n i _ hi
    rw [Finset.mem_range, ← hlength n]
    exact hi.lt_length
  refine not_infinitely_often_lt (f := fun n => ((lp n).scheduler.tasks.queueOf group).idxOf id)
    (N := 0) (fun n _ => (hposition n).2.1) fun n => ?_
  obtain ⟨m, hm, hfree, hpicked⟩ := hserves.picked_infinitely_often _ hmembers (fun n _ => hbusy n)
    hpicks n
  exact ⟨m, hm, (hposition m).2.2 hfree hpicked⟩

end Progress
end RunLoop
end Sitas.Executor
