import Sitas.Executor.Fairness

namespace Sitas.Executor
open Sitas.Lib List SchedulerTaskSet Option

def GroupEvent.isPick : GroupEvent → Bool
  | .nextTask => true
  | _ => false

namespace GroupService
open SchedulerTaskSet
variable {s t u : GroupService} {e : GroupEvent}

def BusyAtPicks (s : GroupService) (group : Nat) : List GroupEvent → Prop
  | [] => True
  | e :: es =>
    (e.isPick = true → s.set.Busy group) ∧ (s.step e).elim True fun t => t.BusyAtPicks group es

instance decidableBusyAtPicks (group : Nat) :
    (s : GroupService) → (es : List GroupEvent) → Decidable (s.BusyAtPicks group es)
  | _, [] => .isTrue trivial
  | s, e :: es =>
    have : Decidable ((s.step e).elim True fun t => t.BusyAtPicks group es) :=
      match s.step e with
      | none => .isTrue trivial
      | some t => decidableBusyAtPicks group t es
    inferInstanceAs (Decidable (_ ∧ _))

private theorem isPick_of_act {i : Nat} (h : s.act e = .pick i) : e.isPick = true := by
  cases e with
  | nextTask => rfl
  | createSchedulingGroup shares =>
    rw [act] at h
    split at h <;> cases h
  | recordTaskPoll pollDuration | pollNothing =>
    rw [act] at h
    cases hp : s.polled <;> rw [hp] at h <;> cases h
  | scheduleNew alive group task | scheduleExisting group task | finishTask | addSpawner
  | removeSpawner | close => cases h

private theorem enter_of_act {i : Nat} (h : s.act e = .enter i) : i = s.set.groups.length := by
  cases e with
  | createSchedulingGroup shares =>
    rw [act] at h
    split at h <;> cases h
    rfl
  | nextTask =>
    rw [act] at h
    cases hn : s.set.nextTask.bind fun _ => nextGroup s.set.groups <;> rw [hn] at h <;> cases h
  | recordTaskPoll pollDuration | pollNothing =>
    rw [act] at h
    cases hp : s.polled <;> rw [hp] at h <;> cases h
  | scheduleNew alive group task | scheduleExisting group task | finishTask | addSpawner
  | removeSpawner | close => cases h

private theorem length_le (h : Valid s) (hst : s.step e = some t) :
    s.set.groups.length ≤ t.set.groups.length := by
  by_cases hcreate : ∃ shares, e = .createSchedulingGroup shares
  · obtain ⟨shares, rfl⟩ := hcreate
    cases hst
    split
    · exact le_rfl
    · simp [createSchedulingGroup]
  · exact Nat.le_of_eq ((step_moves h hst).length fun shares he => hcreate ⟨shares, he⟩).symm

variable {es : List GroupEvent} {group : Nat}

private theorem lag_run {a b bound : Nat} (h : Valid s) (ha : a < s.set.groups.length)
    (hb : b < s.set.groups.length) (hbusy : s.BusyAtPicks b es)
    (hle : ∀ c ∈ s.charges a es, c ≤ bound) (hlag : VirtualTime.Lag a b bound s.view)
    (hrun : run step s es = some t) : VirtualTime.Lag a b bound t.view := by
  induction es generalizing s with
  | nil =>
    cases hrun
    exact hlag
  | cons e es ih =>
    obtain ⟨u, hu, hrest⟩ := bind_eq_some_iff.mp hrun
    obtain ⟨hpick, hlater⟩ := hbusy
    rw [charges] at hle
    rw [hu] at hlater hle
    have hmoved := step_moves h hu
    have hlength := length_le h hu
    refine ih hmoved.valid (ha.trans_le hlength) (hb.trans_le hlength) hlater
      (fun c hc => hle c (mem_append_right _ hc)) ?_ hrest
    refine hlag.move (fun i hi => hpick (isPick_of_act hi)) (fun amount hact => ?_)
      (fun i hi => ?_) hmoved.move
    · exact hle amount (mem_append_left _ (by simp [chargesBy, hact]))
    · rw [enter_of_act hi]
      exact ⟨Nat.ne_of_gt ha, Nat.ne_of_gt hb⟩

theorem charges_append (group : Nat) (es rest : List GroupEvent) (hrun : run step s es = some u) :
    s.charges group (es ++ rest) = s.charges group es ++ u.charges group rest := by
  induction es generalizing s with
  | nil =>
    cases hrun
    rfl
  | cons e es ih =>
    obtain ⟨v, hv, hrest⟩ := bind_eq_some_iff.mp hrun
    simp only [cons_append, charges, hv, elim_some, ih hrest, append_assoc]

theorem BusyAtPicks.of_append {rest : List GroupEvent} (h : s.BusyAtPicks group (es ++ rest)) :
    s.BusyAtPicks group es := by
  induction es generalizing s with
  | nil => trivial
  | cons e es ih =>
    refine ⟨h.1, ?_⟩
    have hlater := h.2
    cases hst : s.step e with
    | none => trivial
    | some t =>
      rw [hst] at hlater
      exact ih hlater

def picksBy (s : GroupService) (group : Nat) : GroupEvent → List Nat
  | .nextTask => s.set.nextTask.elim [] fun (task, _) =>
    if (nextGroup s.set.groups).map SchedulerGroup.id = some group then [task] else []
  | _ => []

def picks (s : GroupService) (group : Nat) : List GroupEvent → List Nat
  | [] => []
  | e :: es => s.picksBy group e ++ (s.step e).elim [] fun t => t.picks group es

def queuesBy (s : GroupService) (group : Nat) : GroupEvent → List Nat
  | .scheduleNew _ g task | .scheduleExisting g task =>
    if g = group ∧ s.set.accepts g = true then [task] else []
  | _ => []

def queues (s : GroupService) (group : Nat) : List GroupEvent → List Nat
  | [] => []
  | e :: es => s.queuesBy group e ++ (s.step e).elim [] fun t => t.queues group es

private theorem step_nextTask (hst : s.step .nextTask = some t) :
    s.set.nextTask = none ∧ t = s ∨ ∃ task set, s.set.nextTask = some (task, set) ∧
      t = ⟨set, (nextGroup s.set.groups).map SchedulerGroup.id⟩ := by
  rw [step] at hst
  split at hst <;> cases hst
  next hnext => exact .inl ⟨hnext, rfl⟩
  next hnext => exact .inr ⟨_, _, hnext, rfl⟩

private theorem queueOf_scheduled {g task : Nat} {next : SchedulerTaskSet}
    {result : Except SpawnError SchedulerTaskSet}
    (hresult : result = if s.set.accepts g then .ok next else .error .closed)
    (hnext : result = .ok next → next.queueOf group =
      if group = g then s.set.queueOf group ++ [task] else s.set.queueOf group) :
    (result.toOption.getD s.set).queueOf group =
      s.set.queueOf group ++ if g = group ∧ s.set.accepts g = true then [task] else [] := by
  by_cases haccepts : s.set.accepts g = true
  · rw [if_pos haccepts] at hresult
    rw [hresult, Except.toOption, getD_some, hnext hresult]
    by_cases hg : g = group
    · simp [hg, hg ▸ haccepts]
    · simp [hg, Ne.symm hg]
  · rw [if_neg haccepts] at hresult
    simp [hresult, Except.toOption, haccepts]

/-- The queue of a group gives up its tasks in order, unless it is cleared. -/
private theorem queueOf_step (group : Nat) (h : Valid s) (hst : s.step e = some t) :
    s.picksBy group e ++ t.set.queueOf group = s.set.queueOf group ++ s.queuesBy group e ∨
      e = .close := by
  have hframe : t.set.groups = s.set.groups → s.picksBy group e = [] → s.queuesBy group e = [] →
      s.picksBy group e ++ t.set.queueOf group = s.set.queueOf group ++ s.queuesBy group e :=
    fun hgroups hpicks hqueues => by
      rw [hpicks, hqueues, queueOf_of_groups hgroups, append_nil, nil_append]
  cases e with
  | createSchedulingGroup shares =>
    cases hst
    refine .inl ?_
    simp only [picksBy, queuesBy, append_nil, nil_append]
    split
    · rfl
    · exact queueOf_createSchedulingGroup s.set shares group
  | scheduleNew alive g task =>
    cases hst
    exact .inl (queueOf_scheduled rfl fun hset => queueOf_scheduleNew hset group)
  | scheduleExisting g task =>
    cases hst
    exact .inl (queueOf_scheduled rfl fun hset => queueOf_scheduleExisting hset group)
  | nextTask =>
    refine .inl ?_
    simp only [queuesBy, append_nil, picksBy]
    rcases step_nextTask hst with ⟨hnext, rfl⟩ | ⟨task, set, hnext, rfl⟩
    · rw [hnext]
      rfl
    · obtain ⟨g, hg, hhead, hothers⟩ := h.indexed.queueOf_nextTask hnext
      rw [hnext, hg, elim_some]
      by_cases hgroup : g.id = group
      · subst hgroup
        simp [hhead]
      · simp [hgroup, hothers group (Ne.symm hgroup)]
  | recordTaskPoll pollDuration =>
    obtain ⟨g, hg, rfl⟩ := map_eq_some_iff.mp hst
    refine .inl ?_
    simp only [picksBy, queuesBy, append_nil, nil_append]
    exact h.indexed.queueOf_recordTaskPoll g pollDuration group
  | pollNothing =>
    obtain ⟨g, hg, rfl⟩ := map_eq_some_iff.mp hst
    exact .inl (hframe rfl rfl rfl)
  | finishTask | addSpawner | removeSpawner =>
    cases hst
    exact .inl (hframe rfl rfl rfl)
  | close => exact .inr rfl

private theorem queueOf_close (set : SchedulerTaskSet) (group : Nat) :
    set.close.2.queueOf group = [] := by
  refine eq_nil_iff_forall_not_mem.mpr fun task hmem => ?_
  have hqueued := mem_queued.mpr ⟨group, hmem⟩
  rw [queued_close] at hqueued
  cases hqueued

private theorem not_accepts (hclosed : s.set.accepting = false) (group : Nat) :
    ¬ s.set.accepts group = true := by
  simp [accepts, hclosed]

private theorem closed_step (hclosed : s.set.accepting = false) (hst : s.step e = some t) :
    t.set.accepting = false := by
  cases e with
  | createSchedulingGroup shares =>
    cases hst
    split <;> exact hclosed
  | scheduleNew alive group task =>
    cases hst
    rw [scheduleNew, if_neg (not_accepts hclosed group)]
    exact hclosed
  | scheduleExisting group task =>
    cases hst
    rw [scheduleExisting, if_neg (not_accepts hclosed group)]
    exact hclosed
  | nextTask =>
    rcases step_nextTask hst with ⟨-, rfl⟩ | ⟨task, set, hnext, rfl⟩
    · exact hclosed
    · rw [nextTask] at hnext
      split at hnext
      · cases hnext
      · obtain ⟨head, -, heq⟩ := map_eq_some_iff.mp hnext
        cases heq
        exact hclosed
  | recordTaskPoll pollDuration =>
    obtain ⟨g, -, rfl⟩ := map_eq_some_iff.mp hst
    rw [recordTaskPoll]
    split <;> exact hclosed
  | pollNothing =>
    obtain ⟨g, -, rfl⟩ := map_eq_some_iff.mp hst
    exact hclosed
  | finishTask | addSpawner | removeSpawner =>
    cases hst
    exact hclosed
  | close =>
    cases hst
    rfl

private theorem closed_run (h : Valid s) (hclosed : s.set.accepting = false)
    (hempty : s.set.queueOf group = []) (hrun : run step s es = some t) :
    s.picks group es = [] ∧ t.set.queueOf group = [] := by
  induction es generalizing s with
  | nil =>
    cases hrun
    exact ⟨rfl, hempty⟩
  | cons e es ih =>
    obtain ⟨u, hu, hrest⟩ := bind_eq_some_iff.mp hrun
    have hstep : s.picksBy group e = [] ∧ u.set.queueOf group = [] := by
      rcases queueOf_step group h hu with hstep | rfl
      · have hqueues : s.queuesBy group e = [] := by
          cases e <;> simp [queuesBy, not_accepts hclosed]
        rw [hempty, hqueues] at hstep
        exact append_eq_nil_iff.mp hstep
      · cases hu
        exact ⟨rfl, queueOf_close s.set group⟩
    obtain ⟨hpicks, hqueue⟩ :=
      ih (step_moves h hu).valid (closed_step hclosed hu) hstep.2 hrest
    rw [picks, hu, elim_some, hpicks, hstep.1]
    exact ⟨rfl, hqueue⟩

theorem picks_prefix (group : Nat) (h : Valid s) (hrun : run step s es = some t) :
    s.picks group es ++ t.set.queueOf group <+: s.set.queueOf group ++ s.queues group es := by
  induction es generalizing s with
  | nil =>
    cases hrun
    rw [picks, queues, append_nil, nil_append]
  | cons e es ih =>
    obtain ⟨u, hu, hrest⟩ := bind_eq_some_iff.mp hrun
    have hvalid := (step_moves h hu).valid
    rw [picks, queues, hu, elim_some, elim_some]
    rcases queueOf_step group h hu with hstep | rfl
    · obtain ⟨rest, hrest⟩ := ih hvalid hrest
      refine ⟨rest, ?_⟩
      calc s.picksBy group e ++ u.picks group es ++ t.set.queueOf group ++ rest
          = s.picksBy group e ++ (u.picks group es ++ t.set.queueOf group ++ rest) := by
            simp only [append_assoc]
        _ = s.picksBy group e ++ (u.set.queueOf group ++ u.queues group es) := by rw [hrest]
        _ = s.picksBy group e ++ u.set.queueOf group ++ u.queues group es := by
            rw [append_assoc]
        _ = s.set.queueOf group ++ (s.queuesBy group e ++ u.queues group es) := by
            rw [hstep, append_assoc]
    · cases hu
      obtain ⟨hpicks, hqueue⟩ := closed_run hvalid rfl (queueOf_close s.set group) hrest
      rw [hpicks, hqueue]
      exact nil_prefix

/-- The virtual runtimes of two groups that have work at every pick differ by no more than at the
start or by the largest single charge to one of them, and the tasks of each group are picked in the
order in which they were queued. -/
theorem lag_le_largest_charge {a b : Nat} (es rest : List GroupEvent)
    (hr : Reachable step start s) (hfree : s.polled = none) (ha : a < s.set.groups.length)
    (hb : b < s.set.groups.length) (hrun : run step s es = some u)
    (hbusya : s.BusyAtPicks a (es ++ rest)) (hbusyb : s.BusyAtPicks b (es ++ rest)) :
    Nat.dist (u.set.virtualRuntimeOf a) (u.set.virtualRuntimeOf b) ≤
      max (Nat.dist (s.set.virtualRuntimeOf a) (s.set.virtualRuntimeOf b))
        (max (s.largestCharge a (es ++ rest)) (s.largestCharge b (es ++ rest))) ∧
    ∀ group, s.picks group es ++ u.set.queueOf group <+:
      s.set.queueOf group ++ s.queues group es := by
  have hvalid := valid_reachable hr
  refine ⟨?_, fun group => picks_prefix group hvalid hrun⟩
  generalize hbound : max (Nat.dist (s.set.virtualRuntimeOf a) (s.set.virtualRuntimeOf b))
    (max (s.largestCharge a (es ++ rest)) (s.largestCharge b (es ++ rest))) = bound
  have hcharges : ∀ group, ∀ c ∈ s.charges group es, c ≤ s.largestCharge group (es ++ rest) :=
    fun group c hc => by
      refine le_max_of_le (a := c) ?_ le_rfl
      rw [charges_append group es rest hrun]
      exact mem_append_left _ hc
  have hstart : ∀ i j, s.set.virtualRuntimeOf i ≤ s.set.virtualRuntimeOf j + bound →
      VirtualTime.Lag i j bound s.view := fun i j hle =>
    ⟨hle, fun hpicked => by cases hfree.symm.trans hpicked⟩
  have hdist : Nat.dist (s.set.virtualRuntimeOf a) (s.set.virtualRuntimeOf b) ≤ bound :=
    hbound ▸ Nat.le_max_left _ _
  rw [Nat.dist] at hdist ⊢
  have hab := (lag_run hvalid ha hb hbusyb.of_append
    (fun c hc => (hcharges a c hc).trans (hbound ▸ by omega)) (hstart a b (by omega)) hrun).clock
  have hba := (lag_run hvalid hb ha hbusya.of_append
    (fun c hc => (hcharges b c hc).trans (hbound ▸ by omega)) (hstart b a (by omega)) hrun).clock
  simp only [view] at hab hba
  omega

private def twoGroups : GroupService :=
  (run step start [.createSchedulingGroup 50, .scheduleExisting 0 7, .scheduleExisting 0 8,
    .scheduleExisting 1 11, .scheduleExisting 1 12]).get rfl

private def alternating : List GroupEvent :=
  [.nextTask, .recordTaskPoll 30, .nextTask, .recordTaskPoll 20]

theorem alternating_polls_lag : ∃ u, run step twoGroups alternating = some u ∧
    Nat.dist (u.set.virtualRuntimeOf 0) (u.set.virtualRuntimeOf 1) = 10 ∧
    twoGroups.picks 0 alternating = [7] ∧ twoGroups.picks 1 alternating = [11] ∧
    Nat.dist (u.set.virtualRuntimeOf 0) (u.set.virtualRuntimeOf 1) ≤
      max (Nat.dist (twoGroups.set.virtualRuntimeOf 0) (twoGroups.set.virtualRuntimeOf 1))
        (max (twoGroups.largestCharge 0 (alternating ++ []))
          (twoGroups.largestCharge 1 (alternating ++ []))) :=
  ⟨_, rfl, by decide, by decide, by decide,
    (lag_le_largest_charge (s := twoGroups) alternating []
      (reachable_of_run _ (some_get _).symm) rfl (by decide) (by decide) rfl (by decide)
      (by decide)).1⟩

end GroupService
end Sitas.Executor
