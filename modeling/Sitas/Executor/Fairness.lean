import Mathlib.Data.Nat.Dist
import Sitas.Executor.TaskQueues
import Sitas.Lib.Runs
import Sitas.Lib.VirtualTime

/-! How the scheduling groups share the executor. The operations of the task set, with
the group whose task is being polled, are moves of a scheduler by virtual time. -/
namespace Sitas.Executor
open Sitas.Lib List

/-- The task set and the group whose task is being polled. -/
structure GroupService where
  set : SchedulerTaskSet
  polled : Option Nat

inductive GroupEvent where
  | createSchedulingGroup (shares : Nat)
  | scheduleNew (alive : Nat → Bool) (group task : Nat)
  | scheduleExisting (group task : Nat)
  | nextTask
  | recordTaskPoll (pollDuration : Nat)
  /-- The task taken had been cancelled, and its poll records nothing. -/
  | pollNothing
  | finishTask
  | addSpawner
  | removeSpawner
  | close

namespace GroupService
open SchedulerTaskSet

def start : GroupService := ⟨.new, none⟩

/-- Spawners reject a group without shares. A rejected task leaves the set as it is. -/
def step (s : GroupService) : GroupEvent → Option GroupService
  | .createSchedulingGroup shares =>
    some (if shares = 0 then s else { s with set := (s.set.createSchedulingGroup shares).2 })
  | .scheduleNew alive group task =>
    some { s with set := (s.set.scheduleNew alive group task).toOption.getD s.set }
  | .scheduleExisting group task =>
    some { s with set := (s.set.scheduleExisting group task).toOption.getD s.set }
  | .nextTask =>
    match s.polled, s.set.nextTask with
    | some _, _ => none
    | none, none => some s
    | none, some (_, set) => some ⟨set, (nextGroup s.set.groups).map SchedulerGroup.id⟩
  | .recordTaskPoll pollDuration =>
    s.polled.map fun group => ⟨s.set.recordTaskPoll group pollDuration, none⟩
  | .pollNothing => s.polled.map fun _ => { s with polled := none }
  | .finishTask => some { s with set := s.set.finishTask }
  | .addSpawner => some { s with set := s.set.addSpawner }
  | .removeSpawner => some { s with set := s.set.removeSpawner }
  | .close => some { s with set := s.set.close.2 }

def view (s : GroupService) : VirtualTime Nat := ⟨s.set.virtualRuntimeOf, s.polled⟩

def act (s : GroupService) : GroupEvent → Act Nat
  | .createSchedulingGroup shares => if shares = 0 then .rest else .enter s.set.groups.length
  | .nextTask => (s.set.nextTask.bind fun _ => nextGroup s.set.groups).elim .rest fun g => .pick g.id
  | .recordTaskPoll pollDuration =>
    s.polled.elim .rest fun group => .charge group (s.set.chargeOf group pollDuration)
  | .pollNothing => s.polled.elim .rest .release
  | _ => .rest

structure Valid (s : GroupService) : Prop where
  indexed : s.set.Indexed
  polled : ∀ group, s.polled = some group → group < s.set.groups.length

section Steps
variable {s t : GroupService} {e : GroupEvent}

/-- What is known after an event: the state is valid, the virtual runtimes made the move
that `act` names, and groups appear only where one is created. -/
structure Moved (s : GroupService) (e : GroupEvent) (t : GroupService) : Prop where
  valid : Valid t
  move : VirtualTime.Move s.set.Busy s.view (s.act e) t.view
  length : (∀ shares, e ≠ .createSchedulingGroup shares) →
    t.set.groups.length = s.set.groups.length

variable {set : SchedulerTaskSet} {group : Nat}

private theorem moved_same (h : Valid s) (hact : s.act e = .rest) (hsame : SameClocks s.set set) :
    Moved s e { s with set := set } := by
  refine ⟨⟨hsame.indexed h.indexed, fun group hg => ?_⟩, ?_, fun _ => hsame.length_eq⟩
  · rw [hsame.length_eq]
    exact h.polled group hg
  · rw [hact, VirtualTime.Move, view, hsame.virtualRuntimeOf_eq]
    rfl

private theorem not_busy_length (set : SchedulerTaskSet) : ¬ set.Busy set.groups.length := by
  rintro ⟨g, hg, _⟩
  simp at hg

private theorem moved_createSchedulingGroup {shares : Nat} (h : Valid s) (hshares : shares ≠ 0) :
    Moved s (.createSchedulingGroup shares)
      { s with set := (s.set.createSchedulingGroup shares).2 } := by
  refine ⟨⟨h.indexed.createSchedulingGroup hshares, fun group hg => ?_⟩, ?_,
    fun hne => absurd rfl (hne shares)⟩
  · exact Nat.lt_of_lt_of_le (h.polled group hg) (by simp [createSchedulingGroup])
  · rw [act, if_neg hshares]
    refine ⟨not_busy_length _, fun hg => Nat.lt_irrefl _ (h.polled _ hg),
      s.set.minimumVirtualRuntime, ?_⟩
    rw [view, virtualRuntimeOf_createSchedulingGroup]
    rfl

private theorem moved_nextTask {task : Nat} (h : Valid s) (hfree : s.polled = none)
    (hnext : s.set.nextTask = some (task, set)) :
    Moved s .nextTask ⟨set, (nextGroup s.set.groups).map SchedulerGroup.id⟩ := by
  obtain ⟨g, hg, hbusy, hleast⟩ := h.indexed.nextTask_spec hnext
  have hsame := sameClocks_nextTask hnext
  rw [hg]
  refine ⟨⟨hsame.indexed h.indexed, fun group hgroup => ?_⟩, ?_, fun _ => hsame.length_eq⟩
  · cases hgroup
    rw [hsame.length_eq]
    exact hbusy.lt_length
  · rw [act, hnext, Option.bind_some, hg]
    refine ⟨hfree, hbusy, hleast, ?_⟩
    rw [view, hsame.virtualRuntimeOf_eq]
    rfl

theorem step_moves (h : Valid s) (hst : s.step e = some t) : Moved s e t := by
  cases e with
  | createSchedulingGroup shares =>
    cases hst
    split
    next hzero =>
      exact ⟨h, by rw [act, if_pos hzero]; rfl, fun _ => rfl⟩
    next hshares =>
      exact moved_createSchedulingGroup h hshares
  | scheduleNew alive group task =>
    cases hst
    refine moved_same h rfl ?_
    cases hset : s.set.scheduleNew alive group task with
    | error e => exact sameClocks_of_groups rfl
    | ok set => exact sameClocks_scheduleNew hset
  | scheduleExisting group task =>
    cases hst
    refine moved_same h rfl ?_
    cases hset : s.set.scheduleExisting group task with
    | error e => exact sameClocks_of_groups rfl
    | ok set => exact sameClocks_scheduleExisting hset
  | nextTask =>
    rw [step] at hst
    split at hst <;> cases hst
    next hnone =>
      exact ⟨h, by rw [act, hnone]; rfl, fun _ => rfl⟩
    next hfree hnext =>
      exact moved_nextTask h hfree hnext
  | recordTaskPoll pollDuration =>
    obtain ⟨group, hgroup, rfl⟩ := Option.map_eq_some_iff.mp hst
    refine ⟨⟨h.indexed.recordTaskPoll group pollDuration, nofun⟩, ?_, fun _ => ?_⟩
    · rw [act, hgroup]
      refine ⟨hgroup, ?_⟩
      rw [view, h.indexed.virtualRuntimeOf_recordTaskPoll]
      rfl
    · rw [h.indexed.recordTaskPoll_eq, length_modify]
  | pollNothing =>
    obtain ⟨group, hgroup, rfl⟩ := Option.map_eq_some_iff.mp hst
    refine ⟨⟨h.indexed, nofun⟩, ?_, fun _ => rfl⟩
    rw [act, hgroup]
    exact ⟨hgroup, rfl⟩
  | finishTask | addSpawner | removeSpawner =>
    cases hst
    exact moved_same h rfl (sameClocks_of_groups rfl)
  | close =>
    cases hst
    exact moved_same h rfl (sameClocks_close _)

theorem valid_reachable (h : Reachable step start s) : Valid s :=
  h.invariant ⟨indexed_new, nofun⟩ fun _ _ _ hs _ hst => (step_moves hs hst).valid

/-- The poll that is recorded is long enough for the shares of its group. -/
def Advances (s : GroupService) : GroupEvent → Prop
  | .recordTaskPoll pollDuration => ∀ (group : Nat) (g : SchedulerGroup),
      s.polled = some group → s.set.groups[group]? = some g →
        g.shares ≤ max pollDuration 1 * defaultSchedulingGroupShares
  | _ => True

theorem chargeOf_pos_iff (h : set.Indexed) {g : SchedulerGroup} (hg : set.groups[group]? = some g)
    (pollDuration : Nat) :
    0 < set.chargeOf group pollDuration ↔
      g.shares ≤ max pollDuration 1 * defaultSchedulingGroupShares := by
  rw [chargeOf, hg]
  have hshares := h.shares group g hg
  exact ⟨fun hpos => (Nat.div_pos_iff.mp hpos).2, fun hle => Nat.div_pos hle hshares⟩

theorem virtualRuntime_lt_iff (h : set.Indexed) {g : SchedulerGroup}
    (hg : set.groups[group]? = some g) (pollDuration : Nat) :
    set.virtualRuntimeOf group < (set.recordTaskPoll group pollDuration).virtualRuntimeOf group ↔
      g.shares ≤ max pollDuration 1 * defaultSchedulingGroupShares := by
  rw [h.virtualRuntimeOf_recordTaskPoll, Function.update_self, ← chargeOf_pos_iff h hg]
  omega

private theorem act_spec (s : GroupService) (e : GroupEvent) :
    match s.act e with
    | .release _ => e = .pollNothing
    | .enter _ => ∃ shares, e = .createSchedulingGroup shares
    | .charge group amount => ∃ pollDuration, e = .recordTaskPoll pollDuration ∧
        s.polled = some group ∧ amount = s.set.chargeOf group pollDuration
    | .rest | .pick _ => True := by
  cases e with
  | createSchedulingGroup shares => by_cases h : shares = 0 <;> simp [act, h]
  | nextTask => cases h : s.set.nextTask.bind fun _ => nextGroup s.set.groups <;> simp [act, h]
  | recordTaskPoll d | pollNothing => cases h : s.polled <;> simp [act, h]
  | _ => trivial

/-- From the last creation of a group on, charged polls that advance the virtual runtimes
serve the groups in turn. -/
private theorem serves_of_advances {st : Nat → GroupService} {ev : Nat → GroupEvent} {N : Nat}
    (hvalid : ∀ n, Valid (st n)) (hrun : Forever step st ev)
    (hcharged : ∀ n, ev n ≠ .pollNothing) (hok : ∀ n, (st n).Advances (ev n))
    (hclosed : ∀ n, N ≤ n → ∀ shares, ev n ≠ .createSchedulingGroup shares) :
    VirtualTime.Serves (fun n => (st n).set.Busy) (fun n => (st n).view)
      (fun n => (st n).act (ev n)) N := by
  refine ⟨fun n _ => (step_moves (hvalid n) (hrun n)).2, fun n i _ hact => ?_,
    fun n i hn hact => ?_, fun n i amount _ hact => ?_⟩ <;>
    have hspec := act_spec (st n) (ev n) <;> rw [hact] at hspec
  · exact hcharged n hspec
  · obtain ⟨shares, hcreate⟩ := hspec
    exact hclosed n hn shares hcreate
  · obtain ⟨pollDuration, hrecord, hpolled, rfl⟩ := hspec
    have hadvances := hok n
    rw [hrecord] at hadvances
    have hexists := getElem?_eq_getElem ((hvalid n).polled i hpolled)
    exact (chargeOf_pos_iff (hvalid n).indexed hexists pollDuration).mpr
      (hadvances i _ hpolled hexists)

private theorem groups_length_eq {st : Nat → GroupService} {ev : Nat → GroupEvent} {N : Nat}
    (hvalid : ∀ n, Valid (st n)) (hrun : Forever step st ev)
    (hclosed : ∀ n, N ≤ n → ∀ shares, ev n ≠ .createSchedulingGroup shares) (n : Nat)
    (hn : N ≤ n) : (st n).set.groups.length = (st N).set.groups.length := by
  induction n, hn using Nat.le_induction with
  | base => rfl
  | succ n hn ih => rw [(step_moves (hvalid n) (hrun n)).length (hclosed n hn), ih]

private theorem nextTask_picks (h : Valid s) (hbusy : s.set.Busy group)
    (hst : s.step .nextTask = some t) : s.polled = none ∧ t.polled ≠ none := by
  rw [step] at hst
  split at hst <;> cases hst
  next hnone =>
    exact absurd hnone (nextTask_of_busy hbusy)
  next hfree hnext =>
    obtain ⟨g, hg, _⟩ := h.indexed.nextTask_spec hnext
    rw [hg]
    exact ⟨hfree, nofun⟩

private theorem eq_nextTask_of_polled (hfree : s.polled = none) (hst : s.step e = some t)
    (ht : t.polled = some group) : e = .nextTask := by
  cases e with
  | nextTask => rfl
  | recordTaskPoll pollDuration | pollNothing =>
    rw [step, hfree] at hst
    cases hst
  | createSchedulingGroup shares =>
    cases hst
    split at ht <;> cases hfree.symm.trans ht
  | _ =>
    cases hst
    cases hfree.symm.trans ht

/-- A recorded poll advances the virtual runtime of its group exactly if it is long enough for the
shares, and where all are, a group that stays busy is picked infinitely often. -/
theorem charged_groups_progress (hr : Reachable step start s) :
    (∀ (group : Nat) (g : SchedulerGroup) (pollDuration : Nat), s.set.groups[group]? = some g →
      (s.set.virtualRuntimeOf group <
          (s.set.recordTaskPoll group pollDuration).virtualRuntimeOf group ↔
        g.shares ≤ max pollDuration 1 * defaultSchedulingGroupShares)) ∧
      ∀ (st : Nat → GroupService) (ev : Nat → GroupEvent) (group : Nat),
        st 0 = s → Forever step st ev → (∀ n, ev n ≠ .pollNothing) →
        (∃ N, ∀ n, N ≤ n → ∀ shares, ev n ≠ .createSchedulingGroup shares) →
        (∀ n, (st n).Advances (ev n)) → (∃ N, ∀ n, N ≤ n → (st n).set.Busy group) →
        (∀ n, ∃ m, n ≤ m ∧ ev m = .nextTask) →
        ∀ n, ∃ m, n ≤ m ∧ ev m = .nextTask ∧ (st (m + 1)).polled = some group := by
  refine ⟨fun group g d hg => virtualRuntime_lt_iff (valid_reachable hr).indexed hg d, ?_⟩
  intro st ev group hstart hrun hcharged ⟨N, hclosed⟩ hok ⟨M, hbusy⟩ hpicks n
  have hvalid : ∀ n, Valid (st n) := fun n =>
    valid_reachable (hrun.reach (hstart ▸ hr) (fun _ => trivial) n)
  have hserves := serves_of_advances (N := max N M) hvalid hrun hcharged hok
    fun n hn => hclosed n (by omega)
  have hlength := groups_length_eq (N := max N M) hvalid hrun fun n hn => hclosed n (by omega)
  have hmembers : ∀ n i, max N M ≤ n → (st n).set.Busy i →
      i ∈ Finset.range (st (max N M)).set.groups.length := by
    intro n i hn hi
    rw [Finset.mem_range, ← hlength n hn]
    exact hi.lt_length
  have hviews : ∀ n, ∃ m, n ≤ m ∧ (st m).polled = none ∧ (st (m + 1)).polled ≠ none := by
    intro n
    obtain ⟨m, hm, hev⟩ := hpicks (max n M)
    exact ⟨m, by omega, nextTask_picks (hvalid m) (hbusy m (by omega)) (hev ▸ hrun m)⟩
  obtain ⟨m, hm, hfree, hgroup⟩ := hserves.picked_infinitely_often _ hmembers
    (fun n hn => hbusy n (by omega)) hviews n
  exact ⟨m, hm, eq_nextTask_of_polled hfree (hrun m) hgroup, hgroup⟩

private def requeue (group task : Nat) : List GroupEvent :=
  [.scheduleExisting group task, .nextTask, .recordTaskPoll 1]

private theorem exists_rounds {f : Nat → GroupService} {round : List GroupEvent}
    {P : GroupService → GroupEvent → Prop} (hstart : Reachable step start (f 0))
    (hcycle : ∀ k, run step (f k) round = some (f (k + 1))) (hnext : round[1]? = some .nextTask)
    (hP : ∀ k t e, ∀ r < round.length, run step (f k) (round.take r) = some t →
      round[r]? = some e → P t e) :
    ∃ st ev, st 0 = f 0 ∧ Reachable step start (st 0) ∧ Forever step st ev ∧
      (∀ n, ∃ m, n ≤ m ∧ ev m = .nextTask) ∧ ∀ n, P (st n) (ev n) := by
  have hlength : 1 < round.length := (List.getElem?_eq_some_iff.mp hnext).1
  obtain ⟨st, ev, hrun, hcycles⟩ := exists_forever (Nat.zero_lt_of_lt hlength) hcycle
  have h0 : st 0 = f 0 := by simpa [run] using (hcycles 0).1.symm
  refine ⟨st, ev, h0, h0 ▸ hstart, hrun, fun n => ⟨round.length * n + 1, ?_, ?_⟩, fun n =>
    hP _ _ _ (n % round.length) (Nat.mod_lt n (by omega)) (hcycles n).1 (hcycles n).2⟩
  · have := Nat.le_mul_of_pos_left n (Nat.zero_lt_of_lt hlength)
    omega
  · have hev := (hcycles (round.length * n + 1)).2
    rw [Nat.mul_add_mod, Nat.mod_eq_of_lt hlength, hnext] at hev
    exact (Option.some.inj hev).symm

private def rivals (k : Nat) : GroupService :=
  ⟨⟨[⟨0, 100, 2 * k, 2 * k, 2 * k, [7]⟩, ⟨1, 50, 2 * k, k, k, [8]⟩], [7, 8], true, 1, 2, 0⟩, none⟩

private def rivalRound : List GroupEvent := requeue 0 7 ++ requeue 1 8 ++ requeue 0 7

private theorem rivals_round (k : Nat) :
    run step (rivals k) rivalRound = some (rivals (k + 1)) := by
  simp [rivals, rivalRound, requeue, run, step, scheduleExisting, accepts, groupIndex, push,
    nextTask, nextGroup, before, recordTaskPoll, defaultSchedulingGroupShares, Except.toOption]
  omega

private theorem rivals_busy {k : Nat} {t : GroupService} {r : Nat} (_ : r < 9)
    (hst : run step (rivals k) (rivalRound.take r) = some t) :
    t.set.groups.map (·.shares) = [100, 50] ∧ t.set.Busy 0 ∧ t.set.Busy 1 := by
  match r with
  | 0 | 1 | 2 | 3 | 4 | 5 | 6 | 7 | 8 =>
    simp [rivals, rivalRound, requeue, run, step, scheduleExisting, accepts, groupIndex, push,
      nextTask, nextGroup, before, recordTaskPoll, defaultSchedulingGroupShares,
      Except.toOption] at hst
    subst hst
    simp [Busy]

private theorem rivals_advances {t : GroupService}
    (h : t.set.groups.map (·.shares) = [100, 50]) : t.Advances (.recordTaskPoll 1) := by
  intro group g _ hg
  have hshares : g.shares ∈ t.set.groups.map (·.shares) :=
    mem_map_of_mem (List.mem_of_getElem? hg)
  rw [h] at hshares
  simp only [defaultSchedulingGroupShares]
  rcases mem_cons.mp hshares with h | h
  · omega
  · have := mem_singleton.mp h
    omega

private theorem rivals_parts (k : Nat) (t : GroupService) (e : GroupEvent) (r : Nat) (hr : r < 9)
    (hst : run step (rivals k) (rivalRound.take r) = some t) (hev : rivalRound[r]? = some e) :
    e ≠ .pollNothing ∧ (∀ shares, e ≠ .createSchedulingGroup shares) ∧ t.Advances e ∧
      t.set.Busy 0 ∧ t.set.Busy 1 := by
  have hgroups := rivals_busy hr hst
  match r with
  | 0 | 1 | 3 | 4 | 6 | 7 =>
    cases hev
    exact ⟨nofun, nofun, trivial, hgroups.2⟩
  | 2 | 5 | 8 =>
    cases hev
    exact ⟨nofun, nofun, rivals_advances hgroups.1, hgroups.2⟩

/-- The default group and one of half its shares are both picked infinitely often. -/
theorem rival_groups_progress : ∃ st ev, Reachable step start (st 0) ∧ Forever step st ev ∧
    (st 0).set.virtualRuntimeOf 1 < ((st 0).set.recordTaskPoll 1 1).virtualRuntimeOf 1 ∧
      ∀ group < 2, ∀ n, ∃ m, n ≤ m ∧ ev m = .nextTask ∧ (st (m + 1)).polled = some group := by
  have hreach : Reachable step start (rivals 0) := reachable_of_run [.createSchedulingGroup 50,
    .scheduleNew (fun _ => true) 0 7, .scheduleNew (fun _ => true) 1 8] rfl
  obtain ⟨st, ev, h0, hstart, hrun, hpicks, hparts⟩ :=
    exists_rounds hreach rivals_round rfl rivals_parts
  refine ⟨st, ev, hstart, hrun, ?_, fun group hgroup => ?_⟩
  · exact ((charged_groups_progress hstart).1 1 ⟨1, 50, 0, 0, 0, [8]⟩ 1 (by rw [h0]; rfl)).mpr
      (by decide)
  · have hbusy : ∀ n, (st n).set.Busy group := by
      intro n
      match group with
      | 0 => exact (hparts n).2.2.2.1
      | 1 => exact (hparts n).2.2.2.2
    exact (charged_groups_progress hstart).2 st ev group rfl hrun (fun n => (hparts n).1)
      ⟨0, fun n _ => (hparts n).2.1⟩ (fun n => (hparts n).2.2.1) ⟨0, fun n _ => hbusy n⟩ hpicks

private def starving (k : Nat) : GroupService :=
  ⟨⟨[⟨0, 100, 1, 1, 1, [7]⟩, ⟨1, 4294967295, 0, k, k, [8]⟩], [7, 8], true, 1, 2, 0⟩, none⟩

private theorem reachable_starving : Reachable step start (starving 0) :=
  reachable_of_run [.createSchedulingGroup 4294967295, .scheduleNew (fun _ => true) 0 7, .nextTask,
    .scheduleExisting 0 7, .recordTaskPoll 1, .scheduleNew (fun _ => true) 1 8] rfl

private theorem starving_requeue (k : Nat) :
    run step (starving k) (requeue 1 8) = some (starving (k + 1)) := by
  have hrecord : (starving k).set.recordTaskPoll 1 1 = (starving (k + 1)).set := by
    simp [starving, recordTaskPoll, groupIndex, defaultSchedulingGroupShares]
  exact congrArg (fun set => some (GroupService.mk set none)) hrecord

private theorem starving_parts (k : Nat) (t : GroupService) (e : GroupEvent) (r : Nat) (_ : r < 3)
    (hst : run step (starving k) ((requeue 1 8).take r) = some t)
    (hev : (requeue 1 8)[r]? = some e) : e ≠ .pollNothing ∧ t.set.Busy 0 ∧ t.polled ≠ some 0 := by
  match r with
  | 0 | 1 | 2 =>
    cases hst
    cases hev
    exact ⟨nofun, ⟨_, rfl, nofun⟩, nofun⟩

/-- A group with the largest accepted share count is picked forever while the default group waits.
-/
theorem default_group_starves :
    (starving 0).set.virtualRuntimeOf 1 =
        ((starving 0).set.recordTaskPoll 1 42000000).virtualRuntimeOf 1 ∧
      ∃ st ev, st 0 = starving 0 ∧ Reachable step start (st 0) ∧ Forever step st ev ∧
        (∀ n, ev n ≠ .pollNothing) ∧ (∀ n, ∃ m, n ≤ m ∧ ev m = .nextTask) ∧
        (∀ n, (st n).set.Busy 0) ∧ ∀ n, (st n).polled ≠ some 0 := by
  refine ⟨rfl, ?_⟩
  obtain ⟨st, ev, h0, hstart, hrun, hpicks, hparts⟩ :=
    exists_rounds reachable_starving starving_requeue rfl starving_parts
  exact ⟨st, ev, h0, hstart, hrun, fun n => (hparts n).1, hpicks, fun n => (hparts n).2.1,
    fun n => (hparts n).2.2⟩

def chargesBy (s : GroupService) (group : Nat) (e : GroupEvent) : List Nat :=
  match s.act e with
  | .charge i amount => if i = group then [amount] else []
  | _ => []

def charges (s : GroupService) (group : Nat) : List GroupEvent → List Nat
  | [] => []
  | e :: es => s.chargesBy group e ++ (s.step e).elim [] fun t => t.charges group es

def charged (s : GroupService) (group : Nat) (es : List GroupEvent) : Nat :=
  (s.charges group es).sum

def largestCharge (s : GroupService) (group : Nat) (es : List GroupEvent) : Nat :=
  (s.charges group es).foldr max 0

def Backlogged (s : GroupService) (group : Nat) : List GroupEvent → Prop
  | [] => s.set.Busy group
  | e :: es => s.set.Busy group ∧ (s.step e).elim True fun t => t.Backlogged group es

instance decidableBacklogged (group : Nat) :
    (s : GroupService) → (es : List GroupEvent) → Decidable (s.Backlogged group es)
  | s, [] => inferInstanceAs (Decidable (s.set.Busy group))
  | s, e :: es =>
    have : Decidable ((s.step e).elim True fun t => t.Backlogged group es) :=
      match s.step e with
      | none => .isTrue trivial
      | some t => decidableBacklogged group t es
    inferInstanceAs (Decidable (_ ∧ _))

private theorem virtualRuntimeOf_step (h : Valid s) (hbusy : s.set.Busy group)
    (hst : s.step e = some t) :
    t.set.virtualRuntimeOf group = s.set.virtualRuntimeOf group + (s.chargesBy group e).sum := by
  have hmove := (step_moves h hst).move
  change t.view.clock group = s.view.clock group + _
  rw [chargesBy]
  cases hact : s.act e with
  | rest =>
    rw [hact] at hmove
    rw [hmove]
    rfl
  | pick i =>
    rw [hact] at hmove
    rw [hmove.2.2.2]
    rfl
  | charge i amount =>
    rw [hact] at hmove
    rw [hmove.2]
    by_cases hi : i = group
    · subst hi
      simp
    · simp [hi, Function.update_of_ne (Ne.symm hi)]
  | release i =>
    rw [hact] at hmove
    rw [hmove.2]
    rfl
  | enter i =>
    rw [hact] at hmove
    obtain ⟨hidle, _, value, hw⟩ := hmove
    rw [hw]
    have hi : group ≠ i := fun h => hidle (h ▸ hbusy)
    simp [Function.update_of_ne hi]

private theorem virtualRuntimeOf_run {es : List GroupEvent} (h : Valid s)
    (hbusy : s.Backlogged group es) (hrun : run step s es = some t) :
    t.set.virtualRuntimeOf group = s.set.virtualRuntimeOf group + s.charged group es := by
  induction es generalizing s with
  | nil =>
    cases hrun
    rfl
  | cons e es ih =>
    obtain ⟨u, hu, hrest⟩ := Option.bind_eq_some_iff.mp hrun
    have hlater := hbusy.2
    rw [hu] at hlater
    rw [ih (step_moves h hu).valid hlater hrest, virtualRuntimeOf_step h hbusy.1 hu, charged,
      charged, charges, hu, sum_append, Nat.add_assoc]
    rfl

private theorem within_run {a b gap largest : Nat} {es : List GroupEvent} (h : Valid s)
    (ha : s.Backlogged a es) (hb : s.Backlogged b es) (hle : ∀ c ∈ s.charges a es, c ≤ largest)
    (hwithin : VirtualTime.Within a b gap largest s.view) (hrun : run step s es = some t) :
    VirtualTime.Within a b gap largest t.view := by
  induction es generalizing s with
  | nil =>
    cases hrun
    exact hwithin
  | cons e es ih =>
    obtain ⟨u, hu, hrest⟩ := Option.bind_eq_some_iff.mp hrun
    obtain ⟨hbusya, hlatera⟩ := ha
    obtain ⟨hbusyb, hlaterb⟩ := hb
    rw [charges] at hle
    rw [hu] at hlatera hlaterb hle
    have hmoved := step_moves h hu
    refine ih hmoved.valid hlatera hlaterb (fun c hc => hle c (mem_append_right _ hc)) ?_ hrest
    refine hwithin.move hbusya hbusyb (fun amount hact => ?_) hmoved.move
    exact hle amount (mem_append_left _ (by simp [chargesBy, hact]))

/-- While two groups both have work, what they are charged differs by no more than their virtual
runtimes at the start and the largest single charge of each. -/
theorem charged_dist_le {a b : Nat} {es : List GroupEvent} (hr : Reachable step start s)
    (hrun : run step s es = some t) (ha : s.Backlogged a es) (hb : s.Backlogged b es) :
    Nat.dist (s.charged a es) (s.charged b es) ≤
      Nat.dist (s.set.virtualRuntimeOf a) (s.set.virtualRuntimeOf b) +
        (s.largestCharge a es + s.largestCharge b es) := by
  have hvalid := valid_reachable hr
  have hlargest : ∀ group, ∀ c ∈ s.charges group es, c ≤ s.largestCharge group es :=
    fun group c hc => le_max_of_le hc le_rfl
  have hab := (within_run hvalid ha hb (hlargest a)
    (VirtualTime.within_start s.view a b _) hrun).clock
  have hba := (within_run hvalid hb ha (hlargest b)
    (VirtualTime.within_start s.view b a _) hrun).clock
  simp only [view, virtualRuntimeOf_run hvalid ha hrun, virtualRuntimeOf_run hvalid hb hrun]
    at hab hba
  rw [Nat.dist, Nat.dist]
  omega

end Steps

private def longPoll : List GroupEvent :=
  [.createSchedulingGroup 100, .scheduleExisting 0 7, .scheduleExisting 0 8,
    .scheduleExisting 1 11, .scheduleExisting 1 12, .scheduleExisting 1 13, .scheduleExisting 1 14,
    .nextTask, .recordTaskPoll 1000]

private def shortPolls : List GroupEvent :=
  [.nextTask, .recordTaskPoll 1, .nextTask, .recordTaskPoll 1, .nextTask, .recordTaskPoll 1]

theorem short_polls_dist_le : ∃ s t : GroupService, run step start longPoll = some s ∧
    run step s shortPolls = some t ∧ s.charged 1 shortPolls = 3 ∧
      Nat.dist (s.charged 0 shortPolls) (s.charged 1 shortPolls) ≤
        Nat.dist (s.set.virtualRuntimeOf 0) (s.set.virtualRuntimeOf 1) +
          (s.largestCharge 0 shortPolls + s.largestCharge 1 shortPolls) := by
  let s : GroupService := (run step start longPoll).get rfl
  refine ⟨s, _, rfl, rfl, by decide, ?_⟩
  exact charged_dist_le (s := s) (reachable_of_run longPoll rfl) rfl (by decide) (by decide)

/-- The long poll was charged before the interval, in which the other group is charged more than the
largest single charges allow. -/
theorem short_polls_exceed_largest : ∃ s t : GroupService, run step start longPoll = some s ∧
    run step s shortPolls = some t ∧ s.Backlogged 0 shortPolls ∧ s.Backlogged 1 shortPolls ∧
      s.largestCharge 0 shortPolls + s.largestCharge 1 shortPolls <
        Nat.dist (s.charged 0 shortPolls) (s.charged 1 shortPolls) :=
  ⟨(run step start longPoll).get rfl, _, rfl, rfl, by decide, by decide, by decide⟩

end GroupService
end Sitas.Executor
