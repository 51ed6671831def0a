import Mathlib.Data.List.Nodup
import Sitas.Runtime.ShardExecutor

/-! The ready queue, its flags, the live count and the pending reactor wake of a shard
executor in every interleaving of `run` with wakes. -/
namespace Sitas.Runtime
open Sitas.Lib List

/-- The flags mirror the queue, which holds every task that was woken and not taken. -/
structure Marked (ready : ReadyQueue) (count : Nat) (woken : Nat → Bool) : Prop where
  flags : ∀ i, ready.queued[i]? = some true ↔ i ∈ ready.queue
  nodup : ready.queue.Nodup
  length : ready.queued.length = count
  woken : ∀ i < count, woken i = true → i ∈ ready.queue

namespace Marked
variable {ready : ReadyQueue} {count : Nat} {woken : Nat → Bool}

variable {task : Nat}

section
variable (h : Marked ready count woken)
include h

theorem not_mem_of_queued (hfalse : ready.queued[task]? = some false) : task ∉ ready.queue := by
  intro hmem
  have htrue := (h.flags task).mpr hmem
  rw [hfalse] at htrue
  cases htrue

theorem queued_of_not_mem (htask : task < count) (hnot : task ∉ ready.queue) :
    ready.queued[task]? = some false := by
  have hlt : task < ready.queued.length := h.length.symm ▸ htask
  have hflag : ready.queued[task]? = some ready.queued[task] := getElem?_eq_getElem hlt
  cases hq : ready.queued[task] with
  | false => rw [hflag, hq]
  | true => exact absurd ((h.flags task).mp (by rw [hflag, hq])) hnot

theorem markReady_queue (task : Nat) :
    (ready.markReady task).queue =
      if task < count ∧ task ∉ ready.queue then ready.queue ++ [task] else ready.queue := by
  unfold ReadyQueue.markReady
  split
  next hfalse =>
    have hlt := (List.getElem?_eq_some_iff.mp hfalse).1
    rw [if_pos ⟨h.length ▸ hlt, h.not_mem_of_queued hfalse⟩]
  next hne =>
    rw [if_neg fun hboth => hne (h.queued_of_not_mem hboth.1 hboth.2)]

theorem mem_markReady {i : Nat} (hi : i < count) :
    i ∈ (ready.markReady task).queue ↔ i ∈ ready.queue ∨ i = task := by
  rw [h.markReady_queue]
  split
  · simp
  next hnot =>
    refine ⟨.inl, fun hor => hor.elim id ?_⟩
    rintro rfl
    by_contra hmem
    exact hnot ⟨hi, hmem⟩

theorem markReady (task : Nat) :
    Marked (ready.markReady task) count fun i => if i = task then true else woken i := by
  have hwoken : ∀ i < count, (if i = task then true else woken i) = true →
      i ∈ (ready.markReady task).queue := fun i hi hw => by
    rw [h.mem_markReady hi]
    by_cases hitask : i = task
    · exact .inr hitask
    · rw [if_neg hitask] at hw
      exact .inl (h.woken i hi hw)
  have hqueue := h.markReady_queue task
  unfold ReadyQueue.markReady at hwoken hqueue ⊢
  split at hqueue
  next hfalse =>
    have hlt := (List.getElem?_eq_some_iff.mp hfalse).1
    rw [if_pos hfalse] at hwoken ⊢
    refine ⟨fun i => ?_, ?_, by simpa using h.length, hwoken⟩
    · by_cases hitask : i = task
      · subst hitask
        simp [hlt]
      · simp [getElem?_set_ne (Ne.symm hitask), h.flags, hitask]
    · simpa using Nodup.concat (h.not_mem_of_queued hfalse) h.nodup
  next hne =>
    rw [if_neg hne] at hwoken ⊢
    exact ⟨h.flags, h.nodup, h.length, hwoken⟩

theorem takeReady {rest : ReadyQueue} (htake : ready.takeReady = some (task, rest)) :
    Marked rest count (fun i => if i = task then false else woken i) ∧
      ready.queue = task :: rest.queue := by
  unfold ReadyQueue.takeReady at htake
  split at htake
  · cases htake
  next queue hqueue =>
    cases htake
    have hnodup := h.nodup
    rw [hqueue, nodup_cons] at hnodup
    refine ⟨⟨fun i => ?_, hnodup.2, by simpa using h.length, fun i hi hw => ?_⟩, hqueue⟩
    · by_cases hitask : i = task
      · subst hitask
        simp [getElem?_set, hnodup.1]
      · simp [getElem?_set_ne (Ne.symm hitask), h.flags, hqueue, hitask]
    · by_cases hitask : i = task
      · rw [if_pos hitask] at hw
        cases hw
      · rw [if_neg hitask] at hw
        have hmem := h.woken i hi hw
        rw [hqueue] at hmem
        exact (mem_cons.mp hmem).resolve_left hitask

theorem spawn :
    Marked ((ReadyQueue.mk ready.queue (ready.queued ++ [false])).markReady count) (count + 1)
      fun i => if i = count then true else woken i := by
  have hbound : ∀ i ∈ ready.queue, i < count := fun i hi =>
    h.length ▸ (List.getElem?_eq_some_iff.mp ((h.flags i).mpr hi)).1
  have hnew : (ready.queued ++ [false])[count]? = some false := by
    rw [← h.length, getElem?_concat_length]
  have hset : (ready.queued ++ [false]).set count true = ready.queued ++ [true] := by
    rw [← h.length, set_append_right _ _ (Nat.le_refl _), Nat.sub_self]
    rfl
  simp only [ReadyQueue.markReady, hnew, if_true, hset]
  refine ⟨fun i => ?_, ?_, by simp [h.length], fun i hi hw => ?_⟩
  · rw [mem_append, mem_singleton]
    rcases Nat.lt_trichotomy i count with hlt | rfl | hgt
    · rw [getElem?_append_left (h.length.symm ▸ hlt), h.flags]
      exact ⟨.inl, fun hor => hor.resolve_right (Nat.ne_of_lt hlt)⟩
    · rw [← h.length, getElem?_concat_length]
      simp
    · rw [getElem?_eq_none (by simp [h.length]; omega)]
      refine ⟨fun hnone => ?_, fun hor => ?_⟩
      · cases hnone
      · rcases hor with hmem | heq
        · exact absurd (hbound i hmem) (by omega)
        · omega
  · simpa using Nodup.concat (fun hmem => Nat.lt_irrefl _ (hbound _ hmem)) h.nodup
  · rw [mem_append, mem_singleton]
    by_cases hicount : i = count
    · exact .inr hicount
    · rw [if_neg hicount] at hw
      exact .inl (h.woken i (by omega) hw)

end

end Marked

namespace ShardExecutor
variable {H : Type}

/-- What holds of the executor and its wakers between any two accesses. -/
structure Sound (s : ShardExecutor H) : Prop where
  marked : Marked s.ready s.tasks.length s.woken
  live : s.live = s.unfinished.count true
  taken : ∀ i, s.phase.current = some i → s.tasks[i]? = some false
  waits : s.phase.Blocking → s.ready.queue = [] ∨ s.reactorWoken = true ∨ 0 < s.wakesInProgress
  returned : s.phase = .returned → s.live = 0
  budget : 0 < s.pollBudget

variable {s t : ShardExecutor H}

theorem unfinished_eq (htasks : t.tasks = s.tasks) (hcurrent : t.phase.current = s.phase.current) :
    t.unfinished = s.unfinished := by
  simp only [unfinished, htasks, hcurrent]

theorem unfinished_of_resting (h : s.phase.current = none) : s.unfinished = s.tasks := by
  simp only [unfinished, h]

variable {task polled : Nat} {actions : List (TaskAction H)}

theorem unfinished_of_current (h : s.phase.current = some task) :
    s.unfinished = s.tasks.set task true := by
  simp only [unfinished, h]

theorem Sound.moved (h : Sound s) (hmarked : Marked t.ready t.tasks.length t.woken)
    (htasks : t.tasks = s.tasks) (hlive : t.live = s.live) (hbudget : t.pollBudget = s.pollBudget)
    (hcurrent : t.phase.current = s.phase.current)
    (hwaits : t.phase.Blocking →
      t.ready.queue = [] ∨ t.reactorWoken = true ∨ 0 < t.wakesInProgress)
    (hreturned : t.phase = .returned → t.live = 0) : Sound t where
  marked := hmarked
  live := by rw [hlive, unfinished_eq htasks hcurrent, h.live]
  taken := by rw [htasks, hcurrent]; exact h.taken
  waits := hwaits
  returned := hreturned
  budget := hbudget ▸ h.budget

theorem Sound.running (h : Sound s) (hmarked : Marked t.ready t.tasks.length t.woken)
    (htasks : t.tasks = s.tasks) (hlive : t.live = s.live) (hbudget : t.pollBudget = s.pollBudget)
    (hcurrent : t.phase.current = s.phase.current) (hblock : ¬ t.phase.Blocking)
    (hreturned : t.phase ≠ .returned) : Sound t :=
  h.moved hmarked htasks hlive hbudget hcurrent (fun hb => absurd hb hblock)
    (fun hr => absurd hr hreturned)

theorem sound_start (pollBudget : Nat) : Sound ((new : ShardExecutor H).withPollBudget pollBudget) where
  marked := ⟨fun i => by simp [withPollBudget, new], nodup_nil, rfl, fun i hi => absurd hi (Nat.not_lt_zero i)⟩
  live := rfl
  taken := nofun
  waits := nofun
  returned := nofun
  budget := Nat.lt_of_lt_of_le Nat.zero_lt_one (Nat.le_max_right _ _)

theorem Sound.spawn (h : Sound s) (hphase : s.phase = .idle ∨ s.phase = .returned) :
    Sound s.spawn := by
  have hcurrent : s.phase.current = none := by rcases hphase with h | h <;> rw [h] <;> rfl
  have hlive := h.live
  rw [unfinished_of_resting hcurrent] at hlive
  refine ⟨?_, ?_, nofun, nofun, nofun, h.budget⟩
  · have hlength : s.spawn.tasks.length = s.tasks.length + 1 := length_append
    rw [hlength]
    exact h.marked.spawn
  · rw [unfinished_of_resting rfl]
    simp [ShardExecutor.spawn, ShardExecutor.markReady, hlive]

theorem unfinished_pollTask (task polled : Nat) (actions : List (TaskAction H)) (ready : Bool)
    (hcurrent : s.phase.current = none) :
    (s.pollTask task polled actions ready).unfinished = s.unfinished := by
  rw [unfinished_of_resting hcurrent]
  unfold pollTask
  split
  next hslot =>
    obtain ⟨hlt, heq⟩ := List.getElem?_eq_some_iff.mp hslot
    rw [unfinished_of_current rfl, set_set]
    calc s.tasks.set task true = s.tasks.set task s.tasks[task] := by rw [heq]
      _ = s.tasks := set_getElem_self hlt
  next => rfl

/-- What a turn of the inner loop does: it takes the first task of the queue. -/
theorem poll_cases {ready : Bool} (hst : s.poll actions ready = some t) :
    ∃ polled task queue, s.phase = .polling polled ∧ polled < s.pollBudget ∧
      s.ready.takeReady = some (task, queue) ∧
      t = { s with
        ready := queue
        woken := fun i => if i = task then false else s.woken i
        sinceWait := s.sinceWait + 1 }.pollTask task polled actions ready := by
  unfold ShardExecutor.poll at hst
  split at hst
  next polled hphase =>
    obtain ⟨hlt, hst⟩ := Option.ite_none_right_eq_some.mp hst
    obtain ⟨⟨task, queue⟩, htake, hst⟩ := Option.map_eq_some_iff.mp hst
    exact ⟨polled, task, queue, hphase, hlt, htake, hst.symm⟩
  next => cases hst

theorem Sound.pollTask {ready : Bool} (h : Sound s) (hphase : s.phase = .polling polled) :
    Sound (s.pollTask task polled actions ready) := by
  have hcurrent : s.phase.current = none := by rw [hphase]; rfl
  have hlive := h.live
  rw [← unfinished_pollTask task polled actions ready hcurrent] at hlive
  unfold ShardExecutor.pollTask at hlive ⊢
  split at hlive
  next hslot =>
    rw [if_pos hslot]
    have hlt := (List.getElem?_eq_some_iff.mp hslot).1
    have hmarked := h.marked
    rw [← length_set (i := task) (a := false)] at hmarked
    refine ⟨hmarked, hlive, fun i hi => ?_, False.elim, fun hr => ?_, h.budget⟩
    · cases hi
      exact getElem?_set_self hlt
    · cases hr
  next hslot =>
    rw [if_neg hslot]
    exact h.running h.marked rfl rfl rfl hcurrent.symm id (by simp)

theorem Sound.poll {ready : Bool} (h : Sound s) (hst : s.poll actions ready = some t) :
    Sound t := by
  obtain ⟨polled, task, queue, hphase, -, htake, rfl⟩ := poll_cases hst
  refine Sound.pollTask (h.running (h.marked.takeReady htake).1 rfl rfl rfl rfl ?_ ?_) hphase
  · exact fun hblock => by simp [hphase, RunPhase.Blocking] at hblock
  · exact fun hret => by simp [hphase] at hret

theorem Sound.completed (h : Sound s) (hphase : s.phase.current = some task) :
    Sound { s with live := s.live - 1, phase := .polling polled } := by
  have hslot := h.taken task hphase
  obtain ⟨hlt, heq⟩ := List.getElem?_eq_some_iff.mp hslot
  have hlive := h.live
  rw [unfinished_of_current hphase, count_set hlt, heq] at hlive
  refine ⟨h.marked, ?_, fun i hi => ?_, False.elim, fun hr => ?_, h.budget⟩
  · rw [unfinished_of_resting rfl]
    change s.live - 1 = _
    rw [hlive]
    rfl
  · cases hi
  · cases hr

theorem Sound.pending (h : Sound s) (hphase : s.phase.current = some task) :
    Sound { s with tasks := s.tasks.set task true, phase := .polling polled } := by
  have hmarked := h.marked
  rw [← length_set (i := task) (a := true)] at hmarked
  have hlive := h.live
  rw [unfinished_of_current hphase] at hlive
  refine ⟨hmarked, hlive, fun i hi => ?_, False.elim, fun hr => ?_, h.budget⟩
  · cases hi
  · cases hr

theorem waitReturns_cases {result : Except Bool (List H)} (hst : s.waitReturns result = some t) :
    ∃ read, s.phase = .waiting read ∧
      ((∃ readable, result = .ok readable ∧
          t = { s with reactorWoken := false, phase := .draining readable }) ∨
        ∃ consumed, result = .error consumed ∧
          t = { s with reactorWoken := s.reactorWoken && !consumed, phase := .top }) := by
  unfold ShardExecutor.waitReturns at hst
  split at hst
  next read readable hphase =>
    cases hst
    exact ⟨read, hphase, .inl ⟨readable, rfl, rfl⟩⟩
  next read consumed hphase =>
    cases hst
    exact ⟨read, hphase, .inr ⟨consumed, rfl, rfl⟩⟩
  next => cases hst

theorem Sound.waitReturns {result : Except Bool (List H)} (h : Sound s)
    (hst : s.waitReturns result = some t) : Sound t := by
  obtain ⟨read, hphase, ⟨readable, -, rfl⟩ | ⟨consumed, -, rfl⟩⟩ := waitReturns_cases hst <;>
    exact h.running h.marked rfl rfl rfl (by rw [hphase]; rfl) id (by simp)

variable [DecidableEq H]

theorem Sound.wakeReadable (h : Sound s) {handle : H} {handles : List H}
    (hcurrent : s.phase.current = none) : Sound (s.wakeReadable handle handles) := by
  obtain ⟨task, io, -, heq⟩ | ⟨io, -, heq⟩ | heq := s.wakeReadable_cases handle handles <;> rw [heq]
  · exact h.running (h.marked.markReady task) rfl rfl rfl hcurrent.symm id (by simp)
  · exact h.running h.marked rfl rfl rfl hcurrent.symm id (by simp)
  · exact h.running h.marked rfl rfl rfl hcurrent.symm id (by simp)

theorem Sound.proceed (h : Sound s) (hst : s.proceed = some t) : Sound t := by
  cases proceeds_of_proceed hst with
  | finish hcurrent hlive =>
    exact h.moved h.marked rfl rfl rfl hcurrent.symm False.elim fun _ => hlive
  | wake hphase =>
    exact h.running (h.marked.markReady _) rfl rfl rfl (by rw [hphase]; rfl) id (by simp)
  | complete hphase => exact h.completed (by rw [hphase]; rfl)
  | suspend hphase => exact h.pending (by rw [hphase]; rfl)
  | park hphase hready =>
    have hqueue : s.ready.queue = [] := by simpa [ReadyQueue.hasReady] using hready
    exact h.moved h.marked rfl rfl rfl (by rw [hphase]; rfl) (fun _ => .inl hqueue)
      (fun hr => by cases hr)
  | wait hphase =>
    exact h.moved h.marked rfl rfl rfl (by rw [hphase]; rfl)
      (fun _ => h.waits (by rw [hphase]; trivial)) (fun hr => by cases hr)
  | drain hphase => exact h.wakeReadable (by rw [hphase]; rfl)
  | enter hphase _ | leave hphase _ _ | register hphase | post hphase | again hphase _
  | drained hphase | drainPost hphase =>
    exact h.running h.marked rfl rfl rfl (by rw [hphase]; rfl) id (by simp)

theorem Sound.step {e : ShardEvent H} (h : Sound s) (hst : s.step e = some t) : Sound t := by
  cases e with
  | spawn =>
    obtain ⟨hphase, rfl⟩ := guarded hst
    exact h.spawn hphase
  | run =>
    obtain ⟨hphase, rfl⟩ := guarded hst
    refine h.running h.marked rfl rfl rfl ?_ id (by simp)
    rcases hphase with hphase | hphase <;> rw [hphase] <;> rfl
  | wake task =>
    cases hst
    exact h.moved (h.marked.markReady task) rfl rfl rfl rfl
      (fun _ => .inr (.inr (Nat.succ_pos _))) h.returned
  | post =>
    obtain ⟨_, rfl⟩ := guarded hst
    exact h.moved h.marked rfl rfl rfl rfl (fun _ => .inr (.inl rfl)) h.returned
  | register handle waker =>
    cases hst
    exact h.moved h.marked rfl rfl rfl rfl h.waits h.returned
  | poll actions ready => exact h.poll hst
  | proceed => exact h.proceed hst
  | waited readable | waitFailed consumed => exact h.waitReturns hst

end ShardExecutor

end Sitas.Runtime
