import Mathlib.Data.List.Perm.Basic
import Sitas.Runtime.ShardProgress

/-! How often a shard executor consults its reactor. The re-check of the ready queue after
the budget leads back to polling without a wait, so a bound on the polls between two waits
holds for the rounds that leave no task ready. -/
namespace Sitas.Runtime
open Sitas.Lib List

section Interests
variable {H : Type} {io rest : IoInterests H}

theorem swapRemove_perm {α : Type} {entries : List α} {index : Nat} (h : index < entries.length) :
    (swapRemove entries index).Perm (entries.eraseIdx index) := by
  obtain ⟨init, last, rfl⟩ : ∃ init last, entries = init ++ [last] :=
    ⟨_, _, (dropLast_append_getLast (ne_nil_of_length_pos (Nat.zero_lt_of_lt h))).symm⟩
  have hlast : swapRemove (init ++ [last]) index = ((init ++ [last]).set index last).dropLast := by
    simp [swapRemove]
  rw [hlast]
  by_cases hinit : index < init.length
  · rw [set_append_left _ _ hinit, dropLast_concat, eraseIdx_append_of_lt_length hinit]
    exact (set_perm_cons_eraseIdx hinit last).trans (perm_append_singleton last _).symm
  · have hend : index = init.length := by
      rw [length_append, length_singleton] at h
      omega
    subst hend
    rw [eraseIdx_append_of_length_le le_rfl]
    simp

variable [DecidableEq H] {handle : H} {waker : Option Nat}

theorem takeReadable_of_mem (hkeys : (io.map Prod.fst).Nodup) (hmem : (handle, waker) ∈ io) :
    ∃ rest, io.takeReadable handle = some (waker, rest) := by
  unfold IoInterests.takeReadable
  split
  next index hfind =>
    obtain ⟨hlt, hkey, -⟩ := findIdx?_eq_some_iff_getElem.mp hfind
    have heq : io[index] = (handle, waker) :=
      inj_on_of_nodup_map hkeys (getElem_mem hlt) hmem (of_decide_eq_true hkey)
    exact ⟨swapRemove io index, by rw [getElem?_eq_getElem hlt, heq]; rfl⟩
  next hnone =>
    have hkey := findIdx?_eq_none_iff.mp hnone _ hmem
    simp at hkey

theorem takeReadable_rest (htake : io.takeReadable handle = some (waker, rest)) :
    (∀ entry ∈ io, entry.1 ≠ handle → entry ∈ rest) ∧
      ((io.map Prod.fst).Nodup → (rest.map Prod.fst).Nodup) := by
  unfold IoInterests.takeReadable at htake
  split at htake
  next index hfind =>
    obtain ⟨hlt, hkey, -⟩ := findIdx?_eq_some_iff_getElem.mp hfind
    obtain ⟨entry, hentry, heq⟩ := Option.map_eq_some_iff.mp htake
    cases heq
    have hperm := swapRemove_perm hlt
    refine ⟨fun other hother hne => ?_, fun hkeys => ?_⟩
    · have hcons := (getElem_cons_eraseIdx_perm hlt).mem_iff.mpr hother
      refine hperm.mem_iff.mpr ((mem_cons.mp hcons).resolve_left fun hsame => hne ?_)
      rw [hsame]
      exact of_decide_eq_true hkey
    · exact (hperm.map Prod.fst).nodup_iff.mpr (hkeys.sublist ((eraseIdx_sublist io index).map _))
  next => cases htake

theorem registerReadable_keys (hkeys : (io.map Prod.fst).Nodup) :
    ((io.registerReadable handle waker).map Prod.fst).Nodup := by
  unfold IoInterests.registerReadable
  split
  next index hfind =>
    obtain ⟨hlt, hkey, -⟩ := findIdx?_eq_some_iff_getElem.mp hfind
    have hlt' : index < (io.map Prod.fst).length := by rwa [length_map]
    have hsame : (handle, waker).1 = (io.map Prod.fst)[index] := by
      rw [getElem_map]
      exact (of_decide_eq_true hkey).symm
    rw [map_set, hsame, set_getElem_self]
    exact hkeys
  next hnone =>
    rw [map_append, map_singleton, ← concat_eq_append]
    refine Nodup.concat (fun hmem => ?_) hkeys
    obtain ⟨entry, hentry, hkey⟩ := mem_map.mp hmem
    have hne := findIdx?_eq_none_iff.mp hnone entry hentry
    simp [hkey] at hne

theorem mem_registerReadable {entry : H × Option Nat} (hmem : entry ∈ io)
    (hsame : entry.1 = handle → entry.2 = waker) : entry ∈ io.registerReadable handle waker := by
  unfold IoInterests.registerReadable
  split
  next index hfind =>
    obtain ⟨hlt, hkey, -⟩ := findIdx?_eq_some_iff_getElem.mp hfind
    have hcons := (getElem_cons_eraseIdx_perm hlt).mem_iff.mpr hmem
    refine (set_perm_cons_eraseIdx hlt _).mem_iff.mpr (mem_cons.mpr ?_)
    refine (mem_cons.mp hcons).imp_left fun heq => ?_
    have hhandle : entry.1 = handle := by
      rw [heq]
      exact of_decide_eq_true hkey
    exact Prod.ext hhandle (hsame hhandle)
  next => exact mem_append_left _ hmem

end Interests

namespace ShardExecutor
variable {H : Type}

/-- The re-check after a round of polls finds no task ready. -/
def QuietRounds (s : ShardExecutor H) (e : ShardEvent H) : Prop :=
  e = .proceed → s.phase = .checkReady → s.ready.hasReady = false

instance [DecidableEq H] (s : ShardExecutor H) (e : ShardEvent H) : Decidable (QuietRounds s e) :=
  inferInstanceAs (Decidable (_ → _))

def allowance (s : ShardExecutor H) : Nat :=
  match s.phase with
  | .top | .waiting _ | .draining _ | .drainPosting _ => 0
  | .polling polled => polled
  | .running _ polled _ _ | .posting _ polled _ _ => polled + 1
  | .checkReady | .readHandles | .idle | .returned => s.pollBudget

/-- The polls since the last wait are those of the round, which keep to the budget. -/
def Paced (s : ShardExecutor H) : Prop :=
  s.sinceWait ≤ s.allowance ∧ s.allowance ≤ s.pollBudget

variable {s t : ShardExecutor H}

theorem Paced.poll {actions : List (TaskAction H)} {ready : Bool} (h : Paced s)
    (hst : s.poll actions ready = some t) : Paced t := by
  obtain ⟨polled, task, queue, hphase, hlt, -, rfl⟩ := poll_cases hst
  have hbound : s.sinceWait ≤ polled := by simpa [allowance, hphase] using h.1
  unfold pollTask
  split <;> exact ⟨Nat.succ_le_succ hbound, hlt⟩

theorem Paced.waitReturns {result : Except Bool (List H)} (h : Paced s)
    (hst : s.waitReturns result = some t) : Paced t := by
  obtain ⟨read, hphase, ⟨_, -, rfl⟩ | ⟨_, -, rfl⟩⟩ := waitReturns_cases hst <;>
    exact ⟨by simpa [allowance, hphase] using h.1, Nat.zero_le _⟩

variable {handle : H} {task : Nat}

/-- A task is registered for a handle that the next wait of `run` covers. -/
structure Registered (handle : H) (task : Nat) (s : ShardExecutor H) : Prop where
  sound : Sound s
  paced : Paced s
  inRun : s.phase.InRun
  keys : (s.io.map Prod.fst).Nodup
  entry : (handle, some task) ∈ s.io
  spawned : task < s.tasks.length
  covered : ∀ read, s.phase = .waiting read → handle ∈ read

theorem Registered.advance (h : Registered handle task s) (hsound : Sound t) (hpaced : Paced t)
    (hrun : t.phase.InRun) (hio : t.io = s.io) (htasks : t.tasks.length = s.tasks.length)
    (hwait : ∀ read, t.phase ≠ .waiting read) : Registered handle task t :=
  ⟨hsound, hpaced, hrun, hio ▸ h.keys, hio ▸ h.entry, htasks ▸ h.spawned,
    fun read hread => absurd hread (hwait read)⟩

variable [DecidableEq H]

theorem wakeReadable_paced {handles : List H} (hzero : s.sinceWait = 0) :
    Paced (s.wakeReadable handle handles) := by
  obtain ⟨_, _, -, heq⟩ | ⟨_, -, heq⟩ | heq := s.wakeReadable_cases handle handles <;>
    rw [heq] <;> exact ⟨Nat.le_of_eq hzero, Nat.zero_le _⟩

theorem Paced.proceed (h : Paced s) (hquiet : s.phase = .checkReady → s.ready.hasReady = false)
    (hst : s.proceed = some t) : Paced t := by
  obtain ⟨hsince, hallow⟩ := h
  have hbudget := Nat.le_trans hsince hallow
  cases proceeds_of_proceed hst with
  | again hphase hready => exact absurd hready (by simp [hquiet hphase])
  | finish _ _ | leave _ _ _ => exact ⟨hbudget, le_rfl⟩
  | wait _ => exact ⟨Nat.zero_le _, Nat.zero_le _⟩
  | drain hphase => exact wakeReadable_paced (by simpa [allowance, hphase] using hsince)
  | enter hphase _ | wake hphase | register hphase | complete hphase | suspend hphase
  | post hphase | park hphase _ | drained hphase | drainPost hphase =>
    simp only [allowance, hphase] at hsince hallow
    exact ⟨hsince, hallow⟩

theorem Paced.step {e : ShardEvent H} (h : Paced s) (hquiet : QuietRounds s e)
    (hst : s.step e = some t) : Paced t := by
  cases e with
  | spawn =>
    obtain ⟨_, rfl⟩ := guarded hst
    exact ⟨Nat.le_trans h.1 h.2, le_rfl⟩
  | run =>
    obtain ⟨_, rfl⟩ := guarded hst
    exact ⟨Nat.zero_le _, Nat.zero_le _⟩
  | post =>
    obtain ⟨_, rfl⟩ := guarded hst
    exact h
  | wake _ | register _ _ =>
    cases hst
    exact h
  | poll actions ready => exact h.poll hst
  | proceed => exact h.proceed (hquiet rfl) hst
  | waited _ | waitFailed _ => exact h.waitReturns hst

section Intake

/-- A step with a reactor that reports the handle in every wait that covers it and returns
well, and with no waker of another task registered for the handle. -/
def reports (handle : H) (task : Nat) (s : ShardExecutor H) : ShardEvent H → Bool
  | .waited readable =>
    match s.phase with
    | .waiting read => handle ∉ read ∨ handle ∈ readable
    | _ => true
  | .register other waker => handle = other → waker = some task
  | .proceed =>
    match s.phase with
    | .running _ _ (.register other waker :: _) _ => handle = other → waker = some task
    | _ => true
  | _ => true

def intakeStage (handle : H) (s : ShardExecutor H) : Nat :=
  match s.phase with
  | .draining handles | .drainPosting handles => if handle ∈ handles then 0 else 6
  | .waiting _ => 1
  | .readHandles => 2
  | .checkReady => 3
  | .polling _ | .running .. | .posting .. => 4
  | .top => 5
  | .idle | .returned => 0

def roundLeft (s : ShardExecutor H) : Nat :=
  match s.phase with
  | .polling polled => 2 * (s.pollBudget - polled) + 1
  | .running _ polled _ _ | .posting _ polled _ _ => 2 * (s.pollBudget - polled)
  | _ => 0

def intake (handle : H) (s : ShardExecutor H) : ℕ ×ₗ ℕ ×ₗ ℕ :=
  toLex (s.intakeStage handle, toLex (s.roundLeft, s.remaining))

theorem intake_lt (h : t.intakeStage handle < s.intakeStage handle ∨
    t.intakeStage handle = s.intakeStage handle ∧
      (t.roundLeft < s.roundLeft ∨ t.roundLeft = s.roundLeft ∧ t.remaining < s.remaining)) :
    t.intake handle < s.intake handle :=
  Prod.Lex.toLex_lt_toLex.mpr (h.imp id fun h => ⟨h.1, Prod.Lex.toLex_lt_toLex.mpr h.2⟩)

section
variable (h : Registered handle task s)
include h

theorem Registered.poll {actions : List (TaskAction H)} {ready : Bool}
    (hst : s.poll actions ready = some t) :
    Registered handle task t ∧ t.intake handle < s.intake handle := by
  have hsound := h.sound.poll hst
  have hpaced := h.paced.poll hst
  obtain ⟨polled, other, queue, hphase, hlt, -, rfl⟩ := poll_cases hst
  unfold pollTask at hsound hpaced ⊢
  split at hsound
  next hslot =>
    rw [if_pos hslot] at hpaced ⊢
    refine ⟨h.advance hsound hpaced (by simp [RunPhase.InRun]) rfl (length_set ..) (by simp),
      intake_lt (.inr ⟨by simp [intakeStage, hphase], .inl ?_⟩)⟩
    simp [roundLeft, hphase]
  next hslot =>
    rw [if_neg hslot] at hpaced ⊢
    refine ⟨h.advance hsound hpaced (by simp [RunPhase.InRun]) rfl rfl (by simp),
      intake_lt (.inr ⟨by simp [intakeStage, hphase], .inl ?_⟩)⟩
    simp only [roundLeft, hphase]
    omega

theorem Registered.wakeReadable {other : H} {handles : List H}
    (hphase : s.phase = .draining (other :: handles)) :
    task ∈ (s.wakeReadable other handles).ready.queue ∨
      Registered handle task (s.wakeReadable other handles) ∧
        (s.wakeReadable other handles).intake handle < s.intake handle := by
  have hsound : Sound (s.wakeReadable other handles) := h.sound.wakeReadable (by rw [hphase]; rfl)
  have hpaced : Paced (s.wakeReadable other handles) :=
    wakeReadable_paced (by simpa [allowance, hphase] using h.paced.1)
  by_cases hsame : handle = other
  · subst hsame
    obtain ⟨rest, htake⟩ := takeReadable_of_mem h.keys h.entry
    rw [ShardExecutor.wakeReadable, htake]
    exact .inl ((h.sound.marked.mem_markReady h.spawned).mpr (.inr rfl))
  · right
    have hkept : ∀ {waker io}, s.io.takeReadable other = some (waker, io) →
        (io.map Prod.fst).Nodup ∧ (handle, some task) ∈ io := fun htake =>
      ⟨(takeReadable_rest htake).2 h.keys, (takeReadable_rest htake).1 _ h.entry hsame⟩
    obtain ⟨other', io, htake, heq⟩ | ⟨io, htake, heq⟩ | heq :=
      s.wakeReadable_cases other handles <;> rw [heq] at hsound hpaced ⊢ <;>
      refine ⟨⟨hsound, hpaced, by simp [RunPhase.InRun], ?_, ?_, h.spawned, by simp⟩,
        intake_lt (.inr ⟨by simp [intakeStage, hphase, hsame], .inr ?_⟩)⟩
    · exact (hkept htake).1
    · exact (hkept htake).2
    · simp [roundLeft, remaining, hphase]
      omega
    · exact (hkept htake).1
    · exact (hkept htake).2
    · simp [roundLeft, remaining, hphase]
    · exact h.keys
    · exact h.entry
    · simp [roundLeft, remaining, hphase]

/-- The next access of `run` wakes the task, returns or comes nearer to the wake-up. -/
theorem Registered.proceed (hquiet : s.phase = .checkReady → s.ready.hasReady = false)
    (hreports : s.reports handle task .proceed) (hst : s.proceed = some t) :
    (task ∈ t.ready.queue ∨ t.phase = .returned) ∨
      Registered handle task t ∧ t.intake handle < s.intake handle := by
  have hsound := h.sound.proceed hst
  have hpaced := h.paced.proceed hquiet hst
  have hallow := h.paced.2
  cases proceeds_of_proceed hst with
  | finish _ _ => exact .inl (.inr rfl)
  | again hphase hready => exact absurd hready (by simp [hquiet hphase])
  | drain hphase => exact (h.wakeReadable hphase).imp .inl id
  | wait hphase =>
    refine .inr ⟨⟨hsound, hpaced, by simp [RunPhase.InRun], h.keys, h.entry, h.spawned, ?_⟩,
      intake_lt (.inl (by simp [intakeStage, hphase]))⟩
    intro read hread
    cases hread
    exact mem_map.mpr ⟨_, h.entry, rfl⟩
  | @register _ _ other waker _ _ hphase =>
    have hsame : handle = other → waker = some task := by
      simpa [reports, hphase, imp_iff_not_or] using hreports
    refine .inr ⟨⟨hsound, hpaced, by simp [RunPhase.InRun], registerReadable_keys h.keys,
      mem_registerReadable h.entry fun heq => (hsame heq).symm, h.spawned, by simp⟩,
      intake_lt (.inr ⟨by simp [intakeStage, hphase], .inr ?_⟩)⟩
    simp [roundLeft, remaining, hphase]
  | enter hphase _ | leave hphase _ _ | park hphase _ | drained hphase =>
    exact .inr ⟨h.advance hsound hpaced (by simp [RunPhase.InRun]) rfl rfl (by simp),
      intake_lt (.inl (by simp [intakeStage, hphase]))⟩
  | wake hphase =>
    refine .inr ⟨h.advance hsound hpaced (by simp [RunPhase.InRun]) rfl rfl (by simp),
      intake_lt (.inr ⟨by simp [intakeStage, hphase], .inr ?_⟩)⟩
    simp [roundLeft, remaining, hphase, markReady]
    omega
  | complete hphase | suspend hphase =>
    simp only [allowance, hphase] at hallow
    refine .inr ⟨h.advance hsound hpaced (by simp [RunPhase.InRun]) rfl (by simp) (by simp),
      intake_lt (.inr ⟨by simp [intakeStage, hphase], .inl ?_⟩)⟩
    simp only [roundLeft, hphase]
    omega
  | post hphase | drainPost hphase =>
    exact .inr ⟨h.advance hsound hpaced (by simp [RunPhase.InRun]) rfl rfl (by simp),
      intake_lt (.inr ⟨by simp [intakeStage, hphase], .inr (by simp [roundLeft, remaining, hphase])⟩)⟩

theorem Registered.waited {readable : List H} (hreports : s.reports handle task (.waited readable))
    (hst : s.waitReturns (.ok readable) = some t) :
    Registered handle task t ∧ t.intake handle < s.intake handle := by
  have hsound := h.sound.waitReturns hst
  have hpaced := h.paced.waitReturns hst
  obtain ⟨read, hphase, ⟨_, ⟨⟩, rfl⟩ | ⟨_, ⟨⟩, _⟩⟩ := waitReturns_cases hst
  have hmem : handle ∈ readable := by
    simpa [reports, hphase, h.covered read hphase] using hreports
  exact ⟨h.advance hsound hpaced (by simp [RunPhase.InRun]) rfl rfl (by simp),
    intake_lt (.inl (by simp [intakeStage, hphase, hmem]))⟩

theorem Registered.other {e : ShardEvent H} (hother : ¬ e.Own) (hquiet : QuietRounds s e)
    (hreports : s.reports handle task e) (hst : s.step e = some t) :
    Registered handle task t ∧ t.intake handle = s.intake handle := by
  have hsound := h.sound.step hst
  have hpaced := h.paced.step hquiet hst
  have hbetween : ¬ (s.phase = .idle ∨ s.phase = .returned) := not_or.mpr h.inRun
  cases e with
  | spawn | run =>
    obtain ⟨hphase, _⟩ := Option.ite_none_right_eq_some.mp hst
    exact absurd hphase hbetween
  | wake other =>
    cases hst
    exact ⟨⟨hsound, hpaced, h.inRun, h.keys, h.entry, h.spawned, h.covered⟩, rfl⟩
  | post =>
    obtain ⟨_, rfl⟩ := guarded hst
    exact ⟨⟨hsound, hpaced, h.inRun, h.keys, h.entry, h.spawned, h.covered⟩, rfl⟩
  | register other waker =>
    cases hst
    have hsame : handle = other → waker = some task := of_decide_eq_true hreports
    exact ⟨⟨hsound, hpaced, h.inRun, registerReadable_keys h.keys,
      mem_registerReadable h.entry fun heq => (hsame heq).symm, h.spawned, h.covered⟩, rfl⟩
  | poll _ _ | proceed | waited _ | waitFailed _ => exact absurd trivial hother

omit [DecidableEq H] in
theorem Registered.waitFailed {consumed : Bool} (hst : s.waitReturns (.error consumed) = some t) :
    Registered handle task t := by
  have hsound := h.sound.waitReturns hst
  have hpaced := h.paced.waitReturns hst
  obtain ⟨read, _, ⟨_, ⟨⟩, _⟩ | ⟨_, ⟨⟩, rfl⟩⟩ := waitReturns_cases hst
  exact h.advance hsound hpaced (by simp [RunPhase.InRun]) rfl rfl (by simp)

theorem Registered.own {e : ShardEvent H} (hown : e.Own) (hquiet : QuietRounds s e)
    (hreports : s.reports handle task e) (hst : s.step e = some t)
    (hwait : ∀ consumed, e ≠ .waitFailed consumed) :
    (task ∈ t.ready.queue ∨ t.phase = .returned) ∨
      Registered handle task t ∧ t.intake handle < s.intake handle := by
  cases e with
  | poll actions result => exact .inr (h.poll hst)
  | proceed => exact h.proceed (hquiet rfl) hreports hst
  | waited readable => exact .inr (h.waited hreports hst)
  | waitFailed consumed => exact absurd rfl (hwait consumed)
  | spawn | run | wake _ | post | register _ _ => exact hown.elim

theorem Registered.step {e : ShardEvent H} (hquiet : QuietRounds s e)
    (hreports : s.reports handle task e) (hst : s.step e = some t) :
    (task ∈ t.ready.queue ∨ t.phase = .returned) ∨ Registered handle task t := by
  by_cases hwait : ∃ consumed, e = .waitFailed consumed
  · obtain ⟨consumed, rfl⟩ := hwait
    exact .inr (h.waitFailed hst)
  · by_cases hown : e.Own
    · exact (h.own hown hquiet hreports hst (not_exists.mp hwait)).imp_right And.left
    · exact .inr (h.other hown hquiet hreports hst).1

end

theorem Registered.eventually_woken {st : Nat → ShardExecutor H} {ev : Nat → ShardEvent H}
    {ready : H → Prop} (h : Registered handle task (st 0)) (hrun : Forever ShardExecutor.step st ev)
    (hquiet : ∀ n, QuietRounds (st n) (ev n)) (hfair : Fair ready st ev) (hready : ready handle)
    (hreports : ∀ n, (∀ m ≤ n, task ∉ (st m).ready.queue) → (st n).reports handle task (ev n))
    (hwaits : ∃ N, ∀ n, N ≤ n → ∀ consumed, ev n ≠ .waitFailed consumed) :
    ∃ n, task ∈ (st n).ready.queue ∨ (st n).phase = .returned := by
  by_contra hnever
  have hreported : ∀ n, (st n).reports handle task (ev n) := fun n =>
    hreports n fun m _ hmem => hnever ⟨m, .inl hmem⟩
  obtain ⟨N, hN⟩ := hwaits
  have hregistered : ∀ n, Registered handle task (st n) := fun n => by
    induction n with
    | zero => exact h
    | succ n ih =>
      exact (ih.step (hquiet n) (hreported n) (hrun n)).resolve_left fun hgoal => hnever ⟨_, hgoal⟩
  have hgoes : ∀ n, ∃ m ≥ n, (ev (N + m)).Own := fun n => by
    obtain ⟨m, hm, hown⟩ := hfair.executor (N + n) fun m _ =>
      ⟨(hregistered m).inRun, fun read hread =>
        .inr ⟨handle, (hregistered m).covered read hread, hready⟩⟩
    obtain ⟨k, rfl⟩ := Nat.exists_eq_add_of_le (Nat.le_trans (Nat.le_add_right N n) hm)
    exact ⟨k, Nat.le_of_add_le_add_left hm, hown⟩
  obtain ⟨n, hn⟩ := @exists_goal_of_recurring _ _ (fun n => st (N + n)) (fun n => ev (N + n)) _ _ _
    (Registered handle task) (fun t => task ∈ t.ready.queue ∨ t.phase = .returned) ShardEvent.Own
    (intake handle)
    (fun n hn _ hown => hn.own hown (hquiet _) (hreported _) (hrun _) (hN _ (Nat.le_add_right N n)))
    (fun n hn _ hother => .inr ((hn.other hother (hquiet _) (hreported _) (hrun _)).imp_right le_of_eq))
    (fun n hall => (hgoes n).elim fun m hm => (hall m hm.1).2.2 hm.2) (hregistered N)
  exact hnever ⟨_, hn⟩

end Intake

theorem keys_step {e : ShardEvent H} (h : (s.io.map Prod.fst).Nodup) (hst : s.step e = some t) :
    (t.io.map Prod.fst).Nodup := by
  cases e with
  | spawn | run | post =>
    obtain ⟨_, rfl⟩ := guarded hst
    exact h
  | wake _ =>
    cases hst
    exact h
  | register _ _ =>
    cases hst
    exact registerReadable_keys h
  | poll _ _ =>
    obtain ⟨_, _, _, _, _, _, rfl⟩ := poll_cases hst
    unfold pollTask
    split <;> exact h
  | proceed =>
    cases proceeds_of_proceed hst with
    | register _ => exact registerReadable_keys h
    | @drain handle handles _ =>
      obtain ⟨_, _, htake, heq⟩ | ⟨_, htake, heq⟩ | heq := s.wakeReadable_cases handle handles <;>
        rw [heq]
      · exact (takeReadable_rest htake).2 h
      · exact (takeReadable_rest htake).2 h
      · exact h
    | _ => exact h
  | waited _ | waitFailed _ =>
    obtain ⟨_, _, ⟨_, -, rfl⟩ | ⟨_, -, rfl⟩⟩ := waitReturns_cases hst <;> exact h

/-- In a run whose rounds leave the ready queue empty the reactor is consulted in every budget of
polls, and a task registered for a handle that is ready comes to be woken. -/
theorem quiet_rounds_take_in_events {pollBudget : Nat}
    (h : Reach step QuietRounds ((new : ShardExecutor H).withPollBudget pollBudget) s) :
    s.sinceWait ≤ s.pollBudget ∧
    ∀ st ev ready handle task, st 0 = s → Forever step st ev → (∀ n, QuietRounds (st n) (ev n)) →
      Fair ready st ev → ready handle →
      (∀ n, (∀ m ≤ n, task ∉ (st m).ready.queue) → (st n).reports handle task (ev n)) →
      (∃ N, ∀ n, N ≤ n → ∀ consumed, ev n ≠ .waitFailed consumed) → s.phase.InRun → (handle, some task) ∈ s.io → task < s.tasks.length →
      (∀ read, s.phase = .waiting read → handle ∈ read) →
      ∃ n, task ∈ (st n).ready.queue ∨ (st n).phase = .returned := by
  have hsound : Sound s := h.invariant (sound_start pollBudget) fun _ _ _ hs _ hst => hs.step hst
  have hkeys : (s.io.map Prod.fst).Nodup :=
    h.invariant nodup_nil fun _ _ _ hs _ hst => keys_step hs hst
  have hpaced : Paced s :=
    h.invariant ⟨Nat.zero_le _, le_rfl⟩ fun _ _ _ hs hquiet hst => hs.step hquiet hst
  refine ⟨Nat.le_trans hpaced.1 hpaced.2, ?_⟩
  intro st ev ready handle task hstart hrun hquiet hfair hready hreports hwaits hinRun hentry
    hspawned hcovered
  have hregistered : Registered handle task s :=
    ⟨hsound, hpaced, hinRun, hkeys, hentry, hspawned, hcovered⟩
  exact Registered.eventually_woken (hstart ▸ hregistered) hrun hquiet hfair hready hreports
    hwaits

private def registering : List (ShardEvent Nat) :=
  [.register 9 none, .spawn, .run, .proceed, .poll [.register 7 (some 0)] false, .proceed]

private def registered : ShardExecutor Nat :=
  (Lib.run step (new.withPollBudget 2) registering).get (by decide +kernel)

private def intakeRun : List (ShardEvent Nat) :=
  [.proceed, .proceed, .proceed, .proceed, .waitFailed false, .proceed, .proceed, .proceed,
    .proceed, .register 7 (some 0), .waited [7], .proceed, .proceed, .proceed, .proceed,
    .poll [] true, .proceed, .proceed]

private def takenIn : ShardExecutor Nat :=
  (Lib.run step registered intakeRun).get (by decide +kernel)

theorem registered_task_is_woken : registered.sinceWait ≤ registered.pollBudget ∧
    ∃ st ev, st 0 = registered ∧ Forever step st ev ∧
      ∃ n, 0 ∈ (st n).ready.queue ∨ (st n).phase = .returned := by
  have hallowed : Allowed step (fun s e => QuietRounds s e ∧ s.reports 7 0 e) registered
      intakeRun := by decide +kernel
  have htakes : Lib.run step registered intakeRun = some takenIn := (Option.some_get _).symm
  have hstays : step takenIn (.register 9 none) = some takenIn := rfl
  obtain ⟨st, ev, hstart, hforever, hok, hlast⟩ :=
    exists_forever_of_run intakeRun hallowed htakes (by decide +kernel) hstays
  have hfair : Fair (fun _ => True) st ev :=
    fair_of_settled (fun n hn => (hlast n hn).1) (by decide +kernel) (by decide +kernel)
  have hreach : Reach step QuietRounds (new.withPollBudget 2) registered :=
    reach_of_run registering (by decide +kernel) (Option.some_get _).symm
  obtain ⟨hsince, hwoken⟩ := quiet_rounds_take_in_events hreach
  refine ⟨hsince, st, ev, hstart, hforever, ?_⟩
  exact hwoken st ev _ 7 0 hstart hforever (fun n => (hok n).1) hfair trivial
    (fun n _ => (hok n).2) ⟨_, fun n hn => by rw [(hlast n hn).2]; exact nofun⟩ ⟨by decide +kernel, by decide +kernel⟩ (by decide +kernel)
    (by decide +kernel) (fun read hread => by cases hread)

/-- A task that wakes itself in every poll keeps the reactor from being consulted. -/
theorem self_waking_task_skips_reactor :
    ∃ s, Reachable step ((new : ShardExecutor Nat).withPollBudget 1) s ∧ 0 < s.live ∧
      s.pollBudget < s.sinceWait := by
  refine ⟨_, reachable_of_run [.spawn, .run, .proceed, .poll [.wake 0] false, .proceed, .proceed,
    .proceed, .proceed, .proceed, .proceed, .poll [.wake 0] false] rfl, ?_⟩
  decide +kernel

end ShardExecutor

end Sitas.Runtime
