import Sitas.Runtime.JoinAll

/-! What a collective join returns, and what has become of the tasks by then. The handles before
the awaited one are the outputs collected so far; those from it on are still as their tasks left
them. -/
namespace Sitas.Runtime
open Sitas.Lib Sitas.Executor List Function

namespace JoinAll
variable {T P : Type} {init s t : JoinAll T P} {i shard : Nat}

/-- The handles from position `i` on have not been touched: they hold what their tasks delivered. -/
def Fresh (s : JoinAll T P) (i : Nat) : Prop :=
  ∀ j, i ≤ j → (s.cells j).result = (s.cells j).delivered

def AllSettled (s : JoinAll T P) : Prop := ∀ j, (s.cells j).settled = true

def Expired (s : JoinAll T P) : Prop := ∃ deadline, s.deadline = some deadline ∧ deadline ≤ s.now

structure Awaited (s : JoinAll T P) (i : Nat) : Prop where
  eq : i = s.outputs.length
  popped : s.popped = i + 1
  lt : i < s.shards.length
  fresh : s.Fresh i

def InPhase (s : JoinAll T P) : JoinAllPhase T P → Prop
  | .next => s.popped = s.outputs.length ∧ s.Fresh s.popped
  | .granted i remaining => s.Awaited i ∧
      ∃ deadline, s.deadline = some deadline ∧ deadline ≤ s.now + remaining
  | .waiting i timer => s.Awaited i ∧
      ∀ u, timer = some u → ∃ deadline, s.deadline = some deadline ∧ deadline ≤ u
  | .returned (.ok outputs) => outputs = s.outputs ∧ outputs.length = s.shards.length
  | .returned (.error (.join shard e)) => s.shards[s.outputs.length]? = some shard ∧
      (s.cells s.outputs.length).delivered = some (.error e) ∧ s.AllSettled
  | .returned (.error (.timedOut shard)) => s.shards[s.outputs.length]? = some shard ∧
      s.Expired ∧ s.AllSettled
  | .dropped => s.AllSettled

/-- The outputs are those of the first handles, in order. -/
structure Collected (init s : JoinAll T P) : Prop where
  shards : s.shards = init.shards
  deadline : s.deadline = init.deadline
  now : init.now ≤ s.now
  le : s.outputs.length ≤ s.shards.length
  outputs : ∀ i x, s.outputs[i]? = some x → s.shards[i]? = some x.1 ∧
    (s.cells i).delivered = some (.ok x.2)
  settled : ∀ i, i < s.outputs.length → (s.cells i).settled = true
  grants : ∀ g ∈ s.grants, s.deadline = some (g.1 + g.2) ∧ init.now ≤ g.1

/-- The invariant of a run that starts in `init`. -/
structure Joining (init s : JoinAll T P) : Prop extends Collected init s where
  inPhase : s.InPhase s.phase

section Outside

structure Outside (s t : JoinAll T P) : Prop where
  same : t = { s with now := t.now, cells := t.cells }
  now : s.now ≤ t.now
  delivered : ∀ j r, (s.cells j).delivered = some r → (t.cells j).delivered = some r
  settled : ∀ j, (s.cells j).settled = true → (t.cells j).settled = true
  fresh : ∀ j, (s.cells j).result = (s.cells j).delivered →
    (t.cells j).result = (t.cells j).delivered

private theorem Outside.awaited (ho : Outside s t) (h : s.Awaited i) : t.Awaited i := by
  have hfresh : t.Fresh i := fun j hj => ho.fresh j (h.fresh j hj)
  rw [ho.same] at hfresh ⊢
  exact ⟨h.eq, h.popped, h.lt, hfresh⟩

private theorem Outside.inPhase (ho : Outside s t) {phase : JoinAllPhase T P}
    (h : s.InPhase phase) : t.InPhase phase := by
  have hawaited : ∀ i, s.Awaited i → t.Awaited i := fun i => ho.awaited
  have hfresh : ∀ i, s.Fresh i → t.Fresh i := fun i hi j hj => ho.fresh j (hi j hj)
  have hall : s.AllSettled → t.AllSettled := fun hs j => ho.settled j (hs j)
  rw [ho.same] at hawaited hfresh hall ⊢
  cases phase with
  | next => exact ⟨h.1, hfresh _ h.2⟩
  | granted i remaining =>
    obtain ⟨hi, deadline, hd, hle⟩ := h
    exact ⟨hawaited i hi, deadline, hd, Nat.le_trans hle (Nat.add_le_add_right ho.now _)⟩
  | waiting i timer => exact ⟨hawaited i h.1, h.2⟩
  | returned result =>
    cases result with
    | ok outputs => exact h
    | error e =>
      cases e with
      | join shard e => exact ⟨h.1, ho.delivered _ _ h.2.1, hall h.2.2⟩
      | timedOut shard =>
        obtain ⟨hshard, ⟨deadline, hd, hle⟩, hs⟩ := h
        exact ⟨hshard, ⟨deadline, hd, Nat.le_trans hle ho.now⟩, hall hs⟩
  | dropped => exact hall h

private theorem Joining.outside (h : Joining init s) (ho : Outside s t) : Joining init t := by
  have hphase := ho.inPhase h.inPhase
  have hdelivered := ho.delivered
  have hsettled := ho.settled
  have hnow := Nat.le_trans h.now ho.now
  rw [ho.same] at hphase hdelivered hsettled hnow ⊢
  refine ⟨⟨h.shards, h.deadline, hnow, h.le, fun i x hx => ?_, fun i hi => hsettled i (h.settled i hi), h.grants⟩, hphase⟩
  obtain ⟨hshard, hd⟩ := h.outputs i x hx
  exact ⟨hshard, hdelivered i _ hd⟩

private theorem outside_tick (s : JoinAll T P) (elapsed : Nat) :
    Outside s { s with now := s.now + elapsed } :=
  ⟨rfl, Nat.le_add_right _ _, fun _ _ h => h, fun _ h => h, fun _ h => h⟩

private theorem outside_update {cell : JoinCell T P}
    (hdelivered : ∀ r, (s.cells i).delivered = some r → cell.delivered = some r)
    (hsettled : (s.cells i).settled = true → cell.settled = true)
    (hfresh : (s.cells i).result = (s.cells i).delivered → cell.result = cell.delivered) :
    Outside s { s with cells := update s.cells i cell } := by
  refine ⟨rfl, Nat.le_refl _, fun j r hr => ?_, fun j hj => ?_, fun j hj => ?_⟩
  all_goals
    dsimp only
    by_cases hji : j = i
    · subst hji
      rw [update_self]
      first | exact hdelivered r hr | exact hsettled hj | exact hfresh hj
    · rw [update_of_ne hji]
      assumption

private theorem outside_deliver {r : Except (JoinError P) T} (h : (s.cells i).delivered = none) :
    Outside s { s with cells := update s.cells i ((s.cells i).deliver r) } := by
  refine outside_update (fun r' hr' => ?_) id fun hfresh => ?_
  · rw [h] at hr'
    cases hr'
  · rw [JoinCell.deliver, hfresh, h]
    rfl

private theorem outside_complete (s : JoinAll T P) (i : Nat) :
    Outside s { s with cells := update s.cells i { s.cells i with completed := true } } :=
  outside_update (fun _ hr => hr) (fun _ => rfl) id

end Outside

section Future

@[simp] theorem delivered_abortFrom (s : JoinAll T P) (i j : Nat) :
    ((s.abortFrom i).cells j).delivered = (s.cells j).delivered := by
  dsimp only [abortFrom]
  split
  · exact JoinCell.delivered_abort _
  · rfl

private theorem settled_abortFrom {j : Nat} (h : i ≤ j ∨ (s.cells j).settled = true) :
    ((s.abortFrom i).cells j).settled = true := by
  dsimp only [abortFrom]
  split
  · exact JoinCell.settled_abort _
  · exact h.resolve_left ‹_›

section
variable (h : Collected init s)
include h

theorem Collected.allSettled : (s.abortFrom s.outputs.length).AllSettled := by
  intro j
  apply settled_abortFrom
  by_cases hj : s.outputs.length ≤ j
  · exact .inl hj
  · exact .inr (h.settled j (Nat.lt_of_not_le hj))

private theorem Collected.abortFrom (i : Nat) : Collected init (s.abortFrom i) :=
  ⟨h.shards, h.deadline, h.now, h.le, fun j x hx => by rw [delivered_abortFrom]; exact h.outputs j x hx,
    fun j hj => settled_abortFrom (.inr (h.settled j hj)), h.grants⟩

private theorem Collected.update (cell : JoinCell T P) :
    Collected init { s with cells := update s.cells s.outputs.length cell } := by
  have hold : ∀ j, j < s.outputs.length →
      Function.update s.cells s.outputs.length cell j = s.cells j :=
    fun j hj => update_of_ne (Nat.ne_of_lt hj) _ _
  refine ⟨h.shards, h.deadline, h.now, h.le, fun j x hx => ?_, fun j hj => ?_, h.grants⟩
  · obtain ⟨hlt, -⟩ := List.getElem?_eq_some_iff.mp hx
    dsimp only
    rw [hold j hlt]
    exact h.outputs j x hx
  · dsimp only
    rw [hold j hj]
    exact h.settled j hj

private theorem Collected.fail_timedOut
    (hshard : s.shards[s.outputs.length]? = some shard) (he : s.Expired) :
    Joining init (s.fail s.outputs.length (.timedOut shard)) :=
  ⟨{ h.abortFrom _ with }, hshard, he, h.allSettled⟩

private theorem Collected.fail_join {e : JoinError P}
    (hshard : s.shards[s.outputs.length]? = some shard)
    (he : (s.cells s.outputs.length).delivered = some (.error e)) :
    Joining init (s.fail s.outputs.length (.join shard e)) :=
  ⟨{ h.abortFrom _ with }, hshard,
    (delivered_abortFrom _ _ _).trans he, h.allSettled⟩

end

section
variable (h : Joining init s)
include h

private theorem Joining.popFront (hphase : s.phase = .next)
    (hshard : s.shards[s.popped]? = some shard) : Joining init (s.popFront shard) := by
  obtain ⟨hpopped, hfresh⟩ : s.InPhase .next := hphase ▸ h.inPhase
  obtain ⟨hlt, -⟩ := List.getElem?_eq_some_iff.mp hshard
  have hcollected : Collected init { s with popped := s.popped + 1 } := { h with }
  unfold JoinAll.popFront
  split
  · exact ⟨{ h with }, ⟨hpopped, rfl, hlt, hfresh⟩, nofun⟩
  next deadline hd =>
    dsimp only
    split
    next hzero =>
      rw [hpopped] at hshard hcollected ⊢
      exact hcollected.fail_timedOut hshard ⟨deadline, hd, Nat.le_of_sub_eq_zero hzero⟩
    · have hsum : deadline = s.now + (deadline - s.now) := by omega
      refine ⟨{ h with grants := fun g hg => ?_ }, ⟨hpopped, rfl, hlt, hfresh⟩,
        deadline, hd, Nat.le_of_eq hsum⟩
      rcases mem_append.mp hg with hg | hg
      · exact h.grants g hg
      · cases mem_singleton.mp hg
        exact ⟨hd.trans (congrArg some hsum), h.now⟩

private theorem Joining.joined {r : Except (JoinError P) T} (hi : s.Awaited i)
    (hshard : s.shards[i]? = some shard) (hr : (s.cells i).result = some r) :
    Joining init (s.joined i shard r) := by
  have hdelivered : (s.cells i).delivered = some r := (hi.fresh i (Nat.le_refl i)).symm.trans hr
  obtain ⟨rfl, hpopped, hlt, hfresh⟩ := hi
  have htaken := h.toCollected.update
    { s.cells s.outputs.length with result := none }.abort
  have hcell : ∀ c : JoinCell T P, (update s.cells s.outputs.length
      { c with result := none }.abort s.outputs.length).delivered = c.delivered := fun c => by
    rw [update_self, JoinCell.delivered_abort]
  cases r with
  | error e =>
    exact htaken.fail_join hshard ((hcell _).trans hdelivered)
  | ok output =>
    have hlength : (s.outputs ++ [(shard, output)]).length = s.outputs.length + 1 := length_append
    dsimp only [JoinAll.joined]
    refine ⟨⟨h.shards, h.deadline, h.now, Nat.le_trans (Nat.le_of_eq hlength) hlt, fun j x hx => ?_, fun j hj => ?_, h.grants⟩,
      hpopped.trans hlength.symm, fun j hj => ?_⟩
    · rcases Nat.lt_trichotomy j s.outputs.length with hj | rfl | hj
      · rw [getElem?_append_left hj] at hx
        exact htaken.outputs j x hx
      · rw [getElem?_append_right (Nat.le_refl _), Nat.sub_self] at hx
        cases hx
        exact ⟨hshard, (hcell _).trans hdelivered⟩
      · rw [getElem?_eq_none (hlength ▸ hj)] at hx
        cases hx
    · rcases Nat.lt_or_eq_of_le (Nat.le_of_lt_succ (hlength ▸ hj)) with hj | rfl
      · exact htaken.settled j hj
      · dsimp only
        rw [update_self]
        exact JoinCell.settled_abort _
    · have hlater : s.outputs.length < j := Nat.le_trans (Nat.le_of_eq hpopped.symm) hj
      dsimp only
      rw [update_of_ne (Nat.ne_of_gt hlater)]
      exact hfresh j (Nat.le_of_lt hlater)

private theorem Joining.pollHandle {timer : Option Nat}
    (hphase : s.phase = .waiting i timer) (hshard : s.shards[i]? = some shard) :
    Joining init (s.pollHandle i shard timer) := by
  obtain ⟨hi, htimer⟩ : s.InPhase (.waiting i timer) := hphase ▸ h.inPhase
  unfold JoinAll.pollHandle
  split
  · exact h.joined hi hshard ‹_›
  · split
    next hexpired =>
      obtain ⟨u, hu, hle⟩ := (Option.any_eq_true _ _).mp hexpired
      obtain ⟨deadline, hd, hdu⟩ := htimer u hu
      have hlate : deadline ≤ s.now := Nat.le_trans hdu (of_decide_eq_true hle)
      rw [hi.eq] at hshard ⊢
      exact h.toCollected.fail_timedOut hshard ⟨deadline, hd, hlate⟩
    · exact h

private theorem Joining.poll (hst : s.poll = some t) : Joining init t := by
  unfold JoinAll.poll at hst
  split at hst
  next hphase =>
    split at hst
    next hend =>
      cases hst
      obtain ⟨hpopped, -⟩ : s.InPhase .next := hphase ▸ h.inPhase
      have hge := getElem?_eq_none_iff.mp hend
      exact ⟨{ h with }, rfl, Nat.le_antisymm h.le (hpopped ▸ hge)⟩
    · cases hst
      exact h.popFront hphase ‹_›
  next i remaining hphase =>
    cases hst
    obtain ⟨hi, deadline, hd, hle⟩ : s.InPhase (.granted i remaining) := hphase ▸ h.inPhase
    refine ⟨{ h with }, ⟨hi.eq, hi.popped, hi.lt, hi.fresh⟩, ?_⟩
    rintro u ⟨⟩
    exact ⟨deadline, hd, hle⟩
  · obtain ⟨shard, hshard, rfl⟩ := Option.map_eq_some_iff.mp hst
    exact h.pollHandle ‹_› hshard
  all_goals cases hst

private theorem Joining.drop (hst : s.step .drop = some t) : Joining init t := by
  have howned : ∀ i, i = s.outputs.length →
      Joining init { s.abortFrom i with phase := .dropped } := by
    rintro i rfl
    exact ⟨{ h.abortFrom _ with },
      h.toCollected.allSettled⟩
  have hphase := h.inPhase
  dsimp only [step, owned] at hst
  cases hp : s.phase with
  | next =>
    rw [hp] at hst hphase
    cases hst
    exact howned _ hphase.1
  | granted i remaining | waiting i timer =>
    rw [hp] at hst hphase
    cases hst
    exact howned _ hphase.1.eq
  | returned result | dropped =>
    rw [hp] at hst
    cases hst

theorem Joining.next {e : JoinAllEvent T P} (hst : s.step e = some t) : Joining init t := by
  cases e with
  | tick elapsed =>
    cases hst
    exact h.outside (outside_tick s elapsed)
  | deliver i r =>
    obtain ⟨hnone, rfl⟩ := guarded hst
    exact h.outside (outside_deliver hnone)
  | complete i =>
    cases hst
    exact h.outside (outside_complete s i)
  | poll => exact h.poll hst
  | drop => exact h.drop hst

end

end Future

section Results
variable {shards : List Nat} {timeout : Option Nat} {now : Nat}

private theorem joining_of_reachable (h : Reachable step (joinAll shards timeout now) s) :
    Joining (joinAll shards timeout now) s := by
  refine h.invariant ?_ fun _ _ _ hs _ hst => hs.next hst
  cases timeout with
  | none | some duration =>
    exact ⟨⟨rfl, rfl, Nat.le_refl _, Nat.zero_le _, nofun,
      fun _ hi => absurd hi (Nat.not_lt_zero _), nofun⟩, rfl, fun _ _ => rfl⟩

private theorem now_joinAll : (joinAll shards timeout now : JoinAll T P).now = now := by
  cases timeout <;> rfl

section
variable (h : Collected (joinAll shards timeout now) s)
include h

private theorem Collected.shards_eq : s.shards = shards := by
  rw [h.shards]
  cases timeout <;> rfl

private theorem Collected.deadline_eq :
    s.deadline = timeout.map fun duration => now + duration := by
  rw [h.deadline]
  cases timeout <;> rfl

private theorem Collected.duration {deadline : Nat} (hd : s.deadline = some deadline) :
    ∃ duration, timeout = some duration ∧ deadline = now + duration := by
  rw [h.deadline_eq] at hd
  obtain ⟨duration, ht, rfl⟩ := Option.map_eq_some_iff.mp hd
  exact ⟨duration, ht, rfl⟩

end

def finished (s : JoinAll T P) : Bool :=
  match s.phase with
  | .returned _ | .dropped => true
  | _ => false

private theorem Joining.settled_of_finished (h : Joining init s) (hf : s.finished = true)
    (hi : i < s.shards.length) : (s.cells i).settled = true := by
  have hphase := h.inPhase
  unfold finished at hf
  cases hp : s.phase with
  | returned result =>
    rw [hp] at hphase
    cases result with
    | ok outputs =>
      obtain ⟨rfl, hall⟩ := hphase
      exact h.settled i (hall ▸ hi)
    | error e =>
      cases e with
      | join shard e | timedOut shard => exact hphase.2.2 i
  | dropped =>
    rw [hp] at hphase
    exact hphase i
  | next | granted i remaining | waiting i timer =>
    rw [hp] at hf
    cases hf

/-- A failed task ends the join at the next poll of its handle, and so does a timer that has run
out on a task that has delivered nothing. -/
private theorem Joining.poll_waiting {timer : Option Nat} (h : Joining init s)
    (hp : s.phase = .waiting i timer) :
    ∃ shard t, s.shards[i]? = some shard ∧ s.poll = some t ∧
      (∀ e, (s.cells i).delivered = some (.error e) →
        t.phase = .returned (.error (.join shard e))) ∧
      ((s.cells i).delivered = none → timer.any (· ≤ s.now) = true →
        t.phase = .returned (.error (.timedOut shard))) := by
  obtain ⟨hi, -⟩ : s.InPhase (.waiting i timer) := hp ▸ h.inPhase
  have hresult := hi.fresh i (Nat.le_refl i)
  obtain ⟨shard, hshard⟩ : ∃ shard, s.shards[i]? = some shard :=
    ⟨_, getElem?_eq_getElem hi.lt⟩
  refine ⟨shard, s.pollHandle i shard timer, hshard, ?_, fun e he => ?_, fun hnone hexpired => ?_⟩
  · unfold JoinAll.poll
    rw [hp]
    dsimp only
    rw [hshard]
    rfl
  · unfold JoinAll.pollHandle
    rw [hresult, he]
    rfl
  · unfold JoinAll.pollHandle
    rw [hresult, hnone]
    dsimp only
    rw [if_pos hexpired]
    rfl

private theorem poll_expired (hp : s.phase = .next) (he : s.Expired)
    (hshard : s.shards[s.popped]? = some shard) :
    ∃ t, s.poll = some t ∧ t.phase = .returned (.error (.timedOut shard)) := by
  obtain ⟨deadline, hd, hle⟩ := he
  refine ⟨s.popFront shard, ?_, ?_⟩
  · unfold JoinAll.poll
    rw [hp]
    dsimp only
    rw [hshard]
  · unfold JoinAll.popFront
    split
    · cases hd.symm.trans ‹_›
    next found hfound =>
      cases hd.symm.trans hfound
      dsimp only
      rw [if_pos (Nat.sub_eq_zero_of_le hle)]
      rfl

/-- A collective join returns the outputs of all its tasks in order, the first failure, or a
timeout. Afterwards each of its tasks has completed or been asked to cancel. -/
theorem collective_joins {s : JoinAll T P}
    (h : Reachable step (joinAll shards timeout now) s) :
    (∀ outputs, s.phase = .returned (.ok outputs) → outputs.length = shards.length ∧
      ∀ i x, outputs[i]? = some x → shards[i]? = some x.1 ∧
        (s.cells i).delivered = some (.ok x.2)) ∧
    (∀ shard e, s.phase = .returned (.error (.join shard e)) →
      ∃ i, shards[i]? = some shard ∧ (s.cells i).delivered = some (.error e) ∧
        ∀ j, j < i → ∃ output, (s.cells j).delivered = some (.ok output)) ∧
    (∀ shard, s.phase = .returned (.error (.timedOut shard)) →
      shard ∈ shards ∧ ∃ duration, timeout = some duration ∧ now + duration ≤ s.now) ∧
    (∀ i timer, s.phase = .waiting i timer → ∃ shard t,
      shards[i]? = some shard ∧ s.step .poll = some t ∧
      (∀ e, (s.cells i).delivered = some (.error e) →
        t.phase = .returned (.error (.join shard e))) ∧
      ((s.cells i).delivered = none → timer.any (· ≤ s.now) = true →
        t.phase = .returned (.error (.timedOut shard)))) ∧
    (∀ shard duration, s.phase = .next → shards[s.popped]? = some shard →
      timeout = some duration → now + duration ≤ s.now →
      ∃ t, s.step .poll = some t ∧ t.phase = .returned (.error (.timedOut shard))) ∧
    (s.finished = true → ∀ i, i < shards.length → (s.cells i).settled = true) ∧
    (∀ g ∈ s.grants, ∃ duration, timeout = some duration ∧
      g.1 + g.2 = now + duration ∧ g.2 ≤ duration) := by
  have hj := joining_of_reachable h
  have hshards := hj.shards_eq
  refine ⟨fun outputs hp => ?_, fun shard e hp => ?_, fun shard hp => ?_, fun i timer hp => ?_,
    fun shard duration hp hshard ht hle => ?_, fun hf i hi => ?_, fun g hg => ?_⟩
  · obtain ⟨rfl, hlength⟩ : s.InPhase (.returned (.ok outputs)) := hp ▸ hj.inPhase
    rw [← hshards]
    exact ⟨hlength, hj.outputs⟩
  · obtain ⟨hshard, he, -⟩ : s.InPhase (.returned (.error (.join shard e))) := hp ▸ hj.inPhase
    refine ⟨s.outputs.length, hshards ▸ hshard, he, fun j hlt => ?_⟩
    exact ⟨_, (hj.outputs j _ (getElem?_eq_getElem hlt)).2⟩
  · obtain ⟨hshard, ⟨deadline, hd, hle⟩, -⟩ :
      s.InPhase (.returned (.error (.timedOut shard))) := hp ▸ hj.inPhase
    obtain ⟨duration, ht, rfl⟩ := hj.duration hd
    exact ⟨hshards ▸ mem_of_getElem? hshard, duration, ht, hle⟩
  · rw [← hshards]
    exact hj.poll_waiting hp
  · have hd : s.deadline = some (now + duration) := by
      rw [hj.deadline_eq, ht]
      rfl
    exact poll_expired hp ⟨_, hd, hle⟩ (hshards.symm ▸ hshard)
  · exact hj.settled_of_finished hf (hshards ▸ hi)
  · obtain ⟨hd, hnow⟩ := hj.grants g hg
    obtain ⟨duration, ht, hsum⟩ := hj.duration hd
    rw [now_joinAll] at hnow
    exact ⟨duration, ht, hsum, by omega⟩

private def panickedJoins : JoinAll Nat Unit :=
  (run step (joinAll [3, 7, 3] (some 10) 0)
    [.poll, .poll, .deliver 0 (.ok 5), .poll, .tick 4, .poll, .poll, .poll,
      .deliver 1 (.error (.panic ())), .poll]).get (by decide +kernel)

theorem panicked_collective_join :
    panickedJoins.phase = .returned (.error (.join 7 (.panic ()))) ∧
      panickedJoins.grants = [(0, 10), (4, 6)] ∧ (panickedJoins.cells 2).settled = true := by
  have hreach : Reachable step (joinAll [3, 7, 3] (some 10) 0) panickedJoins :=
    reachable_of_run _ (Option.some_get _).symm
  obtain ⟨-, -, -, -, -, hsettled, -⟩ := collective_joins hreach
  exact ⟨by decide +kernel, by decide +kernel, hsettled (by decide +kernel) 2 (by decide)⟩

/-- Two tasks that have delivered before: the second handle is granted the whole duration again. -/
private def instantJoins : JoinAll Nat Unit :=
  (run step (joinAll [0, 1] (some 10) 0)
    [.deliver 0 (.ok 5), .deliver 1 (.ok 6), .poll, .poll, .poll, .poll, .poll, .poll, .poll]).get
    (by decide +kernel)

def totalGranted (s : JoinAll T P) : Nat := s.grants.foldl (fun total g => total + g.2) 0

theorem granted_waits_exceed_duration :
    ∃ s : JoinAll Nat Unit, Reachable step (joinAll [0, 1] (some 10) 0) s ∧
      s.phase = .returned (.ok [(0, 5), (1, 6)]) ∧ 10 < s.totalGranted :=
  ⟨instantJoins, reachable_of_run _ (Option.some_get _).symm, by decide +kernel, by decide +kernel⟩

end Results

end JoinAll
end Sitas.Runtime
