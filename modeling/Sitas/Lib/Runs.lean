import Mathlib.Data.Nat.Init
import Mathlib.Order.RelClasses
import Mathlib.Tactic.Push
import Mathlib.Tactic.Choose

/-! Runs of a partial step function and the invariant rule for runs whose
single steps meet a condition. -/
namespace Sitas.Lib
open List
variable {σ α : Type}

/-- Perform the labels in order. A disabled label leaves no result. -/
def run (step : σ → α → Option σ) : σ → List α → Option σ
  | s, [] => some s
  | s, a :: as => (step s a).bind fun t => run step t as

/-- States reached by steps that all satisfy the condition on their source
state and label. -/
inductive Reach (step : σ → α → Option σ) (ok : σ → α → Prop) (init : σ) : σ → Prop
  | start : Reach step ok init init
  | next {s t : σ} {a : α} : Reach step ok init s → ok s a → step s a = some t →
      Reach step ok init t

abbrev Reachable (step : σ → α → Option σ) (init : σ) : σ → Prop :=
  Reach step (fun _ _ => True) init

theorem guarded {p : Prop} [Decidable p] {s t : σ} (h : (if p then some s else none) = some t) :
    p ∧ s = t := by
  obtain ⟨hp, hst⟩ := Option.ite_none_right_eq_some.mp h
  exact ⟨hp, Option.some.inj hst⟩

variable {step : σ → α → Option σ} {ok : σ → α → Prop} {init s : σ}

/-- The invariant rule. Preservation may use the condition of the step. -/
theorem Reach.invariant {Inv : σ → Prop} (h : Reach step ok init s) (h0 : Inv init)
    (hs : ∀ s a t, Inv s → ok s a → step s a = some t → Inv t) : Inv s := by
  induction h with
  | start => exact h0
  | next _ hok hst ih => exact hs _ _ _ ih hok hst

theorem Reach.mono {ok' : σ → α → Prop} (h : Reach step ok init s)
    (hm : ∀ s a, ok s a → ok' s a) : Reach step ok' init s := by
  induction h with
  | start => exact .start
  | next _ hok hst ih => exact .next ih (hm _ _ hok) hst

/-- Every label of a sequence meets the condition in the state it is taken in. -/
def Allowed (step : σ → α → Option σ) (ok : σ → α → Prop) : σ → List α → Prop
  | _, [] => True
  | s, a :: as => ok s a ∧ ((step s a).elim True fun t => Allowed step ok t as)

instance decidableAllowed [∀ s a, Decidable (ok s a)] :
    (s : σ) → (as : List α) → Decidable (Allowed step ok s as)
  | _, [] => .isTrue trivial
  | s, a :: as =>
    have : Decidable ((step s a).elim True fun t => Allowed step ok t as) :=
      match step s a with
      | none => .isTrue trivial
      | some t => decidableAllowed t as
    inferInstanceAs (Decidable (_ ∧ _))

private theorem reach_run_from {t : σ} (as : List α) (hr : Reach step ok init s)
    (hok : Allowed step ok s as) (h : run step s as = some t) : Reach step ok init t := by
  induction as generalizing s with
  | nil =>
    cases h
    exact hr
  | cons a as ih =>
    obtain ⟨u, hu, hrest⟩ := Option.bind_eq_some_iff.mp h
    have hlater : Allowed step ok u as := by
      have hlater := hok.2
      rwa [hu] at hlater
    exact ih (.next hr hok.1 hu) hlater hrest

theorem reach_of_run {t : σ} (as : List α) (hok : Allowed step ok init as)
    (h : run step init as = some t) : Reach step ok init t :=
  reach_run_from as .start hok h

theorem allowed_of_forall (as : List α) (hok : ∀ a ∈ as, ∀ s, ok s a) : Allowed step ok s as := by
  induction as generalizing s with
  | nil => trivial
  | cons a as ih =>
    refine ⟨hok a mem_cons_self s, ?_⟩
    cases step s a with
    | none => trivial
    | some t => exact ih fun b hb => hok b (mem_cons_of_mem a hb)

theorem reachable_of_run {t : σ} (as : List α) (h : run step init as = some t) :
    Reachable step init t :=
  reach_of_run as (allowed_of_forall as fun _ _ _ => trivial) h

theorem Reach.trans {t : σ} (h : Reach step ok init s) (h' : Reach step ok s t) :
    Reach step ok init t := by
  induction h' with
  | start => exact h
  | next _ hok hst ih => exact .next ih hok hst

theorem run_append (as bs : List α) :
    run step s (as ++ bs) = (run step s as).bind fun t => run step t bs := by
  induction as generalizing s with
  | nil => rfl
  | cons a as ih =>
    simp only [cons_append, run]
    cases step s a with
    | none => rfl
    | some t => exact ih

section Forever
variable {st : Nat → σ} {ev : Nat → α}

def Forever (step : σ → α → Option σ) (st : Nat → σ) (ev : Nat → α) : Prop :=
  ∀ n, step (st n) (ev n) = some (st (n + 1))

theorem Forever.reach (h : Forever step st ev) (h0 : Reach step ok init (st 0))
    (hok : ∀ n, ok (st n) (ev n)) (n : Nat) : Reach step ok init (st n) := by
  induction n with
  | zero => exact h0
  | succ n ih => exact .next ih (hok n) (h n)

theorem exists_forever_of_run {t : σ} {a : α} (as : List α) (hok : Allowed step ok s as)
    (hrun : run step s as = some t) (hoka : ok t a) (hstep : step t a = some t) :
    ∃ st ev, st 0 = s ∧ Forever step st ev ∧ (∀ n, ok (st n) (ev n)) ∧
      ∀ n, as.length ≤ n → st n = t ∧ ev n = a := by
  induction as generalizing s with
  | nil =>
    cases hrun
    exact ⟨fun _ => t, fun _ => a, rfl, fun _ => hstep, fun _ => hoka, fun _ _ => ⟨rfl, rfl⟩⟩
  | cons b as ih =>
    obtain ⟨u, hu, hrest⟩ := Option.bind_eq_some_iff.mp hrun
    have hlater := hok.2
    rw [hu] at hlater
    obtain ⟨st, ev, hstart, hforever, hall, htail⟩ := ih hlater hrest
    refine ⟨Nat.rec s fun n _ => st n, Nat.rec b fun n _ => ev n, rfl, fun n => ?_, fun n => ?_,
      fun n hn => ?_⟩
    · cases n with
      | zero => exact hu.trans (congrArg some hstart.symm)
      | succ n => exact hforever n
    · cases n with
      | zero => exact hok.1
      | succ n => exact hall n
    · cases n with
      | zero => cases hn
      | succ n => exact htail n (Nat.le_of_succ_le_succ hn)

theorem exists_forever {f : Nat → σ} {cycle : List α} (hpos : 0 < cycle.length)
    (hcycle : ∀ k, run step (f k) cycle = some (f (k + 1))) :
    ∃ st ev, Forever step st ev ∧ ∀ n,
      run step (f (n / cycle.length)) (cycle.take (n % cycle.length)) = some (st n) ∧
      cycle[n % cycle.length]? = some (ev n) := by
  have hpart : ∀ k r, ∃ t, run step (f k) (cycle.take r) = some t := by
    intro k r
    have hwhole := hcycle k
    rw [← take_append_drop r cycle, run_append] at hwhole
    obtain ⟨t, ht, _⟩ := Option.bind_eq_some_iff.mp hwhole
    exact ⟨t, ht⟩
  choose reached hreached using hpart
  have hmod : ∀ n, n % cycle.length < cycle.length := fun n => Nat.mod_lt n hpos
  refine ⟨fun n => reached (n / cycle.length) (n % cycle.length),
    fun n => cycle.get ⟨n % cycle.length, hmod n⟩, fun n => ?_,
    fun n => ⟨hreached _ _, getElem?_eq_getElem (hmod n)⟩⟩
  have hstep : run step (f (n / cycle.length)) (cycle.take (n % cycle.length + 1)) =
      step (reached (n / cycle.length) (n % cycle.length)) (cycle.get ⟨n % cycle.length, hmod n⟩) := by
    rw [take_succ_eq_append_getElem (hmod n), run_append, hreached]
    simp [run]
  change _ = some (reached ((n + 1) / cycle.length) ((n + 1) % cycle.length))
  rw [← hstep]
  have hdiv := Nat.div_add_mod n cycle.length
  by_cases hlast : n % cycle.length + 1 = cycle.length
  · obtain ⟨hd, hm⟩ := (Nat.div_mod_unique (a := n + 1) (c := 0) (d := n / cycle.length + 1)
      hpos).mpr ⟨by rw [Nat.mul_succ]; omega, hpos⟩
    rw [hlast, take_length, hcycle, hd, hm]
    exact hreached _ 0
  · obtain ⟨hd, hm⟩ := (Nat.div_mod_unique (a := n + 1) (c := n % cycle.length + 1)
      (d := n / cycle.length) hpos).mpr ⟨by omega, by have := hmod n; omega⟩
    rw [hd, hm]
    exact hreached _ _

/-- Steps of one kind that use up a measure, which no other step raises and without which
no tail of the sequence goes on before the goal, come to the goal. -/
theorem exists_goal_of_recurring {β : Type} [Preorder β] [WellFoundedLT β] (Inv goal : σ → Prop)
    (own : α → Prop) (μ : σ → β)
    (hown : ∀ n, Inv (st n) → ¬ goal (st n) → own (ev n) →
      goal (st (n + 1)) ∨ Inv (st (n + 1)) ∧ μ (st (n + 1)) < μ (st n))
    (hother : ∀ n, Inv (st n) → ¬ goal (st n) → ¬ own (ev n) →
      goal (st (n + 1)) ∨ Inv (st (n + 1)) ∧ μ (st (n + 1)) ≤ μ (st n))
    (hrecurs : ∀ n, ¬ ∀ m ≥ n, Inv (st m) ∧ ¬ goal (st m) ∧ ¬ own (ev m))
    (h : Inv (st 0)) : ∃ n, goal (st n) := by
  by_contra hnever
  push Not at hnever
  have hinv : ∀ n, Inv (st n) := fun n => by
    induction n with
    | zero => exact h
    | succ n ih =>
      by_cases hn : own (ev n)
      · exact ((hown n ih (hnever n) hn).resolve_left (hnever _)).1
      · exact ((hother n ih (hnever n) hn).resolve_left (hnever _)).1
  have hnext : ∀ n, ∃ m, own (ev m) ∧ μ (st m) ≤ μ (st n) := fun n => by
    by_contra hnone
    push Not at hnone
    have hstill : ∀ m ≥ n, μ (st m) ≤ μ (st n) := fun m hm => by
      induction m, hm using Nat.le_induction with
      | base => exact le_rfl
      | succ m hm ih =>
        have hm' : ¬ own (ev m) := fun hm' => hnone m hm' ih
        exact (((hother m (hinv m) (hnever m) hm').resolve_left (hnever _)).2).trans ih
    exact hrecurs n fun m hm => ⟨hinv m, hnever m, fun hm' => hnone m hm' (hstill m hm)⟩
  have hnot : ∀ v n, μ (st n) = v → False := fun v => by
    induction v using WellFoundedLT.induction with
    | ind v ih =>
      intro n hn
      obtain ⟨m, hm, hle⟩ := hnext n
      have hlt := ((hown m (hinv m) (hnever m) hm).resolve_left (hnever _)).2
      exact ih _ (hn ▸ hlt.trans_le hle) (m + 1) rfl
  exact hnot _ 0 rfl

end Forever

/-- A state that is not final has a step that uses up a measure, so a final state can be
reached. -/
theorem reach_of_measure {Inv final : σ → Prop} (μ : σ → Nat)
    (hstep : ∀ s, Inv s → ¬ final s → ∃ a t, ok s a ∧ step s a = some t ∧ Inv t ∧ μ t < μ s)
    (h : Inv s) : ∃ t, Reach step ok s t ∧ Inv t ∧ final t := by
  generalize hn : μ s = n
  induction n using Nat.strongRecOn generalizing s with
  | ind n ih =>
    by_cases hfinal : final s
    · exact ⟨s, .start, h, hfinal⟩
    · obtain ⟨a, t, hok, hst, ht, hlt⟩ := hstep s h hfinal
      obtain ⟨u, hreach, hu⟩ := ih (μ t) (hn ▸ hlt) ht rfl
      exact ⟨u, Reach.trans (.next .start hok hst) hreach, hu⟩

/-- Every run of admitted steps comes to a goal, whatever the order of the steps. -/
inductive Inevitable (step : σ → α → Option σ) (ok : σ → α → Prop) (goal : σ → Prop) : σ → Prop
  | now {s : σ} : goal s → Inevitable step ok goal s
  | later {s : σ} : (∃ a t, ok s a ∧ step s a = some t) →
      (∀ a t, ok s a → step s a = some t → Inevitable step ok goal t) →
      Inevitable step ok goal s

/-- Steps that use up a measure, one of which can be taken before the goal, come to it. -/
theorem inevitable_of_measure (Inv : σ → Prop) {goal : σ → Prop} (μ : σ → Nat)
    (hmoves : ∀ s, Inv s → ¬ goal s → ∃ a t, ok s a ∧ step s a = some t)
    (hstep : ∀ s a t, Inv s → ¬ goal s → ok s a → step s a = some t → Inv t ∧ μ t < μ s)
    (h : Inv s) : Inevitable step ok (fun t => Inv t ∧ goal t) s := by
  generalize hn : μ s = n
  induction n using Nat.strongRecOn generalizing s with
  | ind n ih =>
    by_cases hgoal : goal s
    · exact .now ⟨h, hgoal⟩
    · refine .later (hmoves s h hgoal) fun a t hok hst => ?_
      obtain ⟨ht, hlt⟩ := hstep s a t h hgoal hok hst
      exact ih (μ t) (hn ▸ hlt) ht rfl

theorem Inevitable.mono {goal goal' : σ → Prop} (h : Inevitable step ok goal s)
    (himp : ∀ t, goal t → goal' t) : Inevitable step ok goal' s := by
  induction h with
  | now hgoal => exact .now (himp _ hgoal)
  | later hmoves _ ih => exact .later hmoves ih

section Settle
variable {ι : Type}

/-- Carry out what is due, one item at a time and as long as something is. -/
def settle (due : σ → Option ι) (act : σ → ι → σ) : Nat → σ → σ
  | 0, s => s
  | fuel + 1, s => (due s).elim s fun i => settle due act fuel (act s i)

variable {due : σ → Option ι} {act : σ → ι → σ}

theorem settle_invariant (Inv : σ → Prop)
    (hact : ∀ s i, due s = some i → Inv s → Inv (act s i)) (fuel : Nat) (h : Inv s) :
    Inv (settle due act fuel s) := by
  induction fuel generalizing s with
  | zero => exact h
  | succ fuel ih =>
    rw [settle]
    cases hdue : due s with
    | none => exact h
    | some i => exact ih (hact s i hdue h)

/-- Items that use up a measure leave nothing due once the fuel covers it. -/
theorem settle_due (μ : σ → Nat) (hact : ∀ s i, due s = some i → μ (act s i) < μ s)
    (fuel : Nat) (hfuel : μ s < fuel) : due (settle due act fuel s) = none := by
  induction fuel generalizing s with
  | zero => exact absurd hfuel (Nat.not_lt_zero _)
  | succ fuel ih =>
    rw [settle]
    cases hdue : due s with
    | none => exact hdue
    | some i => exact ih (Nat.lt_of_lt_of_le (hact s i hdue) (Nat.le_of_lt_succ hfuel))

end Settle

end Sitas.Lib
