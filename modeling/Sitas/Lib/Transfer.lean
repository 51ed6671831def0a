import Mathlib.Algebra.Order.Ring.Nat
import Sitas.Lib.Runs

/-! A transfer loop: it moves a number of units by calls that each move some of them. A call
that moves nothing and an error end it, but for errors after which it retries. -/
namespace Sitas.Lib
open List

structure Transfer (ε : Type) where
  total : Nat
  moved : Nat
  result : Option (Except ε Unit)

namespace Transfer
variable {ε : Type}

def start (total : Nat) : Transfer ε :=
  ⟨total, 0, if total = 0 then some (.ok ()) else none⟩

section Calls
variable (retries : ε → Bool) (zero : ε)

/-- A call with its outcome: a number of units, of which only those that remain are moved,
or an error. -/
def call (t : Transfer ε) : Except ε Nat → Transfer ε
  | .ok n =>
    if n = 0 then { t with result := some (.error zero) }
    else
      let moved := t.moved + min n (t.total - t.moved)
      { t with moved, result := if t.total ≤ moved then some (.ok ()) else none }
  | .error e => if retries e then t else { t with result := some (.error e) }

/-- The loop over the outcomes of its calls, of which it uses no more than it needs. -/
def run (t : Transfer ε) : List (Except ε Nat) → Transfer ε
  | [] => t
  | o :: os => if t.result.isSome then t else run (t.call retries zero o) os

def count : Except ε Nat → Nat
  | .ok n => n
  | .error _ => 0

def counts (os : List (Except ε Nat)) : Nat := (os.map count).sum

def Goes : Except ε Nat → Prop
  | .ok n => n ≠ 0
  | .error e => retries e = true

/-- The outcomes give the total before one that ends the loop. -/
def Supplies (total : Nat) (os : List (Except ε Nat)) : Prop :=
  ∃ k, (∀ o ∈ os.take k, Goes retries o) ∧ total ≤ counts (os.take k)

def Fails (e : ε) (o : Except ε Nat) : Prop :=
  o = .ok 0 ∧ e = zero ∨ o = .error e ∧ retries e = false

/-- An outcome ends the loop with the error before the total is given. -/
def Breaks (total : Nat) (e : ε) (os : List (Except ε Nat)) : Prop :=
  ∃ k o, os[k]? = some o ∧ Fails retries zero e o ∧ (∀ o ∈ os.take k, Goes retries o) ∧
    counts (os.take k) < total

end Calls

section Outcomes
variable {retries : ε → Bool} {zero : ε} {total : Nat} {e : ε} {o : Except ε Nat}
  {os : List (Except ε Nat)} {t : Transfer ε}

theorem supplies_zero (os : List (Except ε Nat)) : Supplies retries 0 os :=
  ⟨0, fun _ h => absurd h not_mem_nil, Nat.zero_le _⟩

theorem supplies_nil (h : 0 < total) : ¬ Supplies retries total ([] : List (Except ε Nat)) := by
  rintro ⟨k, -, hle⟩
  rw [take_nil, counts, map_nil, sum_nil] at hle
  omega

theorem counts_cons (o : Except ε Nat) (os : List (Except ε Nat)) :
    counts (o :: os) = count o + counts os := by
  simp [counts]

theorem supplies_cons (h : 0 < total) :
    Supplies retries total (o :: os) ↔ Goes retries o ∧ Supplies retries (total - count o) os := by
  constructor
  · rintro ⟨k, hgoes, hle⟩
    cases k with
    | zero =>
      rw [take_zero, counts, map_nil, sum_nil] at hle
      omega
    | succ k =>
      rw [take_succ_cons] at hgoes hle
      rw [counts_cons] at hle
      exact ⟨hgoes o mem_cons_self, k, fun o' ho => hgoes o' (mem_cons_of_mem o ho),
        by omega⟩
  · rintro ⟨hgoes, k, hrest, hle⟩
    refine ⟨k + 1, fun o' ho => ?_, ?_⟩
    · rw [take_succ_cons] at ho
      rcases mem_cons.mp ho with rfl | ho
      · exact hgoes
      · exact hrest o' ho
    · rw [take_succ_cons, counts_cons]
      omega

theorem breaks_nil : ¬ Breaks retries zero total e [] := by
  rintro ⟨k, o, ho, -⟩
  cases ho

theorem not_breaks_zero : ¬ Breaks retries zero 0 e os := by
  rintro ⟨k, o, -, -, -, hlt⟩
  exact Nat.not_lt_zero _ hlt

theorem breaks_cons (h : 0 < total) :
    Breaks retries zero total e (o :: os) ↔
      Fails retries zero e o ∨ Goes retries o ∧ Breaks retries zero (total - count o) e os := by
  constructor
  · rintro ⟨k, o', ho', hfails, hgoes, hlt⟩
    cases k with
    | zero =>
      cases ho'
      exact .inl hfails
    | succ k =>
      rw [take_succ_cons] at hgoes hlt
      rw [counts_cons] at hlt
      exact .inr ⟨hgoes o mem_cons_self, k, o', ho', hfails,
        fun o' ho => hgoes o' (mem_cons_of_mem o ho), by omega⟩
  · rintro (hfails | ⟨hgoes, k, o', ho', hfails, hrest, hlt⟩)
    · exact ⟨0, o, rfl, hfails, fun _ h => absurd h not_mem_nil, h⟩
    · refine ⟨k + 1, o', ho', hfails, fun o'' ho => ?_, ?_⟩
      · rw [take_succ_cons] at ho
        rcases mem_cons.mp ho with rfl | ho
        · exact hgoes
        · exact hrest o'' ho
      · rw [take_succ_cons, counts_cons]
        omega

def Open (t : Transfer ε) : Prop := t.result = none ∧ t.moved < t.total

theorem Open.call_cases (h : t.Open) (retries : ε → Bool) (zero : ε) (o : Except ε Nat) :
    (∃ e, Fails retries zero e o ∧ t.call retries zero o = { t with result := some (.error e) }) ∨
    Goes retries o ∧ (t.total - t.moved ≤ count o ∧
        t.call retries zero o = { t with moved := t.total, result := some (.ok ()) } ∨
      count o < t.total - t.moved ∧
        t.call retries zero o = { t with moved := t.moved + count o }) := by
  obtain ⟨hresult, hlt⟩ := h
  cases o with
  | error e =>
    cases hretries : retries e with
    | false => exact .inl ⟨e, .inr ⟨rfl, hretries⟩, by simp [call, hretries]⟩
    | true =>
      refine .inr ⟨hretries, .inr ⟨Nat.sub_pos_of_lt hlt, ?_⟩⟩
      simp [call, hretries, count]
  | ok n =>
    by_cases hn : n = 0
    · exact .inl ⟨zero, .inl ⟨congrArg _ hn, rfl⟩, by simp [call, hn]⟩
    · refine .inr ⟨hn, ?_⟩
      by_cases hle : t.total - t.moved ≤ n
      · refine .inl ⟨hle, ?_⟩
        have hmoved : t.moved + min n (t.total - t.moved) = t.total := by omega
        simp [call, hn, hmoved]
      · refine .inr ⟨Nat.lt_of_not_le hle, ?_⟩
        have hmoved : t.moved + min n (t.total - t.moved) = t.moved + n := by omega
        have hless : ¬ t.total ≤ t.moved + n := by omega
        simp [call, hn, hmoved, hless, count, hresult]

theorem run_of_result (h : t.result.isSome = true) (os : List (Except ε Nat)) :
    t.run retries zero os = t := by
  cases os with
  | nil => rfl
  | cons o os => rw [run, if_pos h]

theorem Open.run_cons (h : t.Open) :
    t.run retries zero (o :: os) = (t.call retries zero o).run retries zero os := by
  rw [run, h.1]
  rfl

theorem Fails.not_goes (h : Fails retries zero e o) : ¬ Goes retries o := by
  rcases h with ⟨rfl, -⟩ | ⟨rfl, hretries⟩
  · exact fun hgoes => hgoes rfl
  · exact fun hgoes => Bool.noConfusion (hretries.symm.trans hgoes)

theorem Fails.unique {e' : ε} (h : Fails retries zero e o) (h' : Fails retries zero e' o) :
    e = e' := by
  rcases h with ⟨rfl, rfl⟩ | ⟨rfl, -⟩
  · rcases h' with ⟨-, rfl⟩ | ⟨heq, -⟩
    · rfl
    · cases heq
  · rcases h' with ⟨heq, -⟩ | ⟨heq, -⟩
    · cases heq
    · exact Except.error.inj heq

theorem Open.run_ok_iff (h : t.Open) :
    (t.run retries zero os).result = some (.ok ()) ↔ Supplies retries (t.total - t.moved) os := by
  induction os generalizing t with
  | nil =>
    rw [run, h.1]
    exact ⟨fun heq => absurd heq (Option.some_ne_none _).symm,
      fun hs => absurd hs (supplies_nil (Nat.sub_pos_of_lt h.2))⟩
  | cons o os ih =>
    rw [h.run_cons, supplies_cons (Nat.sub_pos_of_lt h.2)]
    rcases h.call_cases retries zero o with ⟨e, hfails, hcall⟩ | ⟨hgoes, ⟨hle, hcall⟩ | ⟨hlt, hcall⟩⟩
    · rw [hcall, run_of_result rfl]
      refine ⟨fun heq => ?_, fun hs => absurd hs.1 hfails.not_goes⟩
      cases heq
    · rw [hcall, run_of_result rfl, Nat.sub_eq_zero_of_le hle]
      exact ⟨fun _ => ⟨hgoes, supplies_zero os⟩, fun _ => rfl⟩
    · have hopen : Open { t with moved := t.moved + count o } :=
        ⟨h.1, Nat.add_lt_of_lt_sub' hlt⟩
      rw [hcall, ih hopen, Nat.sub_sub]
      exact ⟨fun hs => ⟨hgoes, hs⟩, fun hs => hs.2⟩

theorem Open.run_error_iff (h : t.Open) :
    (t.run retries zero os).result = some (.error e) ↔
      Breaks retries zero (t.total - t.moved) e os := by
  induction os generalizing t with
  | nil =>
    rw [run, h.1]
    exact ⟨fun heq => absurd heq (Option.some_ne_none _).symm, fun hb => absurd hb breaks_nil⟩
  | cons o os ih =>
    rw [h.run_cons, breaks_cons (Nat.sub_pos_of_lt h.2)]
    rcases h.call_cases retries zero o with
      ⟨e', hfails, hcall⟩ | ⟨hgoes, ⟨hle, hcall⟩ | ⟨hlt, hcall⟩⟩
    · rw [hcall, run_of_result rfl]
      constructor
      · intro heq
        cases heq
        exact .inl hfails
      · rintro (hfails' | ⟨hgoes, -⟩)
        · rw [hfails'.unique hfails]
        · exact absurd hgoes hfails.not_goes
    · rw [hcall, run_of_result rfl, Nat.sub_eq_zero_of_le hle]
      constructor
      · intro heq
        cases heq
      · rintro (hfails | ⟨-, hbreaks⟩)
        · exact absurd hgoes hfails.not_goes
        · exact absurd hbreaks not_breaks_zero
    · have hopen : Open { t with moved := t.moved + count o } :=
        ⟨h.1, Nat.add_lt_of_lt_sub' hlt⟩
      rw [hcall, ih hopen, Nat.sub_sub]
      refine ⟨fun hb => .inr ⟨hgoes, hb⟩, ?_⟩
      rintro (hfails | ⟨-, hbreaks⟩)
      · exact absurd hgoes hfails.not_goes
      · exact hbreaks

theorem open_start (h : total ≠ 0) : (start total : Transfer ε).Open :=
  ⟨if_neg h, Nat.pos_of_ne_zero h⟩

theorem run_start_ok_iff :
    ((start total).run retries zero os).result = some (.ok ()) ↔ Supplies retries total os := by
  by_cases h : total = 0
  · subst h
    rw [run_of_result rfl]
    exact ⟨fun _ => supplies_zero os, fun _ => rfl⟩
  · exact (open_start h).run_ok_iff

theorem run_start_error_iff :
    ((start total).run retries zero os).result = some (.error e) ↔
      Breaks retries zero total e os := by
  by_cases h : total = 0
  · subst h
    rw [run_of_result rfl]
    refine ⟨fun heq => ?_, fun hb => absurd hb not_breaks_zero⟩
    cases heq
  · exact (open_start h).run_error_iff

theorem call_total (t : Transfer ε) (o : Except ε Nat) :
    (t.call retries zero o).total = t.total := by
  cases o with
  | ok n | error e =>
    rw [call]
    split <;> rfl

end Outcomes

section Simulation
variable {σ α : Type} (step : σ → α → Option σ) (retries : ε → Bool) (zero : ε)
  (view : σ → Transfer ε) (outcome : α → Option (Except ε Nat))

/-- A step of a program is a call of the transfer that it carries out, or none of its calls. -/
def Simulates (s : σ) (a : α) (t : σ) : Prop :=
  match outcome a with
  | none => view t = view s
  | some o => (view s).result = none ∧ view t = (view s).call retries zero o

variable {step retries zero view outcome}

/-- A program whose steps are calls of a transfer runs the transfer on their outcomes. -/
theorem run_of_simulates (Inv : σ → Prop) {s t : σ} {as : List α}
    (h : Lib.run step s as = some t) (h0 : Inv s)
    (hstep : ∀ s a t, Inv s → step s a = some t →
      Inv t ∧ Simulates retries zero view outcome s a t) :
    Inv t ∧ view t = (view s).run retries zero (as.filterMap outcome) := by
  induction as generalizing s with
  | nil =>
    cases h
    exact ⟨h0, rfl⟩
  | cons a as ih =>
    obtain ⟨u, hst, hrest⟩ := Option.bind_eq_some_iff.mp h
    obtain ⟨hinv, hsim⟩ := hstep s a u h0 hst
    obtain ⟨hinv', hview⟩ := ih hrest hinv
    refine ⟨hinv', ?_⟩
    rw [Simulates] at hsim
    cases ho : outcome a with
    | none =>
      rw [ho] at hsim
      rw [filterMap_cons_none ho, hview, hsim]
    | some o =>
      rw [ho] at hsim
      have hopen : ¬ (view s).result.isSome = true := by
        rw [hsim.1]
        exact Bool.false_ne_true
      rw [filterMap_cons_some ho, hview, hsim.2, run, if_neg hopen]

end Simulation

end Transfer
end Sitas.Lib
