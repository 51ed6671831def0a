import Mathlib.Algebra.Order.BigOperators.Group.Finset
import Mathlib.Algebra.Order.Ring.Nat

/-! Scheduling by virtual time: every client has a clock, a busy client with the least
clock is picked, and what it is charged afterwards advances its clock. -/
namespace Sitas.Lib
open Function

theorem not_infinitely_often_lt {f : Nat → Nat} {N : Nat} (hle : ∀ n, N ≤ n → f (n + 1) ≤ f n) :
    ¬ ∀ n, ∃ m, n ≤ m ∧ f (m + 1) < f m := by
  intro h
  have hmono : ∀ n m, N ≤ n → n ≤ m → f m ≤ f n := by
    intro n m hn hnm
    induction m, hnm using Nat.le_induction with
    | base => exact le_rfl
    | succ m hnm ih => exact Nat.le_trans (hle m (Nat.le_trans hn hnm)) ih
  have hdrop : ∀ k, ∃ n, N ≤ n ∧ f n + k ≤ f N := by
    intro k
    induction k with
    | zero => exact ⟨N, le_rfl, le_rfl⟩
    | succ k ih =>
      obtain ⟨n, hn, hk⟩ := ih
      obtain ⟨m, hnm, hlt⟩ := h n
      have hmn := hmono n m hn hnm
      exact ⟨m + 1, by omega, by omega⟩
  obtain ⟨n, _, hn⟩ := hdrop (f N + 1)
  omega

/-- Moves that reach the goal or lower the rank, made again and again, reach the goal again and
again. -/
theorem infinitely_often_of_rank {f : Nat → Nat} {moves goal : Nat → Prop}
    (hrest : ∀ n, ¬ moves n → f (n + 1) = f n)
    (hmove : ∀ n, moves n → goal n ∨ f (n + 1) < f n)
    (hmoves : ∀ n, ∃ m, n ≤ m ∧ moves m) (n : Nat) : ∃ m, n ≤ m ∧ goal m := by
  by_contra hnever
  refine not_infinitely_often_lt (f := f) (N := n) (fun m hm => ?_) fun k => ?_
  · by_cases hmoved : moves m
    · exact Nat.le_of_lt ((hmove m hmoved).resolve_left fun hgoal => hnever ⟨m, hm, hgoal⟩)
    · exact Nat.le_of_eq (hrest m hmoved)
  · obtain ⟨m, hm, hmoved⟩ := hmoves (max k n)
    exact ⟨m, by omega, (hmove m hmoved).resolve_left fun hgoal => hnever ⟨m, by omega, hgoal⟩⟩

structure VirtualTime (ι : Type) where
  clock : ι → Nat
  picked : Option ι

inductive Act (ι : Type) where
  | rest
  | pick (i : ι)
  | charge (i : ι) (amount : Nat)
  | release (i : ι)
  | enter (i : ι)

namespace VirtualTime
variable {ι : Type} [DecidableEq ι]

def Move (busy : ι → Prop) (v : VirtualTime ι) : Act ι → VirtualTime ι → Prop
  | .rest, w => w = v
  | .pick i, w => v.picked = none ∧ busy i ∧ (∀ j, busy j → v.clock i ≤ v.clock j) ∧
      w = { v with picked := some i }
  | .charge i amount, w => v.picked = some i ∧
      w = ⟨Function.update v.clock i (v.clock i + amount), none⟩
  | .release i, w => v.picked = some i ∧ w = { v with picked := none }
  | .enter i, w => ¬ busy i ∧ v.picked ≠ some i ∧
      ∃ value, w = { v with clock := Function.update v.clock i value }

section Gap
variable {a b : ι} {busy : ι → Prop} {gap largest : Nat} {v w : VirtualTime ι} {act : Act ι}

/-- One clock is ahead of another by no more than the gap, but for the last charge. -/
structure Within (a b : ι) (gap largest : Nat) (v : VirtualTime ι) : Prop where
  clock : v.clock a ≤ v.clock b + gap + largest
  picked : v.picked = some a → v.clock a ≤ v.clock b + gap

omit [DecidableEq ι] in
theorem within_start (v : VirtualTime ι) (a b : ι) (largest : Nat) :
    Within a b (v.clock a - v.clock b) largest v :=
  ⟨by omega, fun _ => by omega⟩

private theorem Within.advance (h : Within a b gap largest v) (hb : ∀ i, act = .pick i → busy b)
    (hle : ∀ amount, act = .charge a amount → amount ≤ largest)
    (henter : ∀ i, act = .enter i → i ≠ a ∧ i ≠ b) (hm : Move busy v act w) :
    Within a b gap largest w := by
  obtain ⟨hclock, hpicked⟩ := h
  cases act with
  | rest =>
    cases hm
    exact ⟨hclock, hpicked⟩
  | pick i =>
    obtain ⟨_, _, hleast, rfl⟩ := hm
    refine ⟨hclock, fun hi => ?_⟩
    cases hi
    exact Nat.le_add_right_of_le (hleast b (hb a rfl))
  | charge i amount =>
    obtain ⟨hi, rfl⟩ := hm
    refine ⟨?_, nofun⟩
    by_cases hia : i = a
    · subst hia
      have hahead := hpicked hi
      have hcharge := hle amount rfl
      by_cases hbi : b = i
      · subst hbi
        omega
      · simp only [update_self, update_of_ne hbi]
        omega
    · simp only [update_of_ne (Ne.symm hia)]
      by_cases hib : b = i
      · subst hib
        simp only [update_self]
        omega
      · simp only [update_of_ne hib]
        exact hclock
  | release i =>
    obtain ⟨_, rfl⟩ := hm
    exact ⟨hclock, nofun⟩
  | enter i =>
    obtain ⟨_, _, value, rfl⟩ := hm
    obtain ⟨hai, hbi⟩ := henter i rfl
    refine ⟨?_, ?_⟩ <;> simp only [update_of_ne hai.symm, update_of_ne hbi.symm]
    · exact hclock
    · exact hpicked

theorem Within.move (h : Within a b gap largest v) (ha : busy a) (hb : busy b)
    (hle : ∀ amount, act = .charge a amount → amount ≤ largest) (hm : Move busy v act w) :
    Within a b gap largest w := by
  refine h.advance (fun _ _ => hb) hle (fun i hact => ?_) hm
  subst hact
  obtain ⟨hidle, _⟩ := hm
  exact ⟨fun hia => hidle (hia ▸ ha), fun hib => hidle (hib ▸ hb)⟩

end Gap

section Lag
variable {a b : ι} {busy : ι → Prop} {bound : Nat} {v w : VirtualTime ι} {act : Act ι}

/-- One clock is ahead of another by no more than the bound, and its client is picked only
when it is not ahead. -/
structure Lag (a b : ι) (bound : Nat) (v : VirtualTime ι) : Prop where
  clock : v.clock a ≤ v.clock b + bound
  picked : v.picked = some a → v.clock a ≤ v.clock b

/-- A charge to a client that was not ahead brings it ahead by the charge at most. -/
theorem Lag.move (h : Lag a b bound v) (hb : ∀ i, act = .pick i → busy b)
    (hle : ∀ amount, act = .charge a amount → amount ≤ bound)
    (henter : ∀ i, act = .enter i → i ≠ a ∧ i ≠ b) (hm : Move busy v act w) : Lag a b bound w := by
  have hwithin : Within a b 0 bound v := ⟨h.clock, h.picked⟩
  obtain ⟨hclock, hpicked⟩ := hwithin.advance hb hle henter hm
  exact ⟨hclock, hpicked⟩

end Lag

section Progress
variable {v : Nat → VirtualTime ι} {act : Nat → Act ι} {busy : Nat → ι → Prop} {N : Nat}

omit [DecidableEq ι] in
theorem not_infinitely_often_advance {clock : Nat → ι → Nat} (S : Finset ι) (bound : Nat)
    (hmono : ∀ n, N ≤ n → ∀ i, clock n i ≤ clock (n + 1) i) :
    ¬ ∀ n, ∃ m, n ≤ m ∧ ∃ i ∈ S, clock m i ≤ bound ∧ clock m i < clock (m + 1) i := by
  intro h
  refine not_infinitely_often_lt (f := fun n => ∑ i ∈ S, (bound + 1 - clock n i)) (N := N) ?_ ?_
  · intro n hn
    exact Finset.sum_le_sum fun i _ => Nat.sub_le_sub_left (hmono n hn i) _
  · intro n
    obtain ⟨m, hm, i, hi, hbound, hlt⟩ := h (max n N)
    refine ⟨m, by omega, ?_⟩
    refine Finset.sum_lt_sum (fun j _ => Nat.sub_le_sub_left (hmono m (by omega) j) _) ⟨i, hi, ?_⟩
    omega

/-- From some time on every move rests, picks, or charges the picked client a positive
amount. -/
structure Serves (busy : Nat → ι → Prop) (v : Nat → VirtualTime ι) (act : Nat → Act ι)
    (N : Nat) : Prop where
  move : ∀ n, N ≤ n → Move (busy n) (v n) (act n) (v (n + 1))
  charged : ∀ n i, N ≤ n → act n ≠ .release i
  closed : ∀ n i, N ≤ n → act n ≠ .enter i
  positive : ∀ n i amount, N ≤ n → act n = .charge i amount → 0 < amount

theorem Serves.clock_le (h : Serves busy v act N) (n : Nat) (hn : N ≤ n) (i : ι) :
    (v n).clock i ≤ (v (n + 1)).clock i := by
  have hm := h.move n hn
  cases hact : act n with
  | rest =>
    rw [hact] at hm
    rw [hm]
  | pick j =>
    rw [hact] at hm
    obtain ⟨_, _, _, hw⟩ := hm
    rw [hw]
  | charge j amount =>
    rw [hact] at hm
    obtain ⟨_, hw⟩ := hm
    rw [hw]
    by_cases hij : i = j
    · subst hij
      simp
    · simp [update_of_ne hij]
  | release j => exact absurd hact (h.charged n j hn)
  | enter j => exact absurd hact (h.closed n j hn)

theorem Serves.picked_or_advance (h : Serves busy v act N) {n : Nat} (hn : N ≤ n) {i : ι}
    (hi : (v n).picked = some i) :
    v (n + 1) = v n ∨ ((v (n + 1)).picked = none ∧ (v n).clock i < (v (n + 1)).clock i ∧
      ∀ j, j ≠ i → (v (n + 1)).clock j = (v n).clock j) := by
  have hm := h.move n hn
  cases hact : act n with
  | rest =>
    rw [hact] at hm
    exact .inl hm
  | pick j =>
    rw [hact] at hm
    cases hi.symm.trans hm.1
  | charge j amount =>
    rw [hact] at hm
    obtain ⟨hj, hw⟩ := hm
    cases hi.symm.trans hj
    have hpos := h.positive n i amount hn hact
    rw [hw]
    exact .inr ⟨rfl, by simpa using hpos, fun j hji => update_of_ne hji _ _⟩
  | release j => exact absurd hact (h.charged n j hn)
  | enter j => exact absurd hact (h.closed n j hn)

theorem Serves.idle (h : Serves busy v act N) {n : Nat} (hn : N ≤ n)
    (hnone : (v n).picked = none) :
    (v (n + 1)).clock = (v n).clock ∧ ∀ i, (v (n + 1)).picked = some i →
      busy n i ∧ ∀ j, busy n j → (v n).clock i ≤ (v n).clock j := by
  have hm := h.move n hn
  cases hact : act n with
  | rest =>
    rw [hact] at hm
    rw [hm, hnone]
    exact ⟨rfl, nofun⟩
  | pick i =>
    rw [hact] at hm
    obtain ⟨_, hbusy, hleast, hw⟩ := hm
    rw [hw]
    refine ⟨rfl, fun j hj => ?_⟩
    cases hj
    exact ⟨hbusy, hleast⟩
  | charge i amount =>
    rw [hact] at hm
    cases hnone.symm.trans hm.1
  | release j => exact absurd hact (h.charged n j hn)
  | enter j => exact absurd hact (h.closed n j hn)

private theorem Serves.exists_advance (h : Serves busy v act N) {n m : Nat} (hn : N ≤ n)
    (hnm : n ≤ m) (hpicked : (v n).picked ≠ none) (hm : (v m).picked = none) :
    ∃ k i, n ≤ k ∧ (v k).picked = some i ∧ (v k).clock i < (v (k + 1)).clock i := by
  induction m, hnm using Nat.le_induction with
  | base => exact absurd hm hpicked
  | succ m hnm ih =>
    cases hp : (v m).picked with
    | none => exact ih hp
    | some i =>
      rcases h.picked_or_advance (Nat.le_trans hn hnm) hp with heq | hadvance
      · rw [heq, hp] at hm
        cases hm
      · exact ⟨m, i, hnm, hp, hadvance.2.1⟩

private theorem Serves.behind (h : Serves busy v act N) {S : Finset ι}
    (hS : ∀ n i, N ≤ n → busy n i → i ∈ S) {a : ι} (ha : ∀ n, N ≤ n → busy n a) {start : Nat}
    (hstart : N ≤ start) (hnone : (v start).picked = none)
    (hnever : ∀ m, start ≤ m → (v m).picked = none → (v (m + 1)).picked ≠ some a) (n : Nat)
    (hn : start ≤ n) :
    (v n).clock a = (v start).clock a ∧ ∀ i, (v n).picked = some i →
      i ≠ a ∧ i ∈ S ∧ (v n).clock i ≤ (v start).clock a := by
  induction n, hn using Nat.le_induction with
  | base =>
    rw [hnone]
    exact ⟨rfl, nofun⟩
  | succ n hn ih =>
    obtain ⟨hclock, hbehind⟩ := ih
    have hN := Nat.le_trans hstart hn
    cases hp : (v n).picked with
    | none =>
      obtain ⟨hsame, hnext⟩ := h.idle hN hp
      rw [hsame]
      refine ⟨hclock, fun i hi => ?_⟩
      obtain ⟨hbusy, hleast⟩ := hnext i hi
      refine ⟨?_, hS n i hN hbusy, hclock ▸ hleast a (ha n hN)⟩
      rintro rfl
      exact hnever n hn hp hi
    | some i =>
      rcases h.picked_or_advance hN hp with heq | ⟨hfree, _, hothers⟩
      · rw [heq]
        exact ⟨hclock, hbehind⟩
      · rw [hothers a (hbehind i hp).1.symm, hfree]
        exact ⟨hclock, nofun⟩

/-- A client that stays busy is picked again and again. -/
theorem Serves.picked_infinitely_often (h : Serves busy v act N) (S : Finset ι)
    (hS : ∀ n i, N ≤ n → busy n i → i ∈ S) {a : ι} (ha : ∀ n, N ≤ n → busy n a)
    (hpicks : ∀ n, ∃ m, n ≤ m ∧ (v m).picked = none ∧ (v (m + 1)).picked ≠ none) (n : Nat) :
    ∃ m, n ≤ m ∧ (v m).picked = none ∧ (v (m + 1)).picked = some a := by
  by_contra hnever
  obtain ⟨start, hstart, hnone, _⟩ := hpicks (max n N)
  have hbehind := h.behind hS ha (by omega) hnone
    (fun m hm hfree hpick => hnever ⟨m, by omega, hfree, hpick⟩)
  refine not_infinitely_often_advance (N := start) S ((v start).clock a)
    (fun m hm i => h.clock_le m (by omega) i) ?_
  intro n'
  obtain ⟨m, hm, _, hpicked⟩ := hpicks (max n' start)
  obtain ⟨m', hm', hfree, _⟩ := hpicks (m + 1)
  obtain ⟨k, i, hk, hi, hlt⟩ := h.exists_advance (by omega) hm' hpicked hfree
  obtain ⟨_, hmem, hle⟩ := (hbehind k (by omega)).2 i hi
  exact ⟨k, by omega, i, hmem, hle, hlt⟩

end Progress
end VirtualTime
end Sitas.Lib
