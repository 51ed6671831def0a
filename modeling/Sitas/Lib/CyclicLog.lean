import Mathlib.Data.Nat.ModEq

/-! A log whose unread tail is kept in a cyclic buffer. -/
namespace Sitas.Lib
open List
variable {α : Type} {buffer : Nat → Option α} {c r : Nat} {log : List α}

/-- Positions less than one revolution apart fall on one slot only if they are equal. -/
theorem eq_of_mod_eq {a b c : Nat} (hab : a ≤ b) (hbc : b < a + c) (h : a % c = b % c) : a = b := by
  have hdvd := (Nat.modEq_iff_dvd' hab).mp h
  have hzero := Nat.eq_zero_of_dvd_of_lt hdvd (by omega)
  omega

/-- The entries from position `r` on stand in the buffer at their position modulo its size. -/
def Stores (buffer : Nat → Option α) (c : Nat) (log : List α) (r : Nat) : Prop :=
  ∀ i, r ≤ i → i < log.length → buffer (i % c) = log[i]?

theorem Stores.empty (buffer : Nat → Option α) (c : Nat) : Stores buffer c [] 0 := by
  intro i _ hi
  cases hi

/-- The slot after the newest entry may be written while the buffer is not full. -/
theorem Stores.write (h : Stores buffer c log r) (hfit : log.length < r + c) (x : α) :
    Stores (Function.update buffer (log.length % c) (some x)) c log r := by
  intro i hr hi
  have hne : i % c ≠ log.length % c := by
    intro he
    have heq := eq_of_mod_eq (Nat.le_of_lt hi) (by omega) he
    omega
  rw [Function.update_of_ne hne]
  exact h i hr hi

theorem Stores.append (h : Stores buffer c log r) {x : α}
    (hx : buffer (log.length % c) = some x) : Stores buffer c (log ++ [x]) r := by
  intro i hr hi
  rw [length_append, length_singleton] at hi
  rcases Nat.lt_or_eq_of_le (Nat.le_of_lt_succ hi) with hlt | rfl
  · rw [getElem?_append_left hlt]
    exact h i hr hlt
  · rw [hx, getElem?_concat_length]

theorem Stores.advance (h : Stores buffer c log r) : Stores buffer c log (r + 1) :=
  fun i hr hi => h i (Nat.le_of_succ_le hr) hi

theorem prefix_concat {xs log : List α} {x : α} (h : xs <+: log) (hx : log[xs.length]? = some x) :
    xs ++ [x] <+: log := by
  obtain ⟨rest, rfl⟩ := h
  rw [getElem?_append_right le_rfl, Nat.sub_self] at hx
  cases rest with
  | nil => cases hx
  | cons y rest =>
    cases hx
    exact ⟨rest, append_assoc xs [x] rest⟩

end Sitas.Lib
