import Mathlib.Algebra.Order.Ring.Nat
import Mathlib.Data.Finmap
import Mathlib.Data.Finset.Sort

/-! Finite maps that are split by an owner of each key. -/
namespace Sitas.Lib
open List

variable {K V : Type} [LinearOrder K]

/-- Each part holds what the whole has at the keys it owns. -/
structure Partitioned (owner : K → Nat) (parts : List (Finmap fun _ : K => V))
    (whole : Finmap fun _ : K => V) : Prop where
  owned : ∀ key, owner key < parts.length
  lookup : ∀ i part, parts[i]? = some part → ∀ key,
    part.lookup key = if owner key = i then whole.lookup key else none

namespace Partitioned
variable {owner : K → Nat} {parts : List (Finmap fun _ : K => V)} {whole : Finmap fun _ : K => V}

theorem empty {n : Nat} (howned : ∀ key, owner key < n) :
    Partitioned owner (replicate n (∅ : Finmap fun _ : K => V)) ∅ := by
  refine ⟨fun key => by simpa using howned key, fun i part hpart key => ?_⟩
  rw [eq_of_mem_replicate (mem_of_getElem? hpart), Finmap.lookup_empty, ite_self]

section
variable (h : Partitioned owner parts whole)
include h

theorem lookup_owner {key : K} {part : Finmap fun _ : K => V}
    (hpart : parts[owner key]? = some part) : part.lookup key = whole.lookup key := by
  rw [h.lookup _ part hpart key, if_pos rfl]

/-- The whole and the part that owns a key change in the same way at that key. -/
theorem update {key : K} {part part' whole' : Finmap fun _ : K => V}
    (hpart : parts[owner key]? = some part) (hkey : part'.lookup key = whole'.lookup key)
    (hrest : ∀ k, k ≠ key → part'.lookup k = part.lookup k)
    (hrest' : ∀ k, k ≠ key → whole'.lookup k = whole.lookup k) :
    Partitioned owner (parts.set (owner key) part') whole' := by
  refine ⟨fun k => by simpa using h.owned k, fun i p hp k => ?_⟩
  by_cases hi : owner key = i
  · subst hi
    rw [getElem?_set_self (h.owned key), Option.some.injEq] at hp
    subst hp
    by_cases hk : k = key
    · rw [hk, hkey, if_pos rfl]
    · rw [hrest k hk, hrest' k hk]
      exact h.lookup _ part hpart k
  · rw [getElem?_set_ne hi] at hp
    rw [h.lookup i p hp k]
    by_cases hk : k = key
    · rw [hk, if_neg hi, if_neg hi]
    · rw [hrest' k hk]

theorem mem_part_iff {i : Nat} {part : Finmap fun _ : K => V} (hpart : parts[i]? = some part)
    (key : K) : key ∈ part ↔ owner key = i ∧ key ∈ whole := by
  rw [← Finmap.lookup_isSome, h.lookup i part hpart key, ← Finmap.lookup_isSome]
  by_cases hi : owner key = i
  · simp [hi]
  · simp [hi]

theorem keys_perm : (parts.flatMap fun part => part.keys.sort).Perm whole.keys.sort := by
  rw [perm_ext_iff_of_nodup ?_ (Finset.sort_nodup _ _)]
  · intro key
    simp only [mem_flatMap, Finset.mem_sort, Finmap.mem_keys]
    constructor
    · rintro ⟨part, hmem, hkey⟩
      obtain ⟨i, hi⟩ := mem_iff_getElem?.mp hmem
      exact ((h.mem_part_iff hi key).mp hkey).2
    · intro hkey
      have hpart := getElem?_eq_getElem (h.owned key)
      exact ⟨_, mem_of_getElem? hpart, (h.mem_part_iff hpart key).mpr ⟨rfl, hkey⟩⟩
  · refine nodup_flatMap.mpr ⟨fun part _ => Finset.sort_nodup _ _, ?_⟩
    rw [pairwise_iff_getElem]
    intro i j hi hj hij key hleft hright
    simp only [Finset.mem_sort, Finmap.mem_keys] at hleft hright
    have howner := ((h.mem_part_iff (getElem?_eq_getElem hi) key).mp hleft).1
    have howner' := ((h.mem_part_iff (getElem?_eq_getElem hj) key).mp hright).1
    omega

theorem sort_keys :
    (parts.flatMap fun part => part.keys.sort).mergeSort (· ≤ ·) = whole.keys.sort :=
  ((mergeSort_perm _ _).trans h.keys_perm).eq_of_pairwise'
    (pairwise_mergeSort' (· ≤ ·) _) (Finset.pairwise_sort _ _)

theorem sum_card : (parts.map fun part => part.keys.card).sum = whole.keys.card := by
  have hlength := h.keys_perm.length_eq
  rw [length_flatMap, Finset.length_sort] at hlength
  simpa using hlength

end

end Partitioned
end Sitas.Lib
