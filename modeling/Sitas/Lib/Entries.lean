import Mathlib.Algebra.Order.Ring.Nat
import Mathlib.Data.List.AList

/-! Single entries of maps and lists: what a finite map holds after an entry was put in or
taken out, how the weight of a list changes with an entry, and which objects go with the
references of a list. -/
namespace Sitas.Lib

section Lookup
variable {α β : Type} [DecidableEq α] {a k : α} {b v : β}

theorem lookup_erase_eq_some {s : AList fun _ : α => β} :
    (s.erase k).lookup a = some b ↔ a ≠ k ∧ s.lookup a = some b := by
  by_cases h : a = k
  · subst h
    simp
  · simp [h, AList.lookup_erase_ne h]

theorem lookup_insert_eq_some {s : AList fun _ : α => β} :
    (s.insert k v).lookup a = some b ↔ a = k ∧ v = b ∨ a ≠ k ∧ s.lookup a = some b := by
  by_cases h : a = k
  · subst h
    simp [AList.lookup_insert]
  · simp [h, AList.lookup_insert_ne h]

theorem update_eq_some {f : α → Option β} : Function.update f k (some v) a = some b ↔
    a = k ∧ v = b ∨ a ≠ k ∧ f a = some b := by
  by_cases h : a = k
  · subst h
    simp
  · simp [h]

end Lookup

section Lists
open List Option
variable {α : Type} {l : List α} {i j : Nat} {x y : α}

theorem getElem?_concat (h : (l ++ [x])[i]? = some y) :
    l[i]? = some y ∨ (i = l.length ∧ y = x) := by
  rcases Nat.lt_trichotomy i l.length with hlt | heq | hgt
  · rw [getElem?_append_left hlt] at h
    exact .inl h
  · subst heq
    simp only [getElem?_concat_length, some.injEq] at h
    exact .inr ⟨rfl, h.symm⟩
  · have hlen : (l ++ [x]).length ≤ i := by
      rw [length_append, length_singleton]
      omega
    rw [getElem?_eq_none hlen] at h
    cases h

theorem getElem?_concat_of (h : l[i]? = some y) : (l ++ [x])[i]? = some y := by
  rw [List.getElem?_append_left (List.getElem?_eq_some_iff.mp h).1]
  exact h

variable {f : α → α}

theorem getElem?_modify_cases (h : (l.modify i f)[j]? = some y) :
    (i ≠ j ∧ l[j]? = some y) ∨ (i = j ∧ ∃ x, l[j]? = some x ∧ y = f x) := by
  rw [getElem?_modify, Option.map_eq_map, Option.map_eq_some_iff] at h
  obtain ⟨x, hx, rfl⟩ := h
  by_cases hij : i = j
  · exact .inr ⟨hij, x, hx, if_pos hij⟩
  · exact .inl ⟨hij, by simpa [hij] using hx⟩

theorem getElem?_modify_self (h : l[i]? = some x) : (l.modify i f)[i]? = some (f x) := by
  simp [h]

theorem modify_eq (h : l[i]? = some x) (hy : (l.modify i f)[i]? = some y) : f x = y :=
  Option.some.inj ((getElem?_modify_self h).symm.trans hy)

theorem getElem?_modify_other (hij : i ≠ j) : (l.modify i f)[j]? = l[j]? := by
  rw [getElem?_modify, Option.map_eq_map]
  simp [hij]

theorem exists_modify {P : α → Prop} (h : ∃ x, l[j]? = some x ∧ P x) (hf : ∀ x, P x → P (f x)) :
    ∃ y, (l.modify i f)[j]? = some y ∧ P y := by
  obtain ⟨x, hx, hP⟩ := h
  by_cases hij : i = j
  · subst hij
    exact ⟨_, getElem?_modify_self hx, hf x hP⟩
  · exact ⟨x, (getElem?_modify_other hij).trans hx, hP⟩

theorem getElem?_set_cases (h : (l.set i x)[j]? = some y) :
    (i ≠ j ∧ l[j]? = some y) ∨ (i = j ∧ y = x) := by
  by_cases hij : i = j
  · subst hij
    rw [getElem?_set] at h
    simp only [if_true, ite_none_right_eq_some, some.injEq] at h
    exact .inr ⟨rfl, h.2.symm⟩
  · rw [getElem?_set_ne hij] at h
    exact .inl ⟨hij, h⟩

theorem map_modify_of {β : Type} {g : α → β} (hf : ∀ x, g (f x) = g x) :
    (l.modify i f).map g = l.map g := by
  apply ext_getElem?
  intro j
  rw [getElem?_map, getElem?_map, getElem?_modify, Option.map_eq_map]
  by_cases hj : i = j
  · simp [hj, hf, Function.comp_def]
  · simp [hj]

theorem map_set_of {β : Type} {g : α → β} (h : l[i]? = some x) (hg : g y = g x) :
    (l.set i y).map g = l.map g := by
  obtain ⟨hi, rfl⟩ := List.getElem?_eq_some_iff.mp h
  rw [map_set, hg]
  apply ext_getElem?
  intro j
  by_cases hj : i = j
  · subst hj
    simp [hi]
  · rw [getElem?_set_ne hj]

end Lists

section Weights
open List
variable {α : Type} {l : List α} {i : Nat} {x y : α}

theorem sum_map_set (f : α → Nat) (h : l[i]? = some x) :
    ((l.set i y).map f).sum + f x = (l.map f).sum + f y := by
  induction l generalizing i with
  | nil => cases h
  | cons z l ih =>
    cases i with
    | zero =>
      cases h
      simp only [set_cons_zero, map_cons, sum_cons]
      omega
    | succ i =>
      have hi := ih (i := i) h
      simp only [set_cons_succ, map_cons, sum_cons]
      omega

theorem modify_eq_set {g : α → α} (h : l[i]? = some x) : l.modify i g = l.set i (g x) := by
  apply ext_getElem?
  intro j
  rw [getElem?_modify, getElem?_set, Option.map_eq_map]
  by_cases hj : i = j
  · subst hj
    obtain ⟨hi, rfl⟩ := List.getElem?_eq_some_iff.mp h
    simp [hi]
  · simp [hj]

theorem sum_map_modify (f : α → Nat) {g : α → α} (h : l[i]? = some x) :
    ((l.modify i g).map f).sum + f x = (l.map f).sum + f (g x) := by
  rw [modify_eq_set h]
  exact sum_map_set f h

end Weights

section References
variable {ι : Type} [DecidableEq ι]

/-- The objects freed by dropping the listed references, in the order in which they go,
when `outside` counts the references to an object that are not in the list. -/
def freed (outside : ι → Nat) : List ι → List ι
  | [] => []
  | i :: rest =>
    if outside i + rest.count i = 0 then i :: freed outside rest else freed outside rest

theorem mem_freed_iff {outside : ι → Nat} {refs : List ι} {i : ι} :
    i ∈ freed outside refs ↔ i ∈ refs ∧ outside i = 0 := by
  induction refs with
  | nil => exact ⟨nofun, nofun⟩
  | cons j rest ih =>
    have hcount : rest.count j = 0 ↔ j ∉ rest := List.count_eq_zero
    rw [freed]
    split
    next hlast =>
      rw [List.mem_cons, List.mem_cons, ih]
      constructor
      · rintro (rfl | ⟨hi, hout⟩)
        · exact ⟨.inl rfl, Nat.eq_zero_of_add_eq_zero_right hlast⟩
        · exact ⟨.inr hi, hout⟩
      · rintro ⟨rfl | hi, hout⟩
        · exact .inl rfl
        · exact .inr ⟨hi, hout⟩
    next hmore =>
      rw [ih, List.mem_cons]
      constructor
      · rintro ⟨hi, hout⟩
        exact ⟨.inr hi, hout⟩
      · rintro ⟨rfl | hi, hout⟩
        · rw [hout, Nat.zero_add, hcount, not_not] at hmore
          exact ⟨hmore, hout⟩
        · exact ⟨hi, hout⟩

end References
end Sitas.Lib
