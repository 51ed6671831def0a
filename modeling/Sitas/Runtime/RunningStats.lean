import Mathlib.Algebra.BigOperators.Ring.Multiset
import Mathlib.Data.Rat.Floor

/-! The statistics accumulator over exact numbers. -/
namespace Sitas.Runtime
open Multiset

structure RunningStatistics where
  count : Nat
  mean : ℚ
  m2 : ℚ
  min : ℚ
  max : ℚ
  total : Nat

namespace RunningStatistics

def new : RunningStatistics := ⟨0, 0, 0, 0, 0, 0⟩

/-- The sample as an unsigned word, rounded and saturated. -/
def rounded (x : ℚ) : Nat := ⌊x + 1 / 2⌋.toNat ⊓ (2 ^ 64 - 1)

def addSample (s : RunningStatistics) (x : ℚ) : RunningStatistics :=
  let count := s.count + 1
  let delta := x - s.mean
  let mean := s.mean + delta / count
  { count := count
    mean := mean
    m2 := s.m2 + delta * (x - mean)
    min := if s.count = 0 then x else s.min ⊓ x
    max := if s.count = 0 then x else s.max ⊔ x
    total := (s.total + rounded x) % 2 ^ 64 }

def merge (s other : RunningStatistics) : RunningStatistics :=
  if other.count = 0 then s
  else if s.count = 0 then other
  else
    let combined := s.count + other.count
    let delta := other.mean - s.mean
    { count := combined
      mean := (s.count * s.mean + other.count * other.mean) / combined
      m2 := s.m2 + (other.m2 + delta * delta * s.count * other.count / combined)
      min := s.min ⊓ other.min
      max := s.max ⊔ other.max
      total := (s.total + other.total) % 2 ^ 64 }

def accumulate (xs : List ℚ) : RunningStatistics := xs.foldl addSample new

def fields (s : RunningStatistics) : Nat × ℚ × ℚ × ℚ × ℚ := (s.count, s.mean, s.m2, s.min, s.max)

structure Describes (s : RunningStatistics) (xs : Multiset ℚ) : Prop where
  count : s.count = xs.card
  mean : s.mean = xs.sum / xs.card
  m2 : s.m2 = (xs.map (· ^ 2)).sum - xs.sum ^ 2 / xs.card
  bounds : if xs = 0 then s.min = 0 ∧ s.max = 0
    else IsLeast {x | x ∈ xs} s.min ∧ IsGreatest {x | x ∈ xs} s.max

variable {s t : RunningStatistics} {xs ys : Multiset ℚ}

theorem Describes.of_fields (hs : Describes s xs) (heq : s.fields = t.fields) : Describes t xs := by
  simp only [fields, Prod.mk.injEq] at heq
  obtain ⟨hcount, hmean, hm2, hmin, hmax⟩ := heq
  exact ⟨hcount ▸ hs.count, hmean ▸ hs.mean, hm2 ▸ hs.m2, hmin ▸ hmax ▸ hs.bounds⟩

theorem Describes.fields_eq (hs : Describes s xs) (ht : Describes t xs) : s.fields = t.fields := by
  have hbounds : s.min = t.min ∧ s.max = t.max := by
    have hs := hs.bounds
    have ht := ht.bounds
    split at hs
    · rw [if_pos ‹_›] at ht
      exact ⟨hs.1.trans ht.1.symm, hs.2.trans ht.2.symm⟩
    · rw [if_neg ‹_›] at ht
      exact ⟨hs.1.unique ht.1, hs.2.unique ht.2⟩
  rw [fields, fields, hs.count, hs.mean, hs.m2, ht.count, ht.mean, ht.m2, hbounds.1, hbounds.2]

theorem Describes.merge (hs : Describes s xs) (ht : Describes t ys) :
    Describes (s.merge t) (xs + ys) := by
  unfold RunningStatistics.merge
  rw [hs.count, ht.count]
  by_cases hy : ys = 0
  · subst hy
    simpa using hs
  by_cases hx : xs = 0
  · subst hx
    simpa [hy] using ht
  rw [if_neg (mt card_eq_zero.mp hy), if_neg (mt card_eq_zero.mp hx)]
  have hxs := hs.bounds
  have hys := ht.bounds
  rw [if_neg hx] at hxs
  rw [if_neg hy] at hys
  have hxc : (xs.card : ℚ) ≠ 0 := by simpa using hx
  have hyc : (ys.card : ℚ) ≠ 0 := by simpa using hy
  have hc : (xs.card + ys.card : ℚ) ≠ 0 := by
    exact_mod_cast fun hzero => hx (card_eq_zero.mp (Nat.eq_zero_of_add_eq_zero hzero).1)
  refine ⟨(card_add xs ys).symm, ?_, ?_, ?_⟩
  · simp only [hs.mean, ht.mean, sum_add, card_add, Nat.cast_add]
    field_simp
  · simp only [hs.mean, ht.mean, hs.m2, ht.m2, sum_add, map_add, card_add,
      Nat.cast_add]
    field_simp
    ring
  · have hset : {x | x ∈ xs + ys} = {x | x ∈ xs} ∪ {x | x ∈ ys} := by
      ext x
      exact mem_add
    rw [if_neg fun hzero => hx (le_zero.mp ((le_add_right xs ys).trans_eq hzero)), hset]
    exact ⟨hxs.1.union hys.1, hxs.2.union hys.2⟩

theorem Describes.addSample (h : Describes s xs) (x : ℚ) : Describes (s.addSample x) (xs + {x}) := by
  have hone : Describes ⟨1, x, 0, x, x, rounded x⟩ {x} := ⟨rfl, by simp, by simp, by simp⟩
  refine (h.merge hone).of_fields ?_
  by_cases hzero : s.count = 0
  · have hempty : xs = 0 := Multiset.card_eq_zero.mp (h.count ▸ hzero)
    have hm2 := h.m2
    simp [fields, RunningStatistics.merge, RunningStatistics.addSample, hzero, hm2, hempty]
  · have hcount : (s.count + 1 : ℚ) ≠ 0 := by exact_mod_cast s.count.succ_ne_zero
    simp only [fields, RunningStatistics.merge, RunningStatistics.addSample, hzero, if_false,
      Prod.mk.injEq, one_ne_zero, Nat.cast_add, Nat.cast_one, true_and, and_true]
    constructor
    · field_simp
      ring
    · field_simp
      ring

theorem sum_sub_sq (xs : List ℚ) (c : ℚ) : (xs.map fun x => (x - c) ^ 2).sum =
    (xs.map (· ^ 2)).sum - 2 * c * xs.sum + xs.length * c ^ 2 := by
  induction xs with
  | nil => simp
  | cons x xs ih =>
    simp only [List.map_cons, List.sum_cons, ih, List.length_cons, Nat.cast_add, Nat.cast_one]
    ring

theorem describes_accumulate (xs : List ℚ) : Describes (accumulate xs) xs := by
  induction xs using List.reverseRecOn with
  | nil => exact ⟨rfl, by simp [accumulate, new], by simp [accumulate, new], by simp [accumulate, new]⟩
  | append_singleton xs x ih =>
    rw [accumulate, List.foldl_append, ← coe_add]
    exact ih.addSample x

/-- Accumulating gives count, mean, squared deviations and bounds of the samples, and merging those
of all samples. -/
theorem merge_describes (xs ys zs : List ℚ) :
    ((accumulate xs).count = xs.length ∧ (accumulate xs).mean = xs.sum / xs.length ∧
      (accumulate xs).m2 = (xs.map fun x => (x - (accumulate xs).mean) ^ 2).sum ∧
      (xs ≠ [] → IsLeast {x | x ∈ xs} (accumulate xs).min ∧
        IsGreatest {x | x ∈ xs} (accumulate xs).max)) ∧
    ((accumulate xs).merge (accumulate ys)).fields = (accumulate (xs ++ ys)).fields ∧
    (((accumulate xs).merge (accumulate ys)).merge (accumulate zs)).fields =
      ((accumulate xs).merge ((accumulate ys).merge (accumulate zs))).fields ∧
    ((accumulate xs).merge (accumulate ys)).fields =
      ((accumulate ys).merge (accumulate xs)).fields ∧
    ((accumulate xs).merge new).fields = (accumulate xs).fields ∧
    (new.merge (accumulate xs)).fields = (accumulate xs).fields := by
  have hxs := describes_accumulate xs
  have hys := describes_accumulate ys
  have hzs := describes_accumulate zs
  refine ⟨⟨hxs.count, by simpa using hxs.mean, ?_, fun hne => ?_⟩, ?_, ?_, ?_, ?_, ?_⟩
  · rw [sum_sub_sq, hxs.m2, hxs.mean, Multiset.map_coe, Multiset.sum_coe, Multiset.sum_coe,
      coe_card]
    by_cases hzero : (xs.length : ℚ) = 0
    · simp [hzero]
    · field_simp
      ring
  · simpa [hne] using hxs.bounds
  · exact (hxs.merge hys).fields_eq (describes_accumulate (xs ++ ys))
  · exact ((hxs.merge hys).merge hzs).fields_eq (by rw [add_assoc]; exact hxs.merge (hys.merge hzs))
  · exact (hxs.merge hys).fields_eq (by rw [add_comm]; exact hys.merge hxs)
  · rfl
  · exact ((describes_accumulate []).merge hxs).fields_eq (by simpa using hxs)

end RunningStatistics
end Sitas.Runtime
