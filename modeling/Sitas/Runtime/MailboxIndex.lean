import Mathlib.Algebra.BigOperators.Group.Finset.Basic
import Mathlib.Algebra.Order.BigOperators.Group.Multiset
import Mathlib.Data.Finset.Max
import Mathlib.Data.List.Sort
import Mathlib.Data.Prod.Lex
import Mathlib.Data.Nat.SuccPred
import Mathlib.Order.CompletePartialOrder
import Mathlib.Order.SuccPred.IntervalSucc

/-! The index build over mailboxes: the partition of the records among the scanners, the merge
of the sorted runs, and the check of the merged index. -/
namespace Sitas.Runtime.MailboxIndex

def partitionFor (shardIdx shardCount recordCount : Nat) : Nat × Nat :=
  let base := recordCount / shardCount
  let remainder := recordCount % shardCount
  let start := shardIdx * base + min shardIdx remainder
  let len := base + (if shardIdx < remainder then 1 else 0)
  (start, start + len)

section Partition
variable {n records : Nat}

theorem partitionFor_snd (i n records : Nat) :
    (partitionFor i n records).2 = (partitionFor (i + 1) n records).1 := by
  simp only [partitionFor, Nat.succ_mul]
  split <;> omega

theorem monotone_partitionFor : Monotone fun i => (partitionFor i n records).1 :=
  monotone_nat_of_le_succ fun i => partitionFor_snd i n records ▸ Nat.le_add_right _ _

theorem partitionFor_last (h : 0 < n) : (partitionFor n n records).1 = records := by
  have hmod := Nat.mod_lt records h
  simp only [partitionFor, Nat.min_eq_right (Nat.le_of_lt hmod)]
  exact Nat.div_add_mod records n

end Partition

/-- The ranges of the scanners follow each other from the first record to the last, their lengths
differ by at most one, and no value computed on the way exceeds the number of records. -/
theorem partitions_cover {n : Nat} (hn : 0 < n) (records : Nat) :
    (partitionFor 0 n records).1 = 0 ∧ (partitionFor (n - 1) n records).2 = records ∧
    (∀ i, (partitionFor i n records).2 = (partitionFor (i + 1) n records).1) ∧
    Pairwise (Function.onFun Disjoint fun i =>
      Set.Ico (partitionFor i n records).1 (partitionFor i n records).2) ∧
    (∀ r < records, ∃ i < n, (partitionFor i n records).1 ≤ r ∧ r < (partitionFor i n records).2) ∧
    (∀ i j, (partitionFor i n records).2 - (partitionFor i n records).1 ≤
      (partitionFor j n records).2 - (partitionFor j n records).1 + 1) ∧
    ∀ i < n, i * (records / n) ≤ (partitionFor i n records).1 ∧
      (partitionFor i n records).1 ≤ (partitionFor i n records).2 ∧
      (partitionFor i n records).2 ≤ records ∧ records / n ≤ records ∧ records % n ≤ records := by
  simp only [partitionFor_snd]
  refine ⟨by simp [partitionFor], ?_, fun _ => trivial,
    monotone_partitionFor.pairwise_disjoint_on_Ico_succ, fun r hr => ?_, fun i j => ?_,
    fun i hi => ⟨Nat.le_add_right _ _, monotone_partitionFor i.le_succ, ?_, Nat.div_le_self _ _,
      Nat.mod_le _ _⟩⟩
  · rw [Nat.sub_add_cancel hn, partitionFor_last hn]
  · let P i := (partitionFor i n records).1 ≤ r
    have hle : P (Nat.findGreatest P n) :=
      Nat.findGreatest_spec n.zero_le (by simp [P, partitionFor])
    have hlt : Nat.findGreatest P n < n := by
      refine Nat.lt_of_le_of_ne (Nat.findGreatest_le n) fun heq => ?_
      rw [heq] at hle
      exact Nat.not_le_of_lt hr ((partitionFor_last hn).ge.trans hle)
    exact ⟨_, hlt, hle, Nat.lt_of_not_le (Nat.findGreatest_is_greatest (P := P) (Nat.lt_succ_self _) hlt)⟩
  · simp only [← partitionFor_snd]
    simp only [partitionFor]
    split <;> split <;> omega
  · exact (monotone_partitionFor (Nat.succ_le_of_lt hi)).trans_eq (partitionFor_last hn)

theorem seven_records_over_three :
    [0, 1, 2].map (partitionFor · 3 7) = [(0, 3), (3, 5), (5, 7)] ∧ (partitionFor 2 3 7).2 = 7 :=
  ⟨by decide, (partitions_cover (by decide : 0 < 3) 7).2.1⟩

section Merge
open Multiset
variable {α : Type} [LinearOrder α]

def advance (cursor : Nat → Nat) (i : Nat) : Nat → Nat := Function.update cursor i (cursor i + 1)

/-- The next entry of a run enters the heap, if there is one. Pairs of different runs differ, so
that the heap is a set. -/
def pushNext (runs : List (List α)) (cursor : Nat → Nat) (heap : Finset (α ×ₗ Nat)) (i : Nat) :
    Finset (α ×ₗ Nat) :=
  match (runs[i]?.getD [])[cursor i]? with
  | some next => insert (toLex (next, i)) heap
  | none => heap

/-- The merge loop, which pops the least pair. Without fuel for an entry it has no result. -/
def mergeLoop (runs : List (List α)) :
    Nat → Finset (α ×ₗ Nat) → (Nat → Nat) → List α → Option (List α)
  | 0, heap, _, merged => if heap.Nonempty then none else some merged
  | fuel + 1, heap, cursor, merged =>
    if h : heap.Nonempty then
      let (entry, i) := ofLex (heap.min' h)
      mergeLoop runs fuel (pushNext runs (advance cursor i) (heap.erase (heap.min' h)) i)
        (advance cursor i) (merged ++ [entry])
    else some merged

/-- At the start the heap holds the first entry of every run that has one. -/
def mergeRuns (runs : List (List α)) (fuel : Nat) : Option (List α) :=
  mergeLoop runs fuel ((List.range runs.length).foldl (pushNext runs fun _ => 0) ∅) (fun _ => 0) []

def unmerged (runs : List (List α)) (cursor : Nat → Nat) : Multiset α :=
  ∑ i ∈ Finset.range runs.length, ((runs[i]?.getD []).drop (cursor i) : Multiset α)

def Heaped (runs : List (List α)) (cursor : Nat → Nat) (heap : Finset (α ×ₗ Nat)) : Prop :=
  ∀ x i, toLex (x, i) ∈ heap ↔ (runs[i]?.getD [])[cursor i]? = some x

variable {runs : List (List α)} {cursor : Nat → Nat} {heap : Finset (α ×ₗ Nat)} {e x : α} {i j : Nat}

theorem mem_pushNext : toLex (x, j) ∈ pushNext runs cursor heap i ↔
    toLex (x, j) ∈ heap ∨ j = i ∧ (runs[i]?.getD [])[cursor i]? = some x := by
  unfold pushNext
  split <;> rename_i hnext
  · simp [hnext, or_comm, and_comm, eq_comm]
  · simp [hnext]

theorem heaped_start : Heaped runs (fun _ => 0)
    ((List.range runs.length).foldl (pushNext runs fun _ => 0) ∅) := by
  have hfold : ∀ n x i, toLex (x, i) ∈ (List.range n).foldl (pushNext runs fun _ => 0) ∅ ↔
      i < n ∧ (runs[i]?.getD [])[0]? = some x := by
    intro n x i
    induction n with
    | zero => simp
    | succ n ih =>
      rw [List.range_succ, List.foldl_append, List.foldl_cons, List.foldl_nil, mem_pushNext, ih,
        Nat.lt_succ_iff_lt_or_eq, or_and_right]
      exact or_congr_right (and_congr_right fun heq => by rw [heq])
  refine fun x i => (hfold _ x i).trans (and_iff_right_of_imp fun hx => ?_)
  by_contra hge
  simp [List.getElem?_eq_none (Nat.le_of_not_lt hge)] at hx

omit [LinearOrder α] in
theorem unmerged_start : unmerged runs (fun _ => 0) = (runs.flatten : Multiset α) := by
  induction runs with
  | nil => rfl
  | cons run runs ih =>
    rw [unmerged, List.length_cons, Finset.sum_range_succ', List.flatten_cons, ← coe_add,
      ← ih, add_comm]
    rfl

omit [LinearOrder α] in
theorem unmerged_eq (hnext : (runs[i]?.getD [])[cursor i]? = some e) :
    unmerged runs cursor = e ::ₘ unmerged runs (advance cursor i) := by
  obtain ⟨hlen, hget⟩ := List.getElem?_eq_some_iff.mp hnext
  have hlt : i ∈ Finset.range runs.length := by
    rw [Finset.mem_range]
    by_contra hge
    simp [List.getElem?_eq_none (Nat.le_of_not_lt hge)] at hlen
  have hrest : ∀ j ∈ (Finset.range runs.length).erase i,
      ((runs[j]?.getD []).drop (advance cursor i j) : Multiset α) =
        (runs[j]?.getD []).drop (cursor j) := fun j hj => by
    rw [advance, Function.update_of_ne (Finset.ne_of_mem_erase hj)]
  rw [unmerged, unmerged, ← Finset.add_sum_erase _ _ hlt, ← Finset.add_sum_erase _ _ hlt,
    Finset.sum_congr rfl hrest, advance, Function.update_self, List.drop_eq_getElem_cons hlen, hget,
    ← Multiset.cons_coe, Multiset.cons_add]

/-- The next entry of the run takes the place of the popped one. -/
theorem Heaped.pop (h : Heaped runs cursor heap) (hmem : toLex (e, i) ∈ heap) :
    Heaped runs (advance cursor i)
      (pushNext runs (advance cursor i) (heap.erase (toLex (e, i))) i) := by
  intro x j
  rw [mem_pushNext, Finset.mem_erase, h x j]
  by_cases hj : j = i
  · subst hj
    rw [(h e j).mp hmem]
    simp [eq_comm]
  · simp [hj, advance]

/-- Before an entry of a sorted run that is not merged stands one that is in the heap. -/
theorem Heaped.exists_le (h : Heaped runs cursor heap)
    (hsorted : ∀ run ∈ runs, run.Pairwise (· ≤ ·)) (hx : x ∈ unmerged runs cursor) :
    ∃ p ∈ heap, (ofLex p).1 ≤ x := by
  obtain ⟨i, hi, hin⟩ := mem_sum.mp hx
  have hrun : (runs[i]?.getD []).Pairwise (· ≤ ·) := by
    have hi := Finset.mem_range.mp hi
    simpa [hi] using hsorted _ (List.getElem_mem hi)
  cases hdrop : (runs[i]?.getD []).drop (cursor i) with
  | nil => simp [hdrop] at hin
  | cons y rest =>
    rw [hdrop, Multiset.mem_coe] at hin
    refine ⟨toLex (y, i), (h y i).mpr (by rw [← List.head?_drop, hdrop, List.head?_cons]), ?_⟩
    rcases List.mem_cons.mp hin with rfl | hmem
    · exact le_refl x
    · exact List.rel_of_pairwise_cons (hdrop ▸ hrun.drop) hmem

theorem Heaped.mergeLoop (h : Heaped runs cursor heap)
    (hsorted : ∀ run ∈ runs, run.Pairwise (· ≤ ·)) :
    ∃ out : List α, (out : Multiset α) = unmerged runs cursor ∧ out.Pairwise (· ≤ ·) ∧
      ∀ fuel merged, mergeLoop runs fuel heap cursor merged =
        if out.length ≤ fuel then some (merged ++ out) else none := by
  induction hn : (unmerged runs cursor).card using Nat.strong_induction_on
    generalizing cursor heap with
  | _ n ih =>
    by_cases hne : heap.Nonempty
    · obtain ⟨e, i, hmin⟩ : ∃ e i, heap.min' hne = toLex (e, i) := ⟨_, _, rfl⟩
      have hmem : toLex (e, i) ∈ heap := hmin ▸ heap.min'_mem hne
      have hcons := unmerged_eq ((h _ _).mp hmem)
      obtain ⟨out, hout, hpairs, hloop⟩ := ih _ (by rw [← hn, hcons, Multiset.card_cons]; omega)
        (h.pop hmem) rfl
      refine ⟨e :: out, ?_, ?_, fun fuel merged => ?_⟩
      · rw [← cons_coe, hout, hcons]
      · refine List.pairwise_cons.mpr ⟨fun x hx => ?_, hpairs⟩
        obtain ⟨p, hp, hle⟩ := h.exists_le hsorted (x := x) (by
          rw [hcons, ← hout]
          exact mem_cons_of_mem hx)
        exact (Prod.Lex.monotone_fst _ _ (hmin ▸ heap.min'_le p hp)).trans hle
      · cases fuel with
        | zero => simp [MailboxIndex.mergeLoop, hne]
        | succ fuel =>
          rw [MailboxIndex.mergeLoop, dif_pos hne, hmin]
          simpa using hloop fuel (merged ++ [e])
    · refine ⟨[], ?_, .nil, fun fuel merged => by cases fuel <;> simp [MailboxIndex.mergeLoop, hne]⟩
      refine (eq_zero_of_forall_notMem fun x hx => ?_).symm
      obtain ⟨p, hp, _⟩ := h.exists_le hsorted hx
      exact hne ⟨p, hp⟩

theorem exists_merged (hsorted : ∀ run ∈ runs, run.Pairwise (· ≤ ·)) :
    ∃ merged : List α, merged.Perm runs.flatten ∧ merged.Pairwise (· ≤ ·) ∧
      ∀ fuel, mergeRuns runs fuel = if runs.flatten.length ≤ fuel then some merged else none := by
  obtain ⟨merged, hmerged, hpairs, hloop⟩ := heaped_start.mergeLoop hsorted
  rw [unmerged_start, coe_eq_coe] at hmerged
  refine ⟨merged, hmerged, hpairs, fun fuel => ?_⟩
  rw [← hmerged.length_eq]
  exact hloop fuel []

/-- For every list of sorted runs the loop takes exactly one round for each entry, and then it
has merged all entries, in order. -/
theorem mergeRuns_sorts (runs : List (List α)) (hsorted : ∀ run ∈ runs, run.Pairwise (· ≤ ·))
    (fuel : Nat) : ((mergeRuns runs fuel).isSome ↔ (runs.map List.length).sum ≤ fuel) ∧
      ∀ merged, mergeRuns runs fuel = some merged →
        merged.Perm runs.flatten ∧ merged.Pairwise (· ≤ ·) := by
  obtain ⟨merged, hperm, hpairs, hmerge⟩ := exists_merged hsorted
  rw [hmerge, List.length_flatten]
  split
  next hle => simp [hle, hperm, hpairs]
  next hlt => simp [hlt]

theorem three_runs_merged : (mergeRuns [[1, 3], [], [1, 2]] 4).isSome :=
  (mergeRuns_sorts [[1, 3], [], [1, 2]] (by decide) 4).1.mpr (by decide)

end Merge

structure IndexEntry where
  key : UInt64
  offset : UInt64
  deriving DecidableEq

/-- Entries are compared by key, then by offset. -/
instance : LinearOrder IndexEntry :=
  LinearOrder.lift' (fun e => toLex (e.key.toNat, e.offset.toNat)) fun a b h => by
    cases a
    cases b
    simpa [UInt64.toNat_inj] using h

structure RunResult where
  workUnit : Nat
  entries : List IndexEntry

def recordCount : Nat := 1024

def assemblerCount : Nat := 3

def seed : UInt64 := 0x517a5eed

def splitmix64 (value : UInt64) : UInt64 :=
  let value := value + 0x9E3779B97F4A7C15
  let value := (value ^^^ (value >>> 30)) * 0xBF58476D1CE4E5B9
  let value := (value ^^^ (value >>> 27)) * 0x94D049BB133111EB
  value ^^^ (value >>> 31)

def recordKey (recordIdx : UInt64) : UInt64 :=
  splitmix64 (seed ^^^ (recordIdx * 0x9E3779B97F4A7C15))

def xorAll (offsets : List UInt64) : UInt64 := offsets.foldl (· ^^^ ·) 0

/-- The merge loop gets the fuel that it needs. -/
def verifyRuns (runs : List RunResult) : Except Unit Nat :=
  let lists := runs.map (·.entries)
  if ∃ entries ∈ lists, ¬ entries.IsChain (· ≤ ·) then .error ()
  else match mergeRuns lists lists.flatten.length with
    | none => .error ()
    | some merged =>
      if merged.length ≠ recordCount then .error ()
      else if ¬ merged.IsChain (· ≤ ·) then .error ()
      else if (runs.map (·.workUnit)).mergeSort (· ≤ ·) ≠ List.range assemblerCount then .error ()
      else if ∃ e ∈ merged, e.key ≠ recordKey e.offset then .error ()
      else if xorAll (merged.map (·.offset)) ≠ xorAll ((List.range recordCount).map .ofNat) then
        .error ()
      else .ok merged.length

section Verify
variable {runs : List RunResult}

theorem xorAll_perm {xs ys : List UInt64} (h : xs.Perm ys) : xorAll xs = xorAll ys := by
  have : RightCommutative fun x y : UInt64 => x ^^^ y :=
    ⟨fun x y z => by rw [UInt64.xor_assoc, UInt64.xor_assoc, UInt64.xor_comm y]⟩
  exact h.foldl_eq 0

theorem mergeSort_eq_range_iff {units : List Nat} {n : Nat} :
    units.mergeSort (· ≤ ·) = List.range n ↔ units.Perm (List.range n) := by
  refine ⟨fun h => h ▸ (List.mergeSort_perm units _).symm, fun h => ?_⟩
  exact ((List.mergeSort_perm units _).trans h).eq_of_sortedLE List.sortedLE_mergeSort
    (List.sortedLT_range n).sortedLE

theorem check_eq_ok {p : Prop} [Decidable p] {x : Except Unit Nat} {n : Nat} :
    (if p then .error () else x) = .ok n ↔ ¬ p ∧ x = .ok n := by
  split <;> simp [*]

theorem verifyRuns_eq_ok_iff {n : Nat} : verifyRuns runs = .ok n ↔
    (∀ run ∈ runs, run.entries.Pairwise (· ≤ ·)) ∧
    (runs.flatMap (·.entries)).length = recordCount ∧
    (runs.map (·.workUnit)).Perm (List.range assemblerCount) ∧
    (∀ e ∈ runs.flatMap (·.entries), e.key = recordKey e.offset) ∧
    xorAll ((runs.flatMap (·.entries)).map (·.offset)) =
      xorAll ((List.range recordCount).map .ofNat) ∧ n = recordCount := by
  simp only [verifyRuns, List.isChain_iff_pairwise, check_eq_ok, List.flatMap_def, not_exists,
    not_and, not_not, List.forall_mem_map]
  refine and_congr_right fun hsorted => ?_
  have hruns : ∀ run ∈ runs.map (·.entries), run.Pairwise (· ≤ ·) := by simpa using hsorted
  obtain ⟨merged, hperm, hpairs, hmerge⟩ := exists_merged hruns
  simp only [hmerge, le_refl, if_true, check_eq_ok, not_exists, not_and, not_not, ne_eq, hpairs,
    mergeSort_eq_range_iff, hperm.mem_iff, hperm.length_eq, xorAll_perm (hperm.map _), Except.ok.injEq]
  refine and_congr_right fun hlength => ?_
  rw [hlength, true_and, eq_comm (a := recordCount)]

def records : List IndexEntry :=
  (List.range recordCount).map fun i => ⟨recordKey (.ofNat i), .ofNat i⟩

def Indexed (runs : List RunResult) : Prop :=
  (∀ run ∈ runs, run.entries.Pairwise (· ≤ ·)) ∧
  (runs.map (·.workUnit)).Perm (List.range assemblerCount) ∧
  (runs.flatMap (·.entries)).Perm records

theorem map_offset_records : records.map (·.offset) = (List.range recordCount).map .ofNat := by
  rw [records, List.map_map]
  rfl

theorem nodup_offsets_records : (records.map (·.offset)).Nodup := by
  rw [map_offset_records]
  refine List.Nodup.map_on (fun i hi j hj hij => ?_) List.nodup_range
  have hi : i < 2 ^ 64 := (List.mem_range.mp hi).trans (by decide)
  have hj : j < 2 ^ 64 := (List.mem_range.mp hj).trans (by decide)
  have hnat := congrArg UInt64.toNat hij
  rwa [UInt64.toNat_ofNat', UInt64.toNat_ofNat', Nat.mod_eq_of_lt hi, Nat.mod_eq_of_lt hj] at hnat

theorem of_mem_records {e : IndexEntry} (h : e ∈ records) :
    e.key = recordKey e.offset ∧ e.offset.toNat < recordCount := by
  obtain ⟨i, hi, rfl⟩ := List.mem_map.mp h
  refine ⟨rfl, ?_⟩
  have hi := List.mem_range.mp hi
  rw [UInt64.toNat_ofNat', Nat.mod_eq_of_lt (hi.trans (by decide))]
  exact hi

variable {entries : List IndexEntry}

theorem nodup_of_perm_records (h : entries.Perm records) :
    (entries.map (·.offset)).Nodup ∧ ∀ e ∈ entries, e.offset.toNat < recordCount :=
  ⟨(h.map _).nodup_iff.mpr nodup_offsets_records, fun _ he => (of_mem_records (h.mem_iff.mp he)).2⟩

theorem perm_records (hlength : entries.length = recordCount)
    (hkeys : ∀ e ∈ entries, e.key = recordKey e.offset)
    (hdistinct : (entries.map (·.offset)).Nodup)
    (hrange : ∀ e ∈ entries, e.offset.toNat < recordCount) : entries.Perm records := by
  have hoffsets : (entries.map (·.offset)).Perm ((List.range recordCount).map .ofNat) := by
    refine (List.subperm_of_subset hdistinct fun offset hmem => ?_).perm_of_length_le (by simp [hlength])
    obtain ⟨e, he, rfl⟩ := List.mem_map.mp hmem
    exact List.mem_map.mpr ⟨_, List.mem_range.mpr (hrange e he), UInt64.ofNat_toNat⟩
  have hentries : (entries.map (·.offset)).map (fun i => ⟨recordKey i, i⟩) = entries := by
    rw [List.map_map]
    refine (List.map_congr_left fun e he => ?_).trans entries.map_id
    rw [Function.comp, ← hkeys e he, id]
  rw [← hentries]
  simpa [records, Function.comp_def] using hoffsets.map fun i => (⟨recordKey i, i⟩ : IndexEntry)

theorem verifyRuns_of_indexed (h : Indexed runs) : verifyRuns runs = .ok recordCount := by
  obtain ⟨hsorted, hunits, hperm⟩ := h
  refine verifyRuns_eq_ok_iff.mpr ⟨hsorted, ?_, hunits, fun e he => ?_, ?_, rfl⟩
  · rw [hperm.length_eq, records, List.length_map, List.length_range]
  · exact (of_mem_records (hperm.mem_iff.mp he)).1
  · rw [xorAll_perm (hperm.map _), map_offset_records]

/-- The verification is exact for given runs unless they pass every check, the parity of the
offsets included, although an offset is listed twice or is out of range. -/
theorem verifyRuns_exact_iff (runs : List RunResult) :
    (∀ n, verifyRuns runs = .ok n ↔ Indexed runs ∧ n = recordCount) ↔
      ((∀ run ∈ runs, run.entries.Pairwise (· ≤ ·)) →
      (runs.flatMap (·.entries)).length = recordCount →
      (runs.map (·.workUnit)).Perm (List.range assemblerCount) →
      (∀ e ∈ runs.flatMap (·.entries), e.key = recordKey e.offset) →
      xorAll ((runs.flatMap (·.entries)).map (·.offset)) =
        xorAll ((List.range recordCount).map .ofNat) →
      ((runs.flatMap (·.entries)).map (·.offset)).Nodup ∧
        ∀ e ∈ runs.flatMap (·.entries), e.offset.toNat < recordCount) := by
  constructor
  · intro hexact hsorted hlength hunits hkeys hxor
    have hok := verifyRuns_eq_ok_iff.mpr ⟨hsorted, hlength, hunits, hkeys, hxor, rfl⟩
    exact nodup_of_perm_records ((hexact recordCount).mp hok).1.2.2
  · intro hoffsets n
    constructor
    · intro hok
      obtain ⟨hsorted, hlength, hunits, hkeys, hxor, hn⟩ := verifyRuns_eq_ok_iff.mp hok
      obtain ⟨hdistinct, hrange⟩ := hoffsets hsorted hlength hunits hkeys hxor
      exact ⟨⟨hsorted, hunits, perm_records hlength hkeys hdistinct hrange⟩, hn⟩
    · rintro ⟨hindexed, rfl⟩
      exact verifyRuns_of_indexed hindexed

private def fullRuns : List RunResult :=
  [⟨1, (records.take 500).mergeSort (· ≤ ·)⟩, ⟨0, (records.drop 500).mergeSort (· ≤ ·)⟩, ⟨2, []⟩]

theorem full_runs_verified : verifyRuns fullRuns = .ok recordCount := by
  have hperm : (fullRuns.flatMap (·.entries)).Perm records := by
    have happend := (List.mergeSort_perm (records.take 500) (· ≤ ·)).append
      (List.mergeSort_perm (records.drop 500) (· ≤ ·))
    rw [List.take_append_drop] at happend
    simpa [fullRuns] using happend
  have hindexed : Indexed fullRuns := by
    refine ⟨fun run hrun => ?_, by decide, hperm⟩
    simp only [fullRuns, List.mem_cons, List.not_mem_nil, or_false] at hrun
    rcases hrun with rfl | rfl | rfl
    · exact List.sortedLE_mergeSort.pairwise
    · exact List.sortedLE_mergeSort.pairwise
    · exact .nil
  exact ((verifyRuns_exact_iff fullRuns).mpr (fun _ _ _ _ _ => nodup_of_perm_records hperm) _).mpr
    ⟨hindexed, rfl⟩

/-- A run of 1024 copies of the first record passes. -/
theorem copies_pass : ∃ runs : List RunResult,
    verifyRuns runs = .ok recordCount ∧ ¬ Indexed runs := by
  refine ⟨[⟨0, List.replicate recordCount ⟨recordKey 0, 0⟩⟩, ⟨1, []⟩, ⟨2, []⟩],
    verifyRuns_eq_ok_iff.mpr ⟨?_, by simp, .refl _, ?_, ?_, rfl⟩, fun h => ?_⟩
  · simp [List.pairwise_replicate]
  · simp +contextual
  · decide +kernel
  · have hmem : (⟨recordKey 1, 1⟩ : IndexEntry) ∈ _ := h.2.2.mem_iff.mpr
      (List.mem_map.mpr ⟨1, List.mem_range.mpr (by decide), rfl⟩)
    simp at hmem

end Verify
end Sitas.Runtime.MailboxIndex
