import Sitas.Lib.CyclicLog

/-! The bounded ring buffer, one atomic access at a time. One producer and one
consumer interleave freely; beside the ring stand the logs of what was published and
what was taken. -/
namespace Sitas.Runtime
open Sitas.Lib List

/-- An uninitialised slot is `none`. -/
structure RingBuffer (T : Type) where
  buffer : Nat → Option T
  capacity : Nat
  head : Nat
  tail : Nat

namespace RingBuffer
variable {T : Type}

def bounded (capacity : Nat) : RingBuffer T := ⟨fun _ => none, capacity, 0, 0⟩

def len (q : RingBuffer T) : Nat :=
  if q.head ≥ q.tail then q.head - q.tail else q.head + q.capacity - q.tail

end RingBuffer

inductive PushPc (T : Type) where
  | loadHead (item : T)
  | loadTail (item : T) (head : Nat)
  | write (item : T) (head : Nat)
  | storeHead (item : T) (head : Nat)

inductive PopPc (T : Type) where
  | loadTail
  | loadHead (tail : Nat)
  | read (tail : Nat)
  | storeTail (tail : Nat) (item : T)

inductive Progress (P R : Type) where
  | continues (pc : P)
  | returns (result : R)

/-- The ring with its history: the items in the order their head stores took effect,
the items popped, and how many had been published when the last pop loaded head. -/
structure RingLog (T : Type) where
  ring : RingBuffer T
  pushed : List T
  popped : List T
  seen : Nat

namespace RingLog
variable {T : Type}

def start (ring : RingBuffer T) : RingLog T := ⟨ring, [], [], 0⟩

def tryPush (l : RingLog T) : PushPc T → RingLog T × Progress (PushPc T) (Except T Unit)
  | .loadHead item => (l, .continues (.loadTail item l.ring.head))
  | .loadTail item head =>
    if (head + 1) % l.ring.capacity = l.ring.tail then (l, .returns (.error item))
    else (l, .continues (.write item head))
  | .write item head =>
    ({ l with ring := { l.ring with buffer := Function.update l.ring.buffer head (some item) } },
      .continues (.storeHead item head))
  | .storeHead item head =>
    ({ l with
        ring := { l.ring with head := (head + 1) % l.ring.capacity }
        pushed := l.pushed ++ [item] },
      .returns (.ok ()))

/-- Reading an uninitialised slot has no result. -/
def pop (l : RingLog T) : PopPc T → Option (RingLog T × Progress (PopPc T) (Option T))
  | .loadTail => some (l, .continues (.loadHead l.ring.tail))
  | .loadHead tail =>
    let l := { l with seen := l.pushed.length }
    if tail = l.ring.head then some (l, .returns none) else some (l, .continues (.read tail))
  | .read tail => (l.ring.buffer tail).map fun item => (l, .continues (.storeTail tail item))
  | .storeTail tail item =>
    some ({ l with
        ring := { l.ring with tail := (tail + 1) % l.ring.capacity }
        popped := l.popped ++ [item] },
      .returns (some item))

/-- The ring holds exactly the published items that were not popped. -/
structure Sound (l : RingLog T) : Prop where
  positive : 0 < l.ring.capacity
  head : l.ring.head = l.pushed.length % l.ring.capacity
  tail : l.ring.tail = l.popped.length % l.ring.capacity
  fifo : l.popped <+: l.pushed
  fits : l.pushed.length < l.popped.length + l.ring.capacity
  stores : Stores l.ring.buffer l.ring.capacity l.pushed l.popped.length

def PushOk (l : RingLog T) : PushPc T → Prop
  | .loadHead _ => True
  | .loadTail _ head => head = l.pushed.length % l.ring.capacity
  | .write _ head => head = l.pushed.length % l.ring.capacity ∧
      l.pushed.length + 1 < l.popped.length + l.ring.capacity
  | .storeHead item head => head = l.pushed.length % l.ring.capacity ∧
      l.pushed.length + 1 < l.popped.length + l.ring.capacity ∧
      l.ring.buffer head = some item

def PopOk (l : RingLog T) : PopPc T → Prop
  | .loadTail => True
  | .loadHead tail => tail = l.popped.length % l.ring.capacity
  | .read tail => tail = l.popped.length % l.ring.capacity ∧ l.popped.length < l.pushed.length
  | .storeTail tail item => tail = l.popped.length % l.ring.capacity ∧
      l.pushed[l.popped.length]? = some item

theorem sound_start {capacity : Nat} (h : 0 < capacity) :
    Sound (start (.bounded capacity : RingBuffer T)) where
  positive := h
  head := (Nat.zero_mod _).symm
  tail := (Nat.zero_mod _).symm
  fifo := prefix_refl _
  fits := Nat.lt_of_lt_of_le h (Nat.le_add_left _ _)
  stores := .empty _ _

variable {l m : RingLog T}

theorem Sound.len_add (h : Sound l) : l.ring.len + l.popped.length = l.pushed.length := by
  obtain ⟨n, hn⟩ := Nat.exists_eq_add_of_le h.fifo.length_le
  have hfits := h.fits
  have htail := h.tail ▸ Nat.mod_lt l.popped.length h.positive
  have hhead : l.ring.head = (l.ring.tail + n) % l.ring.capacity := by
    rw [h.head, h.tail, hn, Nat.mod_add_mod]
  rw [RingBuffer.len]
  by_cases hwrap : l.ring.tail + n < l.ring.capacity
  · rw [Nat.mod_eq_of_lt hwrap] at hhead
    split <;> omega
  · rw [Nat.mod_eq_sub_mod (Nat.le_of_not_lt hwrap), Nat.mod_eq_of_lt (by omega)] at hhead
    split <;> omega

theorem Sound.len_eq_zero_iff (h : Sound l) :
    l.ring.len = 0 ↔ l.popped.length = l.pushed.length := by
  have hlen := h.len_add
  omega

theorem Sound.popped_eq_of_length (h : Sound l) (hlen : l.popped.length = l.pushed.length) :
    l.popped = l.pushed :=
  h.fifo.eq_of_length hlen

/-- The producer moved: the consumer's side is as it was and the log may have grown. -/
structure PushMoved (l m : RingLog T) : Prop where
  capacity : m.ring.capacity = l.ring.capacity
  popped : m.popped = l.popped
  seen : m.seen = l.seen
  pushed : l.pushed <+: m.pushed

/-- The consumer moved: the producer's side is as it was and items may have been popped. -/
structure PopMoved (l m : RingLog T) : Prop where
  capacity : m.ring.capacity = l.ring.capacity
  buffer : m.ring.buffer = l.ring.buffer
  pushed : m.pushed = l.pushed
  popped : l.popped.length ≤ m.popped.length

theorem PopOk.pushMoved {pc : PopPc T} (h : PopOk l pc) (hm : PushMoved l m) : PopOk m pc := by
  have hlen := hm.pushed.length_le
  cases pc with
  | loadTail => trivial
  | loadHead tail =>
    rw [PopOk, hm.capacity, hm.popped]
    exact h
  | read tail =>
    rw [PopOk, hm.capacity, hm.popped]
    exact ⟨h.1, Nat.lt_of_lt_of_le h.2 hlen⟩
  | storeTail tail item =>
    rw [PopOk, hm.capacity, hm.popped]
    obtain ⟨later, hlater⟩ := hm.pushed
    obtain ⟨hlt, _⟩ := List.getElem?_eq_some_iff.mp h.2
    exact ⟨h.1, by rw [← hlater, getElem?_append_left hlt, h.2]⟩

theorem PushOk.popMoved {pc : PushPc T} (h : PushOk l pc) (hm : PopMoved l m) : PushOk m pc := by
  have hlen := hm.popped
  cases pc with
  | loadHead item => trivial
  | loadTail item head =>
    rw [PushOk, hm.capacity, hm.pushed]
    exact h
  | write item head =>
    rw [PushOk, hm.capacity, hm.pushed]
    have hfits := h.2
    exact ⟨h.1, by omega⟩
  | storeHead item head =>
    rw [PushOk, hm.capacity, hm.pushed, hm.buffer]
    have hfits := h.2.1
    exact ⟨h.1, by omega, h.2.2⟩

theorem Sound.tryPush (h : Sound l) {pc : PushPc T} (hpc : PushOk l pc) :
    Sound (l.tryPush pc).1 ∧ PushMoved l (l.tryPush pc).1 ∧
      ∀ next, (l.tryPush pc).2 = .continues next → PushOk (l.tryPush pc).1 next := by
  have hstay : PushMoved l l := ⟨rfl, rfl, rfl, prefix_refl _⟩
  cases pc with
  | loadHead item =>
    refine ⟨h, hstay, fun next hnext => ?_⟩
    cases hnext
    exact h.head
  | loadTail item head =>
    rw [RingLog.tryPush]
    split
    · exact ⟨h, hstay, fun next hnext => nomatch hnext⟩
    next hroom =>
      refine ⟨h, hstay, fun next hnext => ?_⟩
      cases hnext
      have hfits := h.fits
      refine ⟨hpc, ?_⟩
      change l.pushed.length + 1 < l.popped.length + l.ring.capacity
      by_contra hfull
      apply hroom
      rw [show head = l.pushed.length % l.ring.capacity from hpc, Nat.mod_add_mod, h.tail,
        show l.pushed.length + 1 = l.popped.length + l.ring.capacity by omega, Nat.add_mod_right]
  | write item head =>
    obtain ⟨hhead, hfits⟩ := hpc
    have hwritten := h.stores.write (by omega) item
    rw [← hhead] at hwritten
    refine ⟨{ h with stores := hwritten }, ⟨rfl, rfl, rfl, prefix_refl _⟩, ?_⟩
    intro next hnext
    cases hnext
    exact ⟨hhead, hfits, Function.update_self head _ _⟩
  | storeHead item head =>
    obtain ⟨hhead, hfits, hslot⟩ := hpc
    refine ⟨?_, ⟨rfl, rfl, rfl, prefix_append _ _⟩, fun next hnext => nomatch hnext⟩
    have hlen : (l.pushed ++ [item]).length = l.pushed.length + 1 := length_append
    refine ⟨h.positive, ?_, h.tail, h.fifo.trans (prefix_append _ _), ?_, ?_⟩
    · change (head + 1) % l.ring.capacity = (l.pushed ++ [item]).length % l.ring.capacity
      rw [hlen, hhead, Nat.mod_add_mod]
    · change (l.pushed ++ [item]).length < l.popped.length + l.ring.capacity
      omega
    · exact h.stores.append (hhead ▸ hslot)

theorem length_lt_of_push_ok {pc : PushPc T} (h : (l.tryPush pc).2 = .returns (.ok ())) :
    l.pushed.length < (l.tryPush pc).1.pushed.length := by
  cases pc with
  | storeHead item head =>
    rw [RingLog.tryPush, length_append]
    exact Nat.lt_succ_self _
  | loadTail item head =>
    rw [RingLog.tryPush] at h
    split at h <;> cases h
  | _ => cases h

/-- The step lemma of the consumer. A pop that returns nothing loaded head when every
published item had been popped. -/
theorem Sound.pop (h : Sound l) {pc : PopPc T} (hpc : PopOk l pc)
    {p : Progress (PopPc T) (Option T)} (hst : l.pop pc = some (m, p)) :
    Sound m ∧ PopMoved l m ∧ (∀ next, p = .continues next → PopOk m next) ∧
      (p = .returns none → m.seen = m.popped.length) := by
  have hle := h.fifo.length_le
  cases pc with
  | loadTail =>
    cases hst
    refine ⟨h, ⟨rfl, rfl, rfl, le_rfl⟩, fun next hnext => ?_, fun hnone => nomatch hnone⟩
    cases hnext
    exact h.tail
  | loadHead tail =>
    have hload : Sound { l with seen := l.pushed.length } := { h with }
    rw [RingLog.pop] at hst
    split at hst <;> rename_i hcmp <;> cases hst
    · refine ⟨hload, ⟨rfl, rfl, rfl, le_rfl⟩, fun next hnext => (nomatch hnext), fun _ => ?_⟩
      refine (eq_of_mod_eq hle h.fits ?_).symm
      rw [← show tail = l.popped.length % l.ring.capacity from hpc, ← h.head]
      exact hcmp
    · refine ⟨hload, ⟨rfl, rfl, rfl, le_rfl⟩, fun next hnext => ?_,
        fun hnone => nomatch hnone⟩
      cases hnext
      refine ⟨hpc, Nat.lt_of_le_of_ne hle fun heq => hcmp ?_⟩
      change l.popped.length = l.pushed.length at heq
      change tail = l.ring.head
      rw [show tail = l.popped.length % l.ring.capacity from hpc, h.head, heq]
  | read tail =>
    obtain ⟨item, hitem, hst⟩ := Option.map_eq_some_iff.mp hst
    cases hst
    refine ⟨h, ⟨rfl, rfl, rfl, le_rfl⟩, fun next hnext => ?_, fun hnone => nomatch hnone⟩
    cases hnext
    refine ⟨hpc.1, ?_⟩
    rw [← h.stores _ le_rfl hpc.2, ← hpc.1, hitem]
  | storeTail tail item =>
    cases hst
    obtain ⟨htail, hitem⟩ := hpc
    obtain ⟨hlt, hget⟩ := List.getElem?_eq_some_iff.mp hitem
    have hlen : (l.popped ++ [item]).length = l.popped.length + 1 := length_append
    have hmore : l.popped.length ≤ (l.popped ++ [item]).length := by omega
    refine ⟨?_, ⟨rfl, rfl, rfl, hmore⟩, fun next hnext => (nomatch hnext),
      fun hnone => nomatch hnone⟩
    refine ⟨h.positive, h.head, ?_, ?_, ?_, ?_⟩
    · change (tail + 1) % l.ring.capacity = (l.popped ++ [item]).length % l.ring.capacity
      rw [hlen, htail, Nat.mod_add_mod]
    · exact prefix_concat h.fifo hitem
    · change l.pushed.length < (l.popped ++ [item]).length + l.ring.capacity
      have hfits := h.fits
      omega
    · change Stores l.ring.buffer l.ring.capacity l.pushed (l.popped ++ [item]).length
      rw [hlen]
      exact h.stores.advance

end RingLog
end Sitas.Runtime
