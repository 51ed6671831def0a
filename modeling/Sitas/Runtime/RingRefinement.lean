import Sitas.Runtime.Channel

/-! The ring buffer as a bounded queue: one producer and one consumer, whose calls interleave one
atomic access at a time. -/
namespace Sitas.Runtime
open Sitas.Lib List
variable {T : Type}

def RingBuffer.isEmpty (q : RingBuffer T) : Bool := q.tail == q.head

/-- The buffer is a slice of cells that may be uninitialised: its release runs the destructor
of no item. -/
def RingBuffer.drop (_ : RingBuffer T) : List T := []

def PushPc.item : PushPc T → T
  | .loadHead item | .loadTail item _ | .write item _ | .storeHead item _ => item

def Progress.next {P R : Type} : Progress P R → Option P
  | .continues pc => some pc
  | .returns _ => none

namespace RingLog

def queue (l : RingLog T) : List T := l.pushed.drop l.popped.length

/-- What an access of `try_push` does to a queue of at most `n` items. -/
def Pushes (n : Nat) (l : RingLog T) (pc : PushPc T) : Prop :=
  match (l.tryPush pc).2 with
  | .continues next => next.item = pc.item ∧ (l.tryPush pc).1.queue = l.queue
  | .returns (.ok ()) => l.queue.length < n ∧ (l.tryPush pc).1.queue = l.queue ++ [pc.item]
  | .returns (.error item) => item = pc.item ∧ l.queue.length = n ∧ (l.tryPush pc).1.queue = l.queue

/-- What an access of `pop` does to the queue. It never reads an uninitialised slot. -/
def Pops (l : RingLog T) (pc : PopPc T) : Prop :=
  ∃ m p, l.pop pc = some (m, p) ∧ match p with
    | .continues _ => m.queue = l.queue
    | .returns none => l.queue = [] ∧ m.queue = []
    | .returns (some item) => l.queue = item :: m.queue

variable {l : RingLog T}

theorem Sound.length_queue (h : Sound l) : l.popped.length + l.queue.length = l.pushed.length := by
  have hle := h.fifo.length_le
  rw [queue, length_drop]
  omega

theorem Sound.popped_append (h : Sound l) : l.popped ++ l.queue = l.pushed := by
  obtain ⟨rest, hrest⟩ := h.fifo
  rw [queue, ← hrest, drop_left]

theorem Sound.len_eq (h : Sound l) : l.ring.len = l.queue.length := by
  have hlen := h.length_queue
  have hring := h.len_add
  omega

theorem Sound.pushes (h : Sound l) {pc : PushPc T} (hpc : PushOk l pc) :
    Pushes (l.ring.capacity - 1) l pc := by
  have hlen := h.length_queue
  have hfits := h.fits
  unfold Pushes
  cases pc with
  | loadHead item => exact ⟨rfl, rfl⟩
  | loadTail item head =>
    rw [RingLog.tryPush]
    by_cases hnext : (head + 1) % l.ring.capacity = l.ring.tail
    · rw [if_pos hnext]
      refine ⟨rfl, ?_, rfl⟩
      by_contra hne
      have heq : l.popped.length = l.pushed.length + 1 := by
        refine eq_of_mod_eq (c := l.ring.capacity) (by omega) (by omega) ?_
        rw [← h.tail, ← hnext, show head = _ from hpc, Nat.mod_add_mod]
      omega
    · rw [if_neg hnext]
      exact ⟨rfl, rfl⟩
  | write item head => exact ⟨rfl, rfl⟩
  | storeHead item head =>
    obtain ⟨_, hroom, _⟩ := hpc
    refine ⟨by omega, ?_⟩
    exact drop_append_of_le_length h.fifo.length_le

theorem Sound.pops (h : Sound l) {pc : PopPc T} (hpc : PopOk l pc) : Pops l pc := by
  have hlen := h.length_queue
  cases pc with
  | loadTail => exact ⟨_, _, rfl, rfl⟩
  | loadHead tail =>
    by_cases heq : tail = l.ring.head
    · refine ⟨_, _, if_pos heq, ?_⟩
      have hempty : l.popped.length = l.pushed.length := by
        refine eq_of_mod_eq h.fifo.length_le h.fits ?_
        rw [← show tail = _ from hpc, heq, h.head]
      have hnil : l.queue = [] := length_eq_zero_iff.mp (by omega)
      exact ⟨hnil, hnil⟩
    · exact ⟨_, _, if_neg heq, rfl⟩
  | read tail =>
    obtain ⟨htail, hlt⟩ := hpc
    have hslot := h.stores _ le_rfl hlt
    rw [← htail, getElem?_eq_getElem hlt] at hslot
    refine ⟨_, _, by rw [RingLog.pop, hslot, Option.map_some], rfl⟩
  | storeTail tail item =>
    obtain ⟨_, hitem⟩ := hpc
    obtain ⟨hlt, hget⟩ := List.getElem?_eq_some_iff.mp hitem
    refine ⟨_, _, rfl, ?_⟩
    simp [queue, drop_eq_getElem_cons hlt, hget]

end RingLog

structure Spsc (T : Type) where
  log : RingLog T
  producer : Option (PushPc T)
  consumer : Option (PopPc T)

inductive SpscEvent (T : Type) where
  | tryPush (item : T)
  | producer
  | pop
  | consumer

namespace Spsc

def start (capacity : Nat) : Spsc T := ⟨.start (.bounded capacity), none, none⟩

def step (s : Spsc T) : SpscEvent T → Option (Spsc T)
  | .tryPush item => if s.producer.isNone then some { s with producer := some (.loadHead item) } else none
  | .producer => s.producer.map fun pc =>
    { s with log := (s.log.tryPush pc).1, producer := (s.log.tryPush pc).2.next }
  | .pop => if s.consumer.isNone then some { s with consumer := some .loadTail } else none
  | .consumer => s.consumer.bind fun pc => (s.log.pop pc).map fun (log, progress) =>
    { s with log := log, consumer := progress.next }

structure Sound (capacity : Nat) (s : Spsc T) : Prop where
  log : s.log.Sound
  capacity : s.log.ring.capacity = capacity
  producer : ∀ pc, s.producer = some pc → s.log.PushOk pc
  consumer : ∀ pc, s.consumer = some pc → s.log.PopOk pc

variable {s t : Spsc T} {capacity : Nat}

theorem Sound.step (h : Sound capacity s) {e : SpscEvent T} (hst : s.step e = some t) :
    Sound capacity t := by
  cases e with
  | tryPush item =>
    obtain ⟨_, rfl⟩ := guarded hst
    exact { h with producer := fun pc hpc => by cases hpc; trivial }
  | producer =>
    obtain ⟨pc, hpc, rfl⟩ := Option.map_eq_some_iff.mp hst
    obtain ⟨hlog, hmoved, hnext⟩ := h.log.tryPush (h.producer pc hpc)
    refine ⟨hlog, hmoved.capacity.trans h.capacity, fun next hpc => hnext next ?_,
      fun pc hpc => (h.consumer pc hpc).pushMoved hmoved⟩
    cases hp : (s.log.tryPush pc).2 <;> simp_all [Progress.next]
  | pop =>
    obtain ⟨_, rfl⟩ := guarded hst
    exact { h with consumer := fun pc hpc => by cases hpc; trivial }
  | consumer =>
    obtain ⟨pc, hpc, hst⟩ := Option.bind_eq_some_iff.mp hst
    obtain ⟨⟨log, progress⟩, hlog, rfl⟩ := Option.map_eq_some_iff.mp hst
    obtain ⟨hlog, hmoved, hnext, _⟩ := h.log.pop (h.consumer pc hpc) hlog
    refine ⟨hlog, hmoved.capacity.trans h.capacity,
      fun pc hpc => (h.producer pc hpc).popMoved hmoved, fun next hpc => hnext next ?_⟩
    cases progress <;> simp_all [Progress.next]

theorem sound_of_reachable (hcap : 2 ≤ capacity) (h : Reachable step (start capacity) s) :
    Sound capacity s := by
  have hstart : Sound capacity (start capacity : Spsc T) :=
    ⟨RingLog.sound_start (by omega), rfl, fun pc hpc => (nomatch hpc), fun pc hpc => nomatch hpc⟩
  exact h.invariant hstart fun _ _ _ hs _ hst => hs.step hst

/-- In every interleaving each access of a call is one of a first-in first-out queue of at most
`capacity - 1` items, and a slot with an unread item is never written. -/
theorem ring_refines_queue (hcap : 2 ≤ capacity) (h : Reachable step (start capacity) s) :
    s.log.popped ++ s.log.queue = s.log.pushed ∧ s.log.queue.length ≤ capacity - 1 ∧
    (∀ pc, s.producer = some pc → s.log.Pushes (capacity - 1) pc) ∧
    (∀ pc, s.consumer = some pc → s.log.Pops pc) ∧
    (∀ item head i, s.producer = some (.write item head) → s.log.popped.length ≤ i →
      i < s.log.pushed.length → i % capacity ≠ head) ∧
    (s.producer = none → s.consumer = none → s.log.ring.len = s.log.queue.length ∧
      (s.log.ring.isEmpty ↔ s.log.queue = [])) := by
  have hs := sound_of_reachable hcap h
  have hlen := hs.log.length_queue
  have hfits := hs.log.fits
  have hpushes := fun pc hpc => hs.log.pushes (hs.producer pc hpc)
  rw [hs.capacity] at hpushes hfits
  refine ⟨hs.log.popped_append, by omega, hpushes, fun pc hpc => hs.log.pops (hs.consumer pc hpc),
    fun item head i hpc hle hlt heq => ?_, fun _ _ => ⟨hs.log.len_eq, ?_⟩⟩
  · obtain ⟨hhead, _⟩ := hs.producer _ hpc
    rw [hs.capacity, ← heq] at hhead
    have := eq_of_mod_eq (Nat.le_of_lt hlt) (by omega) hhead
    omega
  · rw [← length_eq_zero_iff, ← hs.log.len_eq, hs.log.len_eq_zero_iff, RingBuffer.isEmpty, beq_iff_eq,
      hs.log.head, hs.log.tail]
    exact ⟨eq_of_mod_eq hs.log.fifo.length_le hs.log.fits, congrArg (· % _)⟩

/-- After two pops and two further pushes the indices have wrapped around. -/
private def wrapped : List (SpscEvent Nat) :=
  let push item := SpscEvent.tryPush item :: List.replicate 4 .producer
  let pop := SpscEvent.pop :: List.replicate 4 .consumer
  push 7 ++ push 8 ++ [.tryPush 6, .producer, .producer] ++ pop ++ push 9 ++ pop ++
    [.tryPush 10, .producer, .pop, .consumer, .producer, .producer, .producer]

private def wrappedRing : Spsc Nat := (run step (start 3) wrapped).get (by decide +kernel)

theorem wrapped_ring_is_queue : wrappedRing.log.ring.head < wrappedRing.log.ring.tail ∧
    wrappedRing.log.popped = [7, 8] ∧ wrappedRing.consumer.isSome = true ∧
    wrappedRing.log.popped ++ wrappedRing.log.queue = [7, 8, 9, 10] ∧
    wrappedRing.log.queue.length ≤ 2 := by
  obtain ⟨hqueue, hlength, _⟩ := ring_refines_queue (s := wrappedRing) (by decide : 2 ≤ 3)
    (reachable_of_run wrapped (Option.some_get _).symm)
  have hpushed : wrappedRing.log.pushed = [7, 8, 9, 10] := by decide +kernel
  exact ⟨by decide +kernel, by decide +kernel, by decide +kernel, hqueue.trans hpushed, hlength⟩

/-- In every interleaving, when the ring or the ring of a channel is released, each accepted item
has been popped exactly if the ring is empty. -/
theorem emptied_before_release_iff {M W : Type} (hcap : 2 ≤ capacity) :
    (∀ s : Spsc T, Reachable step (start capacity) s →
      (s.log.pushed = s.log.popped ++ s.log.ring.drop ↔ s.log.ring.len = 0)) ∧
    ∀ init c : Channel M W, Channel.channel capacity = .ok init → Reachable Channel.step init c →
      (c.queue.pushed = c.queue.popped ++ c.queue.ring.drop ↔ c.queue.ring.len = 0) := by
  have hempty : ∀ {U : Type} {l : RingLog U}, l.Sound →
      (l.pushed = l.popped ++ l.ring.drop ↔ l.ring.len = 0) := fun {U l} hl => by
    rw [RingBuffer.drop, append_nil, ← hl.popped_append, append_right_eq_self, hl.len_eq,
      length_eq_zero_iff]
  refine ⟨fun s hs => hempty (sound_of_reachable hcap hs).log, fun init c hnew hc => hempty ?_⟩
  exact (hc.invariant (Channel.consistent_channel hnew) fun _ _ _ hc _ => hc.step).sound

private def pushed : List (SpscEvent Nat) := .tryPush 7 :: List.replicate 4 .producer

private def pushSeven : Spsc Nat := (run step (start 2) pushed).get (by decide)

/-- An accepted item that is not popped is neither returned nor destroyed. -/
theorem released_item_lost : Reachable step (start 2) pushSeven ∧ pushSeven.log.pushed = [7] ∧
    pushSeven.log.popped ++ pushSeven.log.ring.drop = [] :=
  ⟨reachable_of_run pushed (Option.some_get _).symm, rfl, rfl⟩

private def popped : List (SpscEvent Nat) := pushed ++ .pop :: List.replicate 4 .consumer

theorem seven_popped : ∃ s, run step (start 2) popped = some s ∧
    s.log.pushed = s.log.popped ++ s.log.ring.drop :=
  ⟨_, rfl, ((emptied_before_release_iff (M := Nat) (W := Nat) (by decide : 2 ≤ 2)).1 _
    (reachable_of_run popped rfl)).mpr rfl⟩

end Spsc
end Sitas.Runtime
