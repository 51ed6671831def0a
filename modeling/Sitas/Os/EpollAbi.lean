import Sitas.Lib.Memory
import Sitas.Os.Epoll

/-! The event record of the epoll backend against the packed record of an
x86_64 kernel, for registrations and for reported events. -/
namespace Sitas.Os.Epoll
open Sitas.Lib List

structure EpollEvent where
  events : BitVec 32
  data : BitVec 64
  deriving DecidableEq, Repr

/-- The `repr(C)` record: 16 bytes, the data aligned to offset 8. Padding bytes
keep what the memory held before. -/
def storeEvent (m : Memory) (off : Nat) (e : EpollEvent) : Memory :=
  writeLe (writeLe m off 4 e.events.toNat) (off + 8) 8 e.data.toNat

def loadEvent (m : Memory) (off : Nat) : EpollEvent :=
  ⟨BitVec.ofNat 32 (readLe m off 4), BitVec.ofNat 64 (readLe m (off + 8) 8)⟩

/-- The kernel's packed record: 12 bytes, the data at offset 4. -/
def kernelStore (m : Memory) (off : Nat) (e : EpollEvent) : Memory :=
  writeLe (writeLe m off 4 e.events.toNat) (off + 4) 8 e.data.toNat

def kernelLoad (m : Memory) (off : Nat) : EpollEvent :=
  ⟨BitVec.ofNat 32 (readLe m off 4), BitVec.ofNat 64 (readLe m (off + 4) 8)⟩

/-- `control_epoll_fd`: the record is built on the stack and copied in by the
kernel. The result is what the kernel keeps for the registration. -/
def controlEpollFd (stack : Memory) (events : BitVec 32) (data : BitVec 64) : EpollEvent :=
  kernelLoad (storeEvent stack 0 ⟨events, data⟩) 0

/-- `vec![EpollEvent { events: 0, data: 0 }; max_events]`. -/
def eventBuffer (heap : Memory) (maxEvents : Nat) : Memory :=
  (List.range maxEvents).foldl (fun m i => storeEvent m (16 * i) ⟨0, 0⟩) heap

/-- The kernel stores its events one packed record after the other. -/
def kernelReport (m : Memory) (i : Nat) : List EpollEvent → Memory
  | [] => m
  | e :: es => kernelReport (kernelStore m (12 * i) e) (i + 1) es

/-- `events.iter().take(result)`. -/
def decodeEvents (m : Memory) (result : Nat) : List EpollEvent :=
  (List.range result).map fun i => loadEvent m (16 * i)

structure Registered where
  interest : EpollInterest
  token : BitVec 64
  deriving DecidableEq, Repr

def reportOf (stack : Registered → Memory) (x : Registered × BitVec 32) : EpollEvent :=
  ⟨x.2, (controlEpollFd (stack x.1) x.1.interest.events x.1.token).data⟩

/-- The events `wait_io` reads after a wait that reported the given list. -/
def waitEvents (stack : Registered → Memory) (heap : Memory) (maxEvents : Nat)
    (reported : List (Registered × BitVec 32)) : List EpollEvent :=
  decodeEvents (kernelReport (eventBuffer heap maxEvents) 0 (reported.map (reportOf stack)))
    reported.length

structure OsEvent where
  woke : Bool
  readable : List RawFd
  writable : List RawFd
  deriving DecidableEq, Repr

def OsEvent.empty : OsEvent := ⟨false, [], []⟩

def pushUniqueFd (fds : List RawFd) (fd : RawFd) : List RawFd :=
  if fd ∈ fds then fds else fds ++ [fd]

/-- How the event loop of `wait_io` ends early: an error of `drain_wakes`, or
the panic on an interest it does not know. -/
inductive WaitError where
  | os (e : Errno)
  | unknownInterest
  deriving DecidableEq, Repr

def readMask : BitVec 32 := epollIn ||| epollErr ||| epollHup
def writeMask : BitVec 32 := epollOut ||| epollErr ||| epollHup

/-- One round of the event loop. The second component counts the calls of
`drain_wakes`, each of which may have its own result. -/
def handleEvent (interest : BitVec 64 → Option EpollInterest) (drainWakes : Nat → Except Errno Bool)
    (acc : OsEvent × Nat) (e : EpollEvent) : Except WaitError (OsEvent × Nat) :=
  if e.data = 0 then
    if e.events &&& epollIn ≠ 0 then
      match drainWakes acc.2 with
      | .ok woke => .ok ({ acc.1 with woke := woke }, acc.2 + 1)
      | .error err => .error (.os err)
    else .ok ({ acc.1 with woke := false }, acc.2)
  else
    match interest e.data with
    | none => .error .unknownInterest
    | some i => .ok ({ acc.1 with
        readable := if i.read ∧ e.events &&& readMask ≠ 0 then pushUniqueFd acc.1.readable i.fd
          else acc.1.readable
        writable := if i.write ∧ e.events &&& writeMask ≠ 0 then pushUniqueFd acc.1.writable i.fd
          else acc.1.writable }, acc.2)

def handleEvents (interest : BitVec 64 → Option EpollInterest) (drainWakes : Nat → Except Errno Bool) :
    OsEvent × Nat → List EpollEvent → Except WaitError (OsEvent × Nat)
  | acc, [] => .ok acc
  | acc, e :: es =>
    match handleEvent interest drainWakes acc e with
    | .ok acc' => handleEvents interest drainWakes acc' es
    | .error err => .error err

/-- The descriptors that the reported events make ready in the direction of
`wanted` and `mask`. -/
def Ready (reported : List (Registered × BitVec 32)) (wanted : EpollInterest → Bool)
    (mask : BitVec 32) (fd : RawFd) : Prop :=
  ∃ x ∈ reported, x.1.token ≠ 0 ∧ x.1.interest.fd = fd ∧ wanted x.1.interest = true ∧ x.2 &&& mask ≠ 0

/-- The loop adds exactly the ready requested descriptors to what it had, unless
`drain_wakes` itself failed. -/
def AddsReady (reported : List (Registered × BitVec 32)) (acc : OsEvent) :
    Except WaitError (OsEvent × Nat) → Prop
  | .ok (ev, _) => ∀ fd,
      (fd ∈ ev.readable ↔ fd ∈ acc.readable ∨ Ready reported (·.read) readMask fd) ∧
      (fd ∈ ev.writable ↔ fd ∈ acc.writable ∨ Ready reported (·.write) writeMask fd)
  | .error (.os _) => True
  | .error .unknownInterest => False

private theorem mem_pushUniqueFd (fds : List RawFd) (fd d : RawFd) :
    d ∈ pushUniqueFd fds fd ↔ d ∈ fds ∨ d = fd := by
  unfold pushUniqueFd
  split
  next h =>
    exact ⟨.inl, fun hd => hd.elim id fun he => he ▸ h⟩
  · simp

private theorem AddsReady.congr {reported reported' : List (Registered × BitVec 32)}
    {acc acc' : OsEvent} {out : Except WaitError (OsEvent × Nat)} (h : AddsReady reported acc out)
    (hr : ∀ fd, (fd ∈ acc.readable ∨ Ready reported (·.read) readMask fd) ↔
      (fd ∈ acc'.readable ∨ Ready reported' (·.read) readMask fd))
    (hw : ∀ fd, (fd ∈ acc.writable ∨ Ready reported (·.write) writeMask fd) ↔
      (fd ∈ acc'.writable ∨ Ready reported' (·.write) writeMask fd)) :
    AddsReady reported' acc' out := by
  match out, h with
  | .ok (ev, _), h => exact fun fd => ⟨(h fd).1.trans (hr fd), (h fd).2.trans (hw fd)⟩
  | .error (.os _), _ => trivial
  | .error .unknownInterest, h => exact h

private theorem ready_cons (x : Registered × BitVec 32) (xs : List (Registered × BitVec 32))
    (wanted : EpollInterest → Bool) (mask : BitVec 32) (fd : RawFd) :
    Ready (x :: xs) wanted mask fd ↔
      (x.1.token ≠ 0 ∧ x.1.interest.fd = fd ∧ wanted x.1.interest = true ∧ x.2 &&& mask ≠ 0) ∨
        Ready xs wanted mask fd := by
  simp only [Ready, mem_cons, exists_eq_or_imp]

private theorem mem_push_if {c : Prop} [Decidable c] (fds : List RawFd) (fd d : RawFd) (p : Prop) :
    (d ∈ (if c then pushUniqueFd fds fd else fds) ∨ p) ↔ d ∈ fds ∨ (fd = d ∧ c) ∨ p := by
  split
  next h =>
    rw [mem_pushUniqueFd, or_assoc]
    simp only [h, and_true, eq_comm]
  next h =>
    simp only [h, and_false, false_or]

private theorem handleEvents_adds (interest : BitVec 64 → Option EpollInterest)
    (drainWakes : Nat → Except Errno Bool) (reported : List (Registered × BitVec 32))
    (hknown : ∀ x ∈ reported, x.1.token ≠ 0 → interest x.1.token = some x.1.interest)
    (acc : OsEvent × Nat) : AddsReady reported acc.1
      (handleEvents interest drainWakes acc (reported.map fun x => ⟨x.2, x.1.token⟩)) := by
  induction reported generalizing acc with
  | nil => exact fun fd => by simp [Ready]
  | cons x xs ih =>
    have hrest := ih fun y hy => hknown y (mem_cons_of_mem _ hy)
    simp only [map_cons, handleEvents, handleEvent]
    by_cases hz : x.1.token = 0
    · have hskip : ∀ woke n, AddsReady (x :: xs) acc.1 (handleEvents interest drainWakes
          ({ acc.1 with woke := woke }, n) (xs.map fun x => ⟨x.2, x.1.token⟩)) := fun woke n =>
        (hrest ({ acc.1 with woke := woke }, n)).congr (fun fd => by simp [ready_cons, hz])
          (fun fd => by simp [ready_cons, hz])
      rw [if_pos hz]
      split_ifs
      · cases hd : drainWakes acc.2 with
        | ok woke => exact hskip woke _
        | error err => trivial
      · exact hskip false _
    · rw [if_neg hz, hknown x (mem_cons_self ..) hz]
      refine (hrest _).congr (fun fd => ?_) (fun fd => ?_) <;> rw [mem_push_if, ready_cons] <;>
        simp only [ne_eq, hz, not_false_eq_true, true_and]

/-- The kernel keeps the padding bytes as the low half of the data and the low
half of the token as its high half. -/
private theorem controlEpollFd_data (stack : Memory) (events : BitVec 32) (data : BitVec 64) :
    (controlEpollFd stack events data).data.toNat =
      readLe stack 4 4 + 2 ^ 32 * (data.toNat % 2 ^ 32) := by
  have hpad : readLe (storeEvent stack 0 ⟨events, data⟩) 4 4 = readLe stack 4 4 := by
    rw [storeEvent, readLe_writeLe_disjoint _ _ _ _ _ _ (by omega),
      readLe_writeLe_disjoint _ _ _ _ _ _ (by omega)]
  have hlow : readLe (storeEvent stack 0 ⟨events, data⟩) 8 4 = data.toNat % 2 ^ 32 := by
    simpa [storeEvent] using readLe_writeLe_inside (writeLe stack 0 4 events.toNat) 8 8 data.toNat 0 4
      (by omega)
  have hlt := readLe_lt stack 4 4
  rw [controlEpollFd, kernelLoad, BitVec.toNat_ofNat, Nat.zero_add, readLe_add _ 4 4 4, hpad, hlow]
  apply Nat.mod_eq_of_lt
  have := Nat.mod_lt data.toNat (show 0 < 2 ^ 32 by decide)
  omega

private theorem kernelReport_below (es : List EpollEvent) (m : Memory) (i off w : Nat)
    (h : off + w ≤ 12 * i) : readLe (kernelReport m i es) off w = readLe m off w := by
  induction es generalizing m i with
  | nil => rfl
  | cons e es ih =>
    rw [kernelReport, ih _ _ (by omega), kernelStore, readLe_writeLe_disjoint _ _ _ _ _ _ (by omega),
      readLe_writeLe_disjoint _ _ _ _ _ _ (by omega)]

private theorem eventBuffer_zero (heap : Memory) (n : Nat) :
    readLe (eventBuffer heap (n + 1)) 12 4 = 0 := by
  induction n with
  | zero =>
    simpa [eventBuffer, storeEvent] using
      readLe_writeLe_inside (writeLe heap 0 4 0) 8 8 0 4 4 (by omega)
  | succ n ih =>
    rw [eventBuffer, range_succ, foldl_append, foldl_cons, foldl_nil, storeEvent,
      readLe_writeLe_disjoint _ _ _ _ _ _ (by omega), readLe_writeLe_disjoint _ _ _ _ _ _ (by omega)]
    exact ih

private theorem waitEvents_single (stack : Registered → Memory) (heap : Memory) (n : Nat)
    (x : Registered × BitVec 32) :
    waitEvents stack heap (n + 1) [x] = [⟨x.2, BitVec.ofNat 64 (x.1.token.toNat % 2 ^ 32)⟩] := by
  let buffer := eventBuffer heap (n + 1)
  have hevents : readLe (kernelStore buffer 0 (reportOf stack x)) 0 4 = x.2.toNat := by
    rw [kernelStore, readLe_writeLe_disjoint _ _ _ _ _ _ (by omega), readLe_writeLe]
    exact Nat.mod_eq_of_lt x.2.isLt
  have hhigh : readLe (kernelStore buffer 0 (reportOf stack x)) 12 4 = 0 := by
    rw [kernelStore, readLe_writeLe_disjoint _ _ _ _ _ _ (by omega),
      readLe_writeLe_disjoint _ _ _ _ _ _ (by omega)]
    exact eventBuffer_zero heap n
  have hlow : readLe (kernelStore buffer 0 (reportOf stack x)) 8 4 = x.1.token.toNat % 2 ^ 32 := by
    have h := readLe_writeLe_inside (writeLe buffer 0 4 (reportOf stack x).events.toNat) 4 8
      (reportOf stack x).data.toNat 4 4 (by omega)
    have hdata : (reportOf stack x).data.toNat =
        readLe (stack x.1) 4 4 + 2 ^ 32 * (x.1.token.toNat % 2 ^ 32) := controlEpollFd_data _ _ _
    have hlt := readLe_lt (stack x.1) 4 4
    rw [kernelStore, Nat.zero_add, h, hdata]
    omega
  have hload : loadEvent (kernelStore buffer 0 (reportOf stack x)) 0 =
      ⟨x.2, BitVec.ofNat 64 (x.1.token.toNat % 2 ^ 32)⟩ := by
    rw [loadEvent, hevents, Nat.zero_add, readLe_add _ 8 4 4, hlow, hhigh]
    simp
  simpa [waitEvents, decodeEvents, kernelReport, range_succ] using hload

/-- The second of several reported events is read with its own padding bytes
in the place of its mask. -/
private theorem waitEvents_second (stack : Registered → Memory) (heap : Memory) (n : Nat)
    (x y : Registered × BitVec 32) (rest : List (Registered × BitVec 32)) :
    ((waitEvents stack heap n (x :: y :: rest))[1]?).map (·.events) =
      some (BitVec.ofNat 32 (readLe (stack y.1) 4 4)) := by
  let buffer := kernelStore (eventBuffer heap n) 0 (reportOf stack x)
  have hdata : (reportOf stack y).data.toNat =
      readLe (stack y.1) 4 4 + 2 ^ 32 * (y.1.token.toNat % 2 ^ 32) := controlEpollFd_data _ _ _
  have hlt := readLe_lt (stack y.1) 4 4
  have hread : readLe (kernelReport (kernelStore buffer 12 (reportOf stack y)) 2
      (rest.map (reportOf stack))) 16 4 = readLe (stack y.1) 4 4 := by
    rw [kernelReport_below _ _ _ _ _ (by omega), kernelStore]
    have h := readLe_writeLe_inside (writeLe buffer 12 4 (reportOf stack y).events.toNat) 16 8
      (reportOf stack y).data.toNat 0 4 (by omega)
    rw [h, hdata]
    omega
  simp only [waitEvents, decodeEvents, map_cons, kernelReport, length_cons]
  rw [getElem?_map, getElem?_range (by omega)]
  simp only [Option.map_some, loadEvent, Nat.mul_one, Nat.mul_zero]
  exact congrArg (fun v => some (BitVec.ofNat 32 v)) hread

/-- What the backend should read: the reported masks with the registered tokens. -/
def reportedEvents (reported : List (Registered × BitVec 32)) : List EpollEvent :=
  reported.map fun x => ⟨x.2, x.1.token⟩

private theorem two_events_misread (maxEvents : Nat) (x y : Registered × BitVec 32)
    (rest : List (Registered × BitVec 32)) : ∃ stack, ∀ heap,
      waitEvents stack heap maxEvents (x :: y :: rest) ≠ reportedEvents (x :: y :: rest) := by
  refine ⟨fun _ => writeLe (fun _ => 0) 4 4 (y.2.toNat + 1), fun heap he => ?_⟩
  have hsecond := waitEvents_second (fun _ => writeLe (fun _ => 0) 4 4 (y.2.toNat + 1)) heap
    maxEvents x y rest
  rw [he, readLe_writeLe] at hsecond
  simp only [reportedEvents, map_cons, getElem?_cons_succ, getElem?_cons_zero,
    Option.map_some, Option.some.injEq] at hsecond
  have hval := congrArg BitVec.toNat hsecond
  rw [BitVec.toNat_ofNat] at hval
  have hlt := y.2.isLt
  omega

/-- Whatever the padding bytes hold, a wait is decoded exactly if and only if it
reports nothing, or one event whose token fits in 32 bits. -/
theorem wait_decodes_exactly_iff (interest : BitVec 64 → Option EpollInterest)
    (drainWakes : Nat → Except Errno Bool) (maxEvents : Nat)
    (reported : List (Registered × BitVec 32)) (hmax : reported.length ≤ maxEvents)
    (hknown : ∀ x ∈ reported, x.1.token ≠ 0 → interest x.1.token = some x.1.interest) :
    (∀ stack heap, waitEvents stack heap maxEvents reported = reportedEvents reported ∧
      AddsReady reported .empty
        (handleEvents interest drainWakes (.empty, 0) (waitEvents stack heap maxEvents reported))) ↔
    reported = [] ∨ ∃ x, reported = [x] ∧ x.1.token.toNat < 2 ^ 32 := by
  constructor
  · intro h
    match reported with
    | [] => exact .inl rfl
    | [x] =>
      obtain ⟨n, rfl⟩ : ∃ n, maxEvents = n + 1 := ⟨maxEvents - 1, by simp at hmax; omega⟩
      have he := (h (fun _ _ => 0) (fun _ => 0)).1
      rw [waitEvents_single] at he
      simp only [reportedEvents, map_cons, map_nil, cons.injEq,
        EpollEvent.mk.injEq, true_and, and_true] at he
      refine .inr ⟨x, rfl, ?_⟩
      have hval := congrArg BitVec.toNat he
      rw [BitVec.toNat_ofNat] at hval
      have hmod := Nat.mod_lt x.1.token.toNat (show 0 < 2 ^ 32 by decide)
      omega
    | x :: y :: rest =>
      obtain ⟨stack, hbad⟩ := two_events_misread maxEvents x y rest
      exact absurd (h stack (fun _ => 0)).1 (hbad _)
  · intro h stack heap
    have hread : waitEvents stack heap maxEvents reported = reportedEvents reported := by
      rcases h with rfl | ⟨x, rfl, hx⟩
      · rfl
      · obtain ⟨n, rfl⟩ : ∃ n, maxEvents = n + 1 := ⟨maxEvents - 1, by simp at hmax; omega⟩
        rw [waitEvents_single, Nat.mod_eq_of_lt hx]
        simp [reportedEvents]
    refine ⟨hread, ?_⟩
    rw [hread]
    exact handleEvents_adds interest drainWakes reported hknown (.empty, 0)

def sampleInterest (token : BitVec 64) : Option EpollInterest :=
  if token = 1 then some ⟨5, true, false⟩ else if token = 2 then some ⟨6, false, true⟩ else none

theorem one_event_decoded :
    waitEvents (fun _ _ => 0xa5) (fun _ => 0x5a) 3 [(⟨⟨5, true, false⟩, 1⟩, epollIn)] =
      reportedEvents [(⟨⟨5, true, false⟩, 1⟩, epollIn)] ∧
    AddsReady [(⟨⟨5, true, false⟩, 1⟩, epollIn)] .empty
      (handleEvents sampleInterest (fun _ => .ok true) (.empty, 0)
        (waitEvents (fun _ _ => 0xa5) (fun _ => 0x5a) 3 [(⟨⟨5, true, false⟩, 1⟩, epollIn)])) :=
  (wait_decodes_exactly_iff sampleInterest (fun _ => .ok true) 3 _ (by decide) (by decide)).mpr
    (.inr ⟨_, rfl, by decide⟩) (fun _ _ => 0xa5) (fun _ => 0x5a)

/-- Of two events the first token is read with the second mask in its high half. -/
theorem two_events_panic :
    handleEvents sampleInterest (fun _ => .ok true) (.empty, 0)
      (waitEvents (fun _ _ => 0) (fun _ => 0) 3
        [(⟨⟨5, true, false⟩, 1⟩, epollIn), (⟨⟨6, false, true⟩, 2⟩, epollOut)]) =
        .error .unknownInterest ∧
    ¬ ∀ stack heap,
      waitEvents stack heap 3 [(⟨⟨5, true, false⟩, 1⟩, epollIn), (⟨⟨6, false, true⟩, 2⟩, epollOut)] =
        reportedEvents [(⟨⟨5, true, false⟩, 1⟩, epollIn), (⟨⟨6, false, true⟩, 2⟩, epollOut)] ∧
      AddsReady [(⟨⟨5, true, false⟩, 1⟩, epollIn), (⟨⟨6, false, true⟩, 2⟩, epollOut)] .empty
        (handleEvents sampleInterest (fun _ => .ok true) (.empty, 0)
          (waitEvents stack heap 3
            [(⟨⟨5, true, false⟩, 1⟩, epollIn), (⟨⟨6, false, true⟩, 2⟩, epollOut)])) := by
  refine ⟨by decide, fun h => ?_⟩
  have hread := (h (fun _ _ => 0) (fun _ => 0)).1
  revert hread
  decide

end Sitas.Os.Epoll
