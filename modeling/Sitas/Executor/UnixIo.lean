import Sitas.Lib.Transfer

/-! The readiness-based transfers of the executor: `read_exact_async`, `write_all_async` and
`copy_async` over a non-blocking reader and writer. The environment chooses the outcome of
every call and when a descriptor becomes ready. -/
namespace Sitas.Executor.UnixIo
open Sitas.Lib

inductive ErrorKind where
  | interrupted
  | wouldBlock
  | unexpectedEof
  | writeZero
  | invalidInput
  | other (code : Nat)
  deriving DecidableEq

structure IoError where
  kind : ErrorKind
  message : String
  deriving DecidableEq

abbrev Outcome := Except IoError Nat

/-- The transfers continue after these errors. -/
def IoError.retried (e : IoError) : Bool :=
  match e.kind with
  | .interrupted | .wouldBlock => true
  | _ => false

inductive Event where
  | call (outcome : Outcome)
  | ready
  deriving DecidableEq

def Event.outcome? : Event → Option Outcome
  | .call o => some o
  | .ready => none

/-- The loop that `read_exact_async` and `write_all_async` share. It has moved `moved` of `len`
bytes, and `data` is what the calls act on. -/
structure Loop (σ : Type) where
  len : Nat
  moved : Nat
  data : σ
  awaiting : Bool
  result : Option (Except IoError Unit)
  deriving DecidableEq

namespace Loop
variable {σ : Type}

def start (len : Nat) (data : σ) : Loop σ :=
  ⟨len, 0, data, false, if 0 < len then none else some (.ok ())⟩

/-- A loop that returns `zero` when a call moves nothing. A call that moves `n` bytes from
position `i` of the transfer acts by `move · i n`; it moves no more than it is asked for. -/
def step (zero : IoError) (move : σ → Nat → Nat → σ) (s : Loop σ) : Event → Option (Loop σ)
  | .call (.ok n) =>
    if s.result = none ∧ s.awaiting = false ∧ n ≤ s.len - s.moved then
      some (
        if n = 0 then { s with result := some (.error zero) }
        else
          { s with
            moved := s.moved + n
            data := move s.data s.moved n
            result := if s.moved + n < s.len then none else some (.ok ()) })
    else none
  | .call (.error e) =>
    if s.result = none ∧ s.awaiting = false then
      some (
        match e.kind with
        | .interrupted => s
        | .wouldBlock => { s with awaiting := true }
        | _ => { s with result := some (.error e) })
    else none
  | .ready => if s.awaiting then some { s with awaiting := false } else none

end Loop

def bytes (source : Nat → UInt8) (position count : Nat) : List UInt8 :=
  (List.range' position count).map source

def store (buffer : List UInt8) (i : Nat) (data : List UInt8) : List UInt8 :=
  buffer.take i ++ data ++ buffer.drop (i + data.length)

@[simp] theorem length_bytes (source : Nat → UInt8) (i n : Nat) : (bytes source i n).length = n := by
  simp [bytes]

theorem store_zero_bytes (source : Nat → UInt8) (buffer : List UInt8) (i n : Nat) :
    store buffer 0 (bytes source i n) = bytes source i n ++ buffer.drop n := by
  rw [store, List.take_zero, List.nil_append, Nat.zero_add, length_bytes]

theorem take_store_zero (source : Nat → UInt8) (buffer : List UInt8) (i n : Nat) :
    (store buffer 0 (bytes source i n)).take n = bytes source i n := by
  rw [store_zero_bytes, List.take_left' (length_bytes source i n)]

/-- What `read_exact_async` works on: the buffer, and the bytes consumed from the reader. -/
structure Reading where
  buffer : List UInt8
  consumed : Nat
  deriving DecidableEq

def Reading.read (source : Nat → UInt8) (d : Reading) (filled n : Nat) : Reading :=
  ⟨store d.buffer filled (bytes source d.consumed n), d.consumed + n⟩

def readEof : IoError := ⟨.unexpectedEof, "reader reached EOF before buffer was filled"⟩

def readExactStart (buffer : List UInt8) : Loop Reading := Loop.start buffer.length ⟨buffer, 0⟩

def readExactAsync (source : Nat → UInt8) : Loop Reading → Event → Option (Loop Reading) :=
  Loop.step readEof (Reading.read source)

def writeZero : IoError :=
  ⟨.writeZero, "writer accepted zero bytes before buffer was written"⟩

def accept (input accepted : List UInt8) (written n : Nat) : List UInt8 :=
  accepted ++ (input.drop written).take n

def writeAllStart (input accepted : List UInt8) : Loop (List UInt8) :=
  Loop.start input.length accepted

/-- `write_all_async`, over the bytes that the writer has accepted. -/
def writeAllAsync (input : List UInt8) : Loop (List UInt8) → Event → Option (Loop (List UInt8)) :=
  Loop.step writeZero (accept input)

inductive CopyPhase where
  | reading
  | awaiting
  | writing (loop : Loop (List UInt8))
  | returned (result : Except IoError Nat)
  /-- The sum of the copied bytes exceeds a `u64`. -/
  | panicked
  deriving DecidableEq

def u64Range : Nat := 18446744073709551616

structure Copy where
  buffer : List UInt8
  consumed : Nat
  accepted : List UInt8
  copied : Nat
  phase : CopyPhase
  deriving DecidableEq

inductive CopyEvent where
  | read (outcome : Outcome)
  | readable
  | write (event : Event)
  deriving DecidableEq

def emptyBuffer : IoError := ⟨.invalidInput, "copy buffer must not be empty"⟩

def copyStart (buffer : List UInt8) : Copy :=
  ⟨buffer, 0, [], 0, if buffer = [] then .returned (.error emptyBuffer) else .reading⟩

/-- `copied += bytes_read as u64`, and the next turn of the loop. -/
def Copy.wrote (s : Copy) (bytesRead : Nat) : Copy :=
  if s.copied + bytesRead < u64Range then
    { s with copied := s.copied + bytesRead, phase := .reading }
  else { s with phase := .panicked }

/-- `write_all_async(..).await?` with the state it is in. -/
def Copy.continueWrite (s : Copy) (loop : Loop (List UInt8)) : Copy :=
  let s := { s with accepted := loop.data }
  match loop.result with
  | none => { s with phase := .writing loop }
  | some (.ok ()) => s.wrote loop.len
  | some (.error e) => { s with phase := .returned (.error e) }

def copyAsync (source : Nat → UInt8) (s : Copy) : CopyEvent → Option Copy
  | .read (.ok n) =>
    if s.phase = .reading ∧ n ≤ s.buffer.length then
      some (
        if n = 0 then { s with phase := .returned (.ok s.copied) }
        else
          let buffer := store s.buffer 0 (bytes source s.consumed n)
          { s with
            buffer
            consumed := s.consumed + n
            phase := .writing (writeAllStart (buffer.take n) s.accepted) })
    else none
  | .read (.error e) =>
    if s.phase = .reading then
      some (
        match e.kind with
        | .interrupted => s
        | .wouldBlock => { s with phase := .awaiting }
        | _ => { s with phase := .returned (.error e) })
    else none
  | .readable => if s.phase = .awaiting then some { s with phase := .reading } else none
  | .write event =>
    match s.phase with
    | .writing loop =>
      (writeAllAsync (s.buffer.take loop.len) loop event).map s.continueWrite
    | _ => none

end Sitas.Executor.UnixIo
