import Sitas.Executor.UnixIo
import Sitas.Executor.Uring

/-! `read_exact_at_uring` and `write_all_at_uring`: the loops over the futures for one read or
write, with the bytes that the kernel moves. -/
namespace Sitas.Executor.UringIo
open Sitas.Lib Sitas.Os.Uring
open Sitas.Executor.Uring (TransferAtUring Progress completionResultToUsize)
open Sitas.Executor.UnixIo (bytes store u64Range)

inductive TransferError where
  | io (error : IoError)
  | unexpectedEof (message : String)
  | writeZero (message : String)
  deriving DecidableEq

inductive Reply where
  | unavailable
  | refused (error : IoError)
  | pending
  | completed (result : Int)
  deriving DecidableEq

def unavailableError : IoError := .unsupported "executor io_uring backend is unavailable"

def Reply.outcome? : Reply → Option (Except TransferError Nat)
  | .unavailable => some (.error (.io unavailableError))
  | .refused e => some (.error (.io e))
  | .pending => none
  | .completed result =>
    match completionResultToUsize result with
    | .error e => some (.error (.io e))
    | .ok count => some (.ok count)

def Reply.ofProgress : Progress → Reply
  | .pending => .pending
  | .failed e => .refused e
  | .completed completion _ => .completed completion.result

def moved : Progress → Option (Except TransferError Nat)
  | .pending => none
  | .failed e => some (.error (.io e))
  | .completed _ (.error e) => some (.error (.io e))
  | .completed _ (.ok (count, _)) => some (.ok count)

/-- The future for one read or write, with the contents of its buffer. -/
structure AtUring where
  offset : Nat
  buffer : Option (List UInt8)
  queued : Bool
  deriving DecidableEq

namespace AtUring

def new (offset : Nat) (buffer : List UInt8) : AtUring := ⟨offset, some buffer, false⟩

/-- The result is ready with the number of bytes and the buffer, or with an error. An operation
does not complete with more bytes than its buffer has. -/
def poll (f : AtUring) : Reply → Option (Option (Except TransferError (Nat × List UInt8)) × AtUring)
  | .unavailable => some (some (.error (.io unavailableError)), f)
  | .refused e => if f.queued then none else some (some (.error (.io e)), f)
  | .pending => some (none, { f with queued := true })
  | .completed result =>
    f.buffer.bind fun buffer =>
      if result ≤ buffer.length then
        match completionResultToUsize result with
        | .error e => some (some (.error (.io e)), { f with queued := true })
        | .ok count => some (some (.ok (count, buffer)), { f with buffer := none, queued := false })
      else none

def queues (f : AtUring) : Reply → Nat
  | .pending | .completed _ => if f.queued then 0 else 1
  | _ => 0

theorem poll_cases {f f' : AtUring} {reply : Reply} {buffer : List UInt8}
    {ready : Option (Except TransferError (Nat × List UInt8))} (hbuffer : f.buffer = some buffer)
    (h : f.poll reply = some (ready, f')) :
    (∃ e, reply.outcome? = some (.error e) ∧ ready = some (.error e) ∧
      f.queues reply ≤ (if f.queued then 0 else 1)) ∨
    f.queues reply = (if f.queued then 0 else 1) ∧
    ((reply.outcome? = none ∧ ready = none ∧ f' = { f with queued := true }) ∨
      ∃ n, reply.outcome? = some (.ok n) ∧ n ≤ buffer.length ∧ ready = some (.ok (n, buffer))) := by
  cases reply with
  | unavailable =>
    cases h
    exact .inl ⟨_, rfl, rfl, Nat.zero_le _⟩
  | refused e =>
    refine .inl ⟨_, rfl, ?_, Nat.zero_le _⟩
    rw [poll] at h
    split at h
    · cases h
    · cases h
      rfl
  | pending =>
    cases h
    exact .inr ⟨rfl, .inl ⟨rfl, rfl, rfl⟩⟩
  | completed result =>
    rw [poll, hbuffer] at h
    obtain ⟨hle, heq⟩ := Option.ite_none_right_eq_some.mp h
    rw [Reply.outcome?]
    cases hresult : completionResultToUsize result with
    | error e =>
      rw [hresult] at heq
      cases heq
      exact .inl ⟨_, rfl, rfl, le_rfl⟩
    | ok n =>
      rw [hresult] at heq
      cases heq
      have hn : n ≤ buffer.length := by
        rw [completionResultToUsize] at hresult
        split at hresult
        · cases hresult
        · cases hresult
          exact Int.toNat_le.mpr hle
      exact .inr ⟨rfl, .inr ⟨n, rfl, hn, rfl⟩⟩

/-- A future on a dispatcher, with the contents of its buffer. -/
structure Represents (g : AtUring) (f : TransferAtUring) : Prop where
  offset : g.offset = f.offset
  queued : g.queued = f.operation.isSome
  buffer : g.buffer.map List.length = f.buffer.map Buffer.len

theorem represents_new (transfer : Uring.Transfer) (fd : RawFd) (offset addr : Nat)
    (contents : List UInt8) :
    (new offset contents).Represents ⟨transfer, fd, offset, some ⟨addr, contents.length⟩, none⟩ :=
  ⟨rfl, rfl, rfl⟩

section Represents
variable {g : AtUring} {f f' : TransferAtUring} {d d' : IoUringDispatcher} {waker : Nat}
  {progress : Progress} {woken : List Nat} {buffer : Buffer}

private theorem represents_queued {op : Nat} (hoffset : g.offset = f.offset)
    (hlength : g.buffer.map List.length = some buffer.len) (hop : f.operation = some op)
    (hbuffer : f.buffer = some buffer)
    (hcount : ∀ completion result, progress = .completed completion result →
      completion.result ≤ buffer.len)
    (h : f.poll d waker = some (progress, f', woken, d')) :
    ∃ ready g', g.poll (.ofProgress progress) = some (ready, g') ∧
      ready.map (Except.map Prod.fst) = moved progress ∧ g'.Represents f' := by
  obtain ⟨contents, hcontents, hlen⟩ := Option.map_eq_some_iff.mp hlength
  have hfinal : g.buffer.map List.length = f.buffer.map Buffer.len := by
    rw [hlength, hbuffer]
    rfl
  rw [TransferAtUring.poll, TransferAtUring.ensureQueued, hop] at h
  simp only [Option.bind_some] at h
  split at h
  · cases h
    exact ⟨_, _, rfl, rfl, hoffset, by rw [hop]; rfl, hfinal⟩
  · split at h
    next e hresult =>
      cases h
      have hle := hcount _ _ rfl
      refine ⟨some (.error (.io e)), { g with queued := true }, ?_, rfl, hoffset,
        by rw [hop]; rfl, hfinal⟩
      rw [Reply.ofProgress, poll, hcontents, Option.bind_some, hlen, if_pos hle, hresult]
    next count hresult =>
      rw [hbuffer] at h
      cases h
      have hle := hcount _ _ rfl
      refine ⟨some (.ok (count, contents)), { g with buffer := none, queued := false }, ?_, ?_,
        hoffset, rfl, rfl⟩
      · rw [Reply.ofProgress, poll, hcontents, Option.bind_some, hlen, if_pos hle, hresult]
      · cases f.transfer <;> rfl

/-- A poll on a thread with a dispatcher is a poll with the reply that it finds, if the kernel
has not moved more bytes than the buffer has. -/
theorem Represents.poll (hg : g.Represents f) (hbuffer : f.buffer = some buffer)
    (hcount : ∀ completion result, progress = .completed completion result →
      completion.result ≤ buffer.len)
    (h : f.poll d waker = some (progress, f', woken, d')) :
    ∃ ready g', g.poll (.ofProgress progress) = some (ready, g') ∧
      ready.map (Except.map Prod.fst) = moved progress ∧ g'.Represents f' := by
  have hlength : g.buffer.map List.length = some buffer.len := by
    rw [hg.buffer, hbuffer]
    rfl
  cases hop : f.operation with
  | some op => exact represents_queued hg.offset hlength hop hbuffer hcount h
  | none =>
    obtain ⟨⟨queued, f₁, d₁⟩, hensured, hrest⟩ := Option.bind_eq_some_iff.mp h
    rw [TransferAtUring.ensureQueued, hop, hbuffer] at hensured
    simp only [Option.map_some, Option.some.injEq] at hensured
    split at hensured
    next e ring heq =>
      cases hensured
      cases hrest
      have hqueued : g.queued = false := by rw [hg.queued, hop]; rfl
      refine ⟨some (.error (.io e)), g, ?_, rfl, hg⟩
      rw [Reply.ofProgress, AtUring.poll, if_neg (by simp [hqueued])]
    next op ring heq =>
      cases hensured
      have hlater : TransferAtUring.poll
          { f with buffer := some buffer, operation := some op } { d with ring := ring } waker =
            some (progress, f', woken, d') := hrest
      exact represents_queued (f := { f with buffer := some buffer, operation := some op })
        hg.offset hlength rfl rfl hcount hlater

end Represents

end AtUring

/-- `read_exact_at_uring` at the future it awaits, with the number of operations it has
issued. -/
structure ReadExactAt where
  offset : Nat
  len : Nat
  output : List UInt8
  future : AtUring
  issued : Nat
  result : Option (Except TransferError (List UInt8))
  deriving DecidableEq

namespace ReadExactAt

def turn (s : ReadExactAt) : ReadExactAt :=
  if s.output.length < s.len then
    let readOffset := (s.offset + s.output.length) % u64Range
    let remaining := s.len - s.output.length
    { s with future := .new readOffset (List.replicate remaining 0) }
  else { s with result := some (.ok s.output) }

def start (offset len : Nat) : ReadExactAt :=
  turn ⟨offset, len, [], .new 0 [], 0, none⟩

def eof : TransferError :=
  .unexpectedEof "io_uring read reached EOF before filling the requested buffer"

def extend (s : ReadExactAt) (buffer : List UInt8) : ReadExactAt :=
  if buffer = [] then { s with result := some (.error eof) }
  else turn { s with output := s.output ++ buffer }

/-- A poll. `contents n` is the file as the operation with number `n` finds it: the kernel
stores what it reads into the buffer, and the future shortens the buffer to it. -/
def step (contents : Nat → Nat → UInt8) (s : ReadExactAt) (reply : Reply) : Option ReadExactAt :=
  if s.result = none then
    (s.future.poll reply).map fun (ready, future) =>
      let t := { s with future, issued := s.issued + s.future.queues reply }
      match ready with
      | none => t
      | some (.error e) => { t with result := some (.error e) }
      | some (.ok (count, buffer)) =>
        t.extend ((store buffer 0 (bytes (contents t.issued) s.future.offset count)).take count)
  else none

end ReadExactAt

/-- `write_all_at_uring` at the future it awaits, with the chunks that the kernel has written
and their positions. -/
structure WriteAllAt where
  writeOffset : Nat
  requested : Nat
  future : AtUring
  chunks : List (Nat × List UInt8)
  issued : Nat
  result : Option (Except TransferError Unit)
  deriving DecidableEq

namespace WriteAllAt

def turn (s : WriteAllAt) (buffer : List UInt8) : WriteAllAt :=
  if buffer = [] then { s with result := some (.ok ()) }
  else { s with requested := buffer.length, future := .new s.writeOffset buffer }

def start (offset : Nat) (buffer : List UInt8) : WriteAllAt :=
  turn ⟨offset, 0, .new 0 [], [], 0, none⟩ buffer

def zero : TransferError := .writeZero "io_uring write accepted zero bytes"

def advance (s : WriteAllAt) (written : Nat) (buffer : List UInt8) : WriteAllAt :=
  if written = 0 then { s with result := some (.error zero) }
  else
    turn { s with writeOffset := (s.writeOffset + written) % u64Range }
      (if s.requested ≤ written then [] else buffer.drop written)

/-- A poll. A completed operation has written the first bytes of its buffer. -/
def step (s : WriteAllAt) (reply : Reply) : Option WriteAllAt :=
  if s.result = none then
    (s.future.poll reply).map fun (ready, future) =>
      let t := { s with future, issued := s.issued + s.future.queues reply }
      match ready with
      | none => t
      | some (.error e) => { t with result := some (.error e) }
      | some (.ok (written, buffer)) =>
        let chunks := if written = 0 then t.chunks
          else t.chunks ++ [(s.future.offset, buffer.take written)]
        { t with chunks }.advance written buffer
  else none

end WriteAllAt

end Sitas.Executor.UringIo
