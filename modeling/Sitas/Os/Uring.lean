import Mathlib.Data.List.AList

/-! The io_uring ring and its dispatcher. Hash maps are association lists; nothing below
reads their order. The submission and completion queues shared with the kernel are lists:
their slots, indices and barriers are left out. -/
namespace Sitas.Os.Uring

abbrev RawFd := Int

structure Buffer where
  addr : Nat
  len : Nat
  deriving DecidableEq, Repr

inductive IoError where
  | os (errno : Nat)
  | wouldBlock (message : String)
  | invalidInput (message : String)
  | notFound (message : String)
  | unsupported (message : String)
  | other (message : String)
  deriving DecidableEq, Repr

def eintr : Nat := 4

def u32Max : Nat := 4294967295

def usizeMax : Nat := 18446744073709551615

def i64Max : Nat := 9223372036854775807

def operationUserDataBase : Nat := 9223372036854775808

inductive IoUringOperationKind where
  | nop
  | read
  | write
  | accept
  | connect
  | send
  | recv
  | timeout
  | cancel (target : Nat)
  deriving DecidableEq, Repr

structure IoUringOperationKindCounts where
  nops : Nat
  reads : Nat
  writes : Nat
  accepts : Nat
  connects : Nat
  sends : Nat
  recvs : Nat
  timeouts : Nat
  cancellations : Nat
  deriving DecidableEq, Repr

namespace IoUringOperationKindCounts

def zero : IoUringOperationKindCounts := ⟨0, 0, 0, 0, 0, 0, 0, 0, 0⟩

def add (c : IoUringOperationKindCounts) : IoUringOperationKind → IoUringOperationKindCounts
  | .nop => { c with nops := c.nops + 1 }
  | .read => { c with reads := c.reads + 1 }
  | .write => { c with writes := c.writes + 1 }
  | .accept => { c with accepts := c.accepts + 1 }
  | .connect => { c with connects := c.connects + 1 }
  | .send => { c with sends := c.sends + 1 }
  | .recv => { c with recvs := c.recvs + 1 }
  | .timeout => { c with timeouts := c.timeouts + 1 }
  | .cancel _ => { c with cancellations := c.cancellations + 1 }

end IoUringOperationKindCounts

structure IoUringCompletion where
  userData : Nat
  result : Int
  flags : Nat
  deriving DecidableEq, Repr

structure IoUringOperationCompletion where
  operation : Nat
  kind : IoUringOperationKind
  result : Int
  flags : Nat
  deriving DecidableEq, Repr

inductive SqeOp where
  | nop
  | read (fd : RawFd) (offset addr len : Nat)
  | write (fd : RawFd) (offset addr len : Nat)
  | asyncCancel (target : Nat)
  | timeout (addr : Nat)
  deriving DecidableEq, Repr

structure Sqe where
  op : SqeOp
  userData : Nat
  deriving DecidableEq, Repr

structure IoUring where
  entries : Nat
  submissions : List Sqe
  /-- Completions posted by the kernel and not yet taken over. -/
  completionQueue : List IoUringCompletion
  completions : List IoUringCompletion
  operations : AList (fun _ : Nat => IoUringOperationKind)
  nextOperation : Nat
  pendingSubmissions : Nat

/-- An answer of `io_uring_enter`: the error or the number of entries consumed, and the
completions posted up to the return. -/
structure EnterReply where
  result : Except Nat Nat
  posted : List IoUringCompletion

/-- The answers to successive calls of `io_uring_enter`. A call without an answer never
returns. -/
abbrev Kernel := Nat → Option EnterReply

namespace IoUring

def new (entries : Nat) : IoUring := ⟨entries, [], [], [], ∅, 0, 0⟩

def operationKind (r : IoUring) (operation : Nat) : Option IoUringOperationKind :=
  r.operations.lookup operation

def isOperationTracked (r : IoUring) (operation : Nat) : Bool := operation ∈ r.operations

def trackedOperations (r : IoUring) : Nat := r.operations.entries.length

def isIdle (r : IoUring) : Bool :=
  r.pendingSubmissions == 0 && r.completions.length == 0 && r.trackedOperations == 0

def prepareSqe (r : IoUring) (sqe : Sqe) : Except IoError IoUring :=
  if r.entries ≤ r.submissions.length then
    .error (.wouldBlock "io_uring submission queue is full")
  else .ok { r with submissions := r.submissions ++ [sqe] }

/-- The entry stays in the submission queue when the count overflows. -/
def finishSqe (r : IoUring) : Except IoError Unit × IoUring :=
  if r.pendingSubmissions = u32Max then
    (.error (.other "io_uring pending submission count overflow"), r)
  else (.ok (), { r with pendingSubmissions := r.pendingSubmissions + 1 })

def queueSqe (r : IoUring) (sqe : Sqe) : Except IoError Unit × IoUring :=
  match r.prepareSqe sqe with
  | .error e => (.error e, r)
  | .ok r => r.finishSqe

def allocateOperation (r : IoUring) (kind : IoUringOperationKind) : Except IoError Nat × IoUring :=
  if r.nextOperation = operationUserDataBase then
    (.error (.other "io_uring operation id space exhausted"), r)
  else
    let operation := operationUserDataBase + r.nextOperation
    let next := { r with
      nextOperation := r.nextOperation + 1
      operations := r.operations.insert operation kind }
    if operation ∈ r.operations then
      (.error (.other "io_uring operation id collision"), next)
    else (.ok operation, next)

/-- A tracked operation is forgotten again when its entry cannot be queued. -/
def queueOperation (r : IoUring) (kind : IoUringOperationKind)
    (queue : IoUring → Nat → Except IoError Unit × IoUring) : Except IoError Nat × IoUring :=
  match r.allocateOperation kind with
  | (.error e, r) => (.error e, r)
  | (.ok operation, r) =>
    match queue r operation with
    | (.error e, r) => (.error e, { r with operations := r.operations.erase operation })
    | (.ok _, r) => (.ok operation, r)

def queueBufferOperation (r : IoUring) (sqe : SqeOp) (len userData : Nat) (operationName : String) :
    Except IoError Unit × IoUring :=
  if u32Max < len then
    (.error (.invalidInput ("io_uring " ++ operationName ++ " buffer length exceeds u32::MAX")), r)
  else r.queueSqe ⟨sqe, userData⟩

def queueReadOperation (r : IoUring) (fd : RawFd) (buffer : Buffer) (offset : Nat) :
    Except IoError Nat × IoUring :=
  r.queueOperation .read fun r operation =>
    r.queueBufferOperation (.read fd offset buffer.addr buffer.len) buffer.len operation "read"

def queueWriteOperation (r : IoUring) (fd : RawFd) (buffer : Buffer) (offset : Nat) :
    Except IoError Nat × IoUring :=
  r.queueOperation .write fun r operation =>
    r.queueBufferOperation (.write fd offset buffer.addr buffer.len) buffer.len operation "write"

def queueCancelOperation (r : IoUring) (target : Nat) : Except IoError Nat × IoUring :=
  r.queueOperation (.cancel target) fun r operation => r.queueSqe ⟨.asyncCancel target, operation⟩

def queueNopOperation (r : IoUring) : Except IoError Nat × IoUring :=
  r.queueOperation .nop fun r operation => r.queueSqe ⟨.nop, operation⟩

/-- The timespec of a timeout stays at its address until the operation is forgotten. -/
def queueTimeoutOperation (r : IoUring) (seconds addr : Nat) : Except IoError Nat × IoUring :=
  if i64Max < seconds then
    (.error (.invalidInput "io_uring timeout seconds exceed i64::MAX"), r)
  else r.queueOperation .timeout fun r operation => r.queueSqe ⟨.timeout addr, operation⟩

def drainCompletions (r : IoUring) : IoUring :=
  { r with completions := r.completions ++ r.completionQueue, completionQueue := [] }

def completeOperation (r : IoUring) (operation : Nat) (completion : IoUringCompletion) :
    Except IoError IoUringOperationCompletion × IoUring :=
  match r.operations.lookup operation with
  | none =>
    (.error (.notFound "io_uring completion does not match a tracked operation"), r)
  | some kind =>
    (.ok ⟨operation, kind, completion.result, completion.flags⟩,
      { r with operations := r.operations.erase operation })

/-- The first completion of a tracked operation leaves the local queue. -/
def tryOperationCompletion (r : IoUring) : Option IoUringOperationCompletion × IoUring :=
  let r := r.drainCompletions
  let tracked := fun c : IoUringCompletion => r.isOperationTracked c.userData
  match r.completions.find? tracked with
  | none => (none, r)
  | some c =>
    let (result, r) :=
      { r with completions := r.completions.eraseP tracked }.completeOperation c.userData c
    (result.toOption, r)

/-- What a returning `io_uring_enter` does to the shared queues. -/
def enter (r : IoUring) (reply : EnterReply) : IoUring :=
  { r with
    submissions := match reply.result with
      | .ok submitted => r.submissions.drop submitted
      | .error _ => r.submissions
    completionQueue := r.completionQueue ++ reply.posted }

/-- Wait until enough completions are there, for at most `fuel` calls of `io_uring_enter`.
The result comes with the number of calls made so far. -/
def waitLoop (kernel : Kernel) (target : Nat) :
    Nat → Nat → IoUring → Option (Except IoError Nat × IoUring × Nat)
  | 0, _, _ => none
  | fuel + 1, n, r =>
    (kernel n).bind fun reply =>
      let r := r.enter reply
      match reply.result with
      | .ok submitted =>
        let r := { r with
          pendingSubmissions := r.pendingSubmissions - submitted }.drainCompletions
        if target ≤ r.completions.length then some (.ok r.completions.length, r, n + 1)
        else waitLoop kernel target fuel (n + 1) r
      | .error errno =>
        if errno = eintr then waitLoop kernel target fuel (n + 1) r
        else some (.error (.os errno), r, n + 1)

def waitCompletions (kernel : Kernel) (fuel n minComplete : Nat) (r : IoUring) :
    Option (Except IoError Nat × IoUring × Nat) :=
  if u32Max < minComplete then
    some (.error (.invalidInput "io_uring completion wait count exceeds u32::MAX"), r, n)
  else
    let r := r.drainCompletions
    if minComplete ≤ r.completions.length then some (.ok r.completions.length, r, n)
    else waitLoop kernel minComplete fuel n r

/-- `submit_pending`: each round of the loop submits at least one entry, so the number of
pending ones bounds the rounds. -/
def submitLoop (kernel : Kernel) : Nat → Nat → IoUring → Option (Except IoError Nat × IoUring × Nat)
  | 0, n, r => some (.ok 0, r, n)
  | rounds + 1, n, r =>
    if r.pendingSubmissions = 0 then some (.ok 0, r, n)
    else
      (kernel n).bind fun reply =>
        let requested := r.pendingSubmissions
        let r := r.enter reply
        match reply.result with
        | .error errno => some (.error (.os errno), r, n + 1)
        | .ok 0 => some (.error (.wouldBlock "io_uring accepted no pending submissions"), r, n + 1)
        | .ok result =>
          let accepted := min result requested
          (submitLoop kernel rounds (n + 1)
            { r with pendingSubmissions := requested - accepted }).map
            fun (submitted, r, n) => (submitted.map (accepted + ·), r, n)

def submitPending (kernel : Kernel) (n : Nat) (r : IoUring) :
    Option (Except IoError Nat × IoUring × Nat) :=
  submitLoop kernel r.pendingSubmissions n r

end IoUring

/-- `available_io_uring`: a host without the system call gives no ring, unless one is
required. -/
def availableIoUring (entries : Nat) (setup : Except Nat Unit) (required : Bool) :
    Except IoError (Option IoUring) :=
  match setup with
  | .ok _ => .ok (some (.new entries))
  | .error errno =>
    if errno ∈ [1, 22, 38, 95] then if required then .error (.os errno) else .ok none
    else .error (.os errno)

/-- A cumulative count, in total and by the kind of the operation. -/
structure OperationTotal where
  operations : Nat
  kinds : IoUringOperationKindCounts
  deriving DecidableEq, Repr

namespace OperationTotal

def zero : OperationTotal := ⟨0, .zero⟩

def add (t : OperationTotal) (kind : IoUringOperationKind) : OperationTotal :=
  ⟨t.operations + 1, t.kinds.add kind⟩

end OperationTotal

inductive IoUringShutdownDrainStatus where
  | completed
  | skippedLiveWakers
  | timedOut
  deriving DecidableEq, Repr

structure IoUringShutdownDrainSnapshot where
  status : IoUringShutdownDrainStatus
  maxWaits : Nat
  dispatched : Nat
  leakedBuffers : Nat
  deriving DecidableEq, Repr

/-- A waker is named by the task it wakes. -/
structure IoUringDispatcher where
  ring : IoUring
  waiters : AList (fun _ : Nat => Nat)
  completions : AList (fun _ : Nat => IoUringOperationCompletion)
  abandonedOperations : AList (fun _ : Nat => IoUringOperationKind)
  deferredBuffers : AList (fun _ : Nat => Buffer)
  lastShutdownDrain : Option IoUringShutdownDrainSnapshot
  totalDispatched : OperationTotal
  totalBuffered : OperationTotal
  totalWoken : OperationTotal
  totalDiscarded : OperationTotal
  /-- History only: the buffers whose memory has been given back or leaked. -/
  freed : List Buffer
  leaked : List Buffer

namespace IoUringDispatcher

def new (ring : IoUring) : IoUringDispatcher :=
  ⟨ring, ∅, ∅, ∅, ∅, none, .zero, .zero, .zero, .zero, [], []⟩

def registeredWakers (d : IoUringDispatcher) : Nat := d.waiters.entries.length

def isIdle (d : IoUringDispatcher) : Bool :=
  d.ring.isIdle && d.registeredWakers == 0 && d.completions.entries.length == 0 &&
    d.abandonedOperations.entries.length == 0 && d.deferredBuffers.entries.length == 0

def registerWaker (d : IoUringDispatcher) (operation waker : Nat) : Bool × IoUringDispatcher :=
  if operation ∈ d.completions then (true, d)
  else (false, { d with waiters := d.waiters.insert operation waker })

def clearWaker (d : IoUringDispatcher) (operation : Nat) : IoUringDispatcher :=
  { d with waiters := d.waiters.erase operation }

def takeCompletion (d : IoUringDispatcher) (operation : Nat) :
    Option IoUringOperationCompletion × IoUringDispatcher :=
  (d.completions.lookup operation, { d with completions := d.completions.erase operation })

def abandonOperation (d : IoUringDispatcher) (operation : Nat) : IoUringDispatcher :=
  let d := d.clearWaker operation
  if operation ∈ d.completions then { d with completions := d.completions.erase operation }
  else
    match d.ring.operationKind operation with
    | none => d
    | some kind =>
      let known := operation ∈ d.abandonedOperations
      let d := { d with abandonedOperations := d.abandonedOperations.insert operation kind }
      if known then d
      else
        match d.ring.queueCancelOperation operation with
        | (.ok cancel, ring) => { d with
            ring := ring
            abandonedOperations := d.abandonedOperations.insert cancel (.cancel operation) }
        | (.error _, ring) => { d with ring := ring }

/-- A buffer that is not kept, or that another one displaces, is given back. -/
def deferBufferDrop (d : IoUringDispatcher) (operation : Nat) (buffer : Buffer) :
    IoUringDispatcher :=
  let d := d.abandonOperation operation
  if d.ring.isOperationTracked operation then
    { d with
      deferredBuffers := d.deferredBuffers.insert operation buffer
      freed := d.freed ++ (d.deferredBuffers.lookup operation).toList }
  else { d with freed := d.freed ++ [buffer] }

/-- Deliver one completion. The woken task is returned. -/
def dispatch (d : IoUringDispatcher) (completion : IoUringOperationCompletion) :
    Option Nat × IoUringDispatcher :=
  let operation := completion.operation
  let d := { d with totalDispatched := d.totalDispatched.add completion.kind }
  if operation ∈ d.abandonedOperations then
    (none, { d with
      abandonedOperations := d.abandonedOperations.erase operation
      deferredBuffers := d.deferredBuffers.erase operation
      freed := d.freed ++ (d.deferredBuffers.lookup operation).toList
      totalDiscarded := d.totalDiscarded.add completion.kind })
  else
    let d := { d with
      completions := d.completions.insert operation completion
      totalBuffered := d.totalBuffered.add completion.kind }
    match d.waiters.lookup operation with
    | none => (none, d)
    | some waker => (some waker, { d with
        waiters := d.waiters.erase operation
        totalWoken := d.totalWoken.add completion.kind })

/-- The number of completions dispatched, the tasks woken in order and the new state. -/
def dispatchAvailableLimit : Nat → IoUringDispatcher → Nat × List Nat × IoUringDispatcher
  | 0, d => (0, [], d)
  | limit + 1, d =>
    match d.ring.tryOperationCompletion with
    | (none, ring) => (0, [], { d with ring := ring })
    | (some completion, ring) =>
      let (waker, d) := { d with ring := ring }.dispatch completion
      let (dispatched, woken, d) := dispatchAvailableLimit limit d
      (dispatched + 1, waker.toList ++ woken, d)

def dispatchAvailable (d : IoUringDispatcher) : Nat × List Nat × IoUringDispatcher :=
  dispatchAvailableLimit usizeMax d

/-- A failed wait dispatches nothing. -/
def waitAndDispatch (kernel : Kernel) (fuel n minComplete : Nat) (d : IoUringDispatcher) :
    Option (Except IoError Nat × IoUringDispatcher × Nat) :=
  (d.ring.waitCompletions kernel fuel n minComplete).map fun (result, ring, n) =>
    match result with
    | .error e => (.error e, { d with ring := ring }, n)
    | .ok _ =>
      let (dispatched, _, d) := { d with ring := ring }.dispatchAvailable
      (.ok dispatched, d, n)

/-- The waits of `shutdown_drain`. No waker is registered, so dispatching wakes nobody. -/
def drainLoop (kernel : Kernel) (fuel : Nat) :
    Nat → Nat → IoUringDispatcher → Option (Nat × IoUringDispatcher × Nat)
  | 0, n, d => some (0, d, n)
  | waits + 1, n, d =>
    if d.isIdle || d.ring.isIdle then some (0, d, n)
    else
      (d.waitAndDispatch kernel fuel n 1).bind fun (result, d, n) =>
        match result with
        | .error _ => some (0, d, n)
        | .ok count =>
          (drainLoop kernel fuel waits n d).map fun (dispatched, d, n) => (count + dispatched, d, n)

def leakDeferredBuffers (d : IoUringDispatcher) : IoUringDispatcher :=
  { d with
    deferredBuffers := ∅
    leaked := d.leaked ++ d.deferredBuffers.entries.map Sigma.snd }

/-- The outcome of a drain, with the buffers the kernel may still use leaked. -/
def drainOutcome (d : IoUringDispatcher) (maxWaits dispatched : Nat) :
    IoUringShutdownDrainSnapshot × IoUringDispatcher :=
  if d.isIdle then (⟨.completed, maxWaits, dispatched, 0⟩, d)
  else if 0 < d.ring.trackedOperations then
    (⟨.timedOut, maxWaits, dispatched, d.deferredBuffers.entries.length⟩, d.leakDeferredBuffers)
  else (⟨.timedOut, maxWaits, dispatched, 0⟩, d)

def shutdownDrain (kernel : Kernel) (fuel n maxWaits : Nat) (d : IoUringDispatcher) :
    Option (IoUringShutdownDrainSnapshot × IoUringDispatcher × Nat) :=
  if 0 < d.registeredWakers then
    let outcome := ⟨.skippedLiveWakers, maxWaits, 0, 0⟩
    some (outcome, { d with lastShutdownDrain := some outcome }, n)
  else
    let (available, _, d) := d.dispatchAvailable
    (drainLoop kernel fuel maxWaits n d).map fun (dispatched, d, n) =>
      let (outcome, d) := d.drainOutcome maxWaits (available + dispatched)
      (outcome, { d with lastShutdownDrain := some outcome }, n)

def dropDrainMaxWaits : Nat := 1024

/-- Dropping the dispatcher gives back the buffers that were not leaked. -/
def drop (kernel : Kernel) (fuel n : Nat) (d : IoUringDispatcher) :
    Option (IoUringDispatcher × Nat) :=
  (shutdownDrain kernel fuel n dropDrainMaxWaits { d with waiters := ∅ }).map fun (_, d, n) =>
    ({ d with freed := d.freed ++ d.deferredBuffers.entries.map Sigma.snd, deferredBuffers := ∅ }, n)

end IoUringDispatcher
end Sitas.Os.Uring
