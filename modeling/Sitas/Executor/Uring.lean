import Sitas.Os.Uring

/-! The executor side of io_uring: the dispatcher a thread has installed, the futures for one
read or write, and the calls of an executor that install and shut down a dispatcher. Each
thread finds the dispatcher to use in its own thread-local variable. -/
namespace Sitas.Executor.Uring
open Sitas.Os.Uring

def executorIoUringEntries : Nat := 256

def executorIoUringCompletionBudget : Nat := 64

def executorIoUringShutdownDrainWaits : Nat := 8

inductive Transfer where
  | read
  | write
  deriving DecidableEq, Repr

/-- `ReadAtUring` and `WriteAtUring`. -/
structure TransferAtUring where
  transfer : Transfer
  fd : RawFd
  offset : Nat
  buffer : Option Buffer
  operation : Option Nat
  deriving DecidableEq, Repr

def readAtUring (fd : RawFd) (offset : Nat) (buffer : Buffer) : TransferAtUring :=
  ⟨.read, fd, offset, some buffer, none⟩

def writeAtUring (fd : RawFd) (offset : Nat) (buffer : Buffer) : TransferAtUring :=
  ⟨.write, fd, offset, some buffer, none⟩

/-- The result of a poll. A completed transfer gives the number of bytes and the buffer. -/
inductive Progress where
  | pending
  | failed (error : IoError)
  | completed (completion : IoUringOperationCompletion) (result : Except IoError (Nat × Buffer))

namespace TransferAtUring

def queueOn (f : TransferAtUring) (buffer : Buffer) (ring : IoUring) : Except IoError Nat × IoUring :=
  match f.transfer with
  | .read => ring.queueReadOperation f.fd buffer f.offset
  | .write => ring.queueWriteOperation f.fd buffer f.offset

/-- Without a buffer to queue the future panics. -/
def ensureQueued (f : TransferAtUring) (d : IoUringDispatcher) :
    Option (Except IoError Nat × TransferAtUring × IoUringDispatcher) :=
  match f.operation with
  | some operation => some (.ok operation, f, d)
  | none =>
    f.buffer.map fun buffer =>
      match f.queueOn buffer d.ring with
      | (.error e, ring) => (.error e, f, { d with ring := ring })
      | (.ok operation, ring) =>
        (.ok operation, { f with operation := some operation }, { d with ring := ring })

end TransferAtUring

/-- Everything available is dispatched first. The tasks woken by this are returned. -/
def pollOperation (d : IoUringDispatcher) (operation waker : Nat) :
    Option IoUringOperationCompletion × List Nat × IoUringDispatcher :=
  let (_, woken, d) := d.dispatchAvailable
  match d.takeCompletion operation with
  | (some completion, d) => (some completion, woken, d)
  | (none, _) =>
    let (completed, d) := d.registerWaker operation waker
    if completed then
      let (completion, d) := d.takeCompletion operation
      (completion, woken, d)
    else (none, woken, d)

def completionResultToUsize (result : Int) : Except IoError Nat :=
  if result < 0 then .error (.os (-result).toNat) else .ok result.toNat

namespace TransferAtUring

/-- A completed read shortens the buffer to what was read. -/
def deliver (transfer : Transfer) (bytes : Nat) (buffer : Buffer) : Nat × Buffer :=
  match transfer with
  | .read => (bytes, { buffer with len := min bytes buffer.len })
  | .write => (bytes, buffer)

/-- A poll on a thread with an installed dispatcher. The future panics if it was resolved
before. -/
def poll (f : TransferAtUring) (d : IoUringDispatcher) (waker : Nat) :
    Option (Progress × TransferAtUring × List Nat × IoUringDispatcher) :=
  (f.ensureQueued d).bind fun (queued, f, d) =>
    match queued with
    | .error e => some (.failed e, f, [], d)
    | .ok operation =>
      match pollOperation d operation waker with
      | (none, woken, d) => some (.pending, f, woken, d)
      | (some completion, woken, d) =>
        match completionResultToUsize completion.result with
        | .error e => some (.completed completion (.error e), f, woken, d)
        | .ok bytes =>
          f.buffer.map fun buffer =>
            (.completed completion (.ok (deliver f.transfer bytes buffer)),
              { f with buffer := none, operation := none }, woken, d)

end TransferAtUring

/-- What the thread-local variable of a thread holds: the executor the dispatcher belongs
to and the number of the dispatcher. -/
structure CurrentIoUring where
  owner : Nat
  dispatcher : Nat
  deriving DecidableEq, Repr

inductive Resolution where
  | completion (dispatcher : Nat) (completion : IoUringOperationCompletion)
  | failed (error : IoError)
  deriving DecidableEq, Repr

namespace Progress

def resolution (i : Nat) : Progress → Option Resolution
  | .pending => none
  | .failed e => some (.failed e)
  | .completed completion _ => some (.completion i completion)

def handedOut : Progress → List Buffer
  | .completed _ (.ok (_, buffer)) => [buffer]
  | _ => []

end Progress

structure FutureCell where
  future : TransferAtUring
  /-- History only: the dispatcher on which the operation was queued, and the operation. -/
  queued : Option (Nat × Nat)
  resolution : Option Resolution
  dropped : Bool

def FutureCell.queuedAs (cell : FutureCell) (i : Nat) (d : IoUringDispatcher) : Option (Nat × Nat) :=
  cell.queued <|> ((cell.future.ensureQueued d).bind fun (_, future, _) => future.operation).map (i, ·)

/-- Dispatchers are numbered in the order in which they are created. One that has been
dropped stays as it was left. Buffers have the number of their future as address, and a
waker wakes the task of its future. -/
structure Threads where
  dispatchers : Nat → Option IoUringDispatcher
  created : Nat
  current : Nat → Option CurrentIoUring
  futures : Nat → Option FutureCell
  /-- History only: the buffers released by the futures. -/
  freed : List Buffer
  woken : Nat → Bool

inductive IoUringExecutorStatus where
  | unavailable
  | installed
  | shutdown
  deriving DecidableEq, Repr

inductive InstallError where
  /-- The panic "executor io_uring dispatcher for another executor still has live state". -/
  | liveState
  /-- The panic "executor io_uring setup failed". -/
  | setupFailed (error : IoError)
  deriving DecidableEq, Repr

namespace Threads

def new : Threads := ⟨fun _ => none, 0, fun _ => none, fun _ => none, [], fun _ => false⟩

def currentDispatcher (s : Threads) (thread : Nat) : Option (Nat × IoUringDispatcher) :=
  (s.current thread).bind fun c => (s.dispatchers c.dispatcher).map (c.dispatcher, ·)

def setDispatcher (s : Threads) (i : Nat) (d : IoUringDispatcher) : Threads :=
  { s with dispatchers := Function.update s.dispatchers i (some d) }

def setCurrent (s : Threads) (thread : Nat) (c : Option CurrentIoUring) : Threads :=
  { s with current := Function.update s.current thread c }

def wakeAll (s : Threads) (woken : List Nat) : Threads :=
  { s with woken := fun w => s.woken w || decide (w ∈ woken) }

def install (s : Threads) (thread owner : Nat) : Option IoUring → Threads
  | none => s.setCurrent thread none
  | some ring =>
    { (s.setDispatcher s.created (.new ring)).setCurrent thread (some ⟨owner, s.created⟩) with
      created := s.created + 1 }

/-- `install_current_io_uring`, which panics with an error. The dispatcher of another
executor is dropped when it is replaced; `none` means that this never returns. -/
def installCurrentIoUring (s : Threads) (thread owner : Nat) (setup : Except Nat Unit)
    (required : Bool) (kernel : Kernel) (fuel : Nat) : Option (Except InstallError Threads) :=
  let available := availableIoUring executorIoUringEntries setup required
  match s.current thread, s.currentDispatcher thread with
  | some c, some (i, d) =>
    if c.owner = owner then some (.ok s)
    else if d.isIdle then
      match available with
      | .error e => some (.error (.setupFailed e))
      | .ok ring =>
        (d.drop kernel fuel 0).map fun (d, _) => .ok ((s.install thread owner ring).setDispatcher i d)
    else some (.error .liveState)
  | _, _ =>
    match available with
    | .error e => some (.error (.setupFailed e))
    | .ok ring => some (.ok (s.install thread owner ring))

def shutDown (s : Threads) (thread i : Nat) (d : IoUringDispatcher) (kernel : Kernel)
    (fuel : Nat) : Option Threads :=
  (d.shutdownDrain kernel fuel 0 executorIoUringShutdownDrainWaits).bind fun (_, d, n) =>
    (d.drop kernel fuel n).map fun (d, _) => (s.setDispatcher i d).setCurrent thread none

def shutdownCurrent (s : Threads) (thread owner : Nat) (kernel : Kernel) (fuel : Nat) :
    Option (IoUringExecutorStatus × Threads) :=
  match s.current thread, s.currentDispatcher thread with
  | some c, some (i, d) =>
    if c.owner ≠ owner then some (.installed, s)
    else if 0 < d.registeredWakers then some (.installed, s)
    else (s.shutDown thread i d kernel fuel).map (.shutdown, ·)
  | _, _ => some (.unavailable, s)

def shutdownCurrentIfIdle (s : Threads) (thread : Nat) (kernel : Kernel) (fuel : Nat) :
    Option Threads :=
  match s.currentDispatcher thread with
  | some (i, d) =>
    if d.registeredWakers = 0 then s.shutDown thread i d kernel fuel else some s
  | none => some s

/-- The end of a call: the shutdown, which a panic skips, and the drop of the scope. -/
def leave (s : Threads) (thread owner : Nat) (unwinds : Bool) (kernel : Kernel) (fuel : Nat) :
    Option Threads :=
  if unwinds then s.shutdownCurrentIfIdle thread kernel fuel
  else
    (s.shutdownCurrent thread owner kernel fuel).bind fun (_, s) =>
      s.shutdownCurrentIfIdle thread kernel fuel

def create (s : Threads) (f : Nat) (transfer : Transfer) (fd : RawFd) (offset len : Nat) :
    Option Threads :=
  match s.futures f with
  | some _ => none
  | none =>
    let future := match transfer with
      | .read => readAtUring fd offset ⟨f, len⟩
      | .write => writeAtUring fd offset ⟨f, len⟩
    some { s with futures := Function.update s.futures f (some ⟨future, none, none, false⟩) }

def setFuture (s : Threads) (f : Nat) (cell : FutureCell) : Threads :=
  { s with futures := Function.update s.futures f (some cell) }

def polled (s : Threads) (f i : Nat) (queued : Option (Nat × Nat)) (progress : Progress)
    (future : TransferAtUring) (woken : List Nat) (d : IoUringDispatcher) : Threads :=
  { (({ s with woken := Function.update s.woken f false }.setDispatcher i d).setFuture f
      ⟨future, queued, progress.resolution i, false⟩).wakeAll woken with
    freed := s.freed ++ progress.handedOut }

def poll (s : Threads) (thread f : Nat) : Option Threads :=
  (s.futures f).bind fun cell =>
    if cell.resolution.isSome || cell.dropped then none
    else
      match s.currentDispatcher thread with
      | none => some (s.setFuture f { cell with
          resolution := some (.failed (.unsupported "executor io_uring backend is unavailable")) })
      | some (i, d) =>
        (cell.future.poll d f).map fun (progress, future, woken, d') =>
          s.polled f i (cell.queuedAs i d) progress future woken d'

/-- Drop a future. A queued buffer is handed to whatever dispatcher the thread has. -/
def drop (s : Threads) (thread f : Nat) : Option Threads :=
  (s.futures f).bind fun cell =>
    if cell.dropped then none
    else
      let t := s.setFuture f { cell with
        future := { cell.future with buffer := none }, dropped := true }
      match cell.future.operation, cell.future.buffer with
      | _, none => some t
      | none, some buffer => some { t with freed := t.freed ++ [buffer] }
      | some operation, some buffer =>
        match s.currentDispatcher thread with
        | none => some { t with freed := t.freed ++ [buffer] }
        | some (i, d) => some (t.setDispatcher i (d.deferBufferDrop operation buffer))

def dispatch (s : Threads) (thread : Nat) : Option Threads :=
  (s.currentDispatcher thread).map fun (i, d) =>
    let (_, woken, d) := d.dispatchAvailableLimit executorIoUringCompletionBudget
    (s.setDispatcher i d).wakeAll woken

def submitPending (s : Threads) (thread : Nat) (kernel : Kernel) : Option Threads :=
  (s.currentDispatcher thread).bind fun (i, d) =>
    (d.ring.submitPending kernel 0).map fun (_, ring, _) => s.setDispatcher i { d with ring := ring }

def post (s : Threads) (i : Nat) (completions : List IoUringCompletion) : Option Threads :=
  (s.dispatchers i).map fun d =>
    s.setDispatcher i { d with ring := { d.ring with
      completionQueue := d.ring.completionQueue ++ completions } }

end Threads

inductive Event where
  | create (f : Nat) (transfer : Transfer) (fd : RawFd) (offset len : Nat)
  | enter (thread owner : Nat) (setup : Except Nat Unit) (required : Bool) (kernel : Kernel)
      (fuel : Nat)
  | leave (thread owner : Nat) (unwinds : Bool) (kernel : Kernel) (fuel : Nat)
  | poll (thread f : Nat)
  | drop (thread f : Nat)
  | dispatch (thread : Nat)
  | submit (thread : Nat) (kernel : Kernel)
  | post (dispatcher : Nat) (completions : List IoUringCompletion)

/-- One action of a thread or of the kernel. An action that panics or never returns has no
result. -/
def Threads.step (s : Threads) : Event → Option Threads
  | .create f transfer fd offset len => s.create f transfer fd offset len
  | .enter thread owner setup required kernel fuel =>
    (s.installCurrentIoUring thread owner setup required kernel fuel).bind Except.toOption
  | .leave thread owner unwinds kernel fuel => s.leave thread owner unwinds kernel fuel
  | .poll thread f => s.poll thread f
  | .drop thread f => s.drop thread f
  | .dispatch thread => s.dispatch thread
  | .submit thread kernel => s.submitPending thread kernel
  | .post i completions => s.post i completions

end Sitas.Executor.Uring
