import Sitas.Executor.UringAttempts
import Sitas.Lib.Runs

/-! Sequences of calls of one dispatcher, with a record of every completion it dispatches
and of what its callers did. -/
namespace Sitas.Os.Uring
open List IoUring Option

/-- One dispatched completion: whether it was discarded, the waker that was registered for
its operation and the one that was invoked. -/
structure Dispatched where
  completion : IoUringOperationCompletion
  discarded : Bool
  registered : Option Nat
  woken : Option Nat
  deriving DecidableEq, Repr

def Dispatched.operation (x : Dispatched) : Nat := x.completion.operation

abbrev HeldBuffer := Sigma fun _ : Nat => Buffer

namespace IoUringDispatcher

def dispatchedOf (d : IoUringDispatcher) (completion : IoUringOperationCompletion) : Dispatched :=
  ⟨completion, completion.operation ∈ d.abandonedOperations,
    d.waiters.lookup completion.operation, (d.dispatch completion).1⟩

/-- The completions that `dispatchAvailableLimit` dispatches, in order. -/
def dispatchedBy : Nat → IoUringDispatcher → List Dispatched
  | 0, _ => []
  | limit + 1, d =>
    match d.ring.tryOperationCompletion with
    | (none, _) => []
    | (some completion, ring) =>
      { d with ring := ring }.dispatchedOf completion ::
        dispatchedBy limit ({ d with ring := ring }.dispatch completion).2

def waitDispatched (kernel : Kernel) (fuel n minComplete : Nat) (d : IoUringDispatcher) :
    List Dispatched :=
  match d.ring.waitCompletions kernel fuel n minComplete with
  | some (.ok _, ring, _) => dispatchedBy usizeMax { d with ring := ring }
  | _ => []

def drainDispatched (kernel : Kernel) (fuel : Nat) : Nat → Nat → IoUringDispatcher → List Dispatched
  | 0, _, _ => []
  | waits + 1, n, d =>
    if d.isIdle || d.ring.isIdle then []
    else
      match d.waitAndDispatch kernel fuel n 1 with
      | some (.ok _, d', n') =>
        waitDispatched kernel fuel n 1 d ++ drainDispatched kernel fuel waits n' d'
      | _ => []

def shutdownDispatched (kernel : Kernel) (fuel n maxWaits : Nat) (d : IoUringDispatcher) :
    List Dispatched :=
  if 0 < d.registeredWakers then []
  else dispatchedBy usizeMax d ++ drainDispatched kernel fuel maxWaits n d.dispatchAvailable.2.2

inductive DrainError where
  | io (error : IoError)
  /-- `TimedOut`, with a text that renders the snapshot of the dispatcher. -/
  | timedOut (dispatcher : IoUringDispatcher)

/-- The waits of `drain_until_idle`, entered with a dispatcher that is not idle. -/
def idleLoop (kernel : Kernel) (fuel : Nat) :
    Nat → Nat → IoUringDispatcher → Option (Except DrainError Nat × IoUringDispatcher × Nat)
  | 0, n, d => some (.error (.timedOut d), d, n)
  | waits + 1, n, d =>
    if d.ring.isIdle then some (.error (.timedOut d), d, n)
    else
      (d.waitAndDispatch kernel fuel n 1).bind fun (result, d, n) =>
        match result with
        | .error e => some (.error (.io e), d, n)
        | .ok count =>
          if d.isIdle then some (.ok count, d, n)
          else (idleLoop kernel fuel waits n d).map fun (r, d, n) => (r.map (count + ·), d, n)

def drainUntilIdle (kernel : Kernel) (fuel n maxWaits : Nat) (d : IoUringDispatcher) :
    Option (Except DrainError Nat × IoUringDispatcher × Nat) :=
  let (available, _, d) := d.dispatchAvailable
  if d.isIdle then some (.ok available, d, n)
  else (idleLoop kernel fuel maxWaits n d).map fun (r, d, n) => (r.map (available + ·), d, n)

/-- A property of the record and the dispatcher that is kept when only the queues of the
ring change and when one completion is dispatched. -/
structure Traced (P : List Dispatched → IoUringDispatcher → Prop) : Prop where
  ring : ∀ xs d ring, SameOperations d.ring ring → P xs d → P xs { d with ring := ring }
  dispatch : ∀ xs d ring completion, completion.operation ∈ d.ring.operations →
    ring.operations = d.ring.operations.erase completion.operation →
    ring.nextOperation = d.ring.nextOperation → P xs d →
    P (xs ++ [{ d with ring := ring }.dispatchedOf completion])
      ({ d with ring := ring }.dispatch completion).2

section Rules
variable {P : List Dispatched → IoUringDispatcher → Prop} {d : IoUringDispatcher}
  {xs : List Dispatched} {kernel : Kernel} {fuel n : Nat}

theorem Traced.dispatchAvailableLimit (hP : Traced P) (limit : Nat) (h : P xs d) :
    P (xs ++ dispatchedBy limit d) (dispatchAvailableLimit limit d).2.2 := by
  induction limit generalizing xs d with
  | zero => simpa [dispatchedBy, IoUringDispatcher.dispatchAvailableLimit] using h
  | succ limit ih =>
    have htried := d.ring.tried_tryOperationCompletion
    rw [IoUringDispatcher.dispatchAvailableLimit, dispatchedBy]
    generalize d.ring.tryOperationCompletion = tried at htried ⊢
    cases htried with
    | nothing same _ _ _ =>
      rw [append_nil]
      exact hP.ring xs d _ same h
    | @taken ring completion tracked operations next _ =>
      have hnext := ih (hP.dispatch xs d ring completion tracked operations next h)
      simpa only [append_assoc, singleton_append] using hnext

theorem Traced.waitAndDispatch (hP : Traced P) {minComplete : Nat}
    {x : Except IoError Nat × IoUringDispatcher × Nat} (h : P xs d)
    (hw : d.waitAndDispatch kernel fuel n minComplete = some x) :
    P (xs ++ waitDispatched kernel fuel n minComplete d) x.2.1 := by
  obtain ⟨⟨result, ring, n'⟩, hwait, rfl⟩ := map_eq_some_iff.mp hw
  have hring := hP.ring xs d ring (sameOperations_waitCompletions hwait) h
  rw [waitDispatched, hwait]
  cases result with
  | error e =>
    rw [append_nil]
    exact hring
  | ok count => exact hP.dispatchAvailableLimit usizeMax hring

private theorem waitDispatched_of_error {minComplete n' : Nat} {e : IoError}
    {d' : IoUringDispatcher}
    (hw : d.waitAndDispatch kernel fuel n minComplete = some (.error e, d', n')) :
    waitDispatched kernel fuel n minComplete d = [] := by
  obtain ⟨⟨result, ring, m⟩, hwait, heq⟩ := map_eq_some_iff.mp hw
  rw [waitDispatched, hwait]
  cases result with
  | error e => rfl
  | ok count => cases heq

theorem Traced.drainLoop (hP : Traced P) {waits : Nat} {x : Nat × IoUringDispatcher × Nat}
    (h : P xs d) (hd : drainLoop kernel fuel waits n d = some x) :
    P (xs ++ drainDispatched kernel fuel waits n d) x.2.1 := by
  induction waits generalizing n d x xs with
  | zero =>
    cases hd
    rw [drainDispatched, append_nil]
    exact h
  | succ waits ih =>
    rw [IoUringDispatcher.drainLoop] at hd
    rw [drainDispatched]
    split at hd
    next hidle =>
      cases hd
      rw [if_pos hidle, append_nil]
      exact h
    next hidle =>
      rw [if_neg hidle]
      obtain ⟨⟨result, d', n'⟩, hwait, hrest⟩ := bind_eq_some_iff.mp hd
      have hnext := hP.waitAndDispatch h hwait
      rw [hwait]
      cases result with
      | error e =>
        cases hrest
        rw [waitDispatched_of_error hwait] at hnext
        exact hnext
      | ok count =>
        obtain ⟨⟨dispatched, d'', n''⟩, hloop, rfl⟩ := map_eq_some_iff.mp hrest
        have hlater := ih hnext hloop
        simpa only [append_assoc] using hlater

theorem Traced.idleLoop (hP : Traced P) {waits : Nat}
    {x : Except DrainError Nat × IoUringDispatcher × Nat} (hbusy : d.isIdle = false) (h : P xs d)
    (hd : idleLoop kernel fuel waits n d = some x) :
    P (xs ++ drainDispatched kernel fuel waits n d) x.2.1 := by
  induction waits generalizing n d x xs with
  | zero =>
    cases hd
    rw [drainDispatched, append_nil]
    exact h
  | succ waits ih =>
    rw [IoUringDispatcher.idleLoop] at hd
    rw [drainDispatched, hbusy, Bool.false_or]
    split at hd
    next hidle =>
      cases hd
      rw [if_pos hidle, append_nil]
      exact h
    next hidle =>
      rw [if_neg hidle]
      obtain ⟨⟨result, d', n'⟩, hwait, hrest⟩ := bind_eq_some_iff.mp hd
      have hnext := hP.waitAndDispatch h hwait
      rw [hwait]
      cases result with
      | error e =>
        cases hrest
        rw [waitDispatched_of_error hwait] at hnext
        exact hnext
      | ok count =>
        dsimp only at hrest ⊢
        split at hrest
        next hdone =>
          cases hrest
          have hstop : drainDispatched kernel fuel waits n' d' = [] := by
            cases waits with
            | zero => rfl
            | succ waits => rw [drainDispatched, hdone, Bool.true_or, if_pos rfl]
          rw [hstop, append_nil]
          exact hnext
        next hdone =>
          obtain ⟨⟨r, d'', n''⟩, hloop, rfl⟩ := map_eq_some_iff.mp hrest
          have hlater := ih (Bool.eq_false_iff.mpr hdone) hnext hloop
          simpa only [append_assoc] using hlater

theorem Traced.drainUntilIdle (hP : Traced P) {maxWaits : Nat}
    {x : Except DrainError Nat × IoUringDispatcher × Nat} (h : P xs d)
    (hd : d.drainUntilIdle kernel fuel n maxWaits = some x) :
    P (xs ++ dispatchedBy usizeMax d ++
      if d.dispatchAvailable.2.2.isIdle then []
      else drainDispatched kernel fuel maxWaits n d.dispatchAvailable.2.2) x.2.1 := by
  have hfirst := hP.dispatchAvailableLimit usizeMax h
  rw [IoUringDispatcher.drainUntilIdle] at hd
  dsimp only at hd
  split at hd
  next hidle =>
    cases hd
    rw [if_pos hidle, append_nil]
    exact hfirst
  next hidle =>
    obtain ⟨⟨r, d', n'⟩, hloop, rfl⟩ := map_eq_some_iff.mp hd
    have hlater := hP.idleLoop (Bool.eq_false_iff.mpr hidle) hfirst hloop
    rw [if_neg hidle]
    exact hlater

theorem Traced.shutdownDrain (hP : Traced P) {maxWaits : Nat}
    {x : IoUringShutdownDrainSnapshot × IoUringDispatcher × Nat} (h : P xs d)
    (hd : d.shutdownDrain kernel fuel n maxWaits = some x) :
    (0 < d.registeredWakers ∧ shutdownDispatched kernel fuel n maxWaits d = [] ∧
      x.1.status = .skippedLiveWakers ∧
      x.2.1 = { d with lastShutdownDrain := some x.1 }) ∨
    ∃ d' dispatched, P (xs ++ shutdownDispatched kernel fuel n maxWaits d) d' ∧
      x.1 = (d'.drainOutcome maxWaits dispatched).1 ∧
      x.2.1 = { (d'.drainOutcome maxWaits dispatched).2 with lastShutdownDrain := some x.1 } := by
  rw [IoUringDispatcher.shutdownDrain] at hd
  rw [shutdownDispatched]
  split at hd
  next hlive =>
    cases hd
    exact .inl ⟨hlive, if_pos hlive, rfl, rfl⟩
  next hlive =>
    obtain ⟨⟨dispatched, d', n'⟩, hloop, rfl⟩ := map_eq_some_iff.mp hd
    have hlater := hP.drainLoop (hP.dispatchAvailableLimit usizeMax h) hloop
    rw [append_assoc] at hlater
    rw [if_neg hlive]
    exact .inr ⟨d', _, hlater, rfl, rfl⟩

end Rules
end IoUringDispatcher

inductive Request where
  | nop
  | timeout (seconds addr : Nat)
  | cancel (target : Nat)
  | read (fd : RawFd) (buffer : Buffer) (offset : Nat)
  | write (fd : RawFd) (buffer : Buffer) (offset : Nat)

namespace Request

def kind : Request → IoUringOperationKind
  | .nop => .nop
  | .timeout _ _ => .timeout
  | .cancel target => .cancel target
  | .read _ _ _ => .read
  | .write _ _ _ => .write

def queueOn (r : IoUring) : Request → Except IoError Nat × IoUring
  | .nop => r.queueNopOperation
  | .timeout seconds addr => r.queueTimeoutOperation seconds addr
  | .cancel target => r.queueCancelOperation target
  | .read fd buffer offset => r.queueReadOperation fd buffer offset
  | .write fd buffer offset => r.queueWriteOperation fd buffer offset

theorem queued_queueOn {r : IoUring} (h : r.Numbered) (q : Request) :
    r.Queued q.kind (q.queueOn r) := by
  cases q with
  | nop => exact queued_queueOperation h .nop fun _ _ => sameOperations_queueSqe ..
  | timeout seconds addr =>
    rw [queueOn, queueTimeoutOperation]
    split
    · exact .rejected _ (fun _ => rfl) le_rfl h.bound
    · exact queued_queueOperation h .timeout fun _ _ => sameOperations_queueSqe ..
  | cancel target => exact queued_queueCancelOperation h target
  | read fd buffer offset => exact queued_queueReadOperation h fd buffer offset
  | write fd buffer offset => exact queued_queueWriteOperation h fd buffer offset

end Request

structure Session where
  dispatcher : IoUringDispatcher
  queued : List Nat
  dispatched : List Dispatched
  /-- The operations given up while they were tracked, and the cancellations this queued. -/
  abandoned : List Nat
  /-- The operations given up while their completion was waiting to be taken. -/
  withdrawn : List Nat
  handed : List IoUringOperationCompletion
  /-- The buffers handed over for an operation in flight. -/
  kept : List HeldBuffer
  /-- The buffers handed over for an operation that is over, or that is not known here. -/
  late : List HeldBuffer
  foreign : List HeldBuffer
  alive : Bool

/-- The calls of a dispatcher and of the future of one operation. The last one is the kernel's
own: it posts completions at any time. A call that waits comes with the kernel's answers. -/
inductive Call where
  | queue (request : Request)
  | submitPending (kernel : Kernel)
  | registerWaker (operation waker : Nat)
  | clearWaker (operation : Nat)
  | takeCompletion (operation : Nat)
  | abandonOperation (operation : Nat)
  | deferBufferDrop (operation : Nat) (buffer : Buffer)
  | dispatchAvailableLimit (limit : Nat)
  | waitAndDispatch (kernel : Kernel) (fuel minComplete : Nat)
  | drainUntilIdle (kernel : Kernel) (fuel maxWaits : Nat)
  | shutdownDrain (kernel : Kernel) (fuel maxWaits : Nat)
  | poll (operation waker : Nat)
  | drop (kernel : Kernel) (fuel : Nat)
  | post (completions : List IoUringCompletion)

namespace Session

def new (entries : Nat) : Session := 
  ⟨.new (.new entries), [], [], [], [], [], [], [], [], true⟩

def trace (s : Session) (d : IoUringDispatcher) (xs : List Dispatched) : Session :=
  { s with dispatcher := d, dispatched := s.dispatched ++ xs }

def cancellations (before after : IoUring) : List Nat :=
  after.operations.keys.filter fun operation => operation ∉ before.operations

def giveUp (s : Session) (operation : Nat) : Session :=
  { s with
    abandoned := s.abandoned ++
      (if operation ∈ s.dispatcher.ring.operations then [operation] else []) ++
        cancellations s.dispatcher.ring (s.dispatcher.abandonOperation operation).ring
    withdrawn := s.withdrawn ++
      if operation ∈ s.dispatcher.completions then [operation] else [] }

def handOver (s : Session) (operation : Nat) (buffer : Buffer) : Session :=
  if operation ∈ s.dispatcher.ring.operations then
    { s with kept := s.kept ++ [⟨operation, buffer⟩] }
  else if operation ∈ s.queued then { s with late := s.late ++ [⟨operation, buffer⟩] }
  else { s with foreign := s.foreign ++ [⟨operation, buffer⟩] }

/-- One call. Nothing is called once the dispatcher has been dropped, and a call that waits
for ever has no successor. -/
def step (s : Session) (call : Call) : Option Session :=
  if !s.alive then none
  else
    let d := s.dispatcher
    match call with
    | .queue request =>
      let (result, ring) := request.queueOn d.ring
      some { s with
        dispatcher := { d with ring := ring }
        queued := s.queued ++ result.toOption.toList }
    | .submitPending kernel =>
      (d.ring.submitPending kernel 0).map fun x => { s with dispatcher := { d with ring := x.2.1 } }
    | .registerWaker operation waker =>
      some { s with dispatcher := (d.registerWaker operation waker).2 }
    | .clearWaker operation => some { s with dispatcher := d.clearWaker operation }
    | .takeCompletion operation =>
      some { s with
        dispatcher := (d.takeCompletion operation).2
        handed := s.handed ++ (d.takeCompletion operation).1.toList }
    | .abandonOperation operation =>
      some { s.giveUp operation with dispatcher := d.abandonOperation operation }
    | .deferBufferDrop operation buffer =>
      some { (s.giveUp operation).handOver operation buffer with
        dispatcher := d.deferBufferDrop operation buffer }
    | .dispatchAvailableLimit limit =>
      some (s.trace (d.dispatchAvailableLimit limit).2.2 (d.dispatchedBy limit))
    | .waitAndDispatch kernel fuel minComplete =>
      (d.waitAndDispatch kernel fuel 0 minComplete).map fun x =>
        s.trace x.2.1 (d.waitDispatched kernel fuel 0 minComplete)
    | .drainUntilIdle kernel fuel maxWaits =>
      (d.drainUntilIdle kernel fuel 0 maxWaits).map fun x =>
        s.trace x.2.1 (d.dispatchedBy usizeMax ++
          if d.dispatchAvailable.2.2.isIdle then []
          else d.dispatchAvailable.2.2.drainDispatched kernel fuel maxWaits 0)
    | .shutdownDrain kernel fuel maxWaits =>
      (d.shutdownDrain kernel fuel 0 maxWaits).map fun x =>
        s.trace x.2.1 (d.shutdownDispatched kernel fuel 0 maxWaits)
    | .poll operation waker =>
      let (result, _, d') := Executor.Uring.pollOperation d operation waker
      some { s.trace d' (d.dispatchedBy usizeMax) with
        handed := s.handed ++ result.toList }
    | .drop kernel fuel =>
      (d.drop kernel fuel 0).map fun x =>
        { s.trace x.1 ({ d with waiters := ∅ }.shutdownDispatched kernel fuel 0
            IoUringDispatcher.dropDrainMaxWaits) with alive := false }
    | .post completions =>
      some { s with dispatcher := { d with ring := { d.ring with
        completionQueue := d.ring.completionQueue ++ completions } } }

theorem alive_of_step {s t : Session} {call : Call} (h : s.step call = some t) :
    s.alive = true := by
  rw [step] at h
  split at h
  · cases h
  next halive =>
    simpa using halive

def ended (s : Session) : List Nat := s.dispatched.map Dispatched.operation

end Session
end Sitas.Os.Uring
