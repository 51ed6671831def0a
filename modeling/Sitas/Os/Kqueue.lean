import Sitas.Os.EpollAbi
import Sitas.Os.EpollRegistry

/-! The kqueue readiness backend. An interest is two kernel filters that are changed one at a
time. The source repeats the interests and the registry of the epoll backend word for word,
so their model is shared. -/
namespace Sitas.Os

/-- `EVFILT_READ` and `EVFILT_WRITE`. -/
inductive Kqueue.Filter where
  | read
  | write
  deriving DecidableEq, Repr

def Epoll.EpollInterest.has (i : Epoll.EpollInterest) : Kqueue.Filter → Bool
  | .read => i.read
  | .write => i.write

end Sitas.Os

namespace Sitas.Os.Kqueue
open Epoll (RawFd Errno OsEvent WaitError pushUniqueFd)

abbrev KqueueInterest := Epoll.EpollInterest
abbrev KqueueRegistry := Epoll.EpollRegistry

/-- `KqueueInterests::new`. -/
def kqueueInterests (readFds writeFds : List RawFd) : List KqueueInterest :=
  Epoll.epollInterests readFds writeFds

/-- A change submitted with `kevent`: `EV_ADD | EV_ENABLE` or `EV_DELETE`. -/
inductive Change where
  | add (fd : RawFd) (filter : Filter)
  | delete (fd : RawFd) (filter : Filter)
  deriving DecidableEq, Repr

/-- The error of each change that fails. A reconciliation submits a change at most once. -/
abbrev Outcomes := Change → Option Errno

/-- The filters of a kqueue, with the token in their `udata`. -/
structure Kernel where
  filters : RawFd → Filter → Option Nat

def Kernel.setFilter (k : Kernel) (fd : RawFd) (filter : Filter) (token : Option Nat) : Kernel where
  filters := fun d f => if d = fd ∧ f = filter then token else k.filters d f

section Changes
variable (outcome : Outcomes)

/-- A change that fails leaves the filters as they are. -/
def submitKqueueChange (k : Kernel) (change : Change) (token : Nat) : Option Errno × Kernel :=
  match outcome change with
  | some e => (some e, k)
  | none =>
    match change with
    | .add fd filter => (none, k.setFilter fd filter (some token))
    | .delete fd filter => (none, k.setFilter fd filter none)

def registerKqueueFd (k : Kernel) (fd : RawFd) (filter : Filter) (token : Nat) :
    Option Errno × Kernel :=
  submitKqueueChange outcome k (.add fd filter) token

def deleteKqueueFd (k : Kernel) (fd : RawFd) (filter : Filter) : Option Errno × Kernel :=
  submitKqueueChange outcome k (.delete fd filter) 0

/-- A conditional registration, whose error is returned. -/
def registerIf (condition : Bool) (k : Kernel) (fd : RawFd) (filter : Filter) (token : Nat) :
    Option Errno × Kernel :=
  if condition then registerKqueueFd outcome k fd filter token else (none, k)

/-- A conditional deletion, whose error is ignored. -/
def deleteIf (condition : Bool) (k : Kernel) (fd : RawFd) (filter : Filter) : Kernel :=
  if condition then (deleteKqueueFd outcome k fd filter).2 else k

def registerKqueueInterest (k : Kernel) (i : KqueueInterest) (token : Nat) :
    Option Errno × Kernel :=
  match registerIf outcome i.read k i.fd .read token with
  | (some e, k) => (some e, k)
  | (none, k) => registerIf outcome i.write k i.fd .write token

def updateKqueueInterest (k : Kernel) (previous next : KqueueInterest) (token : Nat) :
    Option Errno × Kernel :=
  let k := deleteIf outcome (previous.read && !next.read) k previous.fd .read
  let k := deleteIf outcome (previous.write && !next.write) k previous.fd .write
  match registerIf outcome (!previous.read && next.read) k next.fd .read token with
  | (some e, k) => (some e, k)
  | (none, k) => registerIf outcome (!previous.write && next.write) k next.fd .write token

def unregisterKqueueInterest (k : Kernel) (i : KqueueInterest) : Kernel :=
  deleteIf outcome i.write (deleteIf outcome i.read k i.fd .read) i.fd .write

end Changes

/-- The registry of one backend together with the kernel it drives. -/
structure KqueueBackend where
  kernel : Kernel
  registry : KqueueRegistry

namespace KqueueBackend

/-- `KqueueBackend::new`, which registers the wake descriptor with token 0. -/
def new (wakeFd : RawFd) : KqueueBackend where
  kernel := ⟨fun d f => if d = wakeFd ∧ f = .read then some 0 else none⟩
  registry := Epoll.EpollRegistry.new.insertWake wakeFd

section Reconcile
variable (outcome : Outcomes)

def removeStaleFd (b : KqueueBackend) (fd : RawFd) : KqueueBackend :=
  match b.registry.removeFd fd with
  | (none, registry) => ⟨b.kernel, registry⟩
  | (some interest, registry) => ⟨unregisterKqueueInterest outcome b.kernel interest, registry⟩

/-- One round of the interest loop, with the error that ends it. -/
def applyInterest (b : KqueueBackend) (i : KqueueInterest) : Option Errno × KqueueBackend :=
  match b.registry.tokenForFd i.fd with
  | some token =>
    match b.registry.get token with
    | some previous =>
      if previous ≠ i then
        match updateKqueueInterest outcome b.kernel previous i token with
        | (none, kernel) => (none, ⟨kernel, b.registry.update token i⟩)
        | (some e, kernel) => (some e, ⟨kernel, b.registry⟩)
      else (none, b)
    | none => (none, b)
  | none =>
    let (token, registry) := b.registry.allocateToken
    match registerKqueueInterest outcome b.kernel i token with
    | (none, kernel) => (none, ⟨kernel, registry.insert token i⟩)
    | (some e, kernel) => (some e, ⟨kernel, registry⟩)

def applyInterests : List KqueueInterest → KqueueBackend → Option Errno × KqueueBackend
  | [], b => (none, b)
  | i :: is, b =>
    match applyInterest outcome b i with
    | (none, b') => applyInterests is b'
    | (some e, b') => (some e, b')

def staleFds (b : KqueueBackend) (interests : List KqueueInterest) : List RawFd :=
  b.registry.interestFds.filter fun fd => !Epoll.containsFd interests fd

def reconcileKqueueInterests (b : KqueueBackend) (interests : List KqueueInterest) :
    Option Errno × KqueueBackend :=
  applyInterests outcome interests ((b.staleFds interests).foldl (removeStaleFd outcome) b)

end Reconcile

end KqueueBackend

/-- An event that `kevent` reports. -/
structure Kevent where
  udata : Nat
  filter : Filter
  error : Bool
  eof : Bool
  deriving DecidableEq, Repr

def pushIf (condition : Bool) (fds : List RawFd) (fd : RawFd) : List RawFd :=
  if condition then pushUniqueFd fds fd else fds

def pushReady (ready : OsEvent) (interest : KqueueInterest) (event : Kevent) : OsEvent :=
  let reading := interest.read && event.filter = .read
  let writing := interest.write && event.filter = .write
  let readable := pushIf (reading && !event.error) ready.readable interest.fd
  let writable := pushIf (writing && !event.error) ready.writable interest.fd
  if event.error || event.eof then
    { ready with
      readable := pushIf reading readable interest.fd
      writable := pushIf writing writable interest.fd }
  else { ready with readable, writable }

/-- One round of the event loop of `wait_io`. The second component counts the calls of
`drain_wakes`, each of which may have its own result. -/
def handleKevent (registry : KqueueRegistry) (drainWakes : Nat → Except Errno Bool)
    (acc : OsEvent × Nat) (event : Kevent) : Except WaitError (OsEvent × Nat) :=
  if event.udata = 0 then
    match drainWakes acc.2 with
    | .ok woke => .ok ({ acc.1 with woke }, acc.2 + 1)
    | .error e => .error (.os e)
  else
    match registry.get event.udata with
    | none => .error .unknownInterest
    | some interest => .ok (pushReady acc.1 interest event, acc.2)

def handleKevents (registry : KqueueRegistry) (drainWakes : Nat → Except Errno Bool) :
    OsEvent × Nat → List Kevent → Except WaitError (OsEvent × Nat)
  | acc, [] => .ok acc
  | acc, event :: events =>
    match handleKevent registry drainWakes acc event with
    | .ok acc => handleKevents registry drainWakes acc events
    | .error e => .error e

end Sitas.Os.Kqueue
