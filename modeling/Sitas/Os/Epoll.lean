import Mathlib.Data.List.AList

/-! The epoll readiness backend: merged interests, the persistent registry and
its reconciliation with the kernel's interest list. Hash maps are association
lists; nothing below reads their order. -/
namespace Sitas.Os.Epoll
open List

abbrev RawFd := Int

def epollIn : BitVec 32 := 0x0001
def epollOut : BitVec 32 := 0x0004
def epollErr : BitVec 32 := 0x0008
def epollHup : BitVec 32 := 0x0010

structure EpollInterest where
  fd : RawFd
  read : Bool
  write : Bool
  deriving DecidableEq, Repr

def EpollInterest.events (i : EpollInterest) : BitVec 32 :=
  (if i.read then epollIn else 0) ||| (if i.write then epollOut else 0)

def addEpollInterest (fd : RawFd) (read write : Bool) : List EpollInterest → List EpollInterest
  | [] => [⟨fd, read, write⟩]
  | i :: rest =>
    if i.fd = fd then { i with read := i.read || read, write := i.write || write } :: rest
    else i :: addEpollInterest fd read write rest

/-- `EpollInterests::new`: reads first, then writes merged into them. -/
def epollInterests (readFds writeFds : List RawFd) : List EpollInterest :=
  writeFds.foldl (fun is fd => addEpollInterest fd false true is)
    (readFds.foldl (fun is fd => addEpollInterest fd true false is) [])

def containsFd (interests : List EpollInterest) (fd : RawFd) : Bool :=
  interests.any fun i => i.fd = fd

structure Registration where
  events : BitVec 32
  data : Nat
  deriving DecidableEq, Repr

inductive Errno where
  | badf | exist | noent | perm | intr
  | other (code : Nat)
  deriving DecidableEq, Repr

inductive CtlOp where
  | add | del | mod
  deriving DecidableEq, Repr

/-- The process's descriptor table, from numbers to open file descriptions, and
one epoll instance. The interest list is keyed by number and file; `reached` is history only: the file
that the last successful ADD or MOD for a number applied to. -/
structure Kernel where
  files : AList (fun _ : RawFd => Nat)
  nextFile : Nat
  watched : RawFd → Nat → Option Registration
  reached : RawFd → Option Nat

namespace Kernel

def open? (k : Kernel) (file : Nat) : Bool := k.files.entries.any fun e => e.2 = file

def setWatched (k : Kernel) (fd : RawFd) (file : Nat) (r : Option Registration) : Kernel :=
  { k with watched := fun d g => if d = fd ∧ g = file then r else k.watched d g }

def setReached (k : Kernel) (fd : RawFd) (file : Nat) : Kernel :=
  { k with reached := fun d => if d = fd then some file else k.reached d }

/-- `epoll_ctl`. A failing call changes nothing. -/
def epollCtl (k : Kernel) (op : CtlOp) (fd : RawFd) (r : Registration) : Except Errno Kernel :=
  match k.files.lookup fd with
  | none => .error .badf
  | some file =>
    match op, k.watched fd file with
    | .add, none => .ok ((k.setWatched fd file (some r)).setReached fd file)
    | .add, some _ => .error .exist
    | .mod, some _ => .ok ((k.setWatched fd file (some r)).setReached fd file)
    | .del, some _ => .ok (k.setWatched fd file none)
    | _, none => .error .noent

/-- `open`, `socket`, `accept`: a free number refers to a new file. -/
def openFile (k : Kernel) (fd : RawFd) : Kernel :=
  { k with files := k.files.insert fd k.nextFile, nextFile := k.nextFile + 1 }

/-- `dup`: a free number refers to the file of another descriptor. -/
def dup (k : Kernel) (fd src : RawFd) : Option Kernel :=
  (k.files.lookup src).map fun file => { k with files := k.files.insert fd file }

/-- Closing the last reference to a file silently drops its registrations. -/
def close (k : Kernel) (fd : RawFd) : Kernel :=
  match k.files.lookup fd with
  | none => k
  | some file =>
    let rest := { k with files := k.files.erase fd }
    if rest.open? file then rest
    else { rest with watched := fun d g => if g = file then none else k.watched d g }

end Kernel

structure EpollRegistry where
  nextToken : Nat
  byToken : AList (fun _ : Nat => EpollInterest)
  byFd : AList (fun _ : RawFd => Nat)

namespace EpollRegistry

def new : EpollRegistry := ⟨1, ∅, ∅⟩

def insertWake (r : EpollRegistry) (fd : RawFd) : EpollRegistry :=
  { r with byToken := r.byToken.insert 0 ⟨fd, true, false⟩ }

def allocateToken (r : EpollRegistry) : Nat × EpollRegistry :=
  (r.nextToken, { r with nextToken := r.nextToken + 1 })

def insert (r : EpollRegistry) (token : Nat) (i : EpollInterest) : EpollRegistry :=
  { r with byFd := r.byFd.insert i.fd token, byToken := r.byToken.insert token i }

def update (r : EpollRegistry) (token : Nat) (i : EpollInterest) : EpollRegistry :=
  { r with byToken := r.byToken.insert token i }

def removeFd (r : EpollRegistry) (fd : RawFd) : Option EpollInterest × EpollRegistry :=
  match r.byFd.lookup fd with
  | none => (none, r)
  | some token =>
    (r.byToken.lookup token,
      { r with byFd := r.byFd.erase fd, byToken := r.byToken.erase token })

def tokenForFd (r : EpollRegistry) (fd : RawFd) : Option Nat := r.byFd.lookup fd

def get (r : EpollRegistry) (token : Nat) : Option EpollInterest := r.byToken.lookup token

def interestFds (r : EpollRegistry) : List RawFd := r.byFd.keys

end EpollRegistry

/-- The registry of one backend together with the kernel it drives. -/
structure EpollBackend where
  kernel : Kernel
  registry : EpollRegistry

namespace EpollBackend

def registerEpollFd (k : Kernel) (fd : RawFd) (events : BitVec 32) (data : Nat) :
    Except Errno Kernel := k.epollCtl .add fd ⟨events, data⟩

def modifyEpollFd (k : Kernel) (fd : RawFd) (events : BitVec 32) (data : Nat) :
    Except Errno Kernel := k.epollCtl .mod fd ⟨events, data⟩

def deleteEpollFd (k : Kernel) (fd : RawFd) : Except Errno Kernel := k.epollCtl .del fd ⟨0, 0⟩

/-- One round of the stale loop. The outcome of the deletion is ignored. -/
def removeStaleFd (b : EpollBackend) (fd : RawFd) : EpollBackend :=
  match b.registry.removeFd fd with
  | (none, registry) => ⟨b.kernel, registry⟩
  | (some _, registry) =>
    match deleteEpollFd b.kernel fd with
    | .ok kernel => ⟨kernel, registry⟩
    | .error _ => ⟨b.kernel, registry⟩

/-- One round of the interest loop, with the error that ends it. -/
def applyInterest (b : EpollBackend) (i : EpollInterest) : Option Errno × EpollBackend :=
  match b.registry.tokenForFd i.fd with
  | some token =>
    if b.registry.get token ≠ some i then
      match modifyEpollFd b.kernel i.fd i.events token with
      | .ok kernel => (none, ⟨kernel, b.registry.update token i⟩)
      | .error e => (some e, b)
    else (none, b)
  | none =>
    let (token, registry) := b.registry.allocateToken
    match registerEpollFd b.kernel i.fd i.events token with
    | .ok kernel => (none, ⟨kernel, registry.insert token i⟩)
    | .error e => (some e, ⟨b.kernel, registry⟩)

def applyInterests : List EpollInterest → EpollBackend → Option Errno × EpollBackend
  | [], b => (none, b)
  | i :: is, b =>
    match applyInterest b i with
    | (none, b') => applyInterests is b'
    | (some e, b') => (some e, b')

def staleFds (b : EpollBackend) (interests : List EpollInterest) : List RawFd :=
  b.registry.interestFds.filter fun fd => !containsFd interests fd

def reconcileEpollInterests (b : EpollBackend) (interests : List EpollInterest) :
    Option Errno × EpollBackend :=
  applyInterests interests ((b.staleFds interests).foldl removeStaleFd b)

/-- `EpollBackend::new` on a table where the wake descriptor is file 0. -/
def new (wakeFd : RawFd) : EpollBackend where
  kernel := { files := AList.singleton wakeFd 0
              nextFile := 1
              watched := fun d g => if d = wakeFd ∧ g = 0 then some ⟨epollIn, 0⟩ else none
              reached := fun d => if d = wakeFd then some 0 else none }
  registry := EpollRegistry.new.insertWake wakeFd

end EpollBackend

private theorem mem_addEpollInterest (fd : RawFd) (r w : Bool) (is : List EpollInterest)
    (hn : (is.map (·.fd)).Nodup) (i : EpollInterest) :
    i ∈ addEpollInterest fd r w is ↔
      (i ∈ is ∧ i.fd ≠ fd) ∨ (∃ j ∈ is, j.fd = fd ∧ i = ⟨fd, j.read || r, j.write || w⟩) ∨
        (fd ∉ is.map (·.fd) ∧ i = ⟨fd, r, w⟩) := by
  induction is with
  | nil => simp [addEpollInterest]
  | cons j is ih =>
    have hj := (nodup_cons.mp hn).1
    have hrest := (nodup_cons.mp hn).2
    unfold addEpollInterest
    split
    next he =>
      subst he
      have hother : ∀ k ∈ is, k.fd ≠ j.fd := by
        intro k hk hkj
        exact hj (mem_map.mpr ⟨k, hk, hkj⟩)
      simp only [mem_cons, map_cons, not_or]
      constructor
      · rintro (rfl | hi)
        · exact .inr (.inl ⟨j, .inl rfl, rfl, rfl⟩)
        · exact .inl ⟨.inr hi, hother i hi⟩
      · rintro (⟨rfl | hi, hne⟩ | ⟨k, rfl | hk, hkj, rfl⟩ | ⟨⟨hne, _⟩, _⟩)
        · exact absurd rfl hne
        · exact .inr hi
        · exact .inl rfl
        · exact absurd hkj (hother k hk)
        · exact absurd trivial hne
    next hne =>
      simp only [mem_cons, ih hrest, map_cons, not_or]
      constructor
      · rintro (rfl | ⟨hi, hifd⟩ | ⟨k, hk, hkfd, rfl⟩ | ⟨hnot, rfl⟩)
        · exact .inl ⟨.inl rfl, hne⟩
        · exact .inl ⟨.inr hi, hifd⟩
        · exact .inr (.inl ⟨k, .inr hk, hkfd, rfl⟩)
        · exact .inr (.inr ⟨⟨fun h => hne h.symm, hnot⟩, rfl⟩)
      · rintro (⟨rfl | hi, hifd⟩ | ⟨k, rfl | hk, hkfd, rfl⟩ | ⟨⟨_, hnot⟩, rfl⟩)
        · exact .inl rfl
        · exact .inr (.inl ⟨hi, hifd⟩)
        · exact absurd hkfd hne
        · exact .inr (.inr (.inl ⟨k, hk, hkfd, rfl⟩))
        · exact .inr (.inr (.inr ⟨hnot, rfl⟩))

private theorem fds_addEpollInterest (fd : RawFd) (r w : Bool) (is : List EpollInterest) :
    (addEpollInterest fd r w is).map (·.fd) =
      if fd ∈ is.map (·.fd) then is.map (·.fd) else is.map (·.fd) ++ [fd] := by
  induction is with
  | nil => simp [addEpollInterest]
  | cons j is ih =>
    unfold addEpollInterest
    split
    next he =>
      simp [he]
    next hne =>
      simp only [map_cons, ih, mem_cons, show (fd = j.fd) = False by simp [Ne.symm hne],
        false_or]
      split <;> simp

private theorem nodup_addEpollInterest (fd : RawFd) (r w : Bool) (is : List EpollInterest)
    (hn : (is.map (·.fd)).Nodup) : ((addEpollInterest fd r w is).map (·.fd)).Nodup := by
  rw [fds_addEpollInterest]
  split
  · exact hn
  next hmem =>
    exact nodup_append.mpr ⟨hn, nodup_singleton _, by
      rintro a ha b hb rfl
      exact hmem (mem_singleton.mp hb ▸ ha)⟩

private def Merged (is : List EpollInterest) (rd wr : RawFd → Bool) : Prop :=
  (is.map (·.fd)).Nodup ∧
    ∀ i, i ∈ is ↔ (rd i.fd || wr i.fd) = true ∧ i.read = rd i.fd ∧ i.write = wr i.fd

private theorem merged_add {is : List EpollInterest} {rd wr : RawFd → Bool}
    (h : Merged is rd wr) (fd : RawFd) (r w : Bool) (hrw : (r || w) = true) :
    Merged (addEpollInterest fd r w is) (fun d => rd d || (d = fd && r))
      (fun d => wr d || (d = fd && w)) := by
  refine ⟨nodup_addEpollInterest fd r w is h.1, ?_⟩
  intro i
  have hnone : fd ∉ is.map (·.fd) ↔ rd fd = false ∧ wr fd = false := by
    constructor
    · intro hn
      by_contra hc
      apply hn
      refine mem_map.mpr ⟨⟨fd, rd fd, wr fd⟩, (h.2 _).mpr ⟨?_, rfl, rfl⟩, rfl⟩
      cases hr : rd fd <;> cases hw : wr fd <;> simp_all
    · rintro ⟨hr, hw⟩ hm
      obtain ⟨j, hj, rfl⟩ := mem_map.mp hm
      simpa [hr, hw] using ((h.2 j).mp hj).1
  rw [mem_addEpollInterest fd r w is h.1, hnone, h.2 i]
  obtain ⟨d, ir, iw⟩ := i
  constructor
  · rintro (⟨⟨ha, hr, hw⟩, hne⟩ | ⟨j, hj, hjfd, he⟩ | ⟨⟨hr, hw⟩, he⟩)
    · simp_all
    · obtain ⟨_, hjr, hjw⟩ := (h.2 j).mp hj
      subst hjfd
      cases he
      rcases (Bool.or_eq_true r w).mp hrw with hr | hw <;> simp_all
    · simp_all
  · rintro ⟨ha, hr, hw⟩
    by_cases hd : d = fd
    · subst hd
      by_cases hn : rd d = false ∧ wr d = false
      · exact .inr (.inr ⟨hn, by simp_all⟩)
      · refine .inr (.inl ⟨⟨d, rd d, wr d⟩, (h.2 _).mpr ⟨?_, rfl, rfl⟩, rfl, by simp_all⟩)
        cases hr' : rd d <;> cases hw' : wr d <;> simp_all
    · exact .inl ⟨by simp_all, hd⟩

private theorem merged_fold (fds : List RawFd) (r w : Bool) (hrw : (r || w) = true)
    {is : List EpollInterest} {rd wr : RawFd → Bool} (h : Merged is rd wr) :
    Merged (fds.foldl (fun is fd => addEpollInterest fd r w is) is)
      (fun d => rd d || (decide (d ∈ fds) && r)) (fun d => wr d || (decide (d ∈ fds) && w)) := by
  induction fds generalizing is rd wr with
  | nil => simpa using h
  | cons fd fds ih =>
    have hstep := ih (merged_add h fd r w hrw)
    simpa only [foldl_cons, mem_cons, Bool.or_assoc, Bool.decide_or,
      Bool.and_or_distrib_right] using hstep

private theorem merged_epollInterests (readFds writeFds : List RawFd) :
    Merged (epollInterests readFds writeFds) (fun d => d ∈ readFds) (fun d => d ∈ writeFds) := by
  have h0 : Merged [] (fun _ => false) (fun _ => false) := ⟨by simp, by simp⟩
  simpa [epollInterests] using
    merged_fold writeFds false true rfl (merged_fold readFds true false rfl h0)

/-- A requested descriptor occurs once, with the union of its directions. -/
theorem mem_epollInterests (readFds writeFds : List RawFd) (i : EpollInterest) :
    i ∈ epollInterests readFds writeFds ↔
      (i.fd ∈ readFds ∨ i.fd ∈ writeFds) ∧ i.read = decide (i.fd ∈ readFds) ∧
        i.write = decide (i.fd ∈ writeFds) := by
  simpa using (merged_epollInterests readFds writeFds).2 i

theorem mem_stale {fds : List RawFd} {interests : List EpollInterest} {fd : RawFd} :
    fd ∈ fds.filter (fun fd => !containsFd interests fd) ↔
      fd ∈ fds ∧ fd ∉ interests.map (·.fd) := by
  simp [containsFd]

theorem nodup_epollInterests (readFds writeFds : List RawFd) :
    ((epollInterests readFds writeFds).map (·.fd)).Nodup :=
  (merged_epollInterests readFds writeFds).1

example : epollInterests [1, 2, 1] [2, 3] =
    [⟨1, true, false⟩, ⟨2, true, true⟩, ⟨3, false, true⟩] := by
  decide

end Sitas.Os.Epoll
