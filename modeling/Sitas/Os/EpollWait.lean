import Sitas.Os.EpollAbi
import Sitas.Os.EpollReuse

/-! `wait_io` of the epoll backend against a kernel that answers every call as it likes:
which answers let the wait return, and which end it with an error or a panic. -/
namespace Sitas.Os.Epoll
open List

/-- The answers of the kernel during one wait. A control call that fails has an error. -/
structure KernelAnswers where
  control : CtlOp → RawFd → Option Errno
  /-- The results of `epoll_wait`, in order. -/
  waits : List (Except Errno (List EpollEvent))
  drainWakes : Nat → Except Errno Bool

namespace EpollRegistry

def removeStaleFds (r : EpollRegistry) (interests : List EpollInterest) : EpollRegistry :=
  (r.interestFds.filter fun fd => !containsFd interests fd).foldl (fun r fd => (r.removeFd fd).2) r

def applyInterest (control : CtlOp → RawFd → Option Errno) (r : EpollRegistry)
    (i : EpollInterest) : Option Errno × EpollRegistry :=
  match r.tokenForFd i.fd with
  | some token =>
    if r.get token ≠ some i then
      match control .mod i.fd with
      | none => (none, r.update token i)
      | some e => (some e, r)
    else (none, r)
  | none =>
    let (token, r) := r.allocateToken
    match control .add i.fd with
    | none => (none, r.insert token i)
    | some e => (some e, r)

def applyInterests (control : CtlOp → RawFd → Option Errno) :
    List EpollInterest → EpollRegistry → Option Errno × EpollRegistry
  | [], r => (none, r)
  | i :: is, r =>
    match r.applyInterest control i with
    | (none, r') => applyInterests control is r'
    | (some e, r') => (some e, r')

/-- `reconcile_epoll_interests` as far as the registry goes. -/
def reconcile (control : CtlOp → RawFd → Option Errno) (r : EpollRegistry)
    (interests : List EpollInterest) : Option Errno × EpollRegistry :=
  applyInterests control interests (r.removeStaleFds interests)

/-- The loop around `epoll_wait`. While there is no result the call still blocks. -/
def waitLoop (r : EpollRegistry) (drainWakes : Nat → Except Errno Bool) :
    List (Except Errno (List EpollEvent)) → Option (Except WaitError OsEvent)
  | [] => none
  | .ok [] :: _ => some (.ok .empty)
  | .ok events :: _ =>
    some ((handleEvents (fun data => r.get data.toNat) drainWakes (.empty, 0) events).map Prod.fst)
  | .error .intr :: rest => waitLoop r drainWakes rest
  | .error e :: _ => some (.error (.os e))

def waitIo (r : EpollRegistry) (answers : KernelAnswers) (readFds writeFds : List RawFd) :
    Option (Except WaitError OsEvent) × EpollRegistry :=
  match r.reconcile answers.control (epollInterests readFds writeFds) with
  | (some e, r') => (some (.error (.os e)), r')
  | (none, r') => (r'.waitLoop answers.drainWakes answers.waits, r')

section Reconcile
variable {r r' : EpollRegistry} {i : EpollInterest} {fd d : RawFd}

private theorem keyed_removeFds (fds : List RawFd) (h : Keyed r) :
    Keyed (fds.foldl (fun r fd => (r.removeFd fd).2) r) ∧
      ∀ d, d ∉ fds → SameFor r (fds.foldl (fun r fd => (r.removeFd fd).2) r) d := by
  induction fds generalizing r with
  | nil => exact ⟨h, fun d _ => .refl r d⟩
  | cons fd fds ih =>
    obtain ⟨hkeyed, hsame⟩ := ih (h.removeFd fd)
    refine ⟨hkeyed, fun d hd => ?_⟩
    obtain ⟨hne, hrest⟩ := not_or.mp (mt mem_cons.mpr hd)
    exact (h.sameFor_removeFd hne).trans (hsame d hrest)

theorem Keyed.removeStaleFds (h : Keyed r) (interests : List EpollInterest) :
    Keyed (r.removeStaleFds interests) ∧
      ∀ i ∈ interests, SameFor r (r.removeStaleFds interests) i.fd := by
  obtain ⟨hkeyed, hsame⟩ := keyed_removeFds
    (r.interestFds.filter fun fd => !containsFd interests fd) h
  exact ⟨hkeyed, fun i hi => hsame i.fd fun hstale =>
    (mem_stale.mp hstale).2 (mem_map.mpr ⟨i, hi, rfl⟩)⟩

/-- One round of the interest loop: it makes at most one call, and fails only if that
call does. -/
private theorem applyInterest_spec (control : CtlOp → RawFd → Option Errno) (h : Keyed r)
    (i : EpollInterest) :
    ((r.applyInterest control i).1 = none ↔
        ∀ op, r.controlFor i = some op → control op i.fd = none) ∧
      Keyed (r.applyInterest control i).2 ∧
      ∀ d, d ≠ i.fd → SameFor r (r.applyInterest control i).2 d := by
  rw [applyInterest, controlFor]
  cases ht : r.tokenForFd i.fd with
  | some t =>
    dsimp only
    by_cases hheld : r.get t = some i
    · simp only [ne_eq, hheld, not_true_eq_false, if_false]
      refine ⟨⟨fun _ op hop => ?_, fun _ => trivial⟩, h, fun d _ => .refl r d⟩
      cases hop
    · simp only [ne_eq, hheld, not_false_eq_true, if_true]
      cases hc : control .mod i.fd with
      | some e =>
        refine ⟨⟨fun hnone => ?_, fun hall => ?_⟩, h, fun d _ => .refl r d⟩
        · cases hnone
        · cases hc.symm.trans (hall .mod rfl)
      | none =>
        refine ⟨⟨fun _ op hop => ?_, fun _ => rfl⟩, ?_⟩
        · cases hop
          exact hc
        · exact h.update ht
  | none =>
    dsimp only [allocateToken]
    cases hc : control .add i.fd with
    | some e =>
      refine ⟨⟨fun hnone => ?_, fun hall => ?_⟩,
        ⟨h.named, fun t j hj => Nat.lt_succ_of_lt (h.below t j hj)⟩, fun d _ => ⟨rfl, fun _ _ => rfl⟩⟩
      · cases hnone
      · cases hc.symm.trans (hall .add rfl)
    | none =>
      refine ⟨⟨fun _ op hop => ?_, fun _ => rfl⟩, ?_⟩
      · cases hop
        exact hc
      · exact h.register i

private theorem applyInterests_spec (control : CtlOp → RawFd → Option Errno)
    (is : List EpollInterest) (hn : (is.map (·.fd)).Nodup) (h : Keyed r) :
    ((applyInterests control is r).1 = none ↔
        ∀ i ∈ is, ∀ op, r.controlFor i = some op → control op i.fd = none) ∧
      Keyed (applyInterests control is r).2 := by
  induction is generalizing r with
  | nil => exact ⟨⟨fun _ => nofun, fun _ => rfl⟩, h⟩
  | cons i is ih =>
    obtain ⟨hi, hkeyed, hsame⟩ := applyInterest_spec control h i
    obtain ⟨hfresh, hrest⟩ := nodup_cons.mp hn
    obtain ⟨hlater, hkept⟩ := ih hrest hkeyed
    have hothers : ∀ j ∈ is, (r.applyInterest control i).2.controlFor j = r.controlFor j := by
      intro j hj
      refine (hsame j.fd ?_).controlFor_eq
      intro hfd
      exact hfresh (mem_map.mpr ⟨j, hj, hfd⟩)
    rw [applyInterests]
    rcases hres : r.applyInterest control i with ⟨_ | e, u⟩
    · rw [hres] at hi hlater hkept hothers
      refine ⟨hlater.trans ?_, hkept⟩
      rw [forall_mem_cons]
      refine ⟨fun hall => ⟨hi.mp rfl, fun j hj op hop => hall j hj op (hothers j hj ▸ hop)⟩,
        fun hall j hj op hop => hall.2 j hj op (hothers j hj ▸ hop)⟩
    · rw [hres] at hi hkeyed
      refine ⟨⟨nofun, fun hall => ?_⟩, hkeyed⟩
      cases hi.mpr (hall i mem_cons_self)

theorem Keyed.reconcile_spec (h : Keyed r) (control : CtlOp → RawFd → Option Errno)
    (readFds writeFds : List RawFd) :
    ((r.reconcile control (epollInterests readFds writeFds)).1 = none ↔
        ∀ i ∈ epollInterests readFds writeFds, ∀ op, r.controlFor i = some op →
          control op i.fd = none) ∧
      Keyed (r.reconcile control (epollInterests readFds writeFds)).2 := by
  obtain ⟨hkeyed, hsame⟩ := h.removeStaleFds (epollInterests readFds writeFds)
  obtain ⟨hiff, hkept⟩ := applyInterests_spec control (epollInterests readFds writeFds)
    (nodup_epollInterests readFds writeFds) hkeyed
  refine ⟨hiff.trans ?_, hkept⟩
  refine forall₂_congr fun i hi => ?_
  rw [(hsame i hi).controlFor_eq]

end Reconcile

def interrupted : Except Errno (List EpollEvent) → Bool
  | .error .intr => true
  | _ => false

/-- What the first call that is not interrupted makes of the wait. -/
def handleAnswer (r : EpollRegistry) (drainWakes : Nat → Except Errno Bool) :
    Except Errno (List EpollEvent) → Except WaitError OsEvent
  | .ok events => (handleEvents (fun data => r.get data.toNat) drainWakes (.empty, 0) events).map
      Prod.fst
  | .error e => .error (.os e)

def drains (e : EpollEvent) : Bool := decide (e.data = 0 ∧ e.events &&& epollIn ≠ 0)

/-- The events can be handled: each names a registered interest, and the wake pipe can be
drained as often as they ask for it. -/
structure Known (r : EpollRegistry) (drainWakes : Nat → Except Errno Bool)
    (events : List EpollEvent) : Prop where
  interest : ∀ e ∈ events, e.data ≠ 0 → (r.get e.data.toNat).isSome = true
  drain : ∀ n < events.countP drains, ∃ woke, drainWakes n = .ok woke

section Wait
variable {r : EpollRegistry} {drainWakes : Nat → Except Errno Bool}

private theorem handleEvents_eq_ok (interest : BitVec 64 → Option EpollInterest)
    (drainWakes : Nat → Except Errno Bool) (events : List EpollEvent) (acc : OsEvent × Nat) :
    (∃ acc', handleEvents interest drainWakes acc events = .ok acc') ↔
      (∀ e ∈ events, e.data ≠ 0 → (interest e.data).isSome = true) ∧
        ∀ n < events.countP drains, ∃ woke, drainWakes (acc.2 + n) = .ok woke := by
  induction events generalizing acc with
  | nil =>
    refine ⟨fun _ => ⟨fun _ hmem => absurd hmem not_mem_nil, fun n hn => ?_⟩,
      fun _ => ⟨acc, rfl⟩⟩
    exact absurd hn (Nat.not_lt_zero n)
  | cons e events ih =>
    rw [forall_mem_cons, countP_cons, handleEvents, handleEvent]
    by_cases hwake : e.data = 0
    · rw [if_pos hwake]
      by_cases hin : e.events &&& epollIn ≠ 0
      · have hdrains : drains e = true := decide_eq_true ⟨hwake, hin⟩
        rw [if_pos hin, if_pos hdrains]
        cases hd : drainWakes acc.2 with
        | error err =>
          refine ⟨fun h => ?_, fun h => ?_⟩
          · obtain ⟨_, herror⟩ := h
            cases herror
          obtain ⟨woke, hwoke⟩ := h.2 0 (Nat.succ_pos _)
          cases hd.symm.trans hwoke
        | ok woke =>
          refine (ih _).trans ⟨fun h => ⟨⟨fun hne => absurd hwake hne, h.1⟩, fun n hn => ?_⟩,
            fun h => ⟨h.1.2, fun n hn => ?_⟩⟩
          · cases n with
            | zero => exact ⟨woke, hd⟩
            | succ n =>
              rw [Nat.add_comm n, ← Nat.add_assoc]
              exact h.2 n (by omega)
          · rw [Nat.add_assoc, Nat.add_comm 1]
            exact h.2 (n + 1) (by omega)
      · have hdrains : drains e = false := decide_eq_false fun h => hin h.2
        rw [if_neg hin, hdrains, if_neg Bool.false_ne_true]
        exact (ih _).trans ⟨fun h => ⟨⟨fun hne => absurd hwake hne, h.1⟩, h.2⟩,
          fun h => ⟨h.1.2, h.2⟩⟩
    · have hdrains : drains e = false := decide_eq_false fun h => hwake h.1
      rw [if_neg hwake, hdrains, if_neg Bool.false_ne_true]
      cases hi : interest e.data with
      | none =>
        refine ⟨fun h => ?_, fun h => absurd (h.1.1 hwake) Bool.false_ne_true⟩
        obtain ⟨_, herror⟩ := h
        cases herror
      | some i =>
        exact (ih _).trans ⟨fun h => ⟨⟨fun _ => rfl, h.1⟩, h.2⟩, fun h => ⟨h.1.2, h.2⟩⟩

theorem waitLoop_eq (waits : List (Except Errno (List EpollEvent))) :
    r.waitLoop drainWakes waits =
      (waits.find? fun a => !interrupted a).map (r.handleAnswer drainWakes) := by
  induction waits with
  | nil => rfl
  | cons a waits ih =>
    rcases a with e | events
    · cases e <;> first | rfl | exact ih
    · cases events <;> rfl

theorem handleAnswer_eq_ok (a : Except Errno (List EpollEvent)) :
    (∃ event, r.handleAnswer drainWakes a = .ok event) ↔
      ∃ events, a = .ok events ∧ Known r drainWakes events := by
  rcases a with e | events
  · exact ⟨nofun, nofun⟩
  have hknown := handleEvents_eq_ok (fun data => r.get data.toNat) drainWakes events (.empty, 0)
  simp only [Nat.zero_add] at hknown
  dsimp only [handleAnswer]
  refine ⟨fun ⟨event, hevent⟩ => ⟨events, rfl, ?_⟩, fun ⟨events', heq, hk⟩ => ?_⟩
  · cases hh : handleEvents (fun data => r.get data.toNat) drainWakes (.empty, 0) events with
    | error err =>
      rw [hh] at hevent
      cases hevent
    | ok acc =>
      obtain ⟨hi, hd⟩ := hknown.mp ⟨acc, hh⟩
      exact ⟨hi, hd⟩
  · cases heq
    obtain ⟨acc, hacc⟩ := hknown.mpr ⟨hk.interest, hk.drain⟩
    exact ⟨acc.1, by rw [hacc]; rfl⟩

end Wait

/-- Nothing in the answers makes the wait fail. -/
structure Answered (r : EpollRegistry) (answers : KernelAnswers) (readFds writeFds : List RawFd) :
    Prop where
  control : ∀ i ∈ epollInterests readFds writeFds, ∀ op, r.controlFor i = some op →
    answers.control op i.fd = none
  waits : ∀ a, answers.waits.find? (fun a => !interrupted a) = some a → ∃ events, a = .ok events ∧
    Known (r.reconcile answers.control (epollInterests readFds writeFds)).2 answers.drainWakes events

/-- A wait that returns fails exactly if something in the answers makes it fail. -/
theorem Keyed.waitIo_spec {r : EpollRegistry} (h : Keyed r) (answers : KernelAnswers)
    (readFds writeFds : List RawFd) :
    Keyed (r.waitIo answers readFds writeFds).2 ∧ ∀ result,
      (r.waitIo answers readFds writeFds).1 = some result →
        ((∃ event, result = .ok event) ↔ Answered r answers readFds writeFds) := by
  obtain ⟨hiff, hkeyed⟩ := h.reconcile_spec answers.control readFds writeFds
  rw [waitIo]
  rcases hres : r.reconcile answers.control (epollInterests readFds writeFds) with ⟨_ | e, u⟩
  · rw [hres] at hiff hkeyed
    refine ⟨hkeyed, fun result hresult => ?_⟩
    dsimp only at hresult
    rw [waitLoop_eq] at hresult
    obtain ⟨a, ha, rfl⟩ := Option.map_eq_some_iff.mp hresult
    have hanswered : Answered r answers readFds writeFds ↔
        ∃ events, a = .ok events ∧ Known u answers.drainWakes events := by
      refine ⟨fun h => ?_, fun h => ⟨hiff.mp rfl, fun b hb => ?_⟩⟩
      · have hwaits := h.waits a ha
        rwa [hres] at hwaits
      · cases ha.symm.trans hb
        rwa [hres]
    rw [hanswered]
    exact handleAnswer_eq_ok a
  · rw [hres] at hiff hkeyed
    refine ⟨hkeyed, fun result hresult => ?_⟩
    cases hresult
    refine ⟨nofun, fun hanswered => ?_⟩
    cases hiff.mpr hanswered.control

end EpollRegistry

namespace Kernel

/-- What the kernel would answer to a control call now. -/
def answer (k : Kernel) (op : CtlOp) (fd : RawFd) : Option Errno :=
  match k.epollCtl op fd ⟨0, 0⟩ with
  | .ok _ => none
  | .error e => some e

theorem answer_eq {k k' : Kernel} {fd : RawFd} (hfiles : k'.files = k.files)
    (hwatched : k'.watched fd = k.watched fd) (op : CtlOp) (reg : Registration) :
    k'.answer op fd = match k.epollCtl op fd reg with
      | .ok _ => none
      | .error e => some e := by
  rw [answer, epollCtl, epollCtl, hfiles, hwatched]
  cases k.files.lookup fd with
  | none => rfl
  | some file => cases op <;> cases hw : k.watched fd file <;> simp only [hw]

end Kernel

namespace EpollBackend
variable {b : EpollBackend} {control : CtlOp → RawFd → Option Errno}

private theorem applyInterest_registry (i : EpollInterest)
    (hcontrol : ∀ op, control op i.fd = b.kernel.answer op i.fd) :
    b.registry.applyInterest control i =
        ((b.applyInterest i).1, (b.applyInterest i).2.registry) ∧
      ∀ fd op, fd ≠ i.fd → (b.applyInterest i).2.kernel.answer op fd = b.kernel.answer op fd := by
  rw [EpollRegistry.applyInterest, applyInterest]
  cases b.registry.tokenForFd i.fd with
  | some t =>
    dsimp only
    split
    · rw [hcontrol, Kernel.answer_eq rfl rfl .mod ⟨i.events, t⟩, modifyEpollFd]
      cases hk : b.kernel.epollCtl .mod i.fd ⟨i.events, t⟩ with
      | error e => exact ⟨rfl, fun _ _ _ => rfl⟩
      | ok k =>
        obtain ⟨hfiles, _, hsame⟩ := epollCtl_frame hk
        exact ⟨rfl, fun fd op hfd => Kernel.answer_eq hfiles (hsame fd hfd).1 op _⟩
    · exact ⟨rfl, fun _ _ _ => rfl⟩
  | none =>
    dsimp only [EpollRegistry.allocateToken]
    rw [hcontrol, Kernel.answer_eq rfl rfl .add ⟨i.events, b.registry.nextToken⟩, registerEpollFd]
    cases hk : b.kernel.epollCtl .add i.fd ⟨i.events, b.registry.nextToken⟩ with
    | error e => exact ⟨rfl, fun _ _ _ => rfl⟩
    | ok k =>
      obtain ⟨hfiles, _, hsame⟩ := epollCtl_frame hk
      exact ⟨rfl, fun fd op hfd => Kernel.answer_eq hfiles (hsame fd hfd).1 op _⟩

private theorem applyInterests_registry (is : List EpollInterest) (hn : (is.map (·.fd)).Nodup)
    (hcontrol : ∀ i ∈ is, ∀ op, control op i.fd = b.kernel.answer op i.fd) :
    EpollRegistry.applyInterests control is b.registry =
      ((applyInterests is b).1, (applyInterests is b).2.registry) := by
  induction is generalizing b with
  | nil => rfl
  | cons i is ih =>
    obtain ⟨hfresh, hrest⟩ := nodup_cons.mp hn
    obtain ⟨heq, hanswer⟩ := applyInterest_registry i (hcontrol i mem_cons_self)
    rw [EpollRegistry.applyInterests, applyInterests, heq]
    rcases hres : b.applyInterest i with ⟨_ | e, u⟩
    · rw [hres] at hanswer
      refine ih hrest fun j hj op => ?_
      rw [hanswer j.fd op fun hfd => hfresh (mem_map.mpr ⟨j, hj, hfd⟩)]
      exact hcontrol j (mem_cons_of_mem i hj) op
    · rfl

private theorem removeStaleFds_registry (fds : List RawFd) :
    (fds.foldl removeStaleFd b).registry = fds.foldl (fun r fd => (r.removeFd fd).2) b.registry ∧
      ∀ fd op, fd ∉ fds → (fds.foldl removeStaleFd b).kernel.answer op fd = b.kernel.answer op fd := by
  induction fds generalizing b with
  | nil => exact ⟨rfl, fun _ _ _ => rfl⟩
  | cons fd fds ih =>
    obtain ⟨hreg, hanswer⟩ := ih (b := b.removeStaleFd fd)
    obtain ⟨hfiles, _, hsame⟩ := removeStaleFd_frame b fd
    refine ⟨?_, fun d op hd => ?_⟩
    · rw [foldl_cons, hreg, removeStaleFd_registry]
      rfl
    · obtain ⟨hne, hrest⟩ := not_or.mp (mt mem_cons.mpr hd)
      rw [foldl_cons, hanswer d op hrest]
      exact Kernel.answer_eq hfiles (hsame d hne).1 op _

/-- Against the kernel of the descriptor table, a reconciliation does to the registry what
the answers of that kernel make it do. -/
theorem reconcileEpollInterests_registry (b : EpollBackend) (readFds writeFds : List RawFd) :
    b.registry.reconcile b.kernel.answer (epollInterests readFds writeFds) =
      ((b.reconcileEpollInterests (epollInterests readFds writeFds)).1,
        (b.reconcileEpollInterests (epollInterests readFds writeFds)).2.registry) := by
  obtain ⟨hreg, hanswer⟩ := removeStaleFds_registry (b := b)
    (b.staleFds (epollInterests readFds writeFds))
  rw [EpollRegistry.reconcile, EpollRegistry.removeStaleFds, reconcileEpollInterests, ← staleFds,
    ← hreg]
  refine applyInterests_registry _ (nodup_epollInterests readFds writeFds) fun i hi op => ?_
  exact (hanswer i.fd op fun hstale => (mem_stale.mp hstale).2 (mem_map.mpr ⟨i, hi, rfl⟩)).symm

end EpollBackend
end Sitas.Os.Epoll
