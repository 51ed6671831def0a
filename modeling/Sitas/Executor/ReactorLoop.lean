import Sitas.Executor.ReadyProgress
import Sitas.Os.EpollWait

/-! The run loop together with its epoll reactor. A wait takes the answers of the kernel;
where the reactor gives back an error, the loop panics. -/
namespace Sitas.Executor
open Sitas.Lib Sitas.Os.Epoll SchedulerTaskSet RunLoop Option

/-- The panics of `wait_for_reactor_event`: operations could not be submitted, or the wait
of the reactor failed or panicked itself. -/
inductive DriverPanic where
  | submit (e : Errno)
  | wait (e : WaitError)
  deriving DecidableEq, Repr

/-- What a wait gets from outside: how the submission of queued operations ended, the
descriptor of the ring if its completions are awaited, the answers of the kernel, and the
tasks whose completions are then found in the ring. -/
structure ReactorWait where
  submit : Option Errno
  completionFd : Option RawFd
  answers : KernelAnswers
  completions : List TaskWaker
  now : Nat

namespace ReactorWait

def readFds (w : ReactorWait) (fds : List RawFd) : List RawFd :=
  w.completionFd.elim fds (pushUniqueFd fds)

def readable (w : ReactorWait) (event : OsEvent) : List RawFd :=
  w.completionFd.elim event.readable event.readable.erase

def dispatched (w : ReactorWait) (event : OsEvent) : List TaskWaker :=
  if w.completionFd.any (· ∈ event.readable) then w.completions else []

end ReactorWait

structure ReactorLoop (F : Type) where
  loop : RunLoop F
  registry : EpollRegistry
  panicked : Option DriverPanic

inductive ReactorEvent (F : Type) where
  | loop (e : LoopEvent F)
  | wait (w : ReactorWait)
  | createSchedulingGroup (shares : Nat)
  | enter (mode : LoopMode)

namespace ReactorEvent
variable {F : Type}

def drives : ReactorEvent F → Bool
  | .loop e => e.drives
  | .wait _ => true
  | _ => false

def disturbs : ReactorEvent F → Bool
  | .loop e => e.cancels
  | .createSchedulingGroup _ => true
  | _ => false

end ReactorEvent

namespace ReactorLoop
variable {F : Type}

def start (wakeFd : RawFd) (mode : LoopMode) : ReactorLoop F :=
  ⟨.start mode .new, EpollRegistry.new.insertWake wakeFd, none⟩

def readFds (s : ReactorLoop F) (w : ReactorWait) : List RawFd :=
  w.readFds s.loop.scheduler.interests.reads.fds

def writeFds (s : ReactorLoop F) : List RawFd := s.loop.scheduler.interests.writes.fds

/-- While there is no result the wait still blocks. -/
def waitForReactorEvent (s : ReactorLoop F) (w : ReactorWait) :
    Option (Except DriverPanic OsEvent) × EpollRegistry :=
  match w.submit with
  | some e => (some (.error (.submit e)), s.registry)
  | none =>
    let r := s.registry.waitIo w.answers (s.readFds w) s.writeFds
    (r.1.map (Except.mapError DriverPanic.wait), r.2)

def applyEvent (s : ReactorLoop F) (w : ReactorWait) (event : OsEvent) : Option (RunLoop F) :=
  s.loop.step (.reactor (w.readable event) event.writable (w.dispatched event) w.now)

/-- A loop that has panicked is gone. Other threads may still wake and spawn tasks. -/
def step (s : ReactorLoop F) : ReactorEvent F → Option (ReactorLoop F)
  | .loop (.reactor _ _ _ _) => none
  | .loop e => (s.loop.step e).map fun loop => { s with loop := loop }
  | .wait w =>
    if s.panicked = none ∧ s.loop.pc = .wait then
      match s.waitForReactorEvent w with
      | (none, _) => none
      | (some (.error p), registry) => some { s with registry := registry, panicked := some p }
      | (some (.ok event), registry) =>
        (s.applyEvent w event).map fun loop => { s with loop := loop, registry := registry }
    else none
  | .createSchedulingGroup shares =>
    some (if shares = 0 then s
      else { s with loop := s.loop.withScheduler { s.loop.scheduler with
        tasks := (s.loop.scheduler.tasks.createSchedulingGroup shares).2 } })
  | .enter mode =>
    if s.panicked = none ∧ s.loop.pc = .stopped then
      some { s with loop := .start mode s.loop.scheduler }
    else none

/-- The kernel gives the wait no reason to fail: operations can be submitted, every control
call that is made for an awaited descriptor succeeds, and `epoll_wait` reports only
interests that are registered. -/
def Faultless (s : ReactorLoop F) : ReactorEvent F → Prop
  | .wait w => w.submit = none ∧ s.registry.Answered w.answers (s.readFds w) s.writeFds
  | _ => True

def Charged (s : ReactorLoop F) : ReactorEvent F → Prop
  | .loop e => s.loop.Charged e
  | _ => True

def Ready (s : ReactorLoop F) : Prop :=
  s.panicked = none ∧ s.loop.pc ≠ .stopped ∧ s.loop.scheduler.tasks.hasReadyTasks = true

structure Valid (s : ReactorLoop F) : Prop where
  loop : s.loop.Valid
  registry : s.registry.Keyed

section Steps
variable {s t : ReactorLoop F} {a : ReactorEvent F}

private theorem sound_new : (Scheduler.new : Scheduler F).Sound where
  indexed := indexed_new
  bounded _ h := nomatch h
  grouped _ _ h := nomatch h
  placed group id hid := by cases group <;> cases hid
  lifecycle _ _ h := nomatch h

theorem valid_start (wakeFd : RawFd) (mode : LoopMode) : Valid (start (F := F) wakeFd mode) := by
  refine ⟨⟨sound_new, fun id => ?_⟩, EpollRegistry.keyed_new wakeFd⟩
  have hphase : (start (F := F) wakeFd mode).loop.scheduler.phaseOf id = none := rfl
  have hpolled : (start (F := F) wakeFd mode).loop.pc.polled = none := polled_top mode
  rw [hphase, hpolled]
  exact ⟨nofun, nofun⟩

/-- A wait that returns panics exactly if the kernel gives it a reason to. -/
theorem Valid.wait_spec (h : Valid s) (hnone : s.panicked = none) {w : ReactorWait}
    (hst : s.step (.wait w) = some t) :
    t.registry.Keyed ∧ (t.panicked = none ↔ s.Faultless (.wait w)) ∧
      ((t.panicked ≠ none ∧ t.loop = s.loop) ∨ ∃ event, s.applyEvent w event = some t.loop) := by
  rw [step] at hst
  split at hst
  · rw [waitForReactorEvent] at hst
    cases hsubmit : w.submit with
    | some e =>
      rw [hsubmit] at hst
      cases hst
      refine ⟨h.registry, ⟨nofun, fun hok => ?_⟩, .inl ⟨nofun, rfl⟩⟩
      cases hsubmit.symm.trans hok.1
    | none =>
      rw [hsubmit] at hst
      obtain ⟨hkeyed, hiff⟩ := h.registry.waitIo_spec w.answers (s.readFds w) s.writeFds
      dsimp only at hst
      rcases hres : s.registry.waitIo w.answers (s.readFds w) s.writeFds with ⟨_ | result, registry⟩
      · rw [hres] at hst
        cases hst
      · rw [hres] at hst hkeyed hiff
        have hresult := hiff result rfl
        rcases result with e | event
        · cases hst
          refine ⟨hkeyed, ⟨nofun, fun hok => ?_⟩, .inl ⟨nofun, rfl⟩⟩
          obtain ⟨_, heq⟩ := hresult.mpr hok.2
          cases heq
        · obtain ⟨loop, hloop, rfl⟩ := map_eq_some_iff.mp hst
          exact ⟨hkeyed, ⟨fun _ => ⟨hsubmit, hresult.mp ⟨event, rfl⟩⟩, fun _ => hnone⟩,
            .inr ⟨event, hloop⟩⟩
  · cases hst

theorem step_loop {e : LoopEvent F} (hst : s.step (.loop e) = some t) :
    (∃ loop, s.loop.step e = some loop ∧ t = { s with loop := loop }) ∧
      ∀ readable writable completions now, e ≠ .reactor readable writable completions now := by
  have hloop : (s.loop.step e).map (fun loop => { s with loop := loop }) = some t ∧
      ∀ readable writable completions now, e ≠ .reactor readable writable completions now := by
    cases e <;> first | exact ⟨hst, nofun⟩ | cases hst
  obtain ⟨loop, hstep, heq⟩ := map_eq_some_iff.mp hloop.1
  exact ⟨⟨loop, hstep, heq.symm⟩, hloop.2⟩

private theorem valid_createSchedulingGroup (h : s.loop.Valid) {shares : Nat} (hshares : shares ≠ 0) :
    (s.loop.withScheduler { s.loop.scheduler with
      tasks := (s.loop.scheduler.tasks.createSchedulingGroup shares).2 }).Valid := by
  refine ⟨⟨h.sound.indexed.createSchedulingGroup hshares, h.sound.bounded, fun id cell hcell => ?_,
    fun group id hid => ?_, h.sound.lifecycle⟩, h.polling⟩
  · refine Nat.lt_of_lt_of_le (h.sound.grouped id cell hcell) ?_
    simp [withScheduler, createSchedulingGroup]
  · refine h.sound.placed group id ?_
    rwa [← queueOf_createSchedulingGroup _ shares]

/-- What a step comes down to for the run loop: one of its own steps, or one that leaves
the queues as they are. -/
inductive Stepped (s : ReactorLoop F) (a : ReactorEvent F) (t : ReactorLoop F) : Prop
  | loop (e : LoopEvent F) (step : s.loop.step e = some t.loop) (drives : e.drives = a.drives)
      (cancels : e.cancels = true → a.disturbs = true) (charged : s.Charged a → s.loop.Charged e)
  | aside (queues : ∀ group, t.loop.scheduler.tasks.queueOf group =
        s.loop.scheduler.tasks.queueOf group)
      (rare : a.disturbs = true ∨ s.loop.pc = .stopped) (valid : t.loop.Valid)

theorem stepped (h : Valid s) (hnone : s.panicked = none) (hok : s.Faultless a)
    (hst : s.step a = some t) : Stepped s a t ∧ t.registry.Keyed ∧ t.panicked = none := by
  cases a with
  | loop e =>
    obtain ⟨⟨loop, hstep, rfl⟩, _⟩ := step_loop hst
    exact ⟨.loop e hstep rfl id id, h.registry, hnone⟩
  | wait w =>
    obtain ⟨hkeyed, hiff, houtcome⟩ := h.wait_spec hnone hst
    have hcalm := hiff.mpr hok
    rcases houtcome with ⟨hpanic, _⟩ | ⟨event, hevent⟩
    · exact absurd hcalm hpanic
    · exact ⟨.loop _ hevent rfl nofun fun _ => charged_of_not_finished rfl, hkeyed, hcalm⟩
  | createSchedulingGroup shares =>
    cases hst
    split
    · exact ⟨.aside (fun _ => rfl) (.inl rfl) h.loop, h.registry, hnone⟩
    next hshares =>
      exact ⟨.aside (queueOf_createSchedulingGroup _ shares) (.inl rfl)
        (valid_createSchedulingGroup h.loop hshares), h.registry, hnone⟩
  | enter mode =>
    obtain ⟨hstopped, rfl⟩ := guarded hst
    refine ⟨.aside (fun _ => rfl) (.inr hstopped.2) ⟨h.loop.sound, fun id => ?_⟩, h.registry, hnone⟩
    have hpolled := h.loop.polling id
    rw [hstopped.2] at hpolled
    exact hpolled.trans (by rw [RunLoop.start, RunLoop.polled_top]; rfl)

theorem Stepped.valid (h : Valid s) (hs : Stepped s a t) : t.loop.Valid := by
  cases hs with
  | loop e hst _ _ _ => exact (effect_step h.loop hst).1
  | aside _ _ hvalid => exact hvalid

theorem Stepped.queued_or_took (h : Valid s) (hs : Stepped s a t) {id group : Nat}
    (hid : id ∈ s.loop.scheduler.tasks.queueOf group) :
    id ∈ t.loop.scheduler.tasks.queueOf group ∨ Took s.loop t.loop id := by
  cases hs with
  | loop e hst _ _ _ =>
    by_cases htook : Took s.loop t.loop id
    · exact .inr htook
    · exact .inl (position_step h.loop (effect_step h.loop hst).2 hid htook).1
  | aside hqueues _ _ =>
    rw [hqueues]
    exact .inl hid

theorem faultless_reach {wakeFd : RawFd} {mode : LoopMode}
    (hr : Reach step Faultless (start wakeFd mode) s) : Valid s ∧ s.panicked = none := by
  induction hr with
  | start => exact ⟨valid_start wakeFd mode, rfl⟩
  | next _ hok hst ih =>
    obtain ⟨hstepped, hkeyed, hcalm⟩ := stepped ih.1 ih.2 hok hst
    exact ⟨⟨hstepped.valid ih.1, hkeyed⟩, hcalm⟩

/-- The task is being polled or has ended, or the call of the loop has returned. -/
def Served (s : ReactorLoop F) (id : Nat) : Prop :=
  s.loop.pc.polled = some id ∨ s.loop.scheduler.phaseOf id = some .ended ∨ s.loop.pc = .stopped

end Steps

section Progress
variable {st : Nat → ReactorLoop F} {ev : Nat → ReactorEvent F}

private theorem exists_loop_run {K : Nat}
    (hstepped : ∀ n, Stepped (st n) (ev n) (st (n + 1)))
    (hcharged : ∀ n, (st n).Charged (ev n)) (hcalm : ∀ n, K ≤ n → (ev n).disturbs = false)
    (hstay : ∀ n, K ≤ n → (st n).loop.pc ≠ .stopped) :
    ∃ le : Nat → LoopEvent F, Forever RunLoop.step (fun n => (st (K + n)).loop) le ∧
      ∀ n, (le n).drives = (ev (K + n)).drives ∧ (le n).cancels = false ∧
        (st (K + n)).loop.Charged (le n) := by
  have hone : ∀ n, ∃ e, (st (K + n)).loop.step e = some (st (K + n + 1)).loop ∧
      e.drives = (ev (K + n)).drives ∧ e.cancels = false ∧ (st (K + n)).loop.Charged e := by
    intro n
    cases hstepped (K + n) with
    | loop e hst hdrives hcancels hc =>
      refine ⟨e, hst, hdrives, ?_, hc (hcharged _)⟩
      by_contra hcancel
      have hdisturbs := hcancels (Bool.of_not_eq_false hcancel)
      rw [hcalm (K + n) (by omega)] at hdisturbs
      cases hdisturbs
    | aside _ hrare _ =>
      rcases hrare with hdisturbs | hstopped
      · rw [hcalm (K + n) (by omega)] at hdisturbs
        cases hdisturbs
      · exact absurd hstopped (hstay (K + n) (by omega))
  choose le hst hrest using hone
  exact ⟨le, hst, hrest⟩

private theorem served_of_took {s t : ReactorLoop F} {id : Nat}
    (ht : Took s.loop t.loop id) : t.Served id ∨ s.Served id := by
  rcases ht.outcome with hlive | ⟨_, hended, _⟩
  · exact .inl (.inl hlive)
  · exact .inr (.inr (.inl hended))

/-- A queued task is served, whatever the other tasks wait for. -/
private theorem ready_served {N : Nat} (hvalid : ∀ n, Valid (st n)) (hnone : ∀ n, (st n).panicked = none)
    (hstepped : ∀ n, Stepped (st n) (ev n) (st (n + 1)))
    (hcharged : ∀ n, (st n).Charged (ev n)) (hcalm : ∀ n, N ≤ n → (ev n).disturbs = false)
    (hdrives : ∀ n, (∀ m, n ≤ m → (st m).Ready) → ∃ m, n ≤ m ∧ (ev m).drives = true) {n id : Nat}
    (hid : id ∈ (st n).loop.scheduler.tasks.queued) : ∃ m, n ≤ m ∧ (st m).Served id := by
  by_contra hnever
  have hnot : ∀ m, n ≤ m → ¬ (st m).Served id := fun m hm hs => hnever ⟨m, hm, hs⟩
  have htook : ∀ m, n ≤ m → ¬ RunLoop.Took (st m).loop (st (m + 1)).loop id := by
    intro m hm ht
    rcases served_of_took ht with hs | hs
    · exact hnot (m + 1) (by omega) hs
    · exact hnot m hm hs
  obtain ⟨group, hgroup⟩ := mem_queued.mp hid
  have hqueued : ∀ m, n ≤ m → id ∈ (st m).loop.scheduler.tasks.queueOf group := by
    intro m hm
    induction m, hm using Nat.le_induction with
    | base => exact hgroup
    | succ m hm ih => exact ((hstepped m).queued_or_took (hvalid m) ih).resolve_right (htook m hm)
  have hstay : ∀ m, n ≤ m → (st m).loop.pc ≠ .stopped := fun m hm hs => hnot m hm (.inr (.inr hs))
  obtain ⟨le, hrun, hle⟩ := exists_loop_run (K := max n N) hstepped hcharged
    (fun m hm => hcalm m (by omega)) fun m hm => hstay m (by omega)
  obtain ⟨k, hk⟩ := ready_task_taken (hvalid (max n N)).loop hrun
    (fun m => hstay _ (by omega)) (fun m => (hle m).2.1) (fun m => (hle m).2.2)
    (hqueued (max n N) (by omega)) fun _ m => by
      obtain ⟨j, hj, hdrive⟩ := hdrives (max n N + m) fun i hi =>
        ⟨hnone i, hstay i (by omega), hasReadyTasks_of_mem (hqueued i (by omega))⟩
      refine ⟨j - max n N, by omega, ?_⟩
      rw [(hle _).1, show max n N + (j - max n N) = j by omega]
      exact hdrive
  exact htook (max n N + k) (by omega) hk

end Progress

/-- A run whose waits are faultless never panics, a wait panics exactly where it is not faultless,
and every task that is or becomes ready is served. -/
theorem faultless_waits_isolate (wakeFd : RawFd) (mode : LoopMode) (s : ReactorLoop F)
    (hr : Reach step Faultless (start wakeFd mode) s) :
    s.panicked = none ∧
      (∀ w t, s.step (.wait w) = some t → (t.panicked = none ↔ s.Faultless (.wait w))) ∧
      ∀ (st : Nat → ReactorLoop F) (ev : Nat → ReactorEvent F), st 0 = s → Forever step st ev →
        (∀ n, (st n).Faultless (ev n)) → (∀ n, (st n).Charged (ev n)) →
        (∃ N, ∀ n, N ≤ n → (ev n).disturbs = false) →
        (∀ n, (∀ m, n ≤ m → (st m).Ready) → ∃ m, n ≤ m ∧ (ev m).drives = true) →
        ∀ n id, id ∈ (st n).loop.scheduler.tasks.queued → ∃ m, n ≤ m ∧ (st m).Served id := by
  obtain ⟨hvalid, hnone⟩ := faultless_reach hr
  refine ⟨hnone, fun w t hst => (hvalid.wait_spec hnone hst).2.1, ?_⟩
  intro st ev hstart hrun hok hcharged ⟨N, hcalm⟩ hdrives n id hid
  have hreach : ∀ n, Valid (st n) ∧ (st n).panicked = none := fun n =>
    faultless_reach (hrun.reach (hstart ▸ hr) hok n)
  exact ready_served (fun n => (hreach n).1) (fun n => (hreach n).2)
    (fun n => (stepped (hreach n).1 (hreach n).2 (hok n) (hrun n)).1) hcharged hcalm hdrives hid

private def waitReadable (fd : RawFd) : List (ReactorEvent Unit) :=
  [.loop (.spawn () none 0 0), .loop (.advance 0), .loop (.pollLeaf (.readable fd none) 0),
    .loop (.taskPending () 0), .loop (.advance 0), .loop (.advance 0), .loop (.dispatch [] 0),
    .loop (.advance 0)]

private def readableWait : ReactorWait where
  submit := none
  completionFd := none
  answers := ⟨fun _ _ => none, [.ok [⟨epollIn, 1⟩]], fun _ => .ok false⟩
  completions := []
  now := 1

private def atWait : ReactorLoop Unit :=
  (run step (start 3 .run) (waitReadable 5)).get (by decide +kernel)

private def afterWait : ReactorLoop Unit :=
  (step atWait (.wait readableWait)).get (by decide +kernel)

private def polledAgain : ReactorLoop Unit :=
  (step afterWait (.loop (.advance 1))).get (by decide +kernel)

private theorem atWait_faultless : atWait.Faultless (.wait readableWait) := by
  refine ⟨rfl, fun _ _ _ _ => rfl, fun a ha => ⟨[⟨epollIn, 1⟩], (some.inj ha).symm, ?_, ?_⟩⟩
  · intro e he _
    cases List.mem_singleton.mp he
    decide +kernel
  · intro n hn
    have hdrains : [(⟨epollIn, 1⟩ : EpollEvent)].countP EpollRegistry.drains = 0 := by decide
    rw [hdrains] at hn
    cases hn

private theorem wake_root_again {s : ReactorLoop F} (h : s.loop.scheduler.rootReady = true)
    (now : Nat) : s.step (.loop (.wake .root now)) = some s := by
  change some { s with loop := s.loop.withScheduler { s.loop.scheduler with rootReady := true } } = some s
  rw [← h]
  rfl

/-- The descriptor is reported, and the task is polled again. -/
theorem readable_task_served : ∃ s : ReactorLoop Unit,
    run step (start 3 .run) (waitReadable 5 ++ [.wait readableWait]) = some s ∧ s.panicked = none ∧
      0 ∈ s.loop.scheduler.tasks.queued ∧
      ∃ st ev, st 0 = s ∧ Forever step st ev ∧ ∃ m, (st m).Served 0 := by
  have hrun : run step (start 3 .run) (waitReadable 5) = some atWait := (some_get _).symm
  have hwait : step atWait (.wait readableWait) = some afterWait := (some_get _).symm
  have hpoll : step afterWait (.loop (.advance 1)) = some polledAgain := (some_get _).symm
  have hreach : Reach step Faultless (start 3 .run) atWait :=
    reach_of_run (waitReadable 5) (allowed_of_forall _ (by simp [waitReadable, Faultless])) hrun
  obtain ⟨hnone, _, hserved⟩ := faultless_waits_isolate 3 .run afterWait
    (.next hreach atWait_faultless hwait)
  have hnext : Allowed step (fun s a => s.Faultless a ∧ s.Charged a ∧ a.disturbs = false) afterWait
      [.loop (.advance 1)] := by
    refine ⟨⟨trivial, charged_of_not_finished rfl, rfl⟩, ?_⟩
    rw [hpoll]
    trivial
  obtain ⟨st, ev, hstart, hforever, hall, htail⟩ := exists_forever_of_run (t := polledAgain)
    (a := ReactorEvent.loop (.wake .root 1)) [.loop (.advance 1)] hnext (by rw [run, hpoll]; rfl)
    ⟨trivial, charged_of_not_finished rfl, rfl⟩ (wake_root_again (by decide +kernel) 1)
  have hdrives : ∀ n, (∀ m, n ≤ m → (st m).Ready) → ∃ m, n ≤ m ∧ (ev m).drives = true := by
    intro n hready
    have hbusy := (hready (n + 1) (Nat.le_succ n)).2.2
    rw [(htail (n + 1) (Nat.succ_le_succ (Nat.zero_le n))).1] at hbusy
    exact absurd hbusy (by decide +kernel)
  have hqueued : 0 ∈ afterWait.loop.scheduler.tasks.queued := by decide +kernel
  obtain ⟨m, _, hm⟩ := hserved st ev hstart hforever (fun n => (hall n).1) (fun n => (hall n).2.1)
    ⟨0, fun n _ => (hall n).2.2⟩ hdrives 0 0 (hstart ▸ hqueued)
  refine ⟨afterWait, ?_, hnone, hqueued, st, ev, hstart, hforever, m, hm⟩
  rw [run_append, hrun, bind_some, run, hwait]
  rfl

private theorem gone_step {s t : ReactorLoop F} {a : ReactorEvent F} (hp : s.panicked ≠ none)
    (hpc : s.loop.pc = .wait) (hst : s.step a = some t) : t.panicked ≠ none ∧ t.loop.pc = .wait := by
  cases a with
  | loop e =>
    obtain ⟨⟨loop, hstep, rfl⟩, hreactor⟩ := step_loop hst
    have hdrives := not_drives_of_wait hpc hstep hreactor
    exact ⟨hp, (pc_step hstep hdrives).trans hpc⟩
  | wait w | enter mode =>
    rw [step, if_neg fun h => hp h.1] at hst
    cases hst
  | createSchedulingGroup shares =>
    cases hst
    split <;> exact ⟨hp, hpc⟩

private theorem gone_run {s t : ReactorLoop F} (hp : s.panicked ≠ none) (hpc : s.loop.pc = .wait)
    (es : List (ReactorEvent F)) (hrun : run step s es = some t) : t.loop.pc = .wait := by
  induction es generalizing s with
  | nil =>
    cases hrun
    exact hpc
  | cons a es ih =>
    obtain ⟨u, hu, hrest⟩ := bind_eq_some_iff.mp hrun
    obtain ⟨hpanicked, hwait⟩ := gone_step hp hpc hu
    exact ih hpanicked hwait hrest

private def rejectedWait : ReactorWait where
  submit := none
  completionFd := none
  answers := ⟨fun _ fd => if fd = -1 then some .badf else none, [], fun _ => .ok false⟩
  completions := []
  now := 0

/-- Two tasks. The first awaits a descriptor that is not open, and the second becomes ready
after the wait of the loop. -/
private def rejectedReadable : List (ReactorEvent Unit) :=
  [.loop (.spawn () none 0 0), .loop (.spawn () none 0 0),
    .loop (.advance 0), .loop (.pollLeaf (.readable (-1) none) 0), .loop (.taskPending () 0),
    .loop (.advance 0), .loop (.taskPending () 0),
    .loop (.advance 0), .loop (.advance 0), .loop (.dispatch [] 0), .loop (.advance 0),
    .wait rejectedWait, .loop (.wake (.task 1) 5)]

/-- The loop panics, and the other task is ready and never polled again. -/
theorem rejected_descriptor_stops_loop : ∃ s : ReactorLoop Unit,
    run step (start 3 .run) rejectedReadable = some s ∧ s.panicked = some (.wait (.os .badf)) ∧
      1 ∈ s.loop.scheduler.tasks.queued ∧
      ∀ es t, run step s es = some t → t.loop.pc.polled = none := by
  have hfacts : (run step (start 3 .run) rejectedReadable).map
      (fun s => (s.panicked, s.loop.scheduler.tasks.queued, s.loop.pc)) =
        some (some (.wait (.os .badf)), [1], .wait) := by decide +kernel
  obtain ⟨s, hrun, hs⟩ := map_eq_some_iff.mp hfacts
  obtain ⟨hpanicked, hrest⟩ := Prod.mk.inj hs
  obtain ⟨hqueued, hpc⟩ := Prod.mk.inj hrest
  refine ⟨s, hrun, hpanicked, hqueued ▸ List.mem_singleton.mpr rfl, fun es t ht => ?_⟩
  rw [gone_run (hpanicked ▸ some_ne_none _) hpc es ht]
  rfl

end ReactorLoop
end Sitas.Executor
