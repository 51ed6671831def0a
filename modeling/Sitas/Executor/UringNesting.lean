import Sitas.Executor.UringCalls

/-! Calls of an executor made inside a task or the root future of another one on the same
thread. Both use the one variable of the thread for their dispatchers. -/
namespace Sitas.Executor.Uring
open Sitas.Lib Sitas.Os.Uring Function Threads Option

/-- An inner call. The body is everything that happens while it runs, calls of further
executors included. `block_on` also drops its executor, and with it the tasks left. -/
structure Call where
  owner : Nat
  setup : Except Nat Unit
  required : Bool
  body : List Event
  unwinds : Bool
  closes : Option (List Nat)
  entry : Kernel
  exit : Kernel
  close : Kernel
  fuel : Nat

namespace Threads

/-- The executor is dropped: `scheduler.close` drops the tasks before the shutdown. -/
def closeExecutor (s : Threads) (thread : Nat) (c : Call) (tasks : List Nat) : Option Threads :=
  (run step s (tasks.map (.drop thread))).bind fun s =>
    (s.shutdownCurrent thread c.owner c.close c.fuel).map Prod.snd

def finish (s : Threads) (thread : Nat) (c : Call) : Option Threads :=
  (s.leave thread c.owner c.unwinds c.exit c.fuel).bind fun s =>
    match c.closes with
    | none => some s
    | some tasks => s.closeExecutor thread c tasks

def call (s : Threads) (thread : Nat) (c : Call) : Option (Except InstallError Threads) :=
  (s.installCurrentIoUring thread c.owner c.setup c.required c.entry c.fuel).bind fun
    | .error e => some (.error e)
    | .ok s => ((run step s c.body).bind (·.finish thread c)).map .ok

def quiet (s : Threads) (thread : Nat) : Bool :=
  (s.currentDispatcher thread).all fun (_, d) => d.registeredWakers == 0

/-- The end of the call finds nothing installed that it cannot shut down. -/
def finishesQuiet (s : Threads) (thread : Nat) (c : Call) : Bool :=
  match c.closes with
  | none => s.quiet thread
  | some tasks =>
    ((s.leave thread c.owner c.unwinds c.exit c.fuel).bind fun s =>
      run step s (tasks.map (.drop thread))).all fun s =>
        (s.current thread).all (·.owner == c.owner) && s.quiet thread

end Threads

/-- The call does not panic because of what is installed, and it leaves what is installed in
place with its operations in flight, its completions and its wakers. -/
def Undisturbed (s : Threads) (thread : Nat) : Except InstallError Threads → Prop
  | .error .liveState => False
  | .error (.setupFailed _) => True
  | .ok t => t.current thread = s.current thread ∧
      ∀ c d, s.current thread = some c → s.dispatchers c.dispatcher = some d →
        ∃ d', t.dispatchers c.dispatcher = some d' ∧ d'.ring.operations = d.ring.operations ∧
          d'.completions = d.completions ∧ d'.waiters = d.waiters

/-- Nothing is installed when the call begins, and nothing that stays is installed when it
ends. Otherwise the call does not get further than a failing setup of its own ring. -/
def Call.apart (c : Call) (s : Threads) (thread : Nat) : Bool :=
  match s.currentDispatcher thread with
  | some (_, d) =>
    d.isIdle && (availableIoUring executorIoUringEntries c.setup c.required).toOption.isNone
  | none =>
    match s.installCurrentIoUring thread c.owner c.setup c.required c.entry c.fuel with
    | some (.ok s) => (run Threads.step s c.body).all (·.finishesQuiet thread c)
    | _ => true

/-- What can be installed later: what is installed now, or a dispatcher created since. -/
structure Onward (s t : Threads) : Prop where
  created : s.created ≤ t.created
  dispatchers : ∀ g, (∃ d, s.dispatchers g = some d) → ∃ d, t.dispatchers g = some d
  current : ∀ thread c, t.current thread = some c → s.current thread = some c ∨
    s.created ≤ c.dispatcher ∧ c.dispatcher < t.created ∧ ∃ d, t.dispatchers c.dispatcher = some d

def Placed (s : Threads) : Prop := ∀ thread c, s.current thread = some c →
  c.dispatcher < s.created ∧ ∃ d, s.dispatchers c.dispatcher = some d

section Steps
variable {s t u : Threads} {thread owner fuel : Nat} {kernel : Kernel}

theorem Onward.refl (s : Threads) : Onward s s := ⟨le_rfl, fun _ => id, fun _ _ => .inl⟩

theorem Onward.trans (h : Onward s t) (h' : Onward t u) : Onward s u where
  created := Nat.le_trans h.created h'.created
  dispatchers g hg := h'.dispatchers g (h.dispatchers g hg)
  current thread c hc := by
    rcases h'.current thread c hc with hold | ⟨hle, hrest⟩
    · refine (h.current thread c hold).imp_right fun ⟨hle, hlt, hd⟩ => ?_
      exact ⟨hle, Nat.lt_of_lt_of_le hlt h'.created, h'.dispatchers _ hd⟩
    · exact .inr ⟨Nat.le_trans h.created hle, hrest⟩

theorem Placed.onward (hs : Placed s) (h : Onward s t) : Placed t := by
  intro thread c hc
  rcases h.current thread c hc with hold | ⟨_, hnew⟩
  · obtain ⟨hlt, hd⟩ := hs thread c hold
    exact ⟨Nat.lt_of_lt_of_le hlt h.created, h.dispatchers _ hd⟩
  · exact hnew

theorem onward_of_current (hcreated : t.created = s.created) (hcurrent : t.current = s.current)
    (hdispatchers : ∀ g, (∃ d, s.dispatchers g = some d) → ∃ d, t.dispatchers g = some d) :
    Onward s t :=
  ⟨Nat.le_of_eq hcreated.symm, hdispatchers, fun _ _ hc => .inl (hcurrent ▸ hc)⟩

theorem onward_setDispatcher (s : Threads) (i : Nat) (d : IoUringDispatcher) :
    Onward s (s.setDispatcher i d) :=
  onward_of_current rfl rfl fun _ => exists_setDispatcher

theorem onward_setCurrent_none (s : Threads) (thread : Nat) :
    Onward s (s.setCurrent thread none) := by
  refine ⟨le_rfl, fun _ => id, fun thread' c hc => .inl ?_⟩
  by_cases heq : thread' = thread
  · subst heq
    cases (update_self ..).symm.trans hc
  · exact (update_of_ne heq ..).symm.trans hc

theorem Ended.onward (h : Ended thread s t) : Onward s t := by
  cases h with
  | kept => exact .refl s
  | shut i d d' installed idle =>
    exact (onward_setDispatcher s i d').trans (onward_setCurrent_none _ thread)

theorem onward_install (s : Threads) (thread owner : Nat) (ring : Option IoUring) :
    Onward s (s.install thread owner ring) := by
  cases ring with
  | none => exact onward_setCurrent_none s thread
  | some ring =>
    refine ⟨Nat.le_succ _, fun g => exists_setDispatcher, fun thread' c hc => ?_⟩
    by_cases heq : thread' = thread
    · subst heq
      cases (update_self ..).symm.trans hc
      exact .inr ⟨le_rfl, Nat.lt_succ_self _, _, update_self ..⟩
    · exact .inl ((update_of_ne heq ..).symm.trans hc)

theorem onward_installCurrentIoUring {setup : Except Nat Unit} {required : Bool}
    (h : s.installCurrentIoUring thread owner setup required kernel fuel = some (.ok t)) :
    Onward s t := by
  revert h
  fun_cases s.installCurrentIoUring thread owner setup required kernel fuel with
  | case1 => rintro ⟨⟩; exact .refl s
  | case2 | case4 | case5 => rintro ⟨⟩
  | case3 =>
    intro h
    obtain ⟨⟨d, n⟩, _, heq⟩ := map_eq_some_iff.mp h
    cases heq
    exact (onward_install s thread owner _).trans (onward_setDispatcher ..)
  | case6 => rintro ⟨⟩; exact onward_install s thread owner _

theorem onward_step {e : Event} (h : s.step e = some t) : Onward s t := by
  cases e with
  | create f transfer fd offset len =>
    simp only [step, create] at h
    split at h <;> cases h
    exact onward_of_current rfl rfl fun _ => id
  | enter thread owner setup required kernel fuel =>
    obtain ⟨result, hinstall, hresult⟩ := bind_eq_some_iff.mp h
    cases result with
    | error e => cases hresult
    | ok t' =>
      cases hresult
      exact onward_installCurrentIoUring hinstall
  | leave thread owner unwinds kernel fuel => exact (ended_leave h).onward
  | poll thread f =>
    obtain ⟨cell, _, hrest⟩ := bind_eq_some_iff.mp h
    split at hrest
    · cases hrest
    · split at hrest
      · cases hrest
        exact onward_of_current rfl rfl fun _ => id
      · obtain ⟨x, _, rfl⟩ := map_eq_some_iff.mp hrest
        exact onward_of_current rfl rfl fun _ => exists_setDispatcher
  | drop thread f =>
    obtain ⟨cell, _, hrest⟩ := bind_eq_some_iff.mp h
    repeat' split at hrest
    all_goals cases hrest
    all_goals first
      | exact onward_of_current rfl rfl fun _ => id
      | exact onward_of_current rfl rfl fun _ => exists_setDispatcher
  | dispatch thread =>
    obtain ⟨⟨i, d⟩, _, rfl⟩ := map_eq_some_iff.mp h
    exact onward_of_current rfl rfl fun _ => exists_setDispatcher
  | submit thread kernel =>
    obtain ⟨⟨i, d⟩, _, hrest⟩ := bind_eq_some_iff.mp h
    obtain ⟨⟨result, ring, n⟩, _, rfl⟩ := map_eq_some_iff.mp hrest
    exact onward_setDispatcher ..
  | post i completions =>
    obtain ⟨d, _, rfl⟩ := map_eq_some_iff.mp h
    exact onward_setDispatcher ..

theorem onward_run {events : List Event} (h : run step s events = some t) : Onward s t := by
  induction events generalizing s with
  | nil =>
    cases h
    exact .refl _
  | cons e events ih =>
    obtain ⟨u, hu, hrest⟩ := bind_eq_some_iff.mp h
    exact (onward_step hu).trans (ih hrest)

theorem placed_of_reachable (h : Reachable step .new s) : Placed s :=
  h.invariant (fun _ _ hc => (nomatch hc)) fun _ _ _ hs _ ht => hs.onward (onward_step ht)

theorem onward_finish {c : Call} (h : s.finish thread c = some t) : Onward s t := by
  obtain ⟨s₁, hleave, hrest⟩ := bind_eq_some_iff.mp h
  refine (ended_leave hleave).onward.trans ?_
  split at hrest
  · cases hrest
    exact .refl _
  · obtain ⟨s₂, hdrops, hshutdown⟩ := bind_eq_some_iff.mp hrest
    obtain ⟨x, hx, rfl⟩ := map_eq_some_iff.mp hshutdown
    exact (onward_run hdrops).trans (ended_shutdownCurrent hx).onward

theorem Placed.current_none_iff (hs : Placed s) :
    s.current thread = none ↔ s.currentDispatcher thread = none := by
  refine ⟨currentDispatcher_of_current_none, fun h => ?_⟩
  cases hc : s.current thread with
  | none => rfl
  | some c =>
    obtain ⟨_, d, hd⟩ := hs thread c hc
    cases h.symm.trans (currentDispatcher_eq_some.mpr ⟨hd, c.owner, hc⟩)

theorem quiet_of_current_none (h : s.current thread = none) : s.quiet thread = true := by
  simp [quiet, currentDispatcher_of_current_none h]

theorem Ended.quiet (h : Ended thread s t) (hnone : t.current thread = none) :
    s.quiet thread = true := by
  cases h with
  | kept => exact quiet_of_current_none hnone
  | shut i d d' installed idle => simp [quiet, installed, idle]

theorem Ended.current_none (h : Ended thread s t) (hnone : s.current thread = none) :
    t.current thread = none := by
  cases h with
  | kept => exact hnone
  | shut i d d' installed idle => exact update_self ..

private theorem shutDown_current_none {i : Nat} {d : IoUringDispatcher}
    (ht : s.shutDown thread i d kernel fuel = some t) : t.current thread = none := by
  obtain ⟨⟨outcome, d₁, n⟩, _, hrest⟩ := bind_eq_some_iff.mp ht
  obtain ⟨⟨d₂, n'⟩, _, rfl⟩ := map_eq_some_iff.mp hrest
  exact update_self ..

theorem shutdownCurrentIfIdle_current_none (hs : Placed s)
    (hquiet : s.quiet thread = true) (ht : s.shutdownCurrentIfIdle thread kernel fuel = some t) :
    t.current thread = none := by
  rw [shutdownCurrentIfIdle] at ht
  split at ht
  next i d hcur =>
    have hidle : d.registeredWakers = 0 := by simpa [quiet, hcur] using hquiet
    rw [if_pos hidle] at ht
    exact shutDown_current_none ht
  next hcur =>
    cases ht
    exact hs.current_none_iff.mpr hcur

/-- A call leaves nothing installed exactly if no waker is registered at its end. -/
theorem leave_current_none_iff (hs : Placed s) {unwinds : Bool}
    (ht : s.leave thread owner unwinds kernel fuel = some t) :
    t.current thread = none ↔ s.quiet thread = true := by
  refine ⟨(ended_leave ht).quiet, fun hquiet => ?_⟩
  rw [leave] at ht
  split at ht
  · exact shutdownCurrentIfIdle_current_none hs hquiet ht
  · obtain ⟨⟨status, s₁⟩, hfirst, hsecond⟩ := bind_eq_some_iff.mp ht
    cases ended_shutdownCurrent hfirst with
    | kept => exact shutdownCurrentIfIdle_current_none hs hquiet hsecond
    | shut i d d' installed idle =>
      exact (ended_shutdownCurrentIfIdle hsecond).current_none (update_self ..)

theorem shutdownCurrent_current_none_iff (hs : Placed s)
    {x : IoUringExecutorStatus × Threads} (hx : s.shutdownCurrent thread owner kernel fuel = some x) :
    x.2.current thread = none ↔
      ((s.current thread).all (·.owner == owner) && s.quiet thread) = true := by
  rw [shutdownCurrent] at hx
  split at hx
  next c i d hc hcur =>
    simp only [hc, all_some, quiet, hcur, Bool.and_eq_true, beq_iff_eq]
    split at hx
    next hother =>
      cases hx
      exact ⟨fun hnone => absurd (hc.symm.trans hnone) (some_ne_none _), fun h => absurd h.1 hother⟩
    next hown =>
      split at hx
      next hwakers =>
        cases hx
        refine ⟨fun hnone => absurd (hc.symm.trans hnone) (some_ne_none _), fun h => ?_⟩
        exact absurd h.2 (Nat.ne_of_gt hwakers)
      next hidle =>
        obtain ⟨t, ht, rfl⟩ := map_eq_some_iff.mp hx
        refine ⟨fun _ => ⟨not_not.mp hown, Nat.eq_zero_of_not_pos hidle⟩, fun _ => ?_⟩
        exact shutDown_current_none ht
  next hcur =>
    cases hx
    have hnone : s.current thread = none := by
      cases hc : s.current thread with
      | none => rfl
      | some c =>
        obtain ⟨_, d, hd⟩ := hs thread c hc
        exact absurd (currentDispatcher_eq_some.mpr ⟨hd, c.owner, hc⟩) (hcur c c.dispatcher d hc)
    simp [hnone, quiet_of_current_none hnone]

theorem finish_current_none_iff (hs : Placed s) {c : Call} (ht : s.finish thread c = some t) :
    t.current thread = none ↔ s.finishesQuiet thread c = true := by
  obtain ⟨s₁, hleave, hrest⟩ := bind_eq_some_iff.mp ht
  rw [finishesQuiet]
  split at hrest
  · cases hrest
    exact leave_current_none_iff hs hleave
  · obtain ⟨s₂, hdrops, hshutdown⟩ := bind_eq_some_iff.mp hrest
    obtain ⟨x, hx, rfl⟩ := map_eq_some_iff.mp hshutdown
    have hs₂ := (hs.onward (ended_leave hleave).onward).onward (onward_run hdrops)
    simp only [hleave, bind_some, hdrops, all_some]
    exact shutdownCurrent_current_none_iff hs₂ hx

end Steps

section Entry
variable {s : Threads} {thread owner fuel : Nat} {setup : Except Nat Unit} {required : Bool}
  {kernel : Kernel}

theorem current_ne_of_install (hs : Placed s) {o : CurrentIoUring} (hc : s.current thread = some o)
    {ring : Option IoUring} {i : Nat} {d : IoUringDispatcher} {t : Threads}
    (h : Onward ((s.install thread owner ring).setDispatcher i d) t) :
    t.current thread ≠ s.current thread := by
  intro heq
  have hlt := (hs thread o hc).1
  rcases h.current thread o (heq.trans hc) with hold | ⟨hle, _⟩
  · cases ring with
    | none => cases (update_self ..).symm.trans hold
    | some ring =>
      cases (update_self ..).symm.trans hold
      exact Nat.lt_irrefl _ hlt
  · have hcreated := (onward_install s thread owner ring).created
    exact Nat.lt_irrefl _ (Nat.lt_of_lt_of_le hlt (Nat.le_trans hcreated hle))

end Entry

/-- A call inside a call of another executor leaves the outer one undisturbed exactly if the
two never have a dispatcher at the same time. -/
theorem nested_call_undisturbed_iff {s : Threads} (hr : Reachable Threads.step .new s)
    (thread : Nat) (c : Call) (hdistinct : ∀ o, s.current thread = some o → o.owner ≠ c.owner)
    {result : Except InstallError Threads} (hcall : s.call thread c = some result) :
    Undisturbed s thread result ↔ c.apart s thread = true := by
  have hs := placed_of_reachable hr
  obtain ⟨entered, henter, hrest⟩ := bind_eq_some_iff.mp hcall
  rw [Call.apart]
  split
  next i d hcur =>
    obtain ⟨_, o, hc⟩ := currentDispatcher_eq_some.mp hcur
    have hentry := henter
    simp only [installCurrentIoUring, hc, hcur, if_neg (hdistinct _ hc)] at hentry
    split at hentry
    next hidle =>
      split at hentry
      next e hsetup =>
        cases hentry
        cases hrest
        simp [Undisturbed, hidle, hsetup, Except.toOption]
      next ring hsetup =>
        obtain ⟨⟨d', n⟩, _, rfl⟩ := map_eq_some_iff.mp hentry
        obtain ⟨t, hbody, rfl⟩ := map_eq_some_iff.mp hrest
        obtain ⟨s₂, hrun, hfinish⟩ := bind_eq_some_iff.mp hbody
        have hgone := current_ne_of_install hs hc ((onward_run hrun).trans (onward_finish hfinish))
        simp [Undisturbed, hgone, hsetup, Except.toOption]
    next hbusy =>
      cases hentry
      cases hrest
      simp [Undisturbed, hbusy]
  next hcur =>
    have hnone := hs.current_none_iff.mpr hcur
    cases entered with
    | error e =>
      cases hrest
      have hentry := henter
      simp only [installCurrentIoUring, hnone, hcur] at hentry
      split at hentry
      · cases hentry
        simp [Undisturbed, henter]
      · cases hentry
    | ok s₁ =>
      obtain ⟨t, hbody, rfl⟩ := map_eq_some_iff.mp hrest
      obtain ⟨s₂, hrun, hfinish⟩ := bind_eq_some_iff.mp hbody
      have hs₂ := (hs.onward (onward_installCurrentIoUring henter)).onward (onward_run hrun)
      simp only [henter, hrun, all_some]
      refine Iff.trans ?_ (finish_current_none_iff hs₂ hfinish)
      simp [Undisturbed, hnone]

/-- Without a dispatcher of its own the outer executor is not disturbed. -/
theorem call_without_outer_dispatcher_undisturbed :
    ∃ s t, Reachable Threads.step .new s ∧
      s.call 0 ⟨1, .ok (), false, [.create 0 .read 3 0 8, .poll 0 0,
        .submit 0 fun _ => some ⟨.ok 1, []⟩, .post 0 [⟨operationUserDataBase, 5, 0⟩], .poll 0 0], false,
        none, fun _ => none, fun _ => none, fun _ => none, 0⟩ = some (.ok t) ∧
      Undisturbed s 0 (.ok t) := by
  refine ⟨_, _, reachable_of_run [.enter 0 0 (.error 38) false (fun _ => none) 0] rfl, rfl,
    (nested_call_undisturbed_iff (reachable_of_run
      [.enter 0 0 (.error 38) false (fun _ => none) 0] rfl) 0
      ⟨1, .ok (), false, [.create 0 .read 3 0 8, .poll 0 0,
        .submit 0 fun _ => some ⟨.ok 1, []⟩, .post 0 [⟨operationUserDataBase, 5, 0⟩], .poll 0 0], false,
        none, fun _ => none, fun _ => none, fun _ => none, 0⟩ ?_ rfl).mpr rfl⟩
  intro o ho
  cases ho

/-- With a read of the outer executor in flight the inner call panics, and without one it
leaves the outer executor without its dispatcher. -/
theorem nested_call_disturbs :
    (∃ s, Reachable Threads.step .new s ∧
      s.call 0 ⟨1, .ok (), false, [], false, none, fun _ => none, fun _ => none, fun _ => none, 0⟩ =
        some (.error .liveState)) ∧
    ∃ s t, Reachable Threads.step .new s ∧ s.current 0 = some ⟨0, 0⟩ ∧
      s.call 0 ⟨1, .ok (), false, [], false, none, fun _ => none, fun _ => none, fun _ => none, 0⟩ =
        some (.ok t) ∧ t.current 0 = none := by
  refine ⟨⟨_, reachable_of_run [.enter 0 0 (.ok ()) false (fun _ => none) 0,
    .create 0 .read 3 0 8, .poll 0 0] rfl, rfl⟩, _, _,
    reachable_of_run [.enter 0 0 (.ok ()) false (fun _ => none) 0] rfl, rfl, rfl, rfl⟩

end Sitas.Executor.Uring
