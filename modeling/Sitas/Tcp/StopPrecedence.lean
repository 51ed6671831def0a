import Sitas.Tcp.AcceptLoop

/-! Stopping an accept loop. The race polls the accept before the stop token, so
what a poll after the stop does depends on whether a connection is waiting. -/
namespace Sitas.Tcp
open Sitas.Lib Sitas.Executor List Option
variable {C E S W : Type}

/-- What the loop's own code keeps: the connections are left alone, and a raised stop
stays raised. -/
structure Server.Kept (s t : Server C E S W) : Prop where
  accepted : t.accepted = s.accepted
  raised : s.stop.raised = true → t.stop.raised = true

structure Server.Grows (s t : Server C E S W) : Prop where
  accepted : s.accepted <+: t.accepted
  raised : s.stop.raised = true → t.stop.raised = true

namespace Server
variable {s t u : Server C E S W}

theorem Kept.refl (s : Server C E S W) : Kept s s := ⟨rfl, id⟩

theorem Kept.trans (h : Kept s t) (h' : Kept t u) : Kept s u :=
  ⟨h'.accepted.trans h.accepted, fun hs => h'.raised (h.raised hs)⟩

theorem Kept.grows (h : Kept s t) : Grows s t := ⟨h.accepted ▸ prefix_rfl, h.raised⟩

theorem Grows.trans (h : Grows s t) (h' : Grows t u) : Grows s u :=
  ⟨h.accepted.trans h'.accepted, fun hs => h'.raised (h.raised hs)⟩

end Server

open Server (Kept Grows)

theorem state_map {σ α β : Type} (p : Progress σ α) (f : α → β) : (p.map f).state = p.state := by
  cases p <;> rfl

theorem race_rel {σ α β : Type} (R : σ → σ → Prop) {first : σ → Progress σ α}
    {second : σ → Progress σ β} (htrans : ∀ {s t u}, R s t → R t u → R s u)
    (hfirst : ∀ s, R s (first s).state) (hsecond : ∀ s, R s (second s).state) (s : σ) :
    R s (Race.poll first second s).state := by
  have hs := hfirst s
  unfold Race.poll
  cases hp : first s with
  | ready a t | within t =>
    rw [hp] at hs
    exact hs
  | pending t =>
    rw [hp] at hs
    dsimp only
    rw [state_map]
    exact htrans hs (hsecond t)

/-- The accept calls reach the backlog: the first of them may be interrupted, one is not. -/
def Reach (calls : Nat) (faults : List (AcceptFault E)) : Prop :=
  ∃ k < calls, faults = replicate k .interrupted

def AllInterrupted (calls : Nat) (faults : List (AcceptFault E)) : Prop :=
  faults.take calls = replicate calls .interrupted

theorem reach_cons (calls : Nat) (faults : List (AcceptFault E)) :
    Reach (calls + 1) (.interrupted :: faults) ↔ Reach calls faults := by
  constructor
  · rintro ⟨k, hk, heq⟩
    cases k with
    | zero => cases heq
    | succ k => exact ⟨k, Nat.lt_of_succ_lt_succ hk, (cons.inj heq).2⟩
  · rintro ⟨k, hk, rfl⟩
    exact ⟨k + 1, Nat.succ_lt_succ hk, rfl⟩

/-- Accept calls that do not find a connection: one fails, one would block, or all are
interrupted. -/
inductive Unserved (s : Server C E S W) (calls : Nat) (faults : List (AcceptFault E)) :
    Progress (Server C E S W) (Except E C) → Prop
  | failed (e : E) {t : Server C E S W} (h : Kept s t) :
    Unserved s calls faults (.ready (.error e) t)
  | pending {t : Server C E S W} (h : Kept s t) : Unserved s calls faults (.pending t)
  | within {t : Server C E S W} (h : Kept s t) (hall : AllInterrupted calls faults) :
    Unserved s calls faults (.within t)

theorem acceptCalls_unserved (s : Server C E S W) (calls : Nat) (faults : List (AcceptFault E))
    (hnone : s.backlog = [] ∨ ¬ Reach calls faults) :
    Unserved s calls faults (acceptCalls s calls faults) := by
  induction calls generalizing faults with
  | zero => exact .within ⟨rfl, id⟩ rfl
  | succ calls ih =>
    cases faults with
    | nil =>
      have hempty : s.backlog = [] := hnone.resolve_right fun h => h ⟨0, calls.succ_pos, rfl⟩
      simp only [acceptCalls, hempty]
      exact .pending ⟨rfl, id⟩
    | cons fault faults =>
      cases fault with
      | failed e => exact .failed e ⟨rfl, id⟩
      | interrupted =>
        rw [reach_cons] at hnone
        have hrest := ih faults hnone
        simp only [acceptCalls]
        generalize acceptCalls s calls faults = p at hrest ⊢
        cases hrest with
        | failed e h => exact .failed e h
        | pending h => exact .pending h
        | within h hall => exact .within h (congrArg (AcceptFault.interrupted :: ·) hall)

theorem acceptCalls_of_reach {s : Server C E S W} {calls : Nat} {faults : List (AcceptFault E)}
    (h : Reach calls faults) (hbacklog : s.backlog ≠ []) :
    ∃ c result t, acceptCalls s calls faults = .ready result t ∧
      Grows { s with accepted := s.accepted ++ [c] } t := by
  obtain ⟨k, hk, rfl⟩ := h
  induction calls generalizing k with
  | zero => exact absurd hk k.not_lt_zero
  | succ calls ih =>
    cases k with
    | succ k => exact ih k (Nat.lt_of_succ_lt_succ hk)
    | zero =>
      obtain ⟨conn, backlog, hcons⟩ := exists_cons_of_ne_nil hbacklog
      simp only [replicate_zero, acceptCalls, hcons]
      exact ⟨conn.1, _, _, rfl, prefix_rfl, id⟩

theorem grows_acceptAsync (s : Server C E S W) : Grows s (acceptAsync s).state := by
  unfold acceptAsync
  split
  · exact (Kept.refl s).grows
  · by_cases hnone : s.backlog = [] ∨ ¬ Reach s.calls s.faults
    · have h := acceptCalls_unserved { s with readable := false } s.calls s.faults hnone
      generalize acceptCalls { s with readable := false } s.calls s.faults = p at h
      cases h with
      | failed _ h | pending h | within h => exact ⟨h.grows.accepted, h.raised⟩
    · rw [not_or, Classical.not_not] at hnone
      obtain ⟨c, result, t, ht, hgrows⟩ :=
        acceptCalls_of_reach (s := { s with readable := false }) hnone.2 hnone.1
      rw [ht]
      exact ⟨(prefix_append _ _).trans hgrows.accepted, hgrows.raised⟩

/-- What the precedence of the stop rests on: the loop's own code leaves the
connections alone, and the future the accept is raced against is ready once the
stop is raised. -/
structure LoopBody.StopAware (body : LoopBody C E S W) : Prop where
  second : ∀ w s, Kept s (body.second w s).state
  handle : ∀ c s, Kept s (body.handle c s).2
  failed : ∀ e s, Kept s (body.failed e s)
  ready : ∀ w s, s.stop.raised = true → ∃ t, body.second w s = .ready () t

theorem kept_spawnTcpHandler (spawn : C → Except S Unit) (c : C) (s : Server C E S W) :
    Kept s (spawnTcpHandler spawn c s).2 := by
  unfold spawnTcpHandler
  cases spawn c <;> exact ⟨rfl, id⟩

theorem kept_submitHandler (shard : ShardId) (limit : Nat) (submit : C → Except S Unit) (c : C)
    (s : Server C E S W) : Kept s (submitHandler shard limit submit c s) := by
  unfold submitHandler
  cases tryAcquire s.counts shard limit with
  | none => exact ⟨rfl, id⟩
  | some counts => cases submit c <;> exact ⟨rfl, id⟩

section Signals
variable [DecidableEq W]

theorem pollStop_of_raised {s : Server C E S W} (h : s.stop.raised = true) (w : W) :
    pollStop w s = .ready () s := by
  simp [pollStop, StopToken.poll, Signal.poll_of_raised h]

theorem kept_pollStop (w : W) (s : Server C E S W) : Kept s (pollStop w s).state := by
  cases h : s.stop.raised with
  | true =>
    rw [pollStop_of_raised h]
    exact .refl s
  | false =>
    simp only [pollStop, StopToken.poll, Signal.poll, h, Bool.false_eq_true, if_false]
    exact ⟨rfl, fun hs => absurd (h.symm.trans hs) Bool.false_ne_true⟩

theorem kept_pollHandlerError (w : W) (s : Server C E S W) :
    Kept s (pollHandlerError w s).state := by
  unfold pollHandlerError
  cases Notified.poll s.handlerError w with
  | mk result handlerError => cases result <;> exact ⟨rfl, id⟩

theorem AcceptLoop.stopAware (loop : AcceptLoop C S) :
    (loop.body : LoopBody C E S W).StopAware := by
  have hstop : ∀ (w : W) (s : Server C E S W), s.stop.raised = true →
      ∃ t, pollStop w s = .ready () t := fun w s h => ⟨s, pollStop_of_raised h w⟩
  cases loop with
  | untilStopped spawn =>
    exact ⟨kept_pollStop, kept_spawnTcpHandler spawn, fun _ => .refl, hstop⟩
  | untilStoppedScoped spawn =>
    refine ⟨fun w s => ?_, kept_spawnTcpHandler spawn, fun _ => .refl, fun w s h => ⟨s, ?_⟩⟩
    · dsimp only [AcceptLoop.body, serveTcpUntilStoppedScopedWith]
      rw [state_map]
      exact race_rel Kept Kept.trans (kept_pollStop w) (kept_pollHandlerError w) s
    · simp [AcceptLoop.body, serveTcpUntilStoppedScopedWith, Race.poll, pollStop_of_raised h,
        Progress.map]
  | reuseport shard limit submit =>
    exact ⟨kept_pollStop, kept_submitHandler shard limit submit, fun _ _ => ⟨rfl, id⟩, hstop⟩
  | singleAccept hash shardCount limit submit =>
    exact ⟨kept_pollStop, fun c => kept_submitHandler _ limit _ c, fun _ _ => ⟨rfl, id⟩, hstop⟩

end Signals

theorem grows_acceptLoop {body : LoopBody C E S W} (hbody : body.StopAware) (w : W) (fuel : Nat)
    (s : Server C E S W) : Grows s (acceptLoop body w fuel s).state := by
  induction fuel generalizing s with
  | zero => exact (Kept.refl s).grows
  | succ fuel ih =>
    have hrace := race_rel Grows Grows.trans grows_acceptAsync (fun s => (hbody.second w s).grows) s
    unfold acceptLoop
    cases hp : Race.poll acceptAsync (body.second w) s with
    | pending t | within t =>
      rw [hp] at hrace
      exact hrace
    | ready output t =>
      rw [hp] at hrace
      cases output with
      | second => exact hrace
      | first result =>
        cases result with
        | error e => exact hrace.trans (hbody.failed e t).grows
        | ok c =>
          have hhandled := hrace.trans (hbody.handle c t).grows
          dsimp only
          cases hh : body.handle c t with
          | mk spawned u =>
            rw [hh] at hhandled
            cases spawned with
            | ok => exact hhandled.trans (ih u)
            | error e => exact hhandled

/-- The listener has a connection, its readiness is not awaited, and the accept calls get
to it without an error. -/
def Server.Finds (s : Server C E S W) : Prop :=
  s.backlog ≠ [] ∧ (s.waiting = true → s.readable = true) ∧ Reach s.calls s.faults

theorem acceptLoop_of_not_finds {body : LoopBody C E S W} (hbody : body.StopAware) (w : W)
    (fuel : Nat) (s : Server C E S W) (hstop : s.stop.raised = true) (hnone : ¬ s.Finds) :
    (∃ how t, acceptLoop body w (fuel + 1) s = .ready how t ∧ Kept s t) ∨
      (∃ t, acceptLoop body w (fuel + 1) s = .within t ∧ Kept s t) ∧
        AllInterrupted s.calls s.faults := by
  have hpoll : Unserved s s.calls s.faults (acceptAsync s) := by
    unfold acceptAsync
    split
    · exact .pending (.refl s)
    · next hready =>
      have hreach : s.backlog = [] ∨ ¬ Reach s.calls s.faults := by
        by_contra hfinds
        rw [not_or, Classical.not_not] at hfinds
        exact hnone ⟨hfinds.1, by simpa using hready, hfinds.2⟩
      have h := acceptCalls_unserved { s with readable := false } s.calls s.faults hreach
      generalize acceptCalls { s with readable := false } s.calls s.faults = p at h
      cases h with
      | failed e h => exact .failed e ⟨h.accepted, h.raised⟩
      | pending h => exact .pending ⟨h.accepted, h.raised⟩
      | within h hall => exact .within ⟨h.accepted, h.raised⟩ hall
  generalize hp : acceptAsync s = p at hpoll
  cases hpoll with
  | @failed e t h =>
    exact .inl ⟨.acceptFailed e, body.failed e t, by simp [acceptLoop, Race.poll, hp],
      h.trans (hbody.failed e t)⟩
  | @pending t h =>
    obtain ⟨u, hu⟩ := hbody.ready w t (h.raised hstop)
    have hsecond := hbody.second w t
    rw [hu] at hsecond
    exact .inl ⟨.stopped, u, by simp [acceptLoop, Race.poll, hp, hu, Progress.map],
      h.trans hsecond⟩
  | @within t h hall => exact .inr ⟨⟨t, by simp [acceptLoop, Race.poll, hp], h⟩, hall⟩

theorem acceptLoop_of_finds {body : LoopBody C E S W} (hbody : body.StopAware) (w : W)
    (fuel : Nat) (s : Server C E S W) (h : s.Finds) :
    (acceptLoop body w (fuel + 1) s).state.accepted ≠ s.accepted := by
  obtain ⟨hbacklog, hready, hreach⟩ := h
  obtain ⟨c, result, t, ht, hgrows⟩ :=
    acceptCalls_of_reach (s := { s with readable := false }) hreach hbacklog
  have hpoll : acceptAsync s = .ready result t := by
    rw [acceptAsync, if_neg (by simpa using hready), ht]
  have hrest : Grows t (acceptLoop body w (fuel + 1) s).state := by
    cases result with
    | error e => simpa [acceptLoop, Race.poll, hpoll, Progress.state] using (hbody.failed e t).grows
    | ok c =>
      have hhandled := hbody.handle c t
      simp only [acceptLoop, Race.poll, hpoll]
      cases hh : body.handle c t with
      | mk spawned u =>
        rw [hh] at hhandled
        cases spawned with
        | ok => exact hhandled.grows.trans (grows_acceptLoop hbody w fuel u)
        | error e => exact hhandled.grows
  have hlen := (hgrows.trans hrest).accepted.length_le
  intro heq
  rw [heq, length_append] at hlen
  exact absurd hlen (Nat.not_succ_le_self _)

namespace Serving
variable [DecidableEq W] {loop : AcceptLoop C S} {s t : Serving C E S W} {e : ServeEvent C E W}
  {evs : List (ServeEvent C E W)} {w : W} {calls : Nat} {faults : List (AcceptFault E)}

def Interrupted : ServeEvent C E W → Prop
  | .poll _ calls faults | .resume calls faults => AllInterrupted calls faults
  | _ => True

/-- The accept phase is over, or its poll goes on after nothing but interrupted
accept calls. -/
def Leaves (t : Serving C E S W) (evs : List (ServeEvent C E W)) : Prop :=
  (∃ how, t.status = .left how) ∨ t.status = .polling ∧ ∀ e ∈ evs, Interrupted e

/-- A poll begins, or goes on, with a connection for its accept calls. -/
def Meets (s : Serving C E S W) : ServeEvent C E W → Prop
  | .poll _ calls faults | .resume calls faults => { s.server with calls, faults }.Finds
  | _ => False

def Quiet (loop : AcceptLoop C S) : Serving C E S W → List (ServeEvent C E W) → Prop
  | _, [] => True
  | s, e :: evs => ¬ s.Meets e ∧ ∀ u, s.step loop e = some u → Quiet loop u evs

theorem step_cases (h : s.step loop e = some t) :
    (∃ w calls faults, (e = .poll w calls faults ∧ s.status = .idle ∨
        e = .resume calls faults ∧ s.status = .polling) ∧ t = s.advance loop w calls faults) ∨
      t.status = s.status ∧ Kept s.server t.server ∧ ¬ s.Meets e ∧ Interrupted e ∧
        ∀ w calls faults, e ≠ .poll w calls faults := by
  cases e with
  | stop =>
    cases h
    exact .inr ⟨rfl, ⟨rfl, fun _ => Signal.raise_raised _⟩, id, trivial, nofun⟩
  | handlerFailed | readable | handlerDone | arrive =>
    cases h
    exact .inr ⟨rfl, ⟨rfl, id⟩, id, trivial, nofun⟩
  | poll w calls faults =>
    obtain ⟨hidle, rfl⟩ := guarded h
    refine .inl ⟨w, calls, faults, .inl ⟨rfl, ?_⟩, rfl⟩
    revert hidle
    cases s.status <;> simp
  | resume calls faults =>
    obtain ⟨hpolling, h⟩ := ite_none_right_eq_some.mp h
    obtain ⟨w, _, rfl⟩ := map_eq_some_iff.mp h
    refine .inl ⟨w, calls, faults, .inr ⟨rfl, ?_⟩, rfl⟩
    revert hpolling
    cases s.status <;> simp

theorem step_grows (h : s.step loop e = some t) : Grows s.server t.server := by
  rcases step_cases h with ⟨w, calls, faults, _, rfl⟩ | ⟨_, hkept, _⟩
  · have hgrows := grows_acceptLoop loop.stopAware w (calls + 1) { s.server with calls, faults }
    exact ⟨hgrows.accepted, hgrows.raised⟩
  · exact hkept.grows

theorem run_grows (h : run (step loop) s evs = some t) : Grows s.server t.server := by
  induction evs generalizing s with
  | nil =>
    cases h
    exact (Kept.refl _).grows
  | cons e evs ih =>
    obtain ⟨u, hu, hrest⟩ := bind_eq_some_iff.mp h
    exact (step_grows hu).trans (ih hrest)

/-- A poll that meets a connection accepts it. -/
theorem step_of_meets (h : s.step loop e = some t) (hmeets : s.Meets e) :
    t.server.accepted ≠ s.server.accepted := by
  rcases step_cases h with ⟨w, calls, faults, he, rfl⟩ | ⟨_, _, hnot, _⟩
  · have hfinds : { s.server with calls, faults }.Finds := by
      rcases he with ⟨rfl, _⟩ | ⟨rfl, _⟩ <;> exact hmeets
    exact acceptLoop_of_finds loop.stopAware w calls _ hfinds
  · exact absurd hmeets hnot

/-- Once the stop is raised, a poll that meets no connection leaves, unless all its
accept calls are interrupted. -/
theorem step_of_not_meets (h : s.step loop e = some t) (hstop : s.server.stop.raised = true)
    (hnot : ¬ s.Meets e) :
    t.server.accepted = s.server.accepted ∧
      ((∃ how, t.status = .left how) ∨ Interrupted e ∧
        (t.status = .polling ∧ (∀ how, s.status ≠ .left how) ∨
          t.status = s.status ∧ ∀ w calls faults, e ≠ .poll w calls faults)) := by
  rcases step_cases h with ⟨w, calls, faults, he, rfl⟩ | ⟨hstatus, hkept, _, hinterrupted, hpoll⟩
  · have hfinds : ¬ { s.server with calls, faults }.Finds := by
      rcases he with ⟨rfl, _⟩ | ⟨rfl, _⟩ <;> exact hnot
    rcases acceptLoop_of_not_finds loop.stopAware w calls { s.server with calls, faults } hstop
      hfinds with
      ⟨how, u, hu, hkept⟩ | ⟨⟨u, hu, hkept⟩, hall⟩
    · refine ⟨?_, .inl ⟨how, by simp only [advance, hu]⟩⟩
      simp only [advance, hu]
      exact hkept.accepted
    · refine ⟨?_, .inr ⟨?_, .inl ⟨by simp only [advance, hu], fun how hleft => ?_⟩⟩⟩
      · simp only [advance, hu]
        exact hkept.accepted
      · rcases he with ⟨rfl, _⟩ | ⟨rfl, _⟩ <;> exact hall
      · rcases he with ⟨_, hs⟩ | ⟨_, hs⟩ <;> cases hs.symm.trans hleft
  · exact ⟨hkept.accepted, .inr ⟨hinterrupted, .inr ⟨hstatus, hpoll⟩⟩⟩

theorem quiet_of_run (h : run (step loop) s evs = some t)
    (heq : t.server.accepted = s.server.accepted) : Quiet loop s evs := by
  induction evs generalizing s with
  | nil => trivial
  | cons e evs ih =>
    obtain ⟨u, hu, hrest⟩ := bind_eq_some_iff.mp h
    have hbefore := (step_grows hu).accepted
    have hafter := (run_grows hrest).accepted
    rw [heq] at hafter
    have hsame : u.server.accepted = s.server.accepted := hafter.eq_of_length_le hbefore.length_le
    refine ⟨fun hmeets => step_of_meets hu hmeets hsame, fun v hv => ?_⟩
    cases hu.symm.trans hv
    exact ih hrest (heq.trans hsame.symm)

/-- A run of a stopped task that has met no connection: it has left, or its accept calls
were all interrupted and it is within its first poll or has not been polled. -/
def Stopped (s : Serving C E S W) (evs : List (ServeEvent C E W)) : Prop :=
  (∃ how, s.status = .left how) ∨ (∀ e ∈ evs, Interrupted e) ∧
    (s.status = .polling ∨ s.status = .idle ∧ ∀ w calls faults, .poll w calls faults ∉ evs)

theorem Stopped.step {before : List (ServeEvent C E W)} (hs : s.Stopped before)
    (h : s.step loop e = some t) (hstop : s.server.stop.raised = true) (hnot : ¬ s.Meets e) :
    t.Stopped (before ++ [e]) := by
  rcases (step_of_not_meets h hstop hnot).2 with hleft | ⟨hinterrupted, hstatus⟩
  · exact .inl hleft
  rcases hs with ⟨how, hs⟩ | ⟨hbefore, hs⟩
  · rcases hstatus with ⟨_, hnever⟩ | ⟨hsame, _⟩
    · exact absurd hs (hnever how)
    · exact .inl ⟨how, hsame.trans hs⟩
  · refine .inr ⟨?_, ?_⟩
    · intro e' he'
      rcases mem_append.mp he' with he' | he'
      · exact hbefore e' he'
      · exact mem_singleton.mp he' ▸ hinterrupted
    · rcases hstatus with ⟨hpolling, _⟩ | ⟨hsame, hpoll⟩
      · exact .inl hpolling
      · refine hs.imp hsame.trans fun ⟨hidle, hnone⟩ => ⟨hsame.trans hidle, ?_⟩
        intro w calls faults hmem
        rcases mem_append.mp hmem with hmem | hmem
        · exact hnone w calls faults hmem
        · exact hpoll w calls faults (mem_singleton.mp hmem).symm

theorem run_of_quiet {before : List (ServeEvent C E W)} (h : run (step loop) s evs = some t)
    (hstop : s.server.stop.raised = true) (hs : s.Stopped before) (hq : Quiet loop s evs) :
    t.server.accepted = s.server.accepted ∧ t.Stopped (before ++ evs) := by
  induction evs generalizing s before with
  | nil =>
    cases h
    exact ⟨rfl, by simpa using hs⟩
  | cons e evs ih =>
    obtain ⟨u, hu, hrest⟩ := bind_eq_some_iff.mp h
    obtain ⟨haccepted, hstopped⟩ :=
      ih hrest ((step_grows hu).raised hstop) (hs.step hu hstop hq.1) (hq.2 u hu)
    refine ⟨haccepted.trans (step_of_not_meets hu hstop hq.1).1, ?_⟩
    simpa [append_assoc] using hstopped

/-- After the stop the loop accepts no further connection and its next poll leaves the accept phase,
exactly if the backlog has no connection to give whenever the loop is polled. -/
theorem stop_precedes_accept_iff (loop : AcceptLoop C S) {s t : Serving C E S W}
    {evs : List (ServeEvent C E W)} (hstop : s.server.stop.raised = true) (hidle : s.status = .idle)
    (h : run (step loop) s evs = some t) :
    (t.server.accepted = s.server.accepted ∧
      ((∃ w calls faults, .poll w calls faults ∈ evs) → t.Leaves evs)) ↔ Quiet loop s evs := by
  constructor
  · intro hclaim
    exact quiet_of_run h hclaim.1
  · intro hq
    have hs : s.Stopped [] := .inr ⟨nofun, .inr ⟨hidle, nofun⟩⟩
    obtain ⟨haccepted, hstopped⟩ := run_of_quiet h hstop hs hq
    refine ⟨haccepted, fun ⟨w, calls, faults, hpoll⟩ => ?_⟩
    rcases hstopped with hleft | ⟨hall, hpolling | ⟨_, hnone⟩⟩
    · exact .inl hleft
    · exact .inr ⟨hpolling, hall⟩
    · exact absurd hpoll (hnone w calls faults)

private def plainLoop : AcceptLoop Nat Unit := .untilStopped fun _ => .ok ()

private def stoppedServer : Serving Nat Unit Unit Nat :=
  (run (step plainLoop) (new 0) [.poll 0 1 [], .stop]).get (by decide +kernel)

/-- A client connects after the stop, but the reactor has not reported the listener
readable when the task is polled. -/
theorem stopped_loop_leaves :
    ∃ t : Serving Nat Unit Unit Nat,
      run (step plainLoop) stoppedServer [.arrive 1 (.ok ()), .poll 0 1 []] = some t ∧
      t.server.accepted = stoppedServer.server.accepted ∧
      t.Leaves [.arrive 1 (.ok ()), .poll 0 1 []] := by
  have hsome : (run (step plainLoop) stoppedServer
      [.arrive 1 (.ok ()), .poll 0 1 []]).isSome := by decide +kernel
  obtain ⟨t, ht⟩ := isSome_iff_exists.mp hsome
  have hquiet : Quiet plainLoop stoppedServer [.arrive 1 (.ok ()), .poll 0 1 []] := by
    refine ⟨id, fun u hu => ⟨fun ⟨_, hready, _⟩ => ?_, fun _ _ => trivial⟩⟩
    cases hu
    exact absurd (hready (by decide +kernel)) (by decide +kernel)
  obtain ⟨haccepted, hleaves⟩ := (stop_precedes_accept_iff plainLoop (s := stoppedServer)
    (by decide +kernel) (by decide +kernel) ht).mpr hquiet
  exact ⟨t, ht, haccepted, hleaves ⟨0, 1, [], by simp⟩⟩

/-- Two clients connect after the stop and the task is polled: it accepts both, and the
poll goes on. -/
theorem stopped_loop_accepts :
    Reachable (step plainLoop) (new 0) stoppedServer ∧
      stoppedServer.server.stop.raised = true ∧ stoppedServer.status = .idle ∧
      ∃ t : Serving Nat Unit Unit Nat, run (step plainLoop) stoppedServer
          [.arrive 1 (.ok ()), .arrive 2 (.ok ()), .readable, .poll 0 2 []] = some t ∧
        t.server.accepted = [1, 2] ∧ t.status = .polling := by
  have hrun : (run (step plainLoop) stoppedServer
      [.arrive 1 (.ok ()), .arrive 2 (.ok ()), .readable, .poll 0 2 []]).map
      (fun t => (t.server.accepted, t.status)) = some ([1, 2], .polling) := by decide +kernel
  obtain ⟨t, ht, hfacts⟩ := map_eq_some_iff.mp hrun
  obtain ⟨haccepted, hstatus⟩ := Prod.mk.inj hfacts
  exact ⟨reachable_of_run [.poll 0 1 [], .stop] (some_get _).symm,
    by decide +kernel, by decide +kernel, t, ht, haccepted, hstatus⟩

end Serving
end Sitas.Tcp
