import Sitas.Runtime.Sharded

namespace Sitas.Runtime
open Sitas.Lib List Option

/-- The methods that check for a stopped service before anything else. -/
def Method.checks {C : Type} : Method C → Bool
  | .sendAll _ | .trySendAll _ => false
  | _ => true

namespace Sharded
variable {S C V : Type} {service : ShardService S C V} {s t : Sharded S C V}

theorem enter_of_stopped {method : Method C} (h : s.stopped = true)
    (hchecks : method.checks = true) : s.enter method = .returned (.error .shardStopped) := by
  have hrunning : s.ensureRunning = .error .shardStopped := if_pos h
  have hshard : ∀ id, s.shard id = .error .shardStopped := fun id => by
    rw [shard, hrunning]
    rfl
  cases method with
  | sendAll make | trySendAll make => cases hchecks
  | requestAll request => simp only [enter, hrunning]
  | shardHandle id => simp only [enter, hshard]
  | send id command | trySend id command | request id build | tryRequest id build
  | requestStopped id build => simp only [enter, enter.submitTo, hshard]

/-- What a step of a call changes: its own phase, and the logs for itself. -/
structure ClientStep (s : Sharded S C V) (id : Nat) (t : Sharded S C V) : Prop where
  call : ∃ call phase, s.calls[id]? = some call ∧ call.result = none ∧
    t.calls = s.calls.modify id fun call => { call with phase }
  stopped : t.stopped = s.stopped
  shutdown : t.shutdown = s.shutdown
  results : t.results = s.results
  invoked : t.invoked = s.invoked ∨ t.invoked = s.invoked ++ [id]
  enqueued : t.enqueued = s.enqueued ∨ t.enqueued = s.enqueued ++ [id]

variable {id n : Nat} {event : ShardedEvent C}

theorem client_step (hst : s.client service id = some t) : ClientStep s id t := by
  obtain ⟨call, hcall, hst⟩ := bind_eq_some_iff.mp hst
  have hresult : call.result = none := by
    rw [ServiceCall.result]
    split
    next hphase =>
      rw [hphase] at hst
      cases hst
    · rfl
  split at hst
  · cases hst
    exact ⟨⟨call, _, hcall, hresult, rfl⟩, rfl, rfl, rfl, .inl rfl, .inl rfl⟩
  · cases hst
    rw [submit]
    split
    · exact ⟨⟨call, _, hcall, hresult, rfl⟩, rfl, rfl, rfl, .inl rfl, .inl rfl⟩
    all_goals exact ⟨⟨call, _, hcall, hresult, rfl⟩, rfl, rfl, rfl, .inr rfl, .inl rfl⟩
  · obtain ⟨sh, -, hst⟩ := bind_eq_some_iff.mp hst
    split at hst
    · cases hst
      exact ⟨⟨call, _, hcall, hresult, rfl⟩, rfl, rfl, rfl, .inl rfl, .inl rfl⟩
    · split at hst
      · cases hst
        exact ⟨⟨call, _, hcall, hresult, rfl⟩, rfl, rfl, rfl, .inl rfl, .inr rfl⟩
      · split at hst <;> cases hst
        exact ⟨⟨call, _, hcall, hresult, rfl⟩, rfl, rfl, rfl, .inl rfl, .inl rfl⟩
  · obtain ⟨cell, -, hst⟩ := bind_eq_some_iff.mp hst
    split at hst <;> cases hst <;>
      exact ⟨⟨call, _, hcall, hresult, rfl⟩, rfl, rfl, rfl, .inl rfl, .inl rfl⟩
  · cases hst

/-- A step of a shard thread or of `shutdown` changes nothing of the calls and their logs. -/
structure OwnStep (s t : Sharded S C V) : Prop where
  calls : t.calls = s.calls
  stopped : s.stopped = true → t.stopped = true
  invoked : t.invoked = s.invoked
  enqueued : t.enqueued = s.enqueued

theorem recv_step {shard : Nat} (hst : s.recv service shard = some t) :
    OwnStep s t ∧ t.stopped = s.stopped ∧ t.shutdown = s.shutdown ∧ t.results = s.results := by
  obtain ⟨sh, -, hst⟩ := bind_eq_some_iff.mp hst
  split at hst
  · split at hst
    · cases hst
      exact ⟨⟨rfl, id, rfl, rfl⟩, rfl, rfl, rfl⟩
    · split at hst <;> cases hst <;> exact ⟨⟨rfl, id, rfl, rfl⟩, rfl, rfl, rfl⟩
  · cases hst

def Flagged (s : Sharded S C V) : Prop :=
  (s.shutdown ≠ .idle ∨ s.results ≠ []) → s.stopped = true

theorem begin_step (hst : s.begin = some t) : OwnStep s t ∧ Flagged t := by
  unfold begin at hst
  split at hst
  · cases hst
  · split at hst
    · cases hst
      exact ⟨⟨rfl, id, rfl, rfl⟩, fun _ => ‹_›⟩
    · cases hst
      exact ⟨⟨rfl, fun _ => rfl, rfl, rfl⟩, fun _ => rfl⟩

theorem proceed_step (hst : s.proceed service = some t) :
    OwnStep s t ∧ t.stopped = s.stopped ∧ s.shutdown ≠ .idle := by
  have hbusy : s.shutdown ≠ .idle := by
    intro hidle
    rw [proceed, hidle] at hst
    cases hst
  rw [proceed] at hst
  split at hst
  · cases hst
  · split at hst <;> cases hst <;> exact ⟨⟨rfl, id, rfl, rfl⟩, rfl, hbusy⟩
  · obtain ⟨sh, -, hst⟩ := bind_eq_some_iff.mp hst
    split at hst
    · cases hst
      exact ⟨⟨rfl, id, rfl, rfl⟩, rfl, hbusy⟩
    · obtain ⟨-, rfl⟩ := guarded hst
      exact ⟨⟨rfl, id, rfl, rfl⟩, rfl, hbusy⟩
  · obtain ⟨cell, -, hst⟩ := bind_eq_some_iff.mp hst
    split at hst <;> cases hst <;> exact ⟨⟨rfl, id, rfl, rfl⟩, rfl, hbusy⟩
  · cases hst
    exact ⟨⟨rfl, id, rfl, rfl⟩, rfl, hbusy⟩
  · obtain ⟨sh, -, hst⟩ := bind_eq_some_iff.mp hst
    split at hst <;> cases hst
    exact ⟨⟨rfl, id, rfl, rfl⟩, rfl, hbusy⟩

theorem Flagged.step (h : Flagged s) (hst : s.step service event = some t) : Flagged t := by
  cases event with
  | call method =>
    obtain ⟨-, rfl⟩ := guarded hst
    exact h
  | client id =>
    have hclient := client_step hst
    rw [Flagged, hclient.shutdown, hclient.results, hclient.stopped]
    exact h
  | recv shard =>
    obtain ⟨-, hstopped, hshutdown, hresults⟩ := recv_step hst
    rw [Flagged, hshutdown, hresults, hstopped]
    exact h
  | shutdown => exact (begin_step hst).2
  | proceed =>
    obtain ⟨-, hstopped, hbusy⟩ := proceed_step hst
    exact fun _ => hstopped.trans (h (.inl hbusy))

structure Logged (s : Sharded S C V) : Prop where
  invoked : ∀ id ∈ s.invoked, id < s.calls.length
  enqueued : ∀ id ∈ s.enqueued, id < s.calls.length

theorem ClientStep.mem_log {log log' : List Nat} (hlog : log' = log ∨ log' = log ++ [id]) (j : Nat)
    (hj : j ∈ log') : j ∈ log ∨ j = id := by
  rcases hlog with rfl | rfl
  · exact .inl hj
  · simpa using hj

theorem Logged.step (h : Logged s) (hst : s.step service event = some t) : Logged t := by
  have hown : OwnStep s t → Logged t := by
    rintro ⟨hcalls, -, hinvoked, henqueued⟩
    refine ⟨?_, ?_⟩
    · rw [hcalls, hinvoked]
      exact h.invoked
    · rw [hcalls, henqueued]
      exact h.enqueued
  cases event with
  | call method =>
    obtain ⟨-, rfl⟩ := guarded hst
    refine ⟨fun id hid => ?_, fun id hid => ?_⟩ <;> rw [length_append]
    · exact Nat.lt_of_lt_of_le (h.invoked id hid) (Nat.le_add_right _ _)
    · exact Nat.lt_of_lt_of_le (h.enqueued id hid) (Nat.le_add_right _ _)
  | client id =>
    have hclient := client_step hst
    obtain ⟨call, phase, hcall, -, hcalls⟩ := hclient.call
    have hlength : t.calls.length = s.calls.length := by rw [hcalls, length_modify]
    have hlt : id < s.calls.length := (List.getElem?_eq_some_iff.mp hcall).1
    refine ⟨fun j hj => ?_, fun j hj => ?_⟩ <;> rw [hlength]
    · rcases ClientStep.mem_log hclient.invoked j hj with hmem | rfl
      · exact h.invoked j hmem
      · exact hlt
    · rcases ClientStep.mem_log hclient.enqueued j hj with hmem | rfl
      · exact h.enqueued j hmem
      · exact hlt
  | recv shard => exact hown (recv_step hst).1
  | shutdown => exact hown (begin_step hst).1
  | proceed => exact hown (proceed_step hst).1

/-- The calls with these numbers or higher were refused: those of the methods that check
returned that the service is stopped, without a closure invoked or a command enqueued. -/
structure Refused (n : Nat) (s : Sharded S C V) : Prop where
  stopped : s.stopped = true
  logged : Logged s
  refused : ∀ (id : Nat) c, n ≤ id → s.calls[id]? = some c → c.method.checks = true →
    c.phase = .returned (.error .shardStopped) ∧ id ∉ s.invoked ∧ id ∉ s.enqueued

theorem Refused.client (h : Refused n s) (hlogged : Logged t) (hstep : ClientStep s id t) :
    Refused n t := by
  obtain ⟨call, phase, hcall, hresult, hcalls⟩ := hstep.call
  refine ⟨hstep.stopped.trans h.stopped, hlogged, fun j c hj hc hchecks => ?_⟩
  rw [hcalls, getElem?_modify, Option.map_eq_map] at hc
  obtain ⟨before, hbefore, hc⟩ := map_eq_some_iff.mp hc
  by_cases hid : id = j
  · subst hid
    rw [if_pos rfl] at hc
    cases hcall.symm.trans hbefore
    subst hc
    obtain ⟨hphase, -⟩ := h.refused id call hj hcall hchecks
    rw [ServiceCall.result, hphase] at hresult
    cases hresult
  · rw [if_neg hid] at hc
    cases hc
    obtain ⟨hphase, hinvoked, henqueued⟩ := h.refused j c hj hbefore hchecks
    refine ⟨hphase, fun hmem => ?_, fun hmem => ?_⟩
    · rcases ClientStep.mem_log hstep.invoked j hmem with hmem | rfl
      · exact hinvoked hmem
      · exact hid rfl
    · rcases ClientStep.mem_log hstep.enqueued j hmem with hmem | rfl
      · exact henqueued hmem
      · exact hid rfl

theorem Refused.call (h : Refused n s) {method : Method C}
    (hlogged : Logged { s with calls := s.calls ++ [⟨method, s.enter method⟩] }) :
    Refused n { s with calls := s.calls ++ [⟨method, s.enter method⟩] } := by
  refine ⟨h.stopped, hlogged, fun id c hn hc hchecks => ?_⟩
  by_cases hlt : id < s.calls.length
  · rw [getElem?_append_left hlt] at hc
    exact h.refused id c hn hc hchecks
  · rw [getElem?_append_right (Nat.le_of_not_lt hlt)] at hc
    cases mem_singleton.mp (mem_of_getElem? hc)
    exact ⟨enter_of_stopped h.stopped hchecks, fun hmem => hlt (h.logged.invoked id hmem),
      fun hmem => hlt (h.logged.enqueued id hmem)⟩

theorem Refused.step (h : Refused n s) (hst : s.step service event = some t) : Refused n t := by
  have hlogged := h.logged.step hst
  have hown : OwnStep s t → Refused n t := by
    rintro ⟨hcalls, hstopped, hinvoked, henqueued⟩
    refine ⟨hstopped h.stopped, hlogged, ?_⟩
    rw [hcalls, hinvoked, henqueued]
    exact h.refused
  cases event with
  | call method =>
    obtain ⟨-, rfl⟩ := guarded hst
    exact h.call hlogged
  | client id => exact h.client hlogged (client_step hst)
  | recv shard => exact hown (recv_step hst).1
  | shutdown => exact hown (begin_step hst).1
  | proceed => exact hown (proceed_step hst).1

/-- After `shutdown` has returned every later call of a method other than `send_all` and
`try_send_all` returns that the service is stopped, invokes no closure and puts nothing into a
mailbox. -/
theorem checked_methods_refuse_after_shutdown (service : ShardService S C V)
    (shardCount capacity : Nat)
    (h : Reachable (step service) (start service shardCount capacity) s)
    (hreturned : s.results ≠ []) (hrun : Reachable (step service) s t) (id : Nat) (c : ServiceCall C V)
    (hnew : s.calls.length ≤ id) (hcall : t.calls[id]? = some c)
    (hchecks : c.method.checks = true) :
    c.phase = .returned (.error .shardStopped) ∧ id ∉ t.invoked ∧ id ∉ t.enqueued := by
  have hflagged : Flagged s := by
    refine h.invariant (fun hnot => ?_) fun _ _ _ hs _ hst => hs.step hst
    rcases hnot with hnot | hnot
    · exact absurd rfl hnot
    · exact absurd rfl hnot
  have hlogged : Logged s := by
    refine h.invariant ⟨fun _ hid => ?_, fun _ hid => ?_⟩ fun _ _ _ hs _ hst => hs.step hst
    · cases hid
    · cases hid
  have hstart : Refused s.calls.length s := by
    refine ⟨hflagged (.inr hreturned), hlogged, fun j c hj hc => ?_⟩
    exact absurd (List.getElem?_eq_some_iff.mp hc).1 (Nat.not_lt.mpr hj)
  have hrefused : Refused s.calls.length t :=
    hrun.invariant hstart fun _ _ _ hs _ hst => hs.step hst
  exact hrefused.refused id c hnew hcall hchecks

/-- A service whose commands are a reply channel, with a flag for the stop command. -/
private def echo : ShardService Unit (Bool × Nat) Unit where
  initialState := fun _ => ()
  process := fun _ command => some ⟨(), [(command.2, some ())], !command.1⟩
  stopCommand := fun reply => (true, reply)
  senders := fun command => [command.2]
  held := fun _ => []

private def shutdownCalls : List (ShardedEvent (Bool × Nat)) :=
  [.shutdown, .proceed, .proceed, .recv 0, .proceed, .proceed, .proceed, .proceed]

private def stoppedEcho : Sharded Unit (Bool × Nat) Unit :=
  (run (step echo) (start echo 1 1) shutdownCalls).get (by decide +kernel)

private def refusedEcho : Sharded Unit (Bool × Nat) Unit :=
  (run (step echo) stoppedEcho [.call (.request 0 fun reply => (false, reply))]).get
    (by decide +kernel)

theorem request_refused_after_shutdown :
    stoppedEcho.results = [.ok ()] ∧
    ∃ c, refusedEcho.calls[0]? = some c ∧ c.phase = .returned (.error .shardStopped) ∧
      0 ∉ refusedEcho.invoked ∧ 0 ∉ refusedEcho.enqueued :=
  ⟨by decide +kernel, _, rfl, checked_methods_refuse_after_shutdown echo 1 1
    (reachable_of_run shutdownCalls (some_get _).symm) (by decide +kernel)
    (reachable_of_run _ (some_get _).symm) 0 _ (by decide +kernel) rfl rfl⟩

private def sentToAll : Sharded Unit (Bool × Nat) Unit :=
  (run (step echo) stoppedEcho
    [.call (.sendAll fun shard => (false, shard)), .client 0, .client 0]).get (by decide +kernel)

/-- After `shutdown` has returned, `send_all` invokes the closure of its caller and reports
that the send failed. -/
theorem send_all_after_shutdown_invokes_closure :
    stoppedEcho.shutdown = .idle ∧ stoppedEcho.results = [.ok ()] ∧
    stoppedEcho.invoked = [] ∧ sentToAll.invoked = [0] ∧
    sentToAll.calls.map ServiceCall.result = [some (.error .sendFailed)] :=
  ⟨by decide +kernel, by decide +kernel, by decide +kernel, by decide +kernel, by decide +kernel⟩

end Sharded
end Sitas.Runtime
