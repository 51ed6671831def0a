import Sitas.Kv.Lifecycle
import Sitas.Kv.Progress

namespace Sitas.Kv
open Sitas.Lib Sitas.Runtime List ShardedKv KvLifecycle KvShard Option

variable {K V : Type}

/-- A reply handle that has not been waited for to the end, or that has given its value. -/
def Phase.Handle (phase : Phase K V) : Prop :=
  (∃ pending total, phase = .waiting pending total) ∨ ∃ result, phase = .returned (.ok result)

def LifecycleEvent.continues : LifecycleEvent K V → Prop
  | .store e => e.continues
  | .proceed => True
  | .shutdown | .panic _ => False

def LifecycleEvent.panics : LifecycleEvent K V → Prop
  | .panic _ => True
  | .store _ | .shutdown | .proceed => False

def KvShard.alive (sh : KvShard K V) : Nat :=
  match sh.thread with
  | .receiving | .replying _ _ _ => 1
  | .stopped => 0

/-- The steps that a `shutdown` of a number of shards has still to take, and those that its
stop commands cause. -/
def ShutdownPhase.weight (shards : Nat) : ShutdownPhase → Nat
  | .idle => 0
  | .stopping i _ => 6 * (shards - i) + shards + 2
  | .sending i _ _ => 6 * (shards - i) + shards + 1
  | .awaiting i _ _ => 6 * (shards - (i + 1)) + shards + 3
  | .joining threads _ _ => threads.length + 1

namespace KvLifecycle

def weight (s : KvLifecycle K V) : Nat :=
  s.kv.weight + (s.kv.shards.map KvShard.alive).sum + s.shutdown.weight s.kv.shardCount

variable {s t : KvLifecycle K V} {id : Nat} {call : Call K V}

theorem weight_panic {i : Nat} (hst : s.panic i = some t) : t.weight < s.weight := by
  obtain ⟨sh, hsh, hrun, rfl⟩ := panic_cases hst
  have hweight := sum_map_set KvShard.weight (y := ⟨[], sh.service, .stopped⟩) hsh
  have halive := sum_map_set KvShard.alive (y := ⟨[], sh.service, .stopped⟩) hsh
  have hbefore : sh.alive = 1 := by
    cases hthread : sh.thread with
    | receiving | replying => rw [KvShard.alive, hthread]
    | stopped => exact absurd hthread hrun
  have hafter : (⟨[], sh.service, .stopped⟩ : KvShard K V).weight = 0 ∧
      (⟨[], sh.service, .stopped⟩ : KvShard K V).alive = 0 := ⟨rfl, rfl⟩
  have hcount : (s.kv.die i sh).shardCount = s.kv.shardCount := length_set
  simp only [weight, hcount]
  rw [ShardedKv.die_eq]
  simp only [ShardedKv.weight]
  omega

section Proceed
variable {i reply : Nat} {result : Except ShardError Unit}

private theorem weight_phase {phase : ShutdownPhase} (hcount : t.kv.shardCount = s.kv.shardCount)
    (hshutdown : s.shutdown = phase) {n : Nat}
    (hkv : t.kv.weight + (t.kv.shards.map alive).sum =
      s.kv.weight + (s.kv.shards.map alive).sum + n)
    (hlt : t.shutdown.weight s.kv.shardCount + n < phase.weight s.kv.shardCount) :
    t.weight < s.weight := by
  simp only [weight, hcount, hshutdown]
  omega

theorem sendStop_cases (hst : s.sendStop i reply result = some t) :
    ∃ sh, s.kv.shards[i]? = some sh ∧
      (t = s.report (s.kv.dropSender reply) i (.error .shardStopped) (.error .shardStopped) ∨
        t = { s with kv := s.kv.push i (.stop i) reply, shutdown := .awaiting i reply result }) := by
  obtain ⟨sh, hsh, hst⟩ := bind_eq_some_iff.mp hst
  refine ⟨sh, hsh, ?_⟩
  split at hst
  · cases hst
    exact .inl rfl
  all_goals
    split at hst <;> cases hst
    exact .inr rfl

theorem awaitStop_cases (hst : s.awaitStop i reply result = some t) :
    ∃ kv reported result', kv.calls = s.kv.calls ∧ kv.shards = s.kv.shards ∧
      t = s.report kv i reported result' := by
  obtain ⟨cell, _, hst⟩ := bind_eq_some_iff.mp hst
  split at hst
  · cases hst
  · cases hst
    exact ⟨_, _, _, rfl, rfl, rfl⟩
  · cases hst
    exact ⟨s.kv.modifyCell reply _, _, _, rfl, rfl, rfl⟩

theorem join_cases {threads : List Nat} {joined : Except ShardError Unit}
    (hst : s.join i threads result joined = some t) : ∃ joined' joins',
      t = { s with joined := joined', shutdown := .joining threads result joins' } := by
  obtain ⟨sh, _, hst⟩ := bind_eq_some_iff.mp hst
  split at hst
  · cases hst
    exact ⟨_, _, rfl⟩
  · cases hst
  · cases hst

private theorem weight_sendStop (hlt : i < s.kv.shardCount)
    (hshutdown : s.shutdown = .sending i reply result) (hst : s.sendStop i reply result = some t) :
    t.weight < s.weight := by
  obtain ⟨sh, hsh, rfl | rfl⟩ := sendStop_cases hst
  · refine weight_phase rfl hshutdown (n := 0) rfl ?_
    simp only [report, ShutdownPhase.weight]
    omega
  · have hshards := sum_map_modify KvShard.weight
      (g := fun sh => { sh with mailbox := sh.mailbox ++ [⟨.stop, reply⟩] }) hsh
    have hmailbox : ({ sh with mailbox := sh.mailbox ++ [⟨.stop, reply⟩] } :
        KvShard K V).weight = sh.weight + 2 := by
      simp only [KvShard.weight, length_append, length_singleton]
      omega
    have halive : ((s.kv.push i (.stop i) reply).shards.map KvShard.alive).sum =
        (s.kv.shards.map KvShard.alive).sum := congrArg sum (map_modify_of fun _ => rfl)
    refine weight_phase (length_modify ..) hshutdown (n := 2) ?_ ?_
    · rw [halive]
      simp only [ShardedKv.weight, ShardedKv.push, ShardedKv.modifyCell, KvRequest.command]
      omega
    · simp only [ShutdownPhase.weight]
      omega

private theorem weight_awaitStop (hshutdown : s.shutdown = .awaiting i reply result)
    (hst : s.awaitStop i reply result = some t) : t.weight < s.weight := by
  obtain ⟨kv, reported, result', hcalls, hshards, rfl⟩ := awaitStop_cases hst
  refine weight_phase (congrArg length hshards) hshutdown (n := 0) ?_ ?_
  · simp only [report, ShardedKv.weight, hcalls, hshards, Nat.add_zero]
  · simp only [report, ShutdownPhase.weight]
    omega

variable [LinearOrder K] [DecidableEq V]

theorem weight_proceed (h : Draining s) (hst : s.proceed = some t) : t.weight < s.weight := by
  have hadvance : s.shutdown ≠ .idle → s.Advance s.shutdown := fun hne =>
    h.advance (h.stopped_of hne)
  rw [proceed] at hst
  split at hst
  next => cases hst
  next i result hshutdown =>
    rw [hshutdown] at hadvance
    obtain ⟨hle, hreached, _⟩ := hadvance (by simp)
    split at hst <;> cases hst <;> refine weight_phase rfl hshutdown (n := 0) rfl ?_
    · simp only [ShutdownPhase.weight]
      omega
    · simp only [ShutdownPhase.weight, hreached.joins, length_range]
      omega
  next hshutdown =>
    rw [hshutdown] at hadvance
    exact weight_sendStop (hadvance (by simp)).1 hshutdown hst
  next hshutdown => exact weight_awaitStop hshutdown hst
  next hshutdown =>
    cases hst
    exact weight_phase rfl hshutdown (n := 0) rfl (Nat.zero_lt_one)
  next hshutdown =>
    obtain ⟨_, _, rfl⟩ := join_cases hst
    exact weight_phase rfl hshutdown (n := 0) rfl (Nat.lt_succ_self _)

end Proceed

variable [LinearOrder K] [DecidableEq V]

theorem weight_store {e : Event K V} (he : e.continues) (hst : s.step (.store e) = some t) :
    t.weight < s.weight := by
  obtain ⟨kv, hkv, rfl⟩ := store_cases hst
  have hlt := weight_lt he hkv
  have hfixed : (kv.shards.map alive).sum ≤ (s.kv.shards.map alive).sum ∧
      kv.shardCount = s.kv.shardCount := by
    cases e with
    | call => exact he.elim
    | client id =>
      obtain ⟨call, _, hstep⟩ := client_cases hkv
      cases hstep with
      | submitted | unroutable | opened | refused | finished | failed | received =>
        exact ⟨le_rfl, rfl⟩
      | sent =>
        exact ⟨Nat.le_of_eq (congrArg sum (map_modify_of fun _ => rfl)),
          length_modify ..⟩
    | recv i =>
      obtain ⟨sh, q, mailbox, hsh, hthread, _, rfl⟩ := recv_cases hkv
      refine ⟨Nat.le_of_eq (congrArg sum (map_set_of hsh ?_)), length_set⟩
      rw [alive, alive, hthread]
    | reply i =>
      obtain ⟨sh, reply, value, stop, hsh, hthread, rfl⟩ := sendReply_spec hkv
      have hsum := sum_map_set alive (y := sh.answered stop) hsh
      have hbefore : sh.alive = 1 := by rw [alive, hthread]
      have hafter : (sh.answered stop).alive ≤ 1 := by
        cases stop with
        | true => exact Nat.zero_le _
        | false => exact le_rfl
      refine ⟨?_, length_set⟩
      change ((s.kv.shards.set i (sh.answered stop)).map alive).sum ≤ _
      omega
  simp only [weight, hfixed.2]
  omega

def Moves (s : KvLifecycle K V) : Prop := ∃ e t, e.continues ∧ s.step e = some t

theorem moves_of_store {e : Event K V} (he : e.continues) (h : (s.kv.step e).isSome = true) :
    s.Moves := by
  obtain ⟨kv, hkv⟩ := isSome_iff_exists.mp h
  refine ⟨.store e, { s with kv, produced := s.produced ++ s.output e }, he, ?_⟩
  have hcall : e.isCall = false := by
    cases e with
    | call => exact he.elim
    | client | recv | reply => rfl
  simp [step, storeStep, hcall, hkv]

theorem Draining.moves_shard (h : Draining s) {i : Nat} {sh : KvShard K V}
    (hsh : s.kv.shards[i]? = some sh) (hbusy : sh.replies ≠ []) : s.Moves := by
  cases hthread : sh.thread with
  | stopped =>
    refine absurd ?_ hbusy
    rw [replies, hthread, (h.orderly sh (mem_of_getElem? hsh)).stopped hthread]
    rfl
  | replying reply value stop =>
    apply moves_of_store (e := .reply i) trivial
    cases stop <;> simp [ShardedKv.step, ShardedKv.sendReply, hsh, hthread]
  | receiving =>
    apply moves_of_store (e := .recv i) trivial
    cases hmailbox : sh.mailbox with
    | nil =>
      refine absurd ?_ hbusy
      rw [replies, hthread, hmailbox]
      rfl
    | cons q mailbox => simp [ShardedKv.step, ShardedKv.recv, hsh, hthread, hmailbox]

theorem Draining.moves_full (h : Draining s) {i : Nat} {sh : KvShard K V}
    (hsh : s.kv.shards[i]? = some sh) (hfull : ¬ sh.mailbox.length < s.kv.capacity) : s.Moves := by
  refine h.moves_shard hsh fun hempty => hfull ?_
  rw [replies, append_eq_nil_iff, map_eq_nil_iff] at hempty
  rw [hempty.2]
  exact h.capacity

private theorem Draining.moves_sending (h : Draining s) (hcall : s.kv.calls[id]? = some call)
    {shard reply : Nat} {request : KvRequest K V} {todo : List (KvRequest K V)}
    {replies : List (KvRequest K V × Nat)}
    (hphase : call.phase = .sending shard request reply todo replies) : s.Moves := by
  obtain ⟨sh, hsh⟩ : ∃ sh, s.kv.shards[shard]? = some sh :=
    ⟨_, getElem?_eq_getElem ((h.calls id call hcall).target _ _ _ _ _ hphase)⟩
  by_cases hroom : sh.mailbox.length < s.kv.capacity
  · apply moves_of_store (e := .client id) trivial
    cases hthread : sh.thread <;>
      simp [ShardedKv.step, ShardedKv.client, ShardedKv.send, hcall, hphase, hsh, hthread, hroom]
  · exact h.moves_full hsh hroom

private theorem Draining.moves_waiting (h : Draining s) (hcall : s.kv.calls[id]? = some call)
    {request : KvRequest K V} {reply : Nat} {pending : List (KvRequest K V × Nat)}
    {total : KvResult K V} (hphase : call.phase = .waiting ((request, reply) :: pending) total) :
    s.Moves := by
  have hcarried := h.calls id call hcall
  have hmem : (request, reply) ∈ call.phase.pending := by
    rw [hphase]
    exact mem_cons_self
  obtain ⟨cell, hcell, _, hrequest, hsent, _⟩ := hcarried.pending _ hmem
  have hcell : s.kv.cells[reply]? = some cell := hcell
  have hrequest : cell.request = request := hrequest
  cases hvalue : cell.state.value with
  | some value =>
    obtain ⟨cell', service, hcell', _, hmade⟩ :=
      h.outputs.made _ (h.outputs.values reply cell value hcell hvalue)
    cases hcell.symm.trans hcell'
    obtain ⟨e, he⟩ | ⟨requests, receipts, hrequests, hgathers⟩ := hcarried.gathers
    · cases hphase.symm.trans he
    · have hkind : request.Kind value := by
        have hmade : (service.handle cell.request.command).1 = value := hmade
        rw [← hmade, hrequest]
        exact kind_of_handle service (hcarried.ne_stop
          (mem_append_left _ (mem_map.mpr ⟨_, hmem, rfl⟩)))
      obtain ⟨total', habsorb⟩ := absorb_of_kind (hgathers.takes hrequests hphase) hkind
      apply moves_of_store (e := .client id) trivial
      simp [ShardedKv.step, ShardedKv.client, ShardedKv.await, Reply.wait, hcall, hphase, hcell,
        hvalue, habsorb]
  | none =>
    cases halive : cell.state.senderAlive with
    | true =>
      obtain ⟨sh, hsh, hin⟩ := h.wired.found reply cell hcell hsent halive
      exact h.moves_shard hsh (ne_nil_of_mem hin)
    | false =>
      apply moves_of_store (e := .client id) trivial
      simp [ShardedKv.step, ShardedKv.client, ShardedKv.await, Reply.wait, hcall, hphase, hcell,
        hvalue, halive]

theorem Draining.moves_call (h : Draining s) (hcall : s.kv.calls[id]? = some call)
    (hreturned : ∀ result, call.phase ≠ .returned result) : s.Moves := by
  cases hphase : call.phase with
  | submitting todo replies =>
    apply moves_of_store (e := .client id) trivial
    cases todo with
    | nil => simp [ShardedKv.step, ShardedKv.client, hcall, hphase]
    | cons request todo =>
      cases hroute : s.kv.route request <;>
        simp [ShardedKv.step, ShardedKv.client, hcall, hphase, hroute]
  | sending shard request reply todo replies => exact h.moves_sending hcall hphase
  | waiting pending total =>
    cases pending with
    | nil =>
      apply moves_of_store (e := .client id) trivial
      simp [ShardedKv.step, ShardedKv.client, hcall, hphase]
    | cons p pending => exact h.moves_waiting hcall hphase
  | returned result => exact absurd hphase (hreturned result)

theorem moves_of_proceed (h : s.proceed.isSome = true) : s.Moves := by
  obtain ⟨t, ht⟩ := isSome_iff_exists.mp h
  exact ⟨.proceed, t, trivial, ht⟩

theorem Draining.moves_shutdown (h : Draining s) (hne : s.shutdown ≠ .idle) : s.Moves := by
  have hadvance := h.advance (h.stopped_of hne)
  cases hshutdown : s.shutdown with
  | idle => exact absurd hshutdown hne
  | stopping i result =>
    apply moves_of_proceed
    by_cases hlt : i < s.kv.shardCount <;> simp [KvLifecycle.proceed, hshutdown, hlt]
  | sending i reply result =>
    rw [hshutdown] at hadvance
    obtain ⟨sh, hsh⟩ : ∃ sh, s.kv.shards[i]? = some sh := ⟨_, getElem?_eq_getElem hadvance.1⟩
    by_cases hroom : sh.mailbox.length < s.kv.capacity
    · apply moves_of_proceed
      cases hthread : sh.thread <;> simp [KvLifecycle.proceed, KvLifecycle.sendStop, hshutdown, hsh, hthread, hroom]
    · exact h.moves_full hsh hroom
  | awaiting i reply result =>
    rw [hshutdown] at hadvance
    obtain ⟨_, _, _, cell, hcell, _, _, hsent, _⟩ := hadvance
    cases hvalue : cell.state.value with
    | some value =>
      apply moves_of_proceed
      simp [KvLifecycle.proceed, KvLifecycle.awaitStop, Reply.wait, hshutdown, hcell, hvalue]
    | none =>
      cases halive : cell.state.senderAlive with
      | true =>
        obtain ⟨sh, hsh, hin⟩ := h.wired.found reply cell hcell hsent halive
        exact h.moves_shard hsh (ne_nil_of_mem hin)
      | false =>
        apply moves_of_proceed
        simp [KvLifecycle.proceed, KvLifecycle.awaitStop, Reply.wait, hshutdown, hcell, hvalue, halive]
  | joining threads stopped joined =>
    rw [hshutdown] at hadvance
    apply moves_of_proceed
    cases threads with
    | nil => simp [KvLifecycle.proceed, hshutdown]
    | cons i threads =>
      have hi : i ∈ range s.kv.shardCount := by
        rw [← hadvance.joined]
        exact mem_append_right _ mem_cons_self
      obtain ⟨sh, hsh⟩ : ∃ sh, s.kv.shards[i]? = some sh :=
        ⟨_, getElem?_eq_getElem (mem_range.mp hi)⟩
      simp [KvLifecycle.proceed, KvLifecycle.join, hshutdown, hsh, hadvance.stopped sh (mem_of_getElem? hsh)]

/-- A result is put together from the values that the commands of the call produced. -/
def Resolved (s : KvLifecycle K V) (id : Nat) (op : Op K V) (result : KvResult K V) : Prop :=
  ∃ receipts total, { s.kv with stopped := false }.requests op = .ok (receipts.map (·.request)) ∧
    absorbAll op.start receipts = some total ∧ op.finish total = result ∧
    ∀ r ∈ receipts, s.Produced id r

omit [DecidableEq V] in
theorem Carried.resolved (h : Carried s id call) {result : KvResult K V}
    (hphase : call.phase = .returned (.ok result)) : s.Resolved id call.op result := by
  obtain ⟨e, he⟩ | ⟨requests, receipts, hrequests, hparts, _, haccounts, heach⟩ := h.gathers
  · cases hphase.symm.trans he
  · rw [hphase] at hparts haccounts
    simp only [Phase.pending, Phase.unsent, map_nil, append_nil] at hparts
    obtain ⟨total, habsorb, hfinish⟩ := haccounts
    exact ⟨receipts, total, hparts ▸ hrequests, habsorb, hfinish, heach⟩

omit [LinearOrder K] [DecidableEq V] in
theorem proceed_frame (hst : s.proceed = some t) :
    t.kv.calls = s.kv.calls ∧ t.panicked = s.panicked := by
  rw [proceed] at hst
  split at hst
  · cases hst
  · split at hst <;> cases hst <;> exact ⟨rfl, rfl⟩
  · obtain ⟨sh, _, rfl | rfl⟩ := sendStop_cases hst
    · exact ⟨rfl, rfl⟩
    · exact ⟨rfl, rfl⟩
  · obtain ⟨kv, reported, result', hcalls, _, rfl⟩ := awaitStop_cases hst
    exact ⟨hcalls, rfl⟩
  · cases hst
    exact ⟨rfl, rfl⟩
  · obtain ⟨_, _, rfl⟩ := join_cases hst
    exact ⟨rfl, rfl⟩

variable {e : LifecycleEvent K V}

theorem panicked_of_continues (he : e.continues) (hst : s.step e = some t) :
    t.panicked = s.panicked := by
  cases e with
  | shutdown | panic => exact he.elim
  | proceed => exact (proceed_frame hst).2
  | store e =>
    obtain ⟨kv, _, rfl⟩ := store_cases hst
    rfl

private theorem Draining.handle_client (h : Draining s) (hcalm : s.panicked = [])
    (hcall : s.kv.calls[id]? = some call) (hhandle : call.phase.Handle) {kv : ShardedKv K V}
    (hstep : ClientStep s.kv id call kv) :
    ∃ phase, kv.calls[id]? = some { call with phase } ∧ phase.Handle := by
  have hnot : ∀ {phase : Phase K V}, call.phase = phase → phase.borrows = false := by
    rintro _ rfl
    rcases hhandle with ⟨pending, total, hphase⟩ | ⟨result, hphase⟩ <;>
    · rw [hphase]
      rfl
  cases hstep with
  | submitted hphase | unroutable hphase | opened hphase | refused hphase | sent hphase =>
    cases hnot hphase
  | finished hphase => exact ⟨_, getElem?_modify_self hcall, .inr ⟨_, rfl⟩⟩
  | received hphase => exact ⟨_, getElem?_modify_self hcall, .inl ⟨_, _, rfl⟩⟩
  | @failed request reply pending total cell e state hphase hcell hwait =>
    obtain ⟨cell', hcell', _, _, _, hhope⟩ := (h.calls id call hcall).pending (request, reply)
      (by rw [hphase]; exact mem_cons_self)
    cases hcell.symm.trans hcell'
    exact absurd hwait (Reply.wait_ne_error (hhope hcalm))

theorem Draining.handle (h : Draining s) (hcalm : s.panicked = []) (hst : s.step e = some t)
    (hcall : s.kv.calls[id]? = some call) (hhandle : call.phase.Handle) :
    ∃ phase, t.kv.calls[id]? = some { call with phase } ∧ phase.Handle := by
  have hsame : t.kv.calls = s.kv.calls →
      ∃ phase, t.kv.calls[id]? = some { call with phase } ∧ phase.Handle := by
    intro hcalls
    rw [hcalls]
    exact ⟨call.phase, hcall, hhandle⟩
  cases e with
  | shutdown =>
    change s.begin = some t at hst
    unfold KvLifecycle.begin at hst
    split at hst
    · cases hst
    · split at hst <;>
      · cases hst
        exact hsame rfl
  | proceed => exact hsame (proceed_frame hst).1
  | panic i =>
    obtain ⟨sh, _, _, rfl⟩ := panic_cases hst
    exact hsame (by rw [die_eq])
  | store e =>
    obtain ⟨kv, hkv, rfl⟩ := store_cases hst
    cases e with
    | call op blocking =>
      cases hkv
      exact ⟨call.phase, getElem?_concat_of hcall, hhandle⟩
    | recv i =>
      obtain ⟨sh, q, mailbox, _, _, _, rfl⟩ := recv_cases hkv
      exact hsame rfl
    | reply i =>
      obtain ⟨sh, reply, value, stop, _, _, rfl⟩ := sendReply_spec hkv
      exact hsame (by rw [dropAll_eq]; rfl)
    | client j =>
      obtain ⟨call', hcall', hstep⟩ := client_cases hkv
      by_cases hj : j = id
      · subst hj
        cases hcall.symm.trans hcall'
        exact h.handle_client hcalm hcall hhandle hstep
      · obtain ⟨phase, hcalls⟩ := hstep.calls
        refine ⟨call.phase, ?_, hhandle⟩
        rw [hcalls]
        exact (getElem?_modify_other hj).trans hcall

/-- Every handle of a state has given the value of its commands in a later one. -/
def HandlesResolved (s t : KvLifecycle K V) : Prop :=
  ∀ (id : Nat) call, s.kv.calls[id]? = some call → call.phase.Handle →
    ∃ result, t.kv.calls[id]? = some { call with phase := .returned (.ok result) } ∧
      t.Resolved id call.op result

/-- The invariant of the runs in which no thread panics from a state on. -/
private structure Calm (s t : KvLifecycle K V) : Prop where
  draining : Draining t
  calm : t.panicked = []
  handles : ∀ (id : Nat) call, s.kv.calls[id]? = some call → call.phase.Handle →
    ∃ phase, t.kv.calls[id]? = some { call with phase } ∧ phase.Handle

private theorem Calm.step {u : KvLifecycle K V} (h : Calm s t) (he : e.continues)
    (hst : t.step e = some u) : Calm s u := by
  refine ⟨h.draining.step hst, ?_, fun id call hcall hhandle => ?_⟩
  · rw [panicked_of_continues he hst, h.calm]
  · obtain ⟨phase, hphase, hkept⟩ := h.handles id call hcall hhandle
    obtain ⟨phase', hphase', hkept'⟩ := h.draining.handle h.calm hst hphase hkept
    exact ⟨phase', hphase', hkept'⟩

private theorem Draining.weight_lt (h : Draining s) (he : e.continues ∨ e.panics)
    (hst : s.step e = some t) : t.weight < s.weight := by
  cases e with
  | store e => exact weight_store (he.resolve_right id) hst
  | proceed => exact weight_proceed h hst
  | shutdown => exact he.elim False.elim False.elim
  | panic i => exact weight_panic hst

/-- The handles of a state all resolve if no thread panics, and `shutdown` returns. -/
theorem Draining.handles_resolve (h : Draining s) (hcalm : s.panicked = []) :
    Inevitable KvLifecycle.step (fun _ e => e.continues)
      (fun t => t.shutdown = .idle ∧ HandlesResolved s t) s := by
  have hstart : Calm s s := ⟨h, hcalm, fun _ call hcall hhandle => ⟨call.phase, hcall, hhandle⟩⟩
  have hreach : Inevitable KvLifecycle.step (fun _ e => e.continues)
      (fun t => Calm s t ∧ t.shutdown = .idle ∧
        ∀ call ∈ t.kv.calls, ∃ result, call.phase = .returned result) s := by
    refine inevitable_of_measure _ weight (fun t ht hgoal => ?_)
      (fun t e u ht _ he hst => ⟨ht.step he hst, ht.draining.weight_lt (.inl he) hst⟩) hstart
    by_cases hidle : t.shutdown = .idle
    · have hcalls : ¬ ∀ call ∈ t.kv.calls, ∃ result, call.phase = .returned result :=
        fun hall => hgoal ⟨hidle, hall⟩
      push Not at hcalls
      obtain ⟨call, hmem, hreturned⟩ := hcalls
      obtain ⟨id, hcall⟩ := getElem?_of_mem hmem
      exact ht.draining.moves_call hcall hreturned
    · exact ht.draining.moves_shutdown hidle
  refine hreach.mono fun t ht => ⟨ht.2.1, fun id call hcall hhandle => ?_⟩
  obtain ⟨phase, hphase, hkept⟩ := ht.1.handles id call hcall hhandle
  obtain ⟨result, hreturned⟩ := ht.2.2 _ (mem_of_getElem? hphase)
  rcases hkept with ⟨pending, total, hwaiting⟩ | ⟨result', hok⟩
  · cases hwaiting.symm.trans hreturned
  · rw [hok] at hphase
    exact ⟨result', hphase, (ht.1.draining.calls id _ hphase).resolved rfl⟩

/-- `shutdown` returns, whether threads panic or not. -/
theorem Draining.shutdown_returns (h : Draining s) :
    Inevitable KvLifecycle.step (fun _ e => e.continues ∨ e.panics) (fun t => t.shutdown = .idle) s := by
  refine (inevitable_of_measure _ weight (fun t ht hgoal => ?_)
    (fun t e u ht _ he hst => ⟨ht.step hst, ht.weight_lt he hst⟩) h).mono fun t ht => ht.2
  obtain ⟨e, u, he, hst⟩ := ht.moves_shutdown hgoal
  exact ⟨e, u, .inl he, hst⟩

/-- Without a panic every reply handle comes to give its value, once; a second `shutdown` does
nothing; and a `shutdown`, which also returns if threads panic, has stopped every shard and joined
its thread. -/
theorem shutdown_drains_accepted_work {config : ShardedKvConfig} {placement : K → Nat → Nat}
    {kv : ShardedKv K V} (hstart : ShardedKv.startWithPlacement config placement = .ok kv)
    (hr : Reachable step (new kv) s) :
    (s.panicked = [] →
      (∀ (id : Nat) call, s.kv.calls[id]? = some call →
        call.phase ≠ .returned (.error .replyFailed) ∧
        ∀ result, call.phase = .returned (.ok result) → s.Resolved id call.op result) ∧
      Inevitable step (fun _ e => e.continues)
        (fun t => t.shutdown = .idle ∧ HandlesResolved s t) s) ∧
    ((s.produced.map (·.1)).Nodup ∧
      ∀ p ∈ s.produced, ∃ (cell : Cell K V) (service : KvService K V),
        s.kv.cells[p.1]? = some cell ∧ (service.handle cell.request.command).1 = p.2) ∧
    (s.kv.stopped = true → ∀ t, s.step .shutdown = some t →
      t = { s with results := s.results ++ [.ok ()] }) ∧
    (s.kv.stopped = true → s.shutdown = .idle →
      s.signalled.map (·.1) = List.range s.kv.shardCount ∧
      s.joined = List.range s.kv.shardCount ∧ ∀ sh ∈ s.kv.shards, sh.thread = .stopped) ∧
    Inevitable step (fun _ e => e.continues ∨ e.panics) (fun t => t.shutdown = .idle) s := by
  have h : Draining s := hr.invariant (draining_start hstart) fun _ _ _ h _ hst => h.step hst
  refine ⟨fun hcalm => ⟨fun id call hcall => ?_, h.handles_resolve hcalm⟩,
    ⟨h.outputs.once, fun p hp => ?_⟩, fun hstopped t hst => ?_, fun hstopped hidle => ?_,
    h.shutdown_returns⟩
  · have hcarried := h.calls id call hcall
    exact ⟨hcarried.errors hcalm, fun result hphase => hcarried.resolved hphase⟩
  · obtain ⟨cell, service, hcell, _, hmade⟩ := h.outputs.made p hp
    exact ⟨cell, service, hcell, hmade⟩
  · change s.begin = some t at hst
    by_cases hbusy : s.shutdown ≠ .idle ∨ s.kv.calls.any (·.phase.borrows) = true
    · rw [begin, if_pos hbusy] at hst
      cases hst
    · rw [begin, if_neg hbusy, if_pos hstopped] at hst
      exact (some.inj hst).symm
  · have hended := h.advance hstopped
    rw [hidle] at hended
    refine ⟨hended.signalled, ?_, hended.stopped⟩
    have hjoined := hended.joined
    rwa [append_nil] at hjoined

section Closing

private def twoShards : ShardedKv Nat Nat :=
  (ShardedKv.startWithPlacement ⟨2, 2⟩ fun key n => key % n).toOption.get (by decide +kernel)

private def closing : KvLifecycle Nat Nat :=
  (run step (new twoShards) [.store (.call (.keyed (.put 1 10)) true), .store (.client 0),
    .store (.client 0), .store (.client 0), .shutdown, .proceed]).get (by decide +kernel)

private def crashed : KvLifecycle Nat Nat :=
  (run step (new twoShards) [.panic 0, .shutdown, .proceed, .proceed, .proceed, .proceed,
    .store (.recv 1), .store (.reply 1), .proceed, .proceed, .proceed, .proceed, .proceed]).get
    (by decide +kernel)

theorem accepted_put_resolves :
    Inevitable step (fun _ e => e.continues) (fun t => ∃ result,
        t.kv.calls[0]? = some ⟨.keyed (.put 1 10), true, .returned (.ok result)⟩) closing ∧
      crashed.signalled = [(0, .error .shardStopped), (1, .ok ())] ∧ crashed.joined = [0, 1] := by
  have hstart : startWithPlacement ⟨2, 2⟩ (fun key n => key % n) = .ok twoShards := rfl
  have hcall : closing.kv.calls[0]? = some ⟨.keyed (.put 1 10), true,
      .waiting [(.keyed (.put 1 10), 0)] .nothing⟩ := by decide +kernel
  obtain ⟨hhandles, _⟩ := shutdown_drains_accepted_work (s := closing) hstart
    (reachable_of_run _ (some_get _).symm)
  obtain ⟨_, _, _, hended, _⟩ := shutdown_drains_accepted_work (s := crashed) hstart
    (reachable_of_run _ (some_get _).symm)
  refine ⟨(hhandles (by decide +kernel)).2.mono fun t ht => ?_, by decide +kernel, ?_⟩
  · obtain ⟨result, hresult, _⟩ := ht.2 0 _ hcall (.inl ⟨_, _, rfl⟩)
    exact ⟨result, hresult⟩
  · exact (hended (by decide +kernel) (by decide +kernel)).2.1

end Closing

end KvLifecycle
end Sitas.Kv
