import Sitas.Kv.Outputs
import Sitas.Kv.Soundness

namespace Sitas.Kv
open Sitas.Lib Sitas.Runtime List ShardedKv

variable {K V : Type}

/-- A call in a method of a stopped store has submitted nothing. -/
def Phase.Late : Phase K V → Prop
  | .submitting todo _ => ∀ r ∈ todo, ∃ command, r = .keyed command
  | .sending _ _ _ _ _ => False
  | .waiting _ _ | .returned _ => True

namespace KvLifecycle
variable [LinearOrder K] {s t : KvLifecycle K V} {id : Nat} {call : Call K V}

/-- A reply that a call received, and the value that its command produced. -/
def Produced (s : KvLifecycle K V) (id : Nat) (r : Receipt K V) : Prop :=
  (∃ cell, s.kv.cells[r.reply]? = some cell ∧ cell.call = id ∧ cell.request = r.request) ∧
    (r.reply, r.value) ∈ s.produced

/-- A reply that is awaited can still come as long as no shard thread has panicked. -/
def Hopeful (s : KvLifecycle K V) (state : ReplyState (KvValue K V) Empty) : Prop :=
  s.panicked = [] → state.Open

structure Carried (s : KvLifecycle K V) (id : Nat) (call : Call K V) : Prop where
  gathers : (∃ e, call.phase = .returned (.error e)) ∨
    ∃ requests receipts, { s.kv with stopped := false }.requests call.op = .ok requests ∧
      call.Gathers requests (s.Produced id) receipts
  errors : s.panicked = [] → call.phase ≠ .returned (.error .replyFailed)
  pending : ∀ p ∈ call.phase.pending, s.kv.Awaits s.Hopeful id p
  sends : s.kv.Sends id call.phase
  target : ∀ shard request reply todo replies,
    call.phase = .sending shard request reply todo replies → shard < s.kv.shards.length
  late : s.kv.stopped = true → call.phase.Late

variable {request : KvRequest K V} {kv : ShardedKv K V}

omit [LinearOrder K] in
theorem requests_ne_stop {op : Op K V} {requests : List (KvRequest K V)}
    (h : kv.requests op = .ok requests) (hmem : request ∈ requests) (i : Nat) :
    request ≠ .stop i := by
  have hasks := asks_of_requests h hmem
  rintro rfl
  cases op with
  | keyed command => cases hasks
  | getMany keys | deleteMany keys =>
    obtain ⟨key, _, hkey⟩ := hasks
    cases hkey
  | totalLen | shardSnapshots | allKeys | lenOnShard | keysOnShard =>
    obtain ⟨j, _, hj⟩ := hasks
    cases hj

theorem Carried.ne_stop (h : Carried s id call)
    (hmem : request ∈ call.phase.pending.map (·.1) ++ call.phase.unsent) (i : Nat) :
    request ≠ .stop i := by
  obtain ⟨e, he⟩ | ⟨requests, receipts, hrequests, hgathers⟩ := h.gathers
  · rw [he] at hmem
    cases hmem
  · refine requests_ne_stop hrequests ?_ i
    rw [hgathers.parts, append_assoc]
    exact mem_append_right _ hmem

/-- The reply channels of a call after a step that is not its own. -/
def Tracks (s t : KvLifecycle K V) (id : Nat) : Prop :=
  ∀ (reply : Nat) cell, s.kv.cells[reply]? = some cell → cell.call = id →
    (∀ i, cell.request ≠ .stop i) →
    ∃ cell', t.kv.cells[reply]? = some cell' ∧ cell.Same cell' ∧
      (s.Hopeful cell.state → t.Hopeful cell'.state) ∧ (cell.sent = false → cell' = cell)

omit [LinearOrder K] in
theorem requests_running (hlength : t.kv.shards.length = s.kv.shards.length) :
    { t.kv with stopped := false }.requests = { s.kv with stopped := false }.requests :=
  requests_congr rfl hlength

omit [LinearOrder K] in
theorem Produced.mono {r : Receipt K V} (h : s.Produced id r)
    (htagged : Tagged s.kv t.kv) (hproduced : s.produced ⊆ t.produced) : t.Produced id r := by
  obtain ⟨⟨cell, hcell, hcall, hrequest⟩, hvalue⟩ := h
  obtain ⟨cell', hcell', hcall', hrequest'⟩ := htagged _ cell hcell
  exact ⟨⟨cell', hcell', hcall'.trans hcall, hrequest'.trans hrequest⟩, hproduced hvalue⟩

theorem Carried.tracks (h : Carried s id call) (htracks : Tracks s t id)
    (htagged : Tagged s.kv t.kv) (hproduced : s.produced ⊆ t.produced)
    (hpanicked : t.panicked = [] → s.panicked = [])
    (hlength : t.kv.shards.length = s.kv.shards.length)
    (hlate : t.kv.stopped = true → call.phase.Late) : Carried t id call := by
  refine ⟨?_, fun hcalm => h.errors (hpanicked hcalm), fun p hp => ?_,
    fun shard request reply todo replies hphase => ?_,
    fun shard request reply todo replies hphase => ?_, hlate⟩
  · refine h.gathers.imp_right ?_
    rintro ⟨requests, receipts, hrequests, hgathers⟩
    refine ⟨requests, receipts, requests_running hlength ▸ hrequests, hgathers.parts,
      hgathers.ascending, hgathers.accounts, fun r hr => ?_⟩
    exact (hgathers.each r hr).mono htagged hproduced
  · obtain ⟨cell, hcell, hid, hrequest, hsent, hhope⟩ := h.pending p hp
    have hne : ∀ i, cell.request ≠ .stop i := by
      rw [hrequest]
      exact h.ne_stop (mem_append_left _ (mem_map.mpr ⟨p, hp, rfl⟩))
    obtain ⟨cell', hcell', hsame, hhope', _⟩ := htracks _ cell hcell hid hne
    exact ⟨cell', hcell', hsame.call.trans hid, hsame.request.trans hrequest,
      hsame.sent.trans hsent, hhope' hhope⟩
  · obtain ⟨hcell, hlast⟩ := h.sends shard request reply todo replies hphase
    have hne : ∀ i, request ≠ .stop i := by
      refine h.ne_stop (mem_append_right _ ?_)
      rw [hphase]
      exact mem_cons_self
    obtain ⟨cell', hcell', _, _, hfresh⟩ := htracks reply _ hcell rfl hne
    rw [hfresh rfl] at hcell'
    exact ⟨hcell', hlast⟩
  · rw [hlength]
    exact h.target shard request reply todo replies hphase

theorem Carried.owns (h : Carried s id call) : ∀ p ∈ call.phase.pending,
    ∃ cell, s.kv.cells[p.2]? = some cell ∧ cell.call = id ∧ cell.request = p.1 := by
  intro p hp
  obtain ⟨cell, hcell, hid, hrequest, _⟩ := h.pending p hp
  exact ⟨cell, hcell, hid, hrequest⟩

omit [LinearOrder K] in
theorem route_lt {op : Op K V} {requests : List (KvRequest K V)}
    (h : { kv with stopped := false }.requests op = .ok requests) (hmem : request ∈ requests)
    {shard : Nat} (hroute : kv.route request = .ok shard) : shard < kv.shards.length := by
  have hasks := asks_of_requests h hmem
  cases request with
  | keyed command =>
    simp only [route, shardForOwnedKey, ensureRunning, getById] at hroute
    split at hroute
    · cases hroute
    · split at hroute <;> cases hroute
      assumption
  | len i | keys i =>
    cases hroute
    cases op with
    | keyed command => cases hasks
    | getMany keys | deleteMany keys =>
      obtain ⟨key, _, hkey⟩ := hasks
      cases hkey
    | totalLen | shardSnapshots | allKeys | lenOnShard | keysOnShard =>
      obtain ⟨j, hj, hij⟩ := hasks
      cases hij <;> exact hj
  | stop i => exact absurd rfl (requests_ne_stop h hmem i)

omit [LinearOrder K] in
theorem route_of_stopped (hstopped : kv.stopped = true)
    (command : KeyCommand K V) : kv.route (.keyed command) = .error .shardStopped := by
  simp only [route, shardForOwnedKey, ensureRunning, hstopped]
  rfl

omit [LinearOrder K] in
theorem route_ne_replyFailed : kv.route request ≠ .error .replyFailed := by
  cases request with
  | keyed command =>
    cases hstopped : kv.stopped <;>
      by_cases hlt : kv.shardForKey command.key < kv.shards.length <;>
      simp [route, shardForOwnedKey, ensureRunning,
        getById, hstopped, hlt, bind, Except.bind]
  | len | keys | stop => simp [route]

section Client
variable {call' : Call K V}

private theorem Carried.errors_client (h : Carried s id call) (hcall : s.kv.calls[id]? = some call)
    (hstep : ClientStep s.kv id call kv) (hcall' : kv.calls[id]? = some call')
    (hcalm : s.panicked = []) : call'.phase ≠ .returned (.error .replyFailed) := by
  intro he
  cases hstep with
  | submitted | opened | sent | finished | received =>
    cases modify_eq hcall hcall'
    cases he
  | unroutable hphase hroute =>
    cases modify_eq hcall hcall'
    cases he
    exact route_ne_replyFailed hroute
  | refused hphase hsh hcause =>
    cases modify_eq hcall hcall'
    cases he
    rcases hcause with ⟨_, he⟩ | ⟨_, he⟩ <;> cases he
  | @failed request reply pending total cell e state hphase hcell hwait =>
    obtain ⟨cell', hcell', _, _, _, hhope⟩ := h.pending (request, reply)
      (by rw [hphase]; exact mem_cons_self)
    cases hcell.symm.trans hcell'
    exact Reply.wait_ne_error (hhope hcalm) hwait

private theorem Carried.target_client (h : Carried s id call) (hcall : s.kv.calls[id]? = some call)
    (hstep : ClientStep s.kv id call kv) (hcall' : kv.calls[id]? = some call')
    {shard reply : Nat} {todo : List (KvRequest K V)} {replies : List (KvRequest K V × Nat)}
    (hphase' : call'.phase = .sending shard request reply todo replies) :
    shard < s.kv.shards.length := by
  cases hstep with
  | submitted | unroutable | refused | sent | finished | failed | received =>
    cases modify_eq hcall hcall'
    cases hphase'
  | opened hphase hroute =>
    cases modify_eq hcall hcall'
    cases hphase'
    obtain ⟨e, he⟩ | ⟨requests, receipts, hrequests, hgathers⟩ := h.gathers
    · cases hphase.symm.trans he
    · refine route_lt hrequests ?_ hroute
      rw [hgathers.parts, hphase]
      exact mem_append_right _ mem_cons_self

/-- A call in a stopped store goes no further than its first command. -/
private theorem late_client (hlate : call.phase.Late) (hstopped : s.kv.stopped = true)
    (hcall : s.kv.calls[id]? = some call) (hstep : ClientStep s.kv id call kv)
    (hcall' : kv.calls[id]? = some call') : call'.phase.Late := by
  cases hstep with
  | submitted | unroutable | finished | failed | received =>
    cases modify_eq hcall hcall'
    exact trivial
  | opened hphase hroute =>
    rw [hphase] at hlate
    obtain ⟨command, rfl⟩ := hlate _ mem_cons_self
    rw [route_of_stopped hstopped] at hroute
    cases hroute
  | refused hphase | sent hphase =>
    rw [hphase] at hlate
    exact hlate.elim

theorem shards_length (hstep : ClientStep s.kv id call kv) :
    kv.shards.length = s.kv.shards.length := by
  cases hstep with
  | submitted | unroutable | opened | refused | finished | failed | received => rfl
  | sent => exact length_modify ..

theorem Carried.client (h : Carried s id call) (hcall : s.kv.calls[id]? = some call)
    (hstep : ClientStep s.kv id call kv) (hcall' : kv.calls[id]? = some call')
    (hvalues : ∀ (reply : Nat) cell value, s.kv.cells[reply]? = some cell →
      cell.state.value = some value → (reply, value) ∈ s.produced) :
    Carried { s with kv } id call' := by
  obtain ⟨hpending, hsends⟩ :=
    hstep.awaits hcall hcall' (fun _ => .inr rfl) h.pending (Call.pending_ascending h.gathers) h.sends
  refine ⟨?_, h.errors_client hcall hstep hcall', hpending, hsends, fun _ _ _ _ _ hphase' => ?_,
    fun hstopped => ?_⟩
  · rw [requests_running (s := s) (shards_length hstep)]
    refine hstep.gathers hcall hcall' h.gathers
      (fun _ hr => hr.mono (t := { s with kv }) hstep.tagged (Subset.refl _))
      (fun _ _ _ _ _ hphase => (h.sends _ _ _ _ _ hphase).2)
      fun request reply pending total cell value hphase hcell hvalue => ?_
    obtain ⟨cell', hcell', hid, hrequest, _⟩ := h.pending (request, reply)
      (by rw [hphase]; exact mem_cons_self)
    cases hcell.symm.trans hcell'
    obtain ⟨cell', hcell', hid', hrequest'⟩ := hstep.tagged reply cell hcell
    exact ⟨⟨cell', hcell', hid'.trans hid, hrequest'.trans hrequest⟩,
      hvalues reply cell value hcell hvalue⟩
  · rw [shards_length hstep]
    exact h.target_client hcall hstep hcall' hphase'
  · have hsame : kv.stopped = s.kv.stopped := by
      cases hstep <;> rfl
    exact late_client (h.late (hsame ▸ hstopped)) (hsame ▸ hstopped) hcall hstep hcall'

theorem Carried.others (h : Carried s id call) (hstep : ClientStep s.kv id call kv)
    {j : Nat} {other : Call K V} (hother : Carried s j other) (hj : j ≠ id) :
    Carried { s with kv } j other := by
  refine hother.tracks (fun reply cell hcell hid _ => ?_) hstep.tagged (Subset.refl _)
    (fun hcalm => hcalm) (shards_length hstep) fun hstopped => ?_
  · refine ⟨cell, hstep.others h.sends h.owns hcell (.inl ?_), .refl cell, fun h => h,
      fun _ => rfl⟩
    rw [hid]
    exact hj
  · have hsame : kv.stopped = s.kv.stopped := by
      cases hstep <;> rfl
    exact hother.late (hsame ▸ hstopped)

end Client

end KvLifecycle
end Sitas.Kv
