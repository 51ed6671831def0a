import Sitas.Kv.Store

namespace Sitas.Kv
open Sitas.Lib Sitas.Runtime List Option

def Op.Asks {K V : Type} (op : Op K V) (shardCount : Nat) (request : KvRequest K V) : Prop :=
  match op with
  | .keyed command => request = .keyed command
  | .getMany keys => ∃ key ∈ keys, request = .keyed (.get key)
  | .deleteMany keys => ∃ key ∈ keys, request = .keyed (.delete key)
  | .totalLen | .shardSnapshots | .lenOnShard _ => ∃ i < shardCount, request = .len i
  | .allKeys | .keysOnShard _ => ∃ i < shardCount, request = .keys i

namespace ShardedKv
variable {K V : Type} [LinearOrder K] {s t : ShardedKv K V} {id : Nat} {call : Call K V}

omit [LinearOrder K] in
theorem start_cases {config : ShardedKvConfig} {placement : K → Nat → Nat}
    (h : startWithPlacement config placement = .ok s) :
    0 < config.shardCount ∧ 0 < config.mailboxCapacity ∧
      s = ⟨config.mailboxCapacity, placement, false,
        replicate config.shardCount ⟨[], .new, .receiving⟩, [], [], [], []⟩ := by
  simp only [startWithPlacement, ShardedKvConfig.validate] at h
  split at h
  · cases h
  next hcount =>
    split at h
    · cases h
    next hcapacity =>
      cases h
      exact ⟨Nat.pos_of_ne_zero hcount, Nat.pos_of_ne_zero hcapacity, rfl⟩

variable {request : KvRequest K V}

omit [LinearOrder K] in
theorem asks_of_requests {op : Op K V} {requests : List (KvRequest K V)}
    (h : s.requests op = .ok requests) (hmem : request ∈ requests) :
    op.Asks s.shards.length request := by
  cases op with
  | keyed command =>
    cases h
    exact mem_singleton.mp hmem
  | getMany keys | deleteMany keys =>
    cases h
    obtain ⟨key, hkey, rfl⟩ := mem_map.mp hmem
    exact ⟨key, hkey, rfl⟩
  | totalLen | shardSnapshots | allKeys =>
    cases hstopped : s.stopped with
    | true =>
      simp only [ShardedKv.requests, ensureRunning, hstopped] at h
      cases h
    | false =>
      simp only [ShardedKv.requests, ensureRunning, hstopped] at h
      cases h
      obtain ⟨i, hi, rfl⟩ := mem_map.mp hmem
      exact ⟨i, mem_range.mp hi, rfl⟩
  | lenOnShard i | keysOnShard i =>
    by_cases hi : i < s.shards.length
    · cases hstopped : s.stopped with
      | true =>
        simp only [ShardedKv.requests, ShardedKv.shard, ensureRunning, hstopped] at h
        cases h
      | false =>
        simp only [ShardedKv.requests, ShardedKv.shard, ensureRunning, hstopped, getById, hi] at h
        cases h
        exact ⟨i, hi, mem_singleton.mp hmem⟩
    · cases hstopped : s.stopped with
      | true | false =>
        simp only [ShardedKv.requests, ShardedKv.shard, ensureRunning, hstopped, getById, hi] at h
        cases h

inductive ClientStep (s : ShardedKv K V) (id : Nat) (call : Call K V) : ShardedKv K V → Prop
  | submitted {replies} : call.phase = .submitting [] replies →
      ClientStep s id call (s.setPhase id (.waiting replies call.op.start))
  | unroutable {request todo replies e} : call.phase = .submitting (request :: todo) replies →
      s.route request = .error e → ClientStep s id call (s.setPhase id (.returned (.error e)))
  | opened {request todo replies shard} : call.phase = .submitting (request :: todo) replies →
      s.route request = .ok shard →
      ClientStep s id call ((s.openReply id shard request).setPhase id
        (.sending shard request s.cells.length todo replies))
  | refused {shard request reply todo replies e sh} :
      call.phase = .sending shard request reply todo replies → s.shards[shard]? = some sh →
      (sh.thread = .stopped ∧ e = .sendFailed) ∨ (call.blocking = false ∧ e = .mailboxFull) →
      ClientStep s id call ((s.dropSender reply).setPhase id (.returned (.error e)))
  | sent {shard request reply todo replies sh} :
      call.phase = .sending shard request reply todo replies → s.shards[shard]? = some sh →
      sh.mailbox.length < s.capacity → sh.thread ≠ .stopped →
      ClientStep s id call ((s.push shard request reply).setPhase id
        (.submitting todo (replies ++ [(request, reply)])))
  | finished {total} : call.phase = .waiting [] total →
      ClientStep s id call (s.setPhase id (.returned (.ok (call.op.finish total))))
  | failed {request reply pending total cell e state} :
      call.phase = .waiting ((request, reply) :: pending) total → s.cells[reply]? = some cell →
      Reply.wait cell.state = (some (.error e), state) →
      ClientStep s id call (s.setPhase id (.returned (.error e)))
  | received {request reply pending total cell value state total'} :
      call.phase = .waiting ((request, reply) :: pending) total → s.cells[reply]? = some cell →
      Reply.wait cell.state = (some (.ok value), state) →
      total.absorb request value = some total' →
      ClientStep s id call ((s.take request reply value state).setPhase id
        (.waiting pending total'))

private theorem send_cases {shard reply : Nat} {todo : List (KvRequest K V)}
    {replies : List (KvRequest K V × Nat)}
    (hphase : call.phase = .sending shard request reply todo replies)
    (h : s.send id shard request reply todo replies call.blocking = some t) :
    ClientStep s id call t := by
  obtain ⟨sh, hsh, h⟩ := bind_eq_some_iff.mp h
  cases hthread : sh.thread with
  | stopped =>
    rw [hthread] at h
    cases h
    exact .refused hphase hsh (.inl ⟨hthread, rfl⟩)
  | receiving | replying reply value stop =>
    rw [hthread] at h
    simp only at h
    split at h
    next hroom =>
      cases h
      exact .sent hphase hsh hroom (by rw [hthread]; simp)
    · split at h
      · cases h
      next hblocking =>
        cases h
        exact .refused hphase hsh (.inr ⟨by simpa using hblocking, rfl⟩)

private theorem await_cases {reply : Nat} {pending : List (KvRequest K V × Nat)}
    {total : KvResult K V} (hphase : call.phase = .waiting ((request, reply) :: pending) total)
    (h : s.await id request reply pending total = some t) : ClientStep s id call t := by
  obtain ⟨cell, hcell, h⟩ := bind_eq_some_iff.mp h
  cases hwait : Reply.wait cell.state with
  | mk result state =>
    rw [hwait] at h
    cases result with
    | none => cases h
    | some result =>
      cases result with
      | error e =>
        cases h
        exact .failed hphase hcell hwait
      | ok value =>
        obtain ⟨total', habsorb, rfl⟩ := map_eq_some_iff.mp h
        exact .received hphase hcell hwait habsorb

theorem client_cases (h : s.client id = some t) :
    ∃ call, s.calls[id]? = some call ∧ ClientStep s id call t := by
  obtain ⟨call, hcall, h⟩ := bind_eq_some_iff.mp h
  refine ⟨call, hcall, ?_⟩
  cases hphase : call.phase with
  | submitting todo replies =>
    rw [hphase] at h
    cases todo with
    | nil =>
      cases h
      exact .submitted hphase
    | cons request todo =>
      cases hroute : s.route request with
      | error e =>
        simp only [hroute] at h
        cases h
        exact .unroutable hphase hroute
      | ok shard =>
        simp only [hroute] at h
        cases h
        exact .opened hphase hroute
  | sending shard request reply todo replies =>
    rw [hphase] at h
    exact send_cases hphase h
  | waiting pending total =>
    rw [hphase] at h
    cases pending with
    | nil =>
      cases h
      exact .finished hphase
    | cons p pending => exact await_cases hphase h
  | returned result =>
    rw [hphase] at h
    cases h

omit [LinearOrder K] in
theorem sendReply_cases {i : Nat} (h : s.sendReply i = some t)
    (hrun : ∀ sh ∈ s.shards, ∀ reply value, sh.thread ≠ .replying reply value true) :
    ∃ sh reply value, s.shards[i]? = some sh ∧ sh.thread = .replying reply value false ∧
      t = { s with
        shards := s.shards.set i { sh with thread := .receiving }
        cells := s.cells.modify reply fun cell =>
          { cell with state := (ReplySender.send cell.state value).1 } } := by
  obtain ⟨sh, hsh, h⟩ := bind_eq_some_iff.mp h
  cases hthread : sh.thread with
  | receiving | stopped =>
    rw [hthread] at h
    cases h
  | replying reply value stop =>
    cases stop with
    | true => exact absurd hthread (hrun sh (mem_of_getElem? hsh) reply value)
    | false =>
      rw [hthread] at h
      cases h
      exact ⟨sh, reply, value, hsh, hthread, rfl⟩

theorem recv_cases [DecidableEq V] {i : Nat} (h : s.recv i = some t) :
    ∃ sh q mailbox, s.shards[i]? = some sh ∧ sh.thread = .receiving ∧ sh.mailbox = q :: mailbox ∧
      t = { s with
        shards := s.shards.set i ⟨mailbox, (sh.service.handle q.command).2,
          .replying q.reply (sh.service.handle q.command).1 (q.command = .stop)⟩
        order := s.order ++ q.effects (sh.service.handle q.command).1 } := by
  obtain ⟨sh, hsh, h⟩ := bind_eq_some_iff.mp h
  cases hthread : sh.thread with
  | replying | stopped =>
    rw [hthread] at h
    cases h
  | receiving =>
    cases hmailbox : sh.mailbox with
    | nil =>
      rw [hthread, hmailbox] at h
      cases h
    | cons q mailbox =>
      rw [hthread, hmailbox] at h
      cases h
      exact ⟨sh, q, mailbox, hsh, hthread, hmailbox, rfl⟩

end ShardedKv
end Sitas.Kv
