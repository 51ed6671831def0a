import Sitas.Kv.Progress
import Sitas.Kv.Totals

namespace Sitas.Kv
open Sitas.Lib Sitas.Runtime List

variable {K V : Type}

/-- A receipt and the pair that a function with several keys makes of it. -/
def Receipt.Pairs (r : Receipt K V) (p : K × Option V) : Prop :=
  ∃ command, r.request = .keyed command ∧ command.key = p.1 ∧ r.value = .answer (.found p.2)

variable {ps : List (K × Option V)} {total : KvResult K V}

theorem absorb_pairs {r : Receipt K V}
    (h : (KvResult.pairs ps).absorb r.request r.value = some total) :
    ∃ p, r.Pairs p ∧ total = .pairs (ps ++ [p]) := by
  obtain ⟨request, reply, value⟩ := r
  cases request with
  | keyed command =>
    cases value with
    | answer a =>
      cases a with
      | found found =>
        cases h
        exact ⟨(command.key, found), ⟨command, rfl, rfl, rfl⟩, rfl⟩
      | done | replaced | value => cases h
    | len | keys => cases h
  | len | keys | stop => cases h

theorem absorbAll_pairs {receipts : List (Receipt K V)}
    (h : absorbAll (.pairs ps) receipts = some total) :
    ∃ qs, total = .pairs (ps ++ qs) ∧ Forall₂ Receipt.Pairs receipts qs := by
  induction receipts generalizing ps with
  | nil =>
    cases h
    exact ⟨[], by rw [append_nil], .nil⟩
  | cons r receipts ih =>
    obtain ⟨next, hnext, hrest⟩ := Option.bind_eq_some_iff.mp h
    obtain ⟨p, hp, rfl⟩ := absorb_pairs hnext
    obtain ⟨qs, rfl, hqs⟩ := ih hrest
    exact ⟨p :: qs, by rw [append_assoc, singleton_append], .cons hp hqs⟩

namespace ShardedKv
variable {s t : ShardedKv K V} {id : Nat} {call : Call K V}

def Answered (s : ShardedKv K V) (id : Nat) (command : KeyCommand K V) (reply : Nat)
    (a : Answer V) : Prop :=
  (∃ cell, s.cells[reply]? = some cell ∧ cell.call = id) ∧
    .invoke reply command ∈ s.history ∧ .respond reply a ∈ s.history

/-- One pair for each key, in the order of the keys, each with the answer to a command of
its own. -/
def Collected (s : ShardedKv K V) (id : Nat) (command : K → KeyCommand K V) (keys : List K)
    (result : KvResult K V) : Prop :=
  ∃ ps replies, result = .pairs ps ∧ ps.map (·.1) = keys ∧ replies.Pairwise (· < ·) ∧
    List.Forall₂ (fun p reply => s.Answered id (command p.1) reply (.found p.2)) ps replies

/-- The result of a call on keys is that of its commands. -/
def Explained (s : ShardedKv K V) (id : Nat) : Op K V → KvResult K V → Prop
  | .keyed command, result => ∃ reply a, result = .answer a ∧ s.Answered id command reply a
  | .getMany keys, result => s.Collected id .get keys result
  | .deleteMany keys, result => s.Collected id .delete keys result
  | _, _ => True

theorem Delivered.answered {command : KeyCommand K V} {reply : Nat} {a : Answer V}
    (h : s.Delivered id ⟨.keyed command, reply, .answer a⟩) : s.Answered id command reply a := by
  obtain ⟨⟨cell, hcell, hid, _⟩, hhistory⟩ := h
  exact ⟨⟨cell, hcell, hid⟩, hhistory⟩

variable {receipts : List (Receipt K V)}

theorem collected_pairs {command : K → KeyCommand K V} (hkey : ∀ key, (command key).key = key)
    {keys : List K}
    (hrequests : receipts.map (·.request) = keys.map fun key => .keyed (command key))
    (heach : ∀ r ∈ receipts, s.Delivered id r) (hpairs : Forall₂ Receipt.Pairs receipts ps) :
    ps.map (·.1) = keys ∧
      Forall₂ (fun p reply => s.Answered id (command p.1) reply (.found p.2)) ps
        (receipts.map (·.reply)) := by
  induction hpairs generalizing keys with
  | nil =>
    rw [map_nil, eq_comm, map_eq_nil_iff] at hrequests
    exact ⟨hrequests.symm, .nil⟩
  | @cons r p receipts ps hp _ ih =>
    cases keys with
    | nil => cases hrequests
    | cons key keys =>
      obtain ⟨hrequest, hrequests⟩ := cons.inj hrequests
      obtain ⟨hkeys, hanswers⟩ := ih hrequests fun r hr => heach r (mem_cons_of_mem _ hr)
      obtain ⟨c, hc, hfst, hvalue⟩ := hp
      have hcommand : c = command key := KvRequest.keyed.inj (hc.symm.trans hrequest)
      have hp : p.1 = key := by rw [← hfst, hcommand, hkey]
      refine ⟨by rw [map_cons, hp, hkeys], .cons ?_ hanswers⟩
      have hr := heach r mem_cons_self
      obtain ⟨request, reply, value⟩ := r
      cases hc
      cases hvalue
      rw [hp, ← hcommand]
      exact hr.answered

theorem collected_of_receipts {command : K → KeyCommand K V} (hkey : ∀ key, (command key).key = key)
    {keys : List K}
    (hrequests : receipts.map (·.request) = keys.map fun key => .keyed (command key))
    (hascending : (receipts.map (·.reply)).Pairwise (· < ·))
    (heach : ∀ r ∈ receipts, s.Delivered id r)
    (htotal : absorbAll (.pairs []) receipts = some total) : s.Collected id command keys total := by
  obtain ⟨ps, rfl, hpairs⟩ := absorbAll_pairs htotal
  obtain ⟨hkeys, hanswers⟩ := collected_pairs hkey hrequests heach hpairs
  exact ⟨ps, receipts.map (·.reply), rfl, hkeys, hascending, hanswers⟩

variable [LinearOrder K]

theorem CallOk.explained (h : CallOk s id call) {result : KvResult K V}
    (hphase : call.phase = .returned (.ok result)) : s.Explained id call.op result := by
  obtain ⟨e, he⟩ | ⟨requests, receipts, hrequests, hparts, hascending, haccounts, heach⟩ := h.gathers
  · cases hphase.symm.trans he
  rw [hphase] at hparts hascending haccounts
  simp only [Phase.pending, Phase.unsent, map_nil, append_nil] at hparts hascending
  obtain ⟨total, htotal, hfinish⟩ := haccounts
  cases hop : call.op with
  | keyed command =>
    rw [hop] at hrequests htotal hfinish
    cases hrequests
    obtain ⟨r, receipts, rfl, hrequest, hrest⟩ := map_eq_cons_iff.mp hparts.symm
    rw [map_eq_nil_iff.mp hrest] at htotal
    have hr := heach r mem_cons_self
    obtain ⟨request, reply, value⟩ := r
    cases hrequest
    cases value with
    | answer a =>
      cases htotal
      exact ⟨reply, a, hfinish.symm, hr.answered⟩
    | len | keys => exact hr.2.elim
  | getMany keys | deleteMany keys =>
    rw [hop] at hrequests htotal hfinish
    cases hrequests
    cases hfinish
    exact collected_of_receipts (fun _ => rfl) hparts.symm hascending heach htotal
  | totalLen | shardSnapshots | allKeys | lenOnShard | keysOnShard => exact trivial

/-- What a running store refuses: a full mailbox to a call that does not wait, and a shard
that does not exist. -/
def Refusal (s : ShardedKv K V) (call : Call K V) (e : ShardError) : Prop :=
  (call.blocking = false ∧ e = .mailboxFull) ∨
    ∃ i, s.shardCount ≤ i ∧ e = .invalidShardId i ∧
      (call.op = .lenOnShard i ∨ call.op = .keysOnShard i)

omit [LinearOrder K] in
theorem shard_error {α : Type} {f : Nat → α} {i : Nat} {e : ShardError} (hrun : s.stopped = false)
    (h : (do
      let j ← s.shard i
      return f j : Except ShardError α) = .error e) : s.shardCount ≤ i ∧ e = .invalidShardId i := by
  simp only [shard, ensureRunning, hrun, getById] at h
  by_cases hi : i < s.shards.length
  · rw [if_pos hi] at h
    cases h
  · rw [if_neg hi] at h
    cases h
    exact ⟨Nat.le_of_not_lt hi, rfl⟩

theorem CallOk.refusal (h : CallOk s id call) (hrun : s.stopped = false) {e : ShardError}
    (hphase : call.phase = .returned (.error e)) : s.Refusal call e := by
  refine (h.errors e hphase).imp_right fun hrequests => ?_
  cases hop : call.op with
  | keyed | getMany | deleteMany =>
    rw [hop] at hrequests
    cases hrequests
  | totalLen | shardSnapshots | allKeys =>
    rw [hop] at hrequests
    simp only [requests, ensureRunning, hrun] at hrequests
    cases hrequests
  | lenOnShard i =>
    rw [hop] at hrequests
    obtain ⟨hle, he⟩ := shard_error hrun hrequests
    exact ⟨i, hle, he, .inl rfl⟩
  | keysOnShard i =>
    rw [hop] at hrequests
    obtain ⟨hle, he⟩ := shard_error hrun hrequests
    exact ⟨i, hle, he, .inr rfl⟩

variable [DecidableEq V]

/-- In a quiescent state the size and the keys that are read are those of a map. -/
structure Reports (s : ShardedKv K V) (map : KvService K V) : Prop where
  total_len : ∀ t, Reach step (fun _ e => e.reads) s t → ∀ (id : Nat) call result,
    s.calls.length ≤ id → t.calls[id]? = some call → call.phase = .returned (.ok result) →
      call.op = .totalLen → result = .len map.len
  all_keys : ∀ t, Reach step (fun _ e => e.reads) s t → ∀ (id : Nat) call result,
    s.calls.length ≤ id → t.calls[id]? = some call → call.phase = .returned (.ok result) →
      call.op = .allKeys → result = .keys map.keys
  sorted : map.keys.Pairwise (· < ·)
  keys : ∀ key, key ∈ map.keys ↔ (map.get key).isSome = true

theorem Sound.reports (h : Sound s) (hw : Wired s) (hq : s.Quiescent) : s.Reports s.whole := by
  have hquiet : ∀ t, Reach ShardedKv.step (fun _ e => e.reads) s t → Quiet s t ∧ Wired t := by
    intro t ht
    induction ht with
    | start => exact ⟨quiet_self h hq, hw⟩
    | next _ he hst ih => exact ih.1.step ih.2 he hst
  refine ⟨fun t ht id call result hle hcall hphase hop => ?_,
    fun t ht id call result hle hcall hphase hop => ?_, ?_, fun key => ?_⟩
  · exact (hquiet t ht).1.total_len hcall hle hphase hop
  · exact (hquiet t ht).1.all_keys hcall hle hphase hop
  · exact Finset.sortedLT_sort _ |>.pairwise
  · exact s.whole.mem_keys_iff key

/-- Every command takes effect on one map between its submission and its reply, and the results of
the calls are put together from the answers. -/
theorem linearizable {config : ShardedKvConfig} {placement : K → Nat → Nat} {s₀ s : ShardedKv K V}
    (hstart : startWithPlacement config placement = .ok s₀)
    (hplacement : ∀ key, placement key config.shardCount < config.shardCount)
    (hr : Reachable step s₀ s) :
    Linearization KvService.execute .new s.history s.order ∧
      (∀ (id : Nat) call, s.calls[id]? = some call →
        (∀ result, call.phase = .returned (.ok result) → s.Explained id call.op result) ∧
        ∀ e, call.phase = .returned (.error e) → s.Refusal call e) ∧
      (s.Quiescent → s.Reports s.whole) ∧
      ∃ t, Reach step (fun _ e => e.continues) s t ∧
        ∀ call ∈ t.calls, ∃ result, call.phase = .returned result := by
  obtain ⟨hlive, hwired⟩ : Live s ∧ Wired s := hr.invariant (live_start hstart hplacement)
    fun _ _ _ h _ hst => live_step h hst
  refine ⟨hlive.sound.filed.linear, fun id call hcall => ⟨fun result hphase => ?_, fun e hphase => ?_⟩,
    hlive.sound.reports hwired, ?_⟩
  · exact (hlive.sound.calls id call hcall).explained hphase
  · exact (hlive.sound.calls id call hcall).refusal hlive.sound.filed.running.1 hphase
  · obtain ⟨t, hreach, _, hreturned⟩ := all_return ⟨hlive, hwired⟩
    exact ⟨t, hreach, hreturned⟩

section Batch

private def parityStore : ShardedKv Nat Nat :=
  (startWithPlacement ⟨2, 1⟩ fun key n => key % n).toOption.get (by decide +kernel)

/-- A `get_many` on two shards while another client puts one of the keys. The second shard
answers before the first. -/
private def batchEvents : List (Event Nat Nat) :=
  [.call (.getMany [2, 1]) true, .client 0, .client 0, .call (.keyed (.put 1 10)) true, .client 1,
    .client 1, .recv 1, .client 0, .client 0, .client 0, .reply 1, .recv 1, .reply 1, .client 1,
    .client 1, .client 1, .recv 0, .reply 0, .client 0, .client 0, .client 0]

private def batchStore : ShardedKv Nat Nat :=
  (run step parityStore batchEvents).get (by decide +kernel)

theorem get_many_in_input_order :
    Linearization KvService.execute .new batchStore.history batchStore.order ∧
      batchStore.Explained 0 (.getMany [2, 1]) (.pairs [(2, none), (1, some 10)]) ∧
      batchStore.Reports batchStore.whole ∧ batchStore.whole.len = 1 := by
  have hstart : startWithPlacement ⟨2, 1⟩ (fun key n => key % n) = .ok parityStore := rfl
  have hreach : Reachable step parityStore batchStore :=
    reachable_of_run batchEvents (Option.some_get _).symm
  have hcall : batchStore.calls[0]? =
      some ⟨.getMany [2, 1], true, .returned (.ok (.pairs [(2, none), (1, some 10)]))⟩ := by
    decide +kernel
  obtain ⟨hlinear, hcalls, hreports, _⟩ :=
    linearizable hstart (fun key => Nat.mod_lt key Nat.two_pos) hreach
  exact ⟨hlinear, (hcalls 0 _ hcall).1 _ rfl, hreports ⟨by decide +kernel, by decide +kernel⟩,
    by decide +kernel⟩

end Batch

end ShardedKv
end Sitas.Kv
