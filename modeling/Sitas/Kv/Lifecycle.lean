import Sitas.Kv.Stopping

namespace Sitas.Kv
open Sitas.Lib Sitas.Runtime List ShardedKv

variable {K V : Type}

namespace KvLifecycle
variable [LinearOrder K] [DecidableEq V] {s t : KvLifecycle K V} {id : Nat} {call : Call K V}

private theorem Draining.shard (h : Draining s) {j : Nat} {sh sh' : KvShard K V} {gone : List Nat}
    (hstep : ShardStep s t j sh sh' gone) (hcapacity : t.kv.capacity = s.kv.capacity)
    (hcalls : t.kv.calls = s.kv.calls) (hstopped : t.kv.stopped = s.kv.stopped)
    (hshutdown : t.shutdown = s.shutdown) (hwired : t.kv.Wired)
    (houtputs : t.kv.Outputs t.produced) (hproduced : s.produced ⊆ t.produced)
    (hpanicked : t.panicked = [] → s.panicked = [])
    (hopen : t.panicked = [] → ∀ reply ∈ gone, ∀ cell', t.kv.cells[reply]? = some cell' →
      cell'.state.Open) : Draining t := by
  obtain ⟨hrunning, hadvance⟩ := h.phases (hstep.proceeds h.wired) hstopped hshutdown
  refine ⟨hcapacity ▸ h.capacity, hwired, houtputs, hstep.orderly_all h.orderly,
    fun id call hcall => ?_, hrunning, hadvance⟩
  rw [hcalls] at hcall
  refine (h.calls id call hcall).tracks (hstep.tracks h.wired hpanicked hopen id) hstep.tagged
    hproduced hpanicked hstep.length fun hlate => ?_
  rw [hstopped] at hlate
  exact (h.calls id call hcall).late hlate

variable {kv : ShardedKv K V}

theorem Draining.recv (h : Draining s) {i : Nat} (hst : s.kv.recv i = some kv) :
    Draining { s with kv, produced := s.produced ++ s.output (.recv i) } := by
  have hwired := h.wired.recv hst
  obtain ⟨sh, q, mailbox, hsh, hthread, hmailbox, rfl⟩ := recv_cases hst
  have houtput : s.output (.recv i) = [(q.reply, (sh.service.handle q.command).1)] := by
    simp [output, hsh, hmailbox]
  rw [houtput]
  refine h.shard ⟨hsh, by rw [hthread]; simp, rfl, released_of_cells rfl,
      nil_subset _, fun hun => hun.recv hmailbox _ _, fun hord => hord.recv hmailbox _ _,
      fun _ hgone => absurd hgone not_mem_nil, rfl, rfl, rfl⟩
    rfl rfl rfl rfl hwired (h.outputs.recv h.wired hwired hsh hmailbox rfl rfl)
    (subset_append_left _ _) (fun hcalm => hcalm)
    fun _ _ hgone => absurd hgone not_mem_nil

theorem Draining.reply (h : Draining s) {i : Nat} (hst : s.kv.sendReply i = some kv) :
    Draining { s with kv } := by
  have hwired := h.wired.sendReply hst
  have houtputs := h.outputs.sendReply hst
  obtain ⟨sh, reply, value, stop, hsh, hthread, rfl⟩ := sendReply_spec hst
  have hmem := mem_of_getElem? hsh
  have horderly := h.orderly sh hmem
  have hempty : (if stop = true then sh.mailbox else []) = [] := by
    cases stop with
    | true => exact horderly.stopping reply value hthread
    | false => rfl
  rw [hempty] at hwired houtputs ⊢
  have hreleased := released_reply s.kv reply value []
  refine h.shard ⟨hsh, by rw [hthread]; simp, rfl, ⟨hreleased.length, hreleased.cells⟩, ?_,
      fun hun => hun.answered stop, fun hord => hord.answered stop, fun r hr hasked => ?_,
      rfl, rfl, rfl⟩
    rfl rfl rfl rfl hwired houtputs (Subset.refl _) (fun hcalm => hcalm)
    fun _ r hr cell' hcell' => ?_
  · rw [KvShard.replies, hthread]
    exact subset_append_left _ _
  · rw [mem_singleton.mp hr] at hasked
    obtain ⟨command, hcommand, hstop⟩ := h.wired.replying sh hmem reply value stop hthread
    obtain ⟨c, hc, hstopped⟩ := hasked
    obtain ⟨c', hc', rfl⟩ := hcommand
    cases hc.symm.trans hc'
    rw [hstop.mpr hstopped]
    rfl
  · rw [mem_singleton.mp hr] at hcell'
    obtain ⟨cell, hcell, hout⟩ := h.wired.holds i sh hsh reply (by
      rw [KvShard.replies, hthread]
      exact mem_append_left _ mem_cons_self)
    cases modify_eq hcell hcell'
    rw [ReplySender.send_of_open (by rw [hout.state]; rfl)]
    exact .inl rfl

omit [DecidableEq V] [LinearOrder K] in
theorem panic_cases {i : Nat} (h : s.panic i = some t) :
    ∃ sh, s.kv.shards[i]? = some sh ∧ sh.thread ≠ .stopped ∧
      t = { s with kv := s.kv.die i sh, panicked := s.panicked ++ [i] } := by
  obtain ⟨sh, hsh, h⟩ := Option.bind_eq_some_iff.mp h
  refine ⟨sh, hsh, ?_⟩
  cases hthread : sh.thread with
  | stopped =>
    rw [hthread] at h
    cases h
  | receiving | replying =>
    rw [hthread] at h
    cases h
    exact ⟨by simp, rfl⟩

theorem Draining.panic (h : Draining s) {i : Nat} (hst : s.panic i = some t) : Draining t := by
  obtain ⟨sh, hsh, hrun, rfl⟩ := panic_cases hst
  have hpanicked : s.panicked ++ [i] = [] → False := by simp
  have hsame := die_eq s.kv i sh
  exact h.shard ⟨hsh, hrun, rfl, released_die s.kv i sh, Subset.refl _,
      fun _ => unsignalled_dead _, fun _ => orderly_dead _, fun _ _ _ => rfl, rfl, rfl, rfl⟩
    (by rw [hsame]) (by rw [hsame]) (by rw [hsame]) rfl (h.wired.die hsh) (h.outputs.die hsh)
    (Subset.refl _) (fun hcalm => (hpanicked hcalm).elim)
    fun hcalm => (hpanicked hcalm).elim

omit [DecidableEq V] in
private theorem Carried.proceeds (h : Carried s id call)
    (hstep : ClientStep s.kv id call kv) : Proceeds s { s with kv } := by
  have hcells : ∀ (reply : Nat) cell i, s.kv.cells[reply]? = some cell → cell.request = .stop i →
      kv.cells[reply]? = some cell := by
    intro reply cell i hcell hrequest
    refine hstep.others h.sends h.owns hcell (.inr fun hmem => ?_)
    exact h.ne_stop hmem i hrequest
  cases hstep with
  | submitted | unroutable | opened | refused | finished | failed | received =>
    exact proceeds_of_shards rfl hcells rfl rfl rfl
  | @sent shard request reply todo replies sh₀ hphase hsh₀ hroom hrun =>
    have hne : request.command ≠ .stop := by
      have hstop : ∀ i, request ≠ .stop i := h.ne_stop (mem_append_right _ (by
        rw [hphase]
        exact mem_cons_self))
      cases request with
      | keyed | len | keys => exact fun hcommand => by cases hcommand
      | stop i => exact absurd rfl (hstop i)
    refine ⟨length_modify .., fun k sh sh' hsh hsh' hstopped => ?_,
      fun k sh sh' hsh hsh' hun => ?_, fun reply cell i hcell hrequest =>
        ⟨cell, hcells reply cell i hcell hrequest, .refl cell, .inl rfl⟩, rfl, rfl, rfl⟩
    · rcases getElem?_modify_cases hsh' with ⟨_, hold⟩ | ⟨rfl, x, hold, rfl⟩ <;>
        cases hsh.symm.trans hold <;> exact hstopped
    · rcases getElem?_modify_cases hsh' with ⟨_, hold⟩ | ⟨rfl, x, hold, rfl⟩ <;>
        cases hsh.symm.trans hold
      · exact hun
      · exact hun.push hne

private theorem Draining.orderly_client (h : Draining s) (hcall : s.kv.calls[id]? = some call)
    (hstep : ClientStep s.kv id call kv) : ∀ sh ∈ kv.shards, sh.Orderly := by
  cases hstep with
  | submitted | unroutable | opened | refused | finished | failed | received => exact h.orderly
  | @sent shard request reply todo replies sh₀ hphase hsh₀ hroom hrun =>
    have hrunning : s.kv.stopped = false := by
      cases hstopped : s.kv.stopped with
      | false => rfl
      | true =>
        have hlate := (h.calls id call hcall).late hstopped
        rw [hphase] at hlate
        exact hlate.elim
    obtain ⟨_, _, hun⟩ := h.running hrunning
    intro sh hmem
    obtain ⟨k, hk⟩ := getElem?_of_mem hmem
    rcases getElem?_modify_cases hk with ⟨_, hold⟩ | ⟨rfl, x, hold, rfl⟩
    · exact h.orderly sh (mem_of_getElem? hold)
    · cases hsh₀.symm.trans hold
      exact (hun _ sh₀ (Nat.zero_le _) hsh₀).orderly_push hrun _

theorem Draining.client (h : Draining s) (hst : s.kv.client id = some kv) :
    Draining { s with kv } := by
  obtain ⟨call, hcall, hstep⟩ := client_cases hst
  have hown := h.calls id call hcall
  have hfixed : kv.capacity = s.kv.capacity ∧ kv.stopped = s.kv.stopped := by
    cases hstep <;> exact ⟨rfl, rfl⟩
  obtain ⟨hrunning, hadvance⟩ := h.phases (hown.proceeds hstep) hfixed.2 rfl
  refine ⟨hfixed.1 ▸ h.capacity, hstep.wired h.wired hown.sends,
    hstep.outputs h.outputs hown.sends, h.orderly_client hcall hstep, fun j call' hcall' => ?_,
    hrunning, hadvance⟩
  by_cases hj : j = id
  · subst hj
    exact hown.client hcall hstep hcall' h.outputs.values
  · obtain ⟨phase, hcalls⟩ := hstep.calls
    rw [hcalls, getElem?_modify_other (Ne.symm hj)] at hcall'
    exact hown.others hstep (h.calls j call' hcall') hj

omit [LinearOrder K] [DecidableEq V] in
private theorem requests_stopped {op : Op K V} {requests : List (KvRequest K V)}
    (h : kv.requests op = .ok requests) :
    { kv with stopped := false }.requests op = .ok requests ∧
      (kv.stopped = true → ∀ r ∈ requests, ∃ command, r = .keyed command) := by
  cases hstopped : kv.stopped with
  | false =>
    have hsame : { kv with stopped := false }.requests = kv.requests :=
      requests_congr hstopped.symm rfl
    exact ⟨hsame ▸ h, fun hfalse => absurd hfalse (by simp)⟩
  | true =>
    cases op with
    | keyed command =>
      cases h
      exact ⟨rfl, fun _ r hr => ⟨command, mem_singleton.mp hr⟩⟩
    | getMany keys | deleteMany keys =>
      cases h
      refine ⟨rfl, fun _ r hr => ?_⟩
      obtain ⟨key, _, rfl⟩ := mem_map.mp hr
      exact ⟨_, rfl⟩
    | totalLen | shardSnapshots | allKeys | lenOnShard | keysOnShard =>
      simp only [ShardedKv.requests, ShardedKv.shard, ShardedKv.ensureRunning, hstopped] at h
      cases h

omit [LinearOrder K] [DecidableEq V] in
private theorem requests_ne_replyFailed {op : Op K V} : kv.requests op ≠ .error .replyFailed := by
  intro h
  cases hstopped : kv.stopped <;> cases op with
  | keyed | getMany | deleteMany => cases h
  | totalLen | shardSnapshots | allKeys =>
    simp only [requests, ensureRunning, hstopped] at h
    cases h
  | lenOnShard i | keysOnShard i =>
    by_cases hi : i < kv.shards.length <;>
      simp only [requests, shard, ensureRunning, getById,
        hstopped, hi] at h <;>
      cases h

theorem Draining.beginCall (h : Draining s) (op : Op K V) (blocking : Bool) :
    Draining { s with kv := s.kv.begin op blocking } := by
  have hproceeds : Proceeds s { s with kv := s.kv.begin op blocking } :=
    proceeds_of_shards rfl (fun _ _ _ hcell _ => hcell) rfl rfl rfl
  obtain ⟨hrunning, hadvance⟩ := h.phases hproceeds rfl rfl
  refine ⟨h.capacity, h.wired.congr rfl rfl, h.outputs.congr rfl rfl, h.orderly,
    fun id call hcall => ?_, hrunning, hadvance⟩
  rcases getElem?_concat hcall with hold | ⟨_, hnew⟩
  · exact (h.calls id call hold).tracks
      (fun _ cell hcell _ _ => ⟨cell, hcell, .refl cell, fun h => h, fun _ => rfl⟩)
      (fun _ cell hcell => ⟨cell, hcell, rfl, rfl⟩) (Subset.refl _) (fun hcalm => hcalm) rfl
      (h.calls id call hold).late
  · subst hnew
    cases hrequests : s.kv.requests op with
    | error e =>
      refine ⟨.inl ⟨e, rfl⟩, fun _ hfailed => ?_, fun p hp => ?_, fun _ _ _ _ _ hsending => ?_,
        fun _ _ _ _ _ hsending => ?_, fun _ => trivial⟩
      · cases hfailed
        exact requests_ne_replyFailed hrequests
      · cases hp
      · cases hsending
      · cases hsending
    | ok requests =>
      obtain ⟨hrunning, hlate⟩ := requests_stopped hrequests
      refine ⟨.inr ⟨requests, [], hrunning, ?_, .nil, rfl, fun _ hr => ?_⟩, fun _ hfailed => ?_,
        fun p hp => ?_, fun _ _ _ _ _ hsending => ?_, fun _ _ _ _ _ hsending => ?_, hlate⟩
      · simp [Phase.pending, Phase.unsent]
      · cases hr
      · cases hfailed
      · cases hp
      · cases hsending
      · cases hsending

private theorem Draining.calls_of (h : Draining s)
    (hcells : ∀ (reply : Nat) cell, s.kv.cells[reply]? = some cell →
      (∀ i, cell.request ≠ .stop i) → t.kv.cells[reply]? = some cell)
    (htagged : Tagged s.kv t.kv) (hcalls : t.kv.calls = s.kv.calls)
    (hproduced : t.produced = s.produced) (hpanicked : t.panicked = s.panicked)
    (hlength : t.kv.shards.length = s.kv.shards.length)
    (hlate : t.kv.stopped = true → ∀ call ∈ s.kv.calls, call.phase.Late) (id : Nat)
    (call : Call K V) (hcall : t.kv.calls[id]? = some call) : Carried t id call := by
  rw [hcalls] at hcall
  refine (h.calls id call hcall).tracks (fun reply cell hcell _ hne => ?_) htagged
    (by rw [hproduced]; exact Subset.refl _) (by rw [hpanicked]; exact fun h => h) hlength
    fun hstopped => hlate hstopped call (mem_of_getElem? hcall)
  refine ⟨cell, hcells reply cell hcell hne, .refl cell, ?_, fun _ => rfl⟩
  rw [Hopeful, Hopeful, hpanicked]
  exact fun h => h

theorem Draining.late (h : Draining s) (hstopped : s.kv.stopped = true) :
    ∀ call ∈ s.kv.calls, call.phase.Late := by
  intro call hmem
  obtain ⟨id, hcall⟩ := getElem?_of_mem hmem
  exact (h.calls id call hcall).late hstopped

theorem Draining.begin (h : Draining s) (hst : s.begin = some t) : Draining t := by
  unfold KvLifecycle.begin at hst
  split at hst
  · cases hst
  next hfree =>
    rw [not_or, Bool.not_eq_true, any_eq_false] at hfree
    cases hstopped : s.kv.stopped with
    | true =>
      rw [if_pos hstopped] at hst
      cases hst
      obtain ⟨hrunning, hadvance⟩ := h.phases (t := { s with results := s.results ++ [.ok ()] })
        (proceeds_of_shards rfl (fun _ _ _ hcell _ => hcell) rfl rfl rfl) rfl rfl
      exact ⟨h.capacity, h.wired, h.outputs, h.orderly,
        h.calls_of (fun _ _ hcell _ => hcell) (fun _ cell hcell => ⟨cell, hcell, rfl, rfl⟩) rfl rfl
          rfl rfl h.late, hrunning, hadvance⟩
    | false =>
      rw [hstopped] at hst
      cases hst
      obtain ⟨_, hreached, hun⟩ := h.running hstopped
      have hproceeds : Proceeds s { s with
          kv := { s.kv with stopped := true }, shutdown := .stopping 0 (.ok ()) } :=
        proceeds_of_shards rfl (fun _ _ _ hcell _ => hcell) rfl rfl rfl
      refine ⟨h.capacity, h.wired.congr rfl rfl, h.outputs.congr rfl rfl, h.orderly,
        h.calls_of (fun _ _ hcell _ => hcell) (fun _ cell hcell => ⟨cell, hcell, rfl, rfl⟩) rfl rfl
          rfl rfl fun _ call hmem => ?_, fun hfalse => ?_,
        fun _ => ⟨Nat.zero_le _, hreached.proceeds hproceeds, hun.proceeds hproceeds⟩⟩
      · have hborrows := hfree.2 call hmem
        cases hphase : call.phase with
        | submitting | sending =>
          rw [hphase] at hborrows
          exact absurd rfl hborrows
        | waiting | returned => exact trivial
      · cases hfalse

section Proceed
variable {i reply : Nat} {result : Except ShardError Unit}

section
variable (h : Draining s)
include h

theorem Draining.stopped_of (hshutdown : s.shutdown ≠ .idle) : s.kv.stopped = true := by
  cases hstopped : s.kv.stopped with
  | true => rfl
  | false => exact absurd (h.running hstopped).1 hshutdown

private theorem Draining.stage {phase : ShutdownPhase} (hshutdown : s.shutdown = phase)
    (hne : phase ≠ .idle) : s.kv.stopped = true ∧ s.Advance phase := by
  subst hshutdown
  exact ⟨h.stopped_of hne, h.advance (h.stopped_of hne)⟩

private theorem Draining.report (hstopped : s.kv.stopped = true) (hlt : i < s.kv.shardCount)
    (hreached : s.Reached i) (hrest : s.UnsignalledFrom (i + 1))
    (hended : ∃ sh, s.kv.shards[i]? = some sh ∧ sh.thread = .stopped)
    (reported result : Except ShardError Unit) (hwired : kv.Wired)
    (houtputs : kv.Outputs s.produced)
    (hcells : ∀ (reply : Nat) cell, s.kv.cells[reply]? = some cell →
      (∀ i, cell.request ≠ .stop i) → kv.cells[reply]? = some cell)
    (htagged : Tagged s.kv kv) (hkv : kv = { s.kv with cells := kv.cells }) :
    Draining (s.report kv i reported result) := by
  have hshards : kv.shards = s.kv.shards := by rw [hkv]
  have hcount : kv.shardCount = s.kv.shardCount := congrArg length hshards
  refine ⟨by rw [KvLifecycle.report, hkv]; exact h.capacity, hwired, houtputs, ?_,
    h.calls_of hcells htagged (by rw [KvLifecycle.report, hkv]) rfl rfl
      (congrArg length hshards) fun _ => h.late hstopped, fun hfalse => ?_,
    fun _ => ⟨?_, ⟨fun k sh hk hsh => ?_, ?_, ?_, hreached.joined⟩, fun k sh hk hsh => ?_⟩⟩
  · rw [KvLifecycle.report, hshards]
    exact h.orderly
  · rw [KvLifecycle.report, hkv] at hfalse
    cases hstopped.symm.trans hfalse
  · rw [KvLifecycle.report, hcount]
    exact hlt
  · rw [KvLifecycle.report, hshards] at hsh
    rcases Nat.lt_succ_iff_lt_or_eq.mp hk with hlt' | rfl
    · exact hreached.stopped k sh hlt' hsh
    · obtain ⟨sh', hsh', hthread⟩ := hended
      cases hsh.symm.trans hsh'
      exact hthread
  · rw [KvLifecycle.report, map_append, hreached.signalled, range_succ]
    rfl
  · rw [KvLifecycle.report, hcount]
    exact hreached.joins
  · rw [KvLifecycle.report, hshards] at hsh
    exact hrest k sh hk hsh

private theorem Draining.stopping (hshutdown : s.shutdown = .stopping i result)
    (hst : s.proceed = some t) : Draining t := by
  obtain ⟨hstopped, hle, hreached, hrest⟩ := h.stage hshutdown (by simp)
  rw [KvLifecycle.proceed, hshutdown] at hst
  by_cases hlt : i < s.kv.shardCount
  · simp only [if_pos hlt] at hst
    cases hst
    have hproceeds : Proceeds s { s with
        kv := s.kv.openReply s.kv.calls.length i (.stop i)
        shutdown := .sending i s.kv.cells.length result } :=
      proceeds_of_shards rfl (fun _ _ _ hcell _ => getElem?_concat_of hcell) rfl rfl rfl
    refine ⟨h.capacity, h.wired.openReply _ _ _, h.outputs.openReply _ _ _, h.orderly,
      h.calls_of (fun _ _ hcell _ => getElem?_concat_of hcell)
        (fun _ cell hcell => ⟨cell, getElem?_concat_of hcell, rfl, rfl⟩) rfl rfl rfl rfl
        (fun _ => h.late hstopped), fun hfalse => ?_, fun _ => ⟨hlt, hreached.proceeds hproceeds,
        hrest.proceeds hproceeds, s.kv.calls.length, getElem?_concat_length⟩⟩
    cases hstopped.symm.trans hfalse
  · simp only [if_neg hlt] at hst
    cases hst
    have hall : i = s.kv.shardCount := Nat.le_antisymm hle (Nat.le_of_not_lt hlt)
    refine ⟨h.capacity, h.wired, h.outputs, h.orderly,
      h.calls_of (fun _ _ hcell _ => hcell) (fun _ cell hcell => ⟨cell, hcell, rfl, rfl⟩) rfl rfl
        rfl rfl fun _ => h.late hstopped, fun hfalse => ?_,
      fun _ => ⟨fun sh hmem => ?_, hall ▸ hreached.signalled, ?_, rfl⟩⟩
    · cases hstopped.symm.trans hfalse
    · obtain ⟨k, hk⟩ := getElem?_of_mem hmem
      have hk' : k < i := by
        rw [hall]
        exact (List.getElem?_eq_some_iff.mp hk).1
      exact hreached.stopped k sh hk' hk
    · have hjoins : s.joined ++ s.joins = range s.kv.shardCount := by
        rw [hreached.joined, hreached.joins, nil_append]
      exact hjoins

private theorem Draining.sending (hshutdown : s.shutdown = .sending i reply result)
    (hst : s.sendStop i reply result = some t) : Draining t := by
  obtain ⟨hstopped, hlt, hreached, hrest, call, hcell⟩ := h.stage hshutdown (by simp)
  have hothers : ∀ {f : Cell K V → Cell K V} (r : Nat) cell, s.kv.cells[r]? = some cell →
      (∀ i, cell.request ≠ .stop i) → (s.kv.cells.modify reply f)[r]? = some cell := by
    intro f r cell hr hrequest
    have hne : reply ≠ r := by
      rintro rfl
      cases hcell.symm.trans hr
      exact hrequest i rfl
    exact (getElem?_modify_other hne).trans hr
  obtain ⟨sh, hsh, hst⟩ := Option.bind_eq_some_iff.mp hst
  have hlater : s.UnsignalledFrom (i + 1) := fun k sh hk => hrest k sh (Nat.le_of_succ_le hk)
  by_cases hended : sh.thread = .stopped
  · rw [hended] at hst
    cases hst
    refine h.report hstopped hlt hreached hlater ⟨sh, hsh, hended⟩ _ _ ?_ ?_ hothers
      (tagged_modify rfl fun _ => ⟨rfl, rfl⟩) rfl
    · refine h.wired.modifyCell (f := fun state => (ReplySender.drop state).1) hcell
        (fun hsent => ?_) fun halive => ?_
      · cases hsent
      · rw [drop_senderAlive] at halive
        cases halive
    · exact h.outputs.modifyCell (f := fun state => (ReplySender.drop state).1) hcell
        fun _ hvalue => hvalue
  · have hpush : t = { s with kv := s.kv.push i (.stop i) reply
                              shutdown := .awaiting i reply result } := by
      cases hthread : sh.thread with
      | stopped => exact absurd hthread hended
      | receiving | replying =>
        rw [hthread] at hst
        by_cases hroom : sh.mailbox.length < s.kv.capacity
        · simp only [if_pos hroom, Option.some.injEq] at hst
          exact hst.symm
        · simp only [if_neg hroom] at hst
          cases hst
    subst hpush
    have hshard : ∀ (k : Nat) sh', (s.kv.push i (.stop i) reply).shards[k]? = some sh' →
        (i ≠ k ∧ s.kv.shards[k]? = some sh') ∨
          (i = k ∧ sh' = { sh with mailbox := sh.mailbox ++ [⟨.stop, reply⟩] }) := by
      intro k sh' hk
      rcases getElem?_modify_cases hk with hold | ⟨rfl, x, hold, rfl⟩
      · exact .inl hold
      · cases hsh.symm.trans hold
        exact .inr ⟨rfl, rfl⟩
    have hlength : (s.kv.push i (.stop i) reply).shards.length = s.kv.shards.length :=
      length_modify ..
    refine ⟨h.capacity, h.wired.push hcell hsh, h.outputs.push hcell hsh, fun sh' hmem => ?_,
      h.calls_of hothers (tagged_modify rfl fun _ => ⟨rfl, rfl⟩) rfl rfl rfl hlength
        (fun _ => h.late hstopped), fun hfalse => ?_,
      fun _ => ⟨?_, ⟨fun k sh' hk hsh' => ?_, hreached.signalled, ?_, hreached.joined⟩,
        fun k sh' hk hsh' => ?_, ?_⟩⟩
    · obtain ⟨k, hk⟩ := getElem?_of_mem hmem
      rcases hshard k sh' hk with ⟨_, hold⟩ | ⟨_, rfl⟩
      · exact h.orderly sh' (mem_of_getElem? hold)
      · exact (hrest i sh (Nat.le_refl i) hsh).orderly_push hended _
    · cases hstopped.symm.trans hfalse
    · rw [shardCount, hlength]
      exact hlt
    · rcases hshard k sh' hsh' with ⟨_, hold⟩ | ⟨rfl, _⟩
      · exact hreached.stopped k sh' hk hold
      · exact absurd hk (Nat.lt_irrefl _)
    · rw [shardCount, hlength]
      exact hreached.joins
    · rcases hshard k sh' hsh' with ⟨_, hold⟩ | ⟨rfl, _⟩
      · exact hlater k sh' hk hold
      · exact absurd hk (Nat.not_succ_le_self _)
    · exact ⟨_, getElem?_modify_self hcell, rfl, rfl, rfl, .inl rfl⟩

/-- The answer to a stop command, or its loss, means that the shard has ended. -/
private theorem Draining.awaiting (hshutdown : s.shutdown = .awaiting i reply result)
    (hst : s.awaitStop i reply result = some t) : Draining t := by
  obtain ⟨hstopped, hlt, hreached, hlater, cell, hcell, hrequest, _, _, hstate⟩ :=
    h.stage hshutdown (by simp)
  obtain ⟨cell', hcell', hst⟩ := Option.bind_eq_some_iff.mp hst
  cases hcell.symm.trans hcell'
  have hended : cell.state ≠ replyChannel →
      ∃ sh, s.kv.shards[i]? = some sh ∧ sh.thread = .stopped := hstate.resolve_left
  cases hwait : Reply.wait cell.state with
  | mk answer state =>
    rw [hwait] at hst
    have hanswered : answer ≠ none → cell.state ≠ replyChannel := by
      rintro hsome hfresh
      rw [hfresh] at hwait
      cases hwait
      exact hsome rfl
    cases answer with
    | none => cases hst
    | some answer =>
      have hend := hended (hanswered (by simp))
      cases answer with
      | error e =>
        cases hst
        exact h.report hstopped hlt hreached hlater hend _ _ h.wired h.outputs (fun _ _ hc _ => hc)
          (fun _ cell hc => ⟨cell, hc, rfl, rfl⟩) rfl
      | ok value =>
        cases hst
        obtain ⟨hvalue, hstate'⟩ := Reply.wait_eq_ok hwait
        refine h.report hstopped hlt hreached hlater hend _ _ ?_ ?_ (fun r c hc hc' => ?_)
          (tagged_modify rfl fun _ => ⟨rfl, rfl⟩) rfl
        · refine h.wired.modifyCell (f := fun _ => state) hcell
            (fun _ => hanswered (by simp)) fun halive => ?_
          rw [hstate'] at halive
          exact halive
        · refine h.outputs.modifyCell (f := fun _ => state) hcell fun v hv => ?_
          rw [hstate'] at hv
          cases hv
        · have hne : reply ≠ r := by
            rintro rfl
            cases hcell.symm.trans hc
            exact hc' i hrequest
          exact (getElem?_modify_other hne).trans hc

private theorem Draining.joining {threads : List Nat} {stopped joined : Except ShardError Unit}
    (hshutdown : s.shutdown = .joining threads stopped joined) (hst : s.proceed = some t) :
    Draining t := by
  obtain ⟨hstopped, hthreads, hsignalled, hjoined, hjoins⟩ := h.stage hshutdown (by simp)
  have hrest : ∀ t : KvLifecycle K V, t.kv = s.kv → t.produced = s.produced →
      t.panicked = s.panicked → t.Advance t.shutdown → Draining t := by
    intro t hkv hproduced hpanicked hadvance
    have hcalls := h.calls_of (t := t) (fun _ _ hcell _ => hkv ▸ hcell)
      (fun _ cell hcell => ⟨cell, hkv ▸ hcell, rfl, rfl⟩) (by rw [hkv]) hproduced hpanicked
      (by rw [hkv]) fun _ => h.late hstopped
    refine ⟨hkv ▸ h.capacity, hkv ▸ h.wired, by rw [hkv, hproduced]; exact h.outputs,
      by rw [hkv]; exact h.orderly, hcalls, fun hfalse => ?_, fun _ => hadvance⟩
    rw [hkv] at hfalse
    cases hstopped.symm.trans hfalse
  rw [KvLifecycle.proceed, hshutdown] at hst
  cases threads with
  | nil =>
    cases hst
    exact hrest _ rfl rfl rfl ⟨hthreads, hsignalled, hjoined, hjoins⟩
  | cons i threads =>
    obtain ⟨sh, hsh, hst⟩ := Option.bind_eq_some_iff.mp hst
    rw [hthreads sh (mem_of_getElem? hsh)] at hst
    cases hst
    refine hrest _ rfl rfl rfl ⟨hthreads, hsignalled, ?_, hjoins⟩
    rw [append_assoc, singleton_append]
    exact hjoined

theorem Draining.proceed (hst : s.proceed = some t) : Draining t := by
  cases hshutdown : s.shutdown with
  | idle =>
    rw [KvLifecycle.proceed, hshutdown] at hst
    cases hst
  | stopping i result => exact h.stopping hshutdown hst
  | sending i reply result =>
    rw [KvLifecycle.proceed, hshutdown] at hst
    exact h.sending hshutdown hst
  | awaiting i reply result =>
    rw [KvLifecycle.proceed, hshutdown] at hst
    exact h.awaiting hshutdown hst
  | joining threads stopped joined => exact h.joining hshutdown hst

end

end Proceed

theorem Draining.step (h : Draining s) {e : LifecycleEvent K V} (hst : s.step e = some t) :
    Draining t := by
  cases e with
  | shutdown => exact h.begin hst
  | proceed => exact h.proceed hst
  | panic i => exact h.panic hst
  | store e =>
    obtain ⟨kv, hkv, rfl⟩ := store_cases hst
    cases e with
    | recv i => exact h.recv hkv
    | call op blocking =>
      cases hkv
      have hcall := h.beginCall op blocking
      simpa [output] using hcall
    | client id =>
      have hclient := h.client hkv
      simpa [output] using hclient
    | reply i =>
      have hreply := h.reply hkv
      simpa [output] using hreply

end KvLifecycle
end Sitas.Kv
