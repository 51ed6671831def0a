import Sitas.Kv.Gathering

namespace Sitas.Kv
open Sitas.Lib Sitas.Runtime List

namespace ShardedKv
variable {K V : Type} {s t : ShardedKv K V} {id : Nat} {call : Call K V}

def Awaited (s : ShardedKv K V) (call : Nat) (p : KvRequest K V × Nat) : Prop :=
  ∃ cell, s.cells[p.2]? = some cell ∧ cell.call = call ∧ cell.request = p.1 ∧ cell.sent = true ∧
    cell.state.Open

def Delivered (s : ShardedKv K V) (call : Nat) (r : Receipt K V) : Prop :=
  (∃ cell, s.cells[r.reply]? = some cell ∧ cell.call = call ∧ cell.request = r.request) ∧
    match r.request, r.value with
    | .keyed command, .answer a =>
      .invoke r.reply command ∈ s.history ∧ .respond r.reply a ∈ s.history
    | .len _, .len _ | .keys _, .keys _ => True
    | _, _ => False

/-- The reply channels of a call are left as they are, but for replies that arrive. -/
def Keeps (s t : ShardedKv K V) (id : Nat) : Prop :=
  ∀ (reply : Nat) cell, s.cells[reply]? = some cell → cell.call = id →
    ∃ cell', t.cells[reply]? = some cell' ∧ cell'.call = id ∧ cell'.request = cell.request ∧
      cell'.sent = cell.sent ∧ (cell.state.Open → cell'.state.Open) ∧
      (cell.sent = false → cell' = cell)

theorem keeps_of_cells (h : t.cells = s.cells) (id : Nat) : Keeps s t id := by
  intro reply cell hcell hid
  exact ⟨cell, h ▸ hcell, hid, rfl, rfl, fun h => h, fun _ => rfl⟩

theorem Awaited.keeps {p : KvRequest K V × Nat} (h : s.Awaited id p) (hkeeps : Keeps s t id) :
    t.Awaited id p := by
  obtain ⟨cell, hcell, hcall, hrequest, hsent, hopen⟩ := h
  obtain ⟨cell', hcell', hcall', hrequest', hsent', hopen', _⟩ := hkeeps _ cell hcell hcall
  exact ⟨cell', hcell', hcall', hrequest'.trans hrequest, hsent'.trans hsent, hopen' hopen⟩

def Tagged (s t : ShardedKv K V) : Prop :=
  ∀ (reply : Nat) cell, s.cells[reply]? = some cell →
    ∃ cell', t.cells[reply]? = some cell' ∧ cell'.call = cell.call ∧ cell'.request = cell.request

variable {reply : Nat} {request : KvRequest K V} {cell : Cell K V}

theorem tagged_modify {f : Cell K V → Cell K V} (h : t.cells = s.cells.modify reply f)
    (hf : ∀ cell, (f cell).call = cell.call ∧ (f cell).request = cell.request) : Tagged s t := by
  intro reply' cell hcell
  rw [h]
  by_cases hreply : reply = reply'
  · subst hreply
    exact ⟨f cell, getElem?_modify_self hcell, hf cell⟩
  · exact ⟨cell, (getElem?_modify_other hreply).trans hcell, rfl, rfl⟩

theorem Delivered.mono {r : Receipt K V} (h : s.Delivered id r) (htagged : Tagged s t)
    (hhistory : s.history ⊆ t.history) : t.Delivered id r := by
  obtain ⟨⟨cell, hcell, hcall, hrequest⟩, hvalue⟩ := h
  obtain ⟨cell', hcell', hcall', hrequest'⟩ := htagged _ cell hcell
  refine ⟨⟨cell', hcell', hcall'.trans hcall, hrequest'.trans hrequest⟩, ?_⟩
  revert hvalue
  cases r.request <;> cases r.value <;>
    first
    | exact fun h => h
    | exact fun h => ⟨hhistory h.1, hhistory h.2⟩

theorem requests_congr (hstopped : t.stopped = s.stopped)
    (hlength : t.shards.length = s.shards.length) : t.requests = s.requests := by
  funext op
  cases op <;>
    simp only [requests, ensureRunning, shard, getById, shardCount, hstopped, hlength]

theorem route_requests {op : Op K V} {requests : List (KvRequest K V)}
    (hstopped : s.stopped = false) (hplaced : ∀ key, s.shardForKey key < s.shards.length)
    (h : s.requests op = .ok requests) (hmem : request ∈ requests) :
    ∃ shard, s.route request = .ok shard ∧ s.Routed request shard := by
  have hkeyed : ∀ command : KeyCommand K V, ∃ shard, s.route (.keyed command) = .ok shard ∧
      s.Routed (.keyed command) shard := by
    intro command
    refine ⟨s.shardForKey command.key, ?_, rfl⟩
    simp only [route, shardForOwnedKey, ensureRunning, hstopped, getById, hplaced command.key]
    rfl
  have hasks := asks_of_requests h hmem
  cases op with
  | keyed command =>
    rw [show request = .keyed command from hasks]
    exact hkeyed command
  | getMany keys | deleteMany keys =>
    obtain ⟨key, _, rfl⟩ := hasks
    exact hkeyed _
  | totalLen | shardSnapshots | allKeys | lenOnShard | keysOnShard =>
    obtain ⟨i, hi, rfl⟩ := hasks
    exact ⟨i, rfl, rfl, hi⟩

variable [LinearOrder K]

structure CallOk (s : ShardedKv K V) (id : Nat) (call : Call K V) : Prop where
  gathers : (∃ e, call.phase = .returned (.error e)) ∨
    ∃ requests receipts, s.requests call.op = .ok requests ∧
      call.Gathers requests (s.Delivered id) receipts
  errors : ∀ e, call.phase = .returned (.error e) →
    (call.blocking = false ∧ e = .mailboxFull) ∨ s.requests call.op = .error e
  pending : ∀ p ∈ call.phase.pending, s.Awaited id p
  sending : ∀ shard request reply todo replies,
    call.phase = .sending shard request reply todo replies →
      s.cells[reply]? = some ⟨id, shard, request, false, replyChannel⟩ ∧ ∀ p ∈ replies, p.2 < reply

theorem CallOk.keeps (h : CallOk s id call) (hkeeps : Keeps s t id) (htagged : Tagged s t)
    (hhistory : s.history ⊆ t.history) (hrequests : t.requests = s.requests) :
    CallOk t id call := by
  refine ⟨?_, ?_, fun p hp => (h.pending p hp).keeps hkeeps,
    fun shard request reply todo replies hphase => ?_⟩
  · refine h.gathers.imp_right ?_
    rintro ⟨requests, receipts, hrs, hgathers⟩
    refine ⟨requests, receipts, hrequests ▸ hrs, hgathers.parts, hgathers.ascending,
      hgathers.accounts, fun r hr => (hgathers.each r hr).mono htagged hhistory⟩
  · rw [hrequests]
    exact h.errors
  · obtain ⟨hcell, hlast⟩ := h.sending shard request reply todo replies hphase
    obtain ⟨cell', hcell', _, _, _, _, hsame⟩ := hkeeps reply _ hcell rfl
    rw [hsame rfl] at hcell'
    exact ⟨hcell', hlast⟩

/-- A step of a client leaves alone the reply channels of other calls, and of requests that
the call does not make. -/
theorem ClientStep.others (h : ClientStep s id call t) (hsends : s.Sends id call.phase)
    (hpending : ∀ p ∈ call.phase.pending, ∃ cell, s.cells[p.2]? = some cell ∧ cell.call = id ∧
      cell.request = p.1) (hcell : s.cells[reply]? = some cell)
    (hother : cell.call ≠ id ∨ cell.request ∉ call.phase.pending.map (·.1) ++ call.phase.unsent) :
    t.cells[reply]? = some cell := by
  have hmodify : ∀ {reply' : Nat} {cell' : Cell K V} {f : Cell K V → Cell K V},
      s.cells[reply']? = some cell' → cell'.call = id →
        cell'.request ∈ call.phase.pending.map (·.1) ++ call.phase.unsent →
        (s.cells.modify reply' f)[reply]? = some cell := by
    intro reply' cell' f hcell' hid' hrequest'
    have hne : reply' ≠ reply := by
      rintro rfl
      cases hcell.symm.trans hcell'
      exact hother.elim (fun hid => hid hid') fun hrequest => hrequest hrequest'
    exact (getElem?_modify_other hne).trans hcell
  cases h with
  | submitted | unroutable | finished | failed => exact hcell
  | opened => exact getElem?_concat_of hcell
  | refused hphase | sent hphase =>
    obtain ⟨hown, _⟩ := hsends _ _ _ _ _ hphase
    refine hmodify hown rfl ?_
    rw [hphase]
    exact mem_append_right _ mem_cons_self
  | @received request reply' pending total cell' value state total' hphase =>
    have hmem : (request, reply') ∈ call.phase.pending := by
      rw [hphase]
      exact mem_cons_self
    obtain ⟨cell', hcell', hid', hrequest'⟩ := hpending _ hmem
    refine hmodify hcell' hid' ?_
    rw [hrequest']
    exact mem_append_left _ (mem_map.mpr ⟨_, hmem, rfl⟩)

theorem ClientStep.wired (h : ClientStep s id call t) (hw : Wired s)
    (hsends : s.Sends id call.phase) : Wired t := by
  cases h with
  | submitted | unroutable | finished | failed => exact hw.congr rfl rfl
  | opened => exact (hw.openReply _ _ _).congr rfl rfl
  | refused hphase =>
    obtain ⟨hcell, _⟩ := hsends _ _ _ _ _ hphase
    refine Wired.congr (hw.modifyCell (f := fun state => (ReplySender.drop state).1) hcell
      (fun hsent => ?_) fun halive => ?_) rfl rfl
    · cases hsent
    · rw [drop_senderAlive] at halive
      cases halive
  | sent hphase hsh =>
    obtain ⟨hcell, _⟩ := hsends _ _ _ _ _ hphase
    exact (hw.push hcell hsh).congr rfl rfl
  | @received request reply pending total cell value state total' hphase hcell hwait =>
    obtain ⟨hvalue, hstate⟩ := Reply.wait_eq_ok hwait
    refine Wired.congr (hw.modifyCell (f := fun _ => state) hcell (fun _ hfresh => ?_)
      fun halive => ?_) rfl rfl
    · rw [hfresh] at hvalue
      cases hvalue
    · rw [hstate] at halive
      exact halive

theorem CallOk.owns (h : CallOk s id call) : ∀ p ∈ call.phase.pending,
    ∃ cell, s.cells[p.2]? = some cell ∧ cell.call = id ∧ cell.request = p.1 := by
  intro p hp
  obtain ⟨cell, hcell, hid, hrequest, _⟩ := h.pending p hp
  exact ⟨cell, hcell, hid, hrequest⟩

section
variable (h : ClientStep s id call t)
include h

theorem ClientStep.keeps (hok : CallOk s id call) {j : Nat} (hj : j ≠ id) : Keeps s t j := by
  intro reply cell hcell hid
  refine ⟨cell, h.others hok.sending hok.owns hcell (.inl ?_), hid, rfl, rfl, fun h => h,
    fun _ => rfl⟩
  rw [hid]
  exact hj

theorem ClientStep.tagged : Tagged s t := by
  cases h with
  | submitted | unroutable | finished | failed => exact fun _ cell hcell => ⟨cell, hcell, rfl, rfl⟩
  | opened => exact fun _ cell hcell => ⟨cell, getElem?_concat_of hcell, rfl, rfl⟩
  | refused | sent | received => exact tagged_modify rfl fun _ => ⟨rfl, rfl⟩

theorem ClientStep.history : s.history ⊆ t.history := by
  cases h with
  | submitted | unroutable | finished | failed | refused | sent => exact Subset.refl _
  | opened | received => exact subset_append_left _ _

theorem ClientStep.requests : t.requests = s.requests := by
  cases h with
  | submitted | unroutable | finished | failed | refused | opened | received =>
    exact requests_congr rfl rfl
  | sent => exact requests_congr rfl (length_modify ..)

theorem ClientStep.responds {command : KeyCommand K V} {pending : List (KvRequest K V × Nat)}
    {total : KvResult K V} {a : Answer V}
    (hphase : call.phase = .waiting ((.keyed command, reply) :: pending) total)
    (hcell : s.cells[reply]? = some cell) (hvalue : cell.state.value = some (.answer a)) :
    .respond reply a ∈ t.history := by
  cases h with
  | submitted hphase' | unroutable hphase' | opened hphase' | refused hphase' | sent hphase'
  | finished hphase' => cases hphase.symm.trans hphase'
  | failed hphase' hcell' hwait =>
    cases hphase.symm.trans hphase'
    cases hcell.symm.trans hcell'
    exact absurd hwait (Reply.wait_ne_error (.inl (by rw [hvalue]; rfl)))
  | received hphase' hcell' hwait _ =>
    cases hphase.symm.trans hphase'
    cases hcell.symm.trans hcell'
    cases hvalue.symm.trans (Reply.wait_eq_ok hwait).1
    exact mem_append_right _ mem_cons_self

end

variable [DecidableEq V]

structure Sound (s : ShardedKv K V) : Prop where
  filed : Filed s
  calls : ∀ (id : Nat) call, s.calls[id]? = some call → CallOk s id call

theorem Sound.take (h : Sound s) (hw : Wired s) {value : KvValue K V}
    {state : ReplyState (KvValue K V) Empty} (hcell : s.cells[reply]? = some cell)
    (hrequest : cell.request = request)
    (hwait : Reply.wait cell.state = (some (.ok value), state)) :
    Filed (s.take request reply value state) ∧ Fits s.order reply request value := by
  obtain ⟨hvalue, htaken⟩ := Reply.wait_eq_ok hwait
  obtain ⟨_, hfits⟩ := h.filed.values reply cell value hcell hvalue
  rw [hrequest] at hfits
  have hmodified : Filed (s.modifyCell reply fun cell => { cell with state }) := by
    refine h.filed.modifyCell hw (f := fun _ => state) hcell (fun _ hstate => ?_) (fun halive => ?_)
      fun v hv => ?_
    · rw [hstate] at hvalue
      cases hvalue
    · rw [htaken] at halive
      exact halive
    · rw [htaken] at hv
      cases hv
  refine ⟨?_, hfits⟩
  unfold ShardedKv.take
  split
  · exact hmodified.respond hfits
  · rw [append_nil]
    exact hmodified

theorem Sound.route (h : Sound s) (hok : CallOk s id call) {todo : List (KvRequest K V)}
    {replies : List (KvRequest K V × Nat)}
    (hphase : call.phase = .submitting (request :: todo) replies) :
    ∃ shard, s.route request = .ok shard ∧ s.Routed request shard := by
  obtain ⟨e, he⟩ | ⟨requests, receipts, hrequests, hgathers⟩ := hok.gathers
  · rw [hphase] at he
    cases he
  · refine route_requests h.filed.running.1 h.filed.placed hrequests ?_
    rw [hgathers.parts, hphase]
    exact mem_append_right _ mem_cons_self

theorem Sound.filed_client (h : Sound s) (hw : Wired s) (hok : CallOk s id call)
    (hstep : ClientStep s id call t) : Filed t := by
  cases hstep with
  | submitted | unroutable | finished | failed => exact h.filed.calls _
  | opened hphase hroute =>
    obtain ⟨shard, hshard, hrouted⟩ := h.route hok hphase
    cases hroute.symm.trans hshard
    exact (h.filed.openReply hw id hrouted).calls _
  | refused hphase =>
    obtain ⟨hcell, _⟩ := hok.sending _ _ _ _ _ hphase
    refine Filed.calls (h.filed.modifyCell hw (f := fun state => (ReplySender.drop state).1) hcell
      (fun hsent => ?_) (fun halive => ?_) fun v hv => ?_) _
    · cases hsent
    · rw [drop_senderAlive] at halive
      cases halive
    · cases hv
  | sent hphase hsh =>
    obtain ⟨hcell, _⟩ := hok.sending _ _ _ _ _ hphase
    exact (h.filed.push hw hcell hsh).calls _
  | @received request reply pending total cell value state total' hphase hcell hwait =>
    obtain ⟨cell', hcell', _, hrequest, _⟩ := hok.pending (request, reply)
      (by rw [hphase]; exact mem_cons_self)
    cases hcell.symm.trans hcell'
    exact (h.take hw hcell hrequest hwait).1.calls _

theorem Sound.delivered (h : Sound s) (hok : CallOk s id call) (hstep : ClientStep s id call t)
    {pending : List (KvRequest K V × Nat)} {total : KvResult K V} {value : KvValue K V}
    (hphase : call.phase = .waiting ((request, reply) :: pending) total)
    (hcell : s.cells[reply]? = some cell) (hvalue : cell.state.value = some value) :
    t.Delivered id ⟨request, reply, value⟩ := by
  obtain ⟨cell', hcell', hcall, hrequest, _⟩ := hok.pending (request, reply)
    (by rw [hphase]; exact mem_cons_self)
  cases hcell.symm.trans hcell'
  obtain ⟨_, hfits⟩ := h.filed.values reply cell value hcell hvalue
  obtain ⟨_, hinvoked⟩ := h.filed.issued reply cell hcell
  obtain ⟨cell', htag, hcall', hrequest'⟩ := hstep.tagged reply cell hcell
  refine ⟨⟨cell', htag, hcall'.trans hcall, hrequest'.trans hrequest⟩, ?_⟩
  have hrequest : cell.request = request := hrequest
  rw [hrequest] at hfits
  cases request with
  | keyed command =>
    cases value with
    | answer a => exact ⟨hstep.history (hinvoked command hrequest), hstep.responds hphase hcell hvalue⟩
    | len | keys => exact hfits
  | len i | keys i | stop i =>
    cases value <;> exact hfits

theorem Sound.gathers_client (h : Sound s) (hcall : s.calls[id]? = some call)
    (hstep : ClientStep s id call t) {call' : Call K V} (hcall' : t.calls[id]? = some call') :
    (∃ e, call'.phase = .returned (.error e)) ∨
      ∃ requests receipts, t.requests call'.op = .ok requests ∧
        call'.Gathers requests (t.Delivered id) receipts := by
  have hok := h.calls id call hcall
  rw [hstep.requests]
  exact hstep.gathers hcall hcall' hok.gathers (fun _ hr => hr.mono hstep.tagged hstep.history)
    (fun _ _ _ _ _ hphase => (hok.sending _ _ _ _ _ hphase).2)
    fun _ _ _ _ _ _ hphase hcell hvalue => h.delivered hok hstep hphase hcell hvalue

/-- A call that waits for its replies does not fail, and one that submits its requests fails
for want of mailbox capacity only. -/
private theorem Sound.errors_client (h : Sound s) (hcall : s.calls[id]? = some call)
    (hstep : ClientStep s id call t) {call' : Call K V} (hcall' : t.calls[id]? = some call')
    (e : ShardError) (he : call'.phase = .returned (.error e)) :
    call'.blocking = false ∧ e = .mailboxFull := by
  have hok := h.calls id call hcall
  cases hstep with
  | submitted | opened | sent | finished | received =>
    cases modify_eq hcall hcall'
    cases he
  | unroutable hphase hroute =>
    obtain ⟨shard, hshard, _⟩ := h.route hok hphase
    cases hroute.symm.trans hshard
  | refused hphase hsh hcause =>
    cases modify_eq hcall hcall'
    cases he
    obtain ⟨hstopped, _⟩ | hfull := hcause
    · exact absurd hstopped (h.filed.running.2 _ (mem_of_getElem? hsh))
    · exact hfull
  | @failed request reply pending total cell e state hphase hcell hwait =>
    obtain ⟨cell', hcell', _, _, _, hopen⟩ := hok.pending (request, reply)
      (by rw [hphase]; exact mem_cons_self)
    cases hcell.symm.trans hcell'
    exact absurd hwait (Reply.wait_ne_error hopen)

theorem Sound.client (h : Sound s) (hw : Wired s) (hst : s.client id = some t) : Sound t := by
  obtain ⟨call, hcall, hstep⟩ := client_cases hst
  have hok := h.calls id call hcall
  refine ⟨h.filed_client hw hok hstep, fun j call' hcall' => ?_⟩
  by_cases hj : j = id
  · subst hj
    obtain ⟨hpending, hsending⟩ :=
      hstep.awaits hcall hcall' (.inr rfl) hok.pending (Call.pending_ascending hok.gathers) hok.sending
    exact ⟨h.gathers_client hcall hstep hcall',
      fun e he => .inl (h.errors_client hcall hstep hcall' e he), hpending, hsending⟩
  · obtain ⟨phase, hcalls⟩ := hstep.calls
    rw [hcalls, getElem?_modify_other (Ne.symm hj)] at hcall'
    exact (h.calls j call' hcall').keeps (hstep.keeps hok hj) hstep.tagged hstep.history
      hstep.requests

theorem Sound.begin (h : Sound s) (op : Op K V) (blocking : Bool) : Sound (s.begin op blocking) := by
  refine ⟨h.filed.calls _, fun id call hcall => ?_⟩
  rcases getElem?_concat hcall with hold | ⟨_, hnew⟩
  · exact (h.calls id call hold).keeps (keeps_of_cells rfl id)
      (fun _ cell hcell => ⟨cell, hcell, rfl, rfl⟩) (Subset.refl _) (requests_congr rfl rfl)
  · subst hnew
    cases hrequests : s.requests op with
    | error e =>
      refine ⟨.inl ⟨e, rfl⟩, fun e' he' => ?_, fun p hp => ?_, fun _ _ _ _ _ hsending => ?_⟩
      · cases he'
        exact .inr hrequests
      · cases hp
      · cases hsending
    | ok requests =>
      refine ⟨.inr ⟨requests, [], hrequests, ?_, ?_, rfl, fun _ hr => ?_⟩, fun e he => ?_,
        fun p hp => ?_, fun _ _ _ _ _ hsending => ?_⟩
      · simp [Phase.pending, Phase.unsent]
      · exact Pairwise.nil
      · cases hr
      · cases he
      · cases hp
      · cases hsending

theorem Sound.recv (h : Sound s) (hw : Wired s) {i : Nat} (hst : s.recv i = some t) : Sound t := by
  refine ⟨h.filed.recv hw hst, fun id call hcall => ?_⟩
  obtain ⟨sh, q, mailbox, _, _, _, rfl⟩ := recv_cases hst
  exact (h.calls id call hcall).keeps (keeps_of_cells rfl id)
    (fun _ cell hcell => ⟨cell, hcell, rfl, rfl⟩) (Subset.refl _)
    (requests_congr rfl length_set)

theorem Sound.sendReply (h : Sound s) (hw : Wired s) {i : Nat} (hst : s.sendReply i = some t) : Sound t := by
  refine ⟨h.filed.sendReply hw hst, fun id call hcall => ?_⟩
  obtain ⟨sh, reply, value, hsh, hthread, rfl⟩ := sendReply_cases hst h.filed.no_stop
  obtain ⟨_, _, cell, hcell, hout, _⟩ := h.filed.replying i sh reply value false hsh hthread
  refine (h.calls id call hcall).keeps (fun reply' c hc hid => ?_)
    (tagged_modify rfl fun _ => ⟨rfl, rfl⟩) (Subset.refl _) (requests_congr rfl length_set)
  by_cases hreply : reply = reply'
  · subst hreply
    cases hcell.symm.trans hc
    refine ⟨_, getElem?_modify_self hcell, hid, rfl, rfl, fun _ => ?_, fun hsent => ?_⟩
    · rw [ReplySender.send_of_open (by rw [hout.state]; rfl)]
      exact .inl rfl
    · cases hout.sent.symm.trans hsent
  · exact ⟨c, (getElem?_modify_other hreply).trans hc, hid, rfl, rfl, fun h => h, fun _ => rfl⟩

theorem Sound.step (h : Sound s) (hw : Wired s) {e : Event K V} (hst : s.step e = some t) :
    Sound t ∧ Wired t := by
  cases e with
  | call op blocking =>
    cases hst
    exact ⟨h.begin op blocking, hw.congr rfl rfl⟩
  | client id =>
    obtain ⟨call, hcall, hstep⟩ := client_cases hst
    exact ⟨h.client hw hst, hstep.wired hw (h.calls id call hcall).sending⟩
  | recv i => exact ⟨h.recv hw hst, hw.recv hst⟩
  | reply i => exact ⟨h.sendReply hw hst, hw.sendReply hst⟩

theorem sound_start {config : ShardedKvConfig} {placement : K → Nat → Nat}
    (h : startWithPlacement config placement = .ok s)
    (hplacement : ∀ key, placement key config.shardCount < config.shardCount) : Sound s := by
  refine ⟨filed_start h hplacement, fun id call hcall => ?_⟩
  obtain ⟨_, _, rfl⟩ := start_cases h
  cases hcall

end ShardedKv
end Sitas.Kv
