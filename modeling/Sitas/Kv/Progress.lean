import Sitas.Lib.Entries
import Sitas.Kv.Soundness

namespace Sitas.Kv
open Sitas.Lib Sitas.Runtime List

section Weights
variable {K V : Type}

def Event.continues : Event K V → Prop
  | .call _ _ => False
  | .client _ | .recv _ | .reply _ => True

/-- The steps a call has still to make, and those its commands cause. -/
def Phase.weight : Phase K V → Nat
  | .submitting todo replies => 5 * todo.length + replies.length + 2
  | .sending _ _ _ todo replies => 5 * todo.length + replies.length + 6
  | .waiting pending _ => pending.length + 1
  | .returned _ => 0

def KvShard.weight (sh : KvShard K V) : Nat :=
  2 * sh.mailbox.length + match sh.thread with
    | .replying _ _ _ => 1
    | _ => 0

def ShardedKv.weight (s : ShardedKv K V) : Nat :=
  (s.calls.map fun call => call.phase.weight).sum + (s.shards.map KvShard.weight).sum

end Weights

namespace ShardedKv
variable {K V : Type} [LinearOrder K] [DecidableEq V] {s t : ShardedKv K V} {id : Nat}
  {call : Call K V}

section Decrease
omit [DecidableEq V]

omit [LinearOrder K] in
private theorem weight_phase {phase : Phase K V} (hcall : s.calls[id]? = some call)
    (hcalls : t.calls = s.calls.modify id fun call => { call with phase })
    (hshards : t.shards = s.shards) (hlt : phase.weight < call.phase.weight) :
    t.weight < s.weight := by
  have hsum := sum_map_modify (fun call => call.phase.weight)
    (g := fun call => { call with phase }) hcall
  dsimp only at hsum
  simp only [weight, hcalls, hshards]
  omega

theorem ClientStep.weight_lt (h : ClientStep s id call t) (hcall : s.calls[id]? = some call) :
    t.weight < s.weight := by
  cases h with
  | submitted hphase | unroutable hphase | opened hphase | finished hphase | failed hphase
  | refused hphase | received hphase =>
    refine weight_phase hcall rfl rfl ?_
    rw [hphase]
    simp only [Phase.weight, length_cons, length_nil]
    omega
  | @sent shard request reply todo replies sh hphase hsh =>
    have hcalls := sum_map_modify (fun call => call.phase.weight)
      (g := fun call => { call with phase := .submitting todo (replies ++ [(request, reply)]) })
      hcall
    have hshards := sum_map_modify KvShard.weight
      (g := fun sh => { sh with mailbox := sh.mailbox ++ [⟨request.command, reply⟩] }) hsh
    have hbefore : call.phase.weight = 5 * todo.length + replies.length + 6 := by
      rw [hphase]
      rfl
    have hafter : (Phase.submitting todo (replies ++ [(request, reply)])).weight =
        5 * todo.length + (replies.length + 1) + 2 := by
      simp [Phase.weight]
    have hmailbox : ({ sh with mailbox := sh.mailbox ++ [⟨request.command, reply⟩] } :
        KvShard K V).weight = sh.weight + 2 := by
      simp only [KvShard.weight, length_append, length_singleton]
      omega
    dsimp only at hcalls hshards
    simp only [weight, setPhase, push, modifyCell]
    omega

omit [LinearOrder K] in
theorem weight_sendReply {i : Nat} (hst : s.sendReply i = some t) : t.weight < s.weight := by
  obtain ⟨sh, reply, value, stop, hsh, hthread, rfl⟩ := sendReply_spec hst
  have hshards := sum_map_set KvShard.weight (y := sh.answered stop) hsh
  have hbefore : sh.weight = 2 * sh.mailbox.length + 1 := by
    rw [KvShard.weight, hthread]
  have hafter : (sh.answered stop).weight ≤ 2 * sh.mailbox.length := by
    cases stop with
    | true => exact Nat.zero_le _
    | false => exact le_rfl
  rw [dropAll_eq]
  simp only [weight, modifyCell]
  omega

end Decrease

variable {i : Nat}

theorem weight_recv (hst : s.recv i = some t) : t.weight < s.weight := by
  obtain ⟨sh, q, mailbox, hsh, hthread, hmailbox, rfl⟩ := recv_cases hst
  have hshards := sum_map_set KvShard.weight (y := ⟨mailbox, (sh.service.handle q.command).2,
    .replying q.reply (sh.service.handle q.command).1 (q.command = .stop)⟩) hsh
  have hbefore : sh.weight = 2 * (mailbox.length + 1) := by
    rw [KvShard.weight, hthread, hmailbox]
    rfl
  have hafter : (⟨mailbox, (sh.service.handle q.command).2, .replying q.reply
      (sh.service.handle q.command).1 (q.command = .stop)⟩ : KvShard K V).weight =
      2 * mailbox.length + 1 := rfl
  simp only [weight]
  omega

/-- A command that is to be answered is in the mailbox of its shard or has been executed. -/
structure Located (s : ShardedKv K V) : Prop where
  capacity : 0 < s.capacity
  found : ∀ (reply : Nat) cell, s.cells[reply]? = some cell → cell.sent = true →
    cell.state.senderAlive = true → ∃ sh, s.shards[cell.shard]? = some sh ∧
      (reply ∈ sh.mailbox.map (·.reply) ∨ ∃ value stop, sh.thread = .replying reply value stop)

omit [LinearOrder K] [DecidableEq V] in
theorem Wired.located (h : Wired s) (hcapacity : 0 < s.capacity) : Located s := by
  refine ⟨hcapacity, fun reply cell hcell hsent halive => ?_⟩
  obtain ⟨sh, hsh, hin⟩ := h.found reply cell hcell hsent halive
  refine ⟨sh, hsh, (mem_append.mp hin).symm.imp_right fun hcurrent => ?_⟩
  cases hthread : sh.thread with
  | receiving | stopped =>
    rw [hthread] at hcurrent
    cases hcurrent
  | replying reply' value stop =>
    rw [hthread] at hcurrent
    rw [mem_singleton.mp hcurrent]
    exact ⟨value, stop, rfl⟩

theorem capacity_step {e : Event K V} (hst : s.step e = some t) : t.capacity = s.capacity := by
  cases e with
  | call =>
    cases hst
    rfl
  | client id =>
    obtain ⟨call, _, hstep⟩ := client_cases hst
    cases hstep <;> rfl
  | recv i =>
    obtain ⟨_, _, _, _, _, _, rfl⟩ := recv_cases hst
    rfl
  | reply i =>
    obtain ⟨_, _, _, _, _, _, rfl⟩ := sendReply_spec hst
    rw [dropAll_eq]
    rfl

def Moves (s : ShardedKv K V) : Prop := ∃ e t, e.continues ∧ s.step e = some t

theorem Sound.moves_shard (h : Sound s) {sh : KvShard K V} (hsh : s.shards[i]? = some sh)
    (hbusy : sh.mailbox ≠ [] ∨ ∃ reply value stop, sh.thread = .replying reply value stop) :
    s.Moves := by
  cases hthread : sh.thread with
  | stopped => exact absurd hthread (h.filed.running.2 sh (mem_of_getElem? hsh))
  | replying reply value stop =>
    obtain ⟨rfl, _⟩ := h.filed.replying i sh reply value stop hsh hthread
    have hsome : (s.step (.reply i)).isSome = true := by
      simp [ShardedKv.step, ShardedKv.sendReply, hsh, hthread]
    obtain ⟨t, ht⟩ := Option.isSome_iff_exists.mp hsome
    exact ⟨.reply i, t, trivial, ht⟩
  | receiving =>
    obtain hne | ⟨reply, value, stop, hreplying⟩ := hbusy
    · obtain ⟨q, mailbox, hmailbox⟩ := exists_cons_of_ne_nil hne
      have hsome : (s.step (.recv i)).isSome = true := by
        simp [ShardedKv.step, ShardedKv.recv, hsh, hthread, hmailbox]
      obtain ⟨t, ht⟩ := Option.isSome_iff_exists.mp hsome
      exact ⟨.recv i, t, trivial, ht⟩
    · cases hthread.symm.trans hreplying

end ShardedKv

section Absorbing
variable {K V : Type}

variable {total : KvResult K V} {request : KvRequest K V} {value : KvValue K V} {reply : Nat}

theorem absorbAll_closed {S : KvResult K V → Prop}
    (hS : ∀ total request value total', S total → total.absorb request value = some total' →
      S total') {total' : KvResult K V} {receipts : List (Receipt K V)} (h : S total)
    (hall : absorbAll total receipts = some total') : S total' := by
  induction receipts generalizing total with
  | nil =>
    cases hall
    exact h
  | cons r receipts ih =>
    obtain ⟨next, hnext, hrest⟩ := Option.bind_eq_some_iff.mp hall
    exact ih (hS total r.request r.value next h hnext) hrest

/-- A gathered result goes with the replies that are still to come. -/
def KvResult.Takes : KvResult K V → KvRequest K V → Prop
  | .nothing, .keyed _ => True
  | .pairs _, .keyed (.get _) | .pairs _, .keyed (.delete _) => True
  | .len _, .len _ | .snapshots _, .len _ | .keys _, .keys _ => True
  | _, _ => False

theorem absorb_takes {total' : KvResult K V} (h : total.absorb request value = some total')
    (hne : total ≠ .nothing) : total' ≠ .nothing ∧ total'.Takes = total.Takes := by
  unfold KvResult.absorb at h
  split at h
  · exact absurd rfl hne
  all_goals cases h
  all_goals
    refine ⟨by simp, ?_⟩
    funext r
    cases r with
    | keyed c => cases c <;> rfl
    | len | keys | stop => rfl

variable [LinearOrder K]

theorem Call.Gathers.takes {s : ShardedKv K V} {call : Call K V} {requests : List (KvRequest K V)}
    {P : Receipt K V → Prop} {receipts : List (Receipt K V)} {pending : List (KvRequest K V × Nat)}
    (h : call.Gathers requests P receipts) (hrequests : s.requests call.op = .ok requests)
    (hphase : call.phase = .waiting ((request, reply) :: pending) total) : total.Takes request := by
  have hmem : request ∈ requests := by
    rw [h.parts, hphase]
    exact mem_append_left _ (mem_append_right _ mem_cons_self)
  have habsorb : absorbAll call.op.start receipts = some total := by
    have haccounts := h.accounts
    rwa [hphase] at haccounts
  have hkind : call.op.start ≠ .nothing → total.Takes = call.op.start.Takes := fun hne =>
    (absorbAll_closed (S := fun result => result ≠ .nothing ∧ result.Takes = call.op.start.Takes)
      (fun _ _ _ _ hS hnext => ⟨(absorb_takes hnext hS.1).1, (absorb_takes hnext hS.1).2.trans hS.2⟩)
      ⟨hne, rfl⟩ habsorb).2
  have hasks := ShardedKv.asks_of_requests hrequests hmem
  cases hop : call.op with
  | keyed command =>
    rw [hop] at hrequests habsorb
    have hparts := h.parts
    cases hrequests
    rw [hphase] at hparts
    cases receipts with
    | nil =>
      cases habsorb
      rw [mem_singleton.mp hmem]
      exact trivial
    | cons r receipts =>
      have hlength := congrArg length hparts
      simp [Phase.pending] at hlength
  | getMany keys | deleteMany keys =>
    rw [hop] at hasks hkind
    obtain ⟨key, _, rfl⟩ := hasks
    rw [hkind (by simp [Op.start])]
    exact trivial
  | totalLen | shardSnapshots | allKeys | lenOnShard | keysOnShard =>
    rw [hop] at hasks hkind
    obtain ⟨i, _, rfl⟩ := hasks
    rw [hkind (by simp [Op.start])]
    exact trivial

variable [DecidableEq V]

def KvRequest.Kind : KvRequest K V → KvValue K V → Prop
  | .keyed (.get _), .answer a | .keyed (.delete _), .answer a => ∃ found, a = .found found
  | .keyed _, .answer _ => True
  | .len _, .len _ | .keys _, .keys _ => True
  | _, _ => False

omit [LinearOrder K] [DecidableEq V] in
theorem absorb_of_kind (htakes : total.Takes request) (hkind : request.Kind value) :
    ∃ total', total.absorb request value = some total' := by
  cases request with
  | keyed command =>
    cases value with
    | len | keys => cases command <;> exact hkind.elim
    | answer a =>
      cases total with
      | nothing => exact ⟨_, rfl⟩
      | pairs ps =>
        have hfound : ∃ found, a = .found found := by
          cases command with
          | get | delete => exact hkind
          | put | compareAndPut | getOrPut => exact htakes.elim
        obtain ⟨found, rfl⟩ := hfound
        exact ⟨_, rfl⟩
      | answer | len | snapshots | keys => cases command <;> exact htakes.elim
  | len i =>
    cases value with
    | answer | keys => exact hkind.elim
    | len n =>
      cases total with
      | len | snapshots => exact ⟨_, rfl⟩
      | nothing | answer | pairs | keys => exact htakes.elim
  | keys i =>
    cases value with
    | answer | len => exact hkind.elim
    | keys ks =>
      cases total with
      | keys => exact ⟨_, rfl⟩
      | nothing | answer | pairs | len | snapshots => exact htakes.elim
  | stop i => cases value <;> exact hkind.elim

theorem kind_of_fits {order : List (Executed (KeyCommand K V) (Answer V))} {service : KvService K V}
    (hlegal : Legal KvService.execute service order) (hfits : Fits order reply request value) :
    request.Kind value := by
  cases request with
  | keyed command =>
    cases value with
    | len | keys => exact hfits.elim
    | answer a =>
      cases command with
      | get key | delete key =>
        obtain ⟨t, ht⟩ := hlegal.answer _ hfits
        exact ⟨_, ht.symm⟩
      | put | compareAndPut | getOrPut => exact trivial
  | len i | keys i | stop i => cases value <;> exact hfits

theorem kind_of_handle (service : KvService K V) (hstop : ∀ i, request ≠ .stop i) :
    request.Kind (service.handle request.command).1 := by
  cases request with
  | keyed command =>
    cases command with
    | get key | delete key => exact ⟨_, rfl⟩
    | put | compareAndPut | getOrPut => exact trivial
  | len i | keys i => exact trivial
  | stop i => exact absurd rfl (hstop i)

end Absorbing

namespace ShardedKv
variable {K V : Type} [LinearOrder K] [DecidableEq V] {s t : ShardedKv K V} {id : Nat}
  {call : Call K V}

variable {request : KvRequest K V} {reply : Nat}

omit [DecidableEq V] [LinearOrder K] in
theorem Routed.lt {i : Nat} (h : s.Routed request i)
    (hplaced : ∀ key, s.shardForKey key < s.shards.length) : i < s.shards.length := by
  cases request with
  | keyed command =>
    rw [show i = s.shardForKey command.key from h]
    exact hplaced command.key
  | len j | keys j =>
    obtain ⟨rfl, hlt⟩ := h
    exact hlt
  | stop j => exact h.elim

theorem moves_client (id : Nat) (h : (s.client id).isSome = true) : s.Moves := by
  obtain ⟨t, ht⟩ := Option.isSome_iff_exists.mp h
  exact ⟨.client id, t, trivial, ht⟩

private theorem Sound.moves_sending (h : Sound s) (hl : Located s)
    (hcall : s.calls[id]? = some call) {shard : Nat} {todo : List (KvRequest K V)}
    {replies : List (KvRequest K V × Nat)}
    (hphase : call.phase = .sending shard request reply todo replies) : s.Moves := by
  obtain ⟨hcell, _⟩ := (h.calls id call hcall).sending _ _ _ _ _ hphase
  obtain ⟨hrouted, _⟩ := h.filed.issued reply _ hcell
  obtain ⟨sh, hsh⟩ : ∃ sh, s.shards[shard]? = some sh :=
    ⟨_, getElem?_eq_getElem (hrouted.lt h.filed.placed)⟩
  by_cases hroom : sh.mailbox.length < s.capacity
  · apply moves_client id
    cases hthread : sh.thread <;>
      simp [ShardedKv.client, ShardedKv.send, hcall, hphase, hsh, hthread, hroom]
  · refine h.moves_shard hsh (.inl fun hempty => ?_)
    rw [hempty] at hroom
    exact hroom hl.capacity

/-- The reply that a call waits for has come, or the shard that it comes from can go on. -/
private theorem Sound.moves_waiting (h : Sound s) (hl : Located s)
    (hcall : s.calls[id]? = some call) {pending : List (KvRequest K V × Nat)} {total : KvResult K V}
    (hphase : call.phase = .waiting ((request, reply) :: pending) total) : s.Moves := by
  have hok := h.calls id call hcall
  obtain ⟨cell, hcell, _, hrequest, hsent, hopen⟩ := hok.pending (request, reply)
    (by rw [hphase]; exact mem_cons_self)
  have hrequest : cell.request = request := hrequest
  cases hvalue : cell.state.value with
  | some value =>
    obtain ⟨_, hfits⟩ := h.filed.values reply cell value hcell hvalue
    rw [hrequest] at hfits
    obtain ⟨e, he⟩ | ⟨requests, receipts, hrequests, hgathers⟩ := hok.gathers
    · cases hphase.symm.trans he
    · obtain ⟨total', habsorb⟩ := absorb_of_kind (hgathers.takes hrequests hphase)
        (kind_of_fits h.filed.linear.legal hfits)
      apply moves_client id
      have hcell : s.cells[reply]? = some cell := hcell
      simp [ShardedKv.client, ShardedKv.await, Reply.wait, hcall, hphase, hcell, hvalue, habsorb]
  | none =>
    have halive : cell.state.senderAlive = true := by simpa [ReplyState.Open, hvalue] using hopen
    obtain ⟨sh, hsh, hplace⟩ := hl.found reply cell hcell hsent halive
    refine h.moves_shard hsh (hplace.imp ?_ fun hreplying => ⟨reply, hreplying⟩)
    rintro hmem hempty
    rw [hempty] at hmem
    cases hmem

theorem Sound.moves (h : Sound s) (hl : Located s) (hcall : s.calls[id]? = some call)
    (hreturned : ∀ result, call.phase ≠ .returned result) : s.Moves := by
  cases hphase : call.phase with
  | submitting todo replies =>
    apply moves_client id
    cases todo with
    | nil => simp [ShardedKv.client, hcall, hphase]
    | cons request todo =>
      obtain ⟨shard, hroute, _⟩ := h.route (h.calls id call hcall) hphase
      simp [ShardedKv.client, hcall, hphase, hroute]
  | sending shard request reply todo replies => exact h.moves_sending hl hcall hphase
  | waiting pending total =>
    cases pending with
    | nil =>
      apply moves_client id
      simp [ShardedKv.client, hcall, hphase]
    | cons p pending => exact h.moves_waiting hl hcall hphase
  | returned result => exact absurd hphase (hreturned result)

/-- The invariant that keeps the store from getting stuck. -/
structure Live (s : ShardedKv K V) : Prop where
  sound : Sound s
  located : Located s

theorem live_step (h : Live s ∧ Wired s) {e : Event K V} (hst : s.step e = some t) :
    Live t ∧ Wired t := by
  obtain ⟨hsound, hwired⟩ := h.1.sound.step h.2 hst
  exact ⟨⟨hsound, hwired.located (capacity_step hst ▸ h.1.located.capacity)⟩, hwired⟩

theorem weight_lt {e : Event K V} (he : e.continues) (hst : s.step e = some t) :
    t.weight < s.weight := by
  cases e with
  | call => exact he.elim
  | client id =>
    obtain ⟨call, hcall, hstep⟩ := client_cases hst
    exact hstep.weight_lt hcall
  | recv i => exact weight_recv hst
  | reply i => exact weight_sendReply hst

/-- The calls that have been made all return, whatever the other clients have under way. -/
theorem all_return (h : Live s ∧ Wired s) :
    ∃ t, Reach ShardedKv.step (fun _ e => e.continues) s t ∧ (Live t ∧ Wired t) ∧
      ∀ call ∈ t.calls, ∃ result, call.phase = .returned result := by
  refine reach_of_measure weight (fun s h hfinal => ?_) h
  push Not at hfinal
  obtain ⟨call, hmem, hreturned⟩ := hfinal
  obtain ⟨id, hcall⟩ := getElem?_of_mem hmem
  obtain ⟨e, t, he, hst⟩ := h.1.sound.moves h.1.located hcall hreturned
  exact ⟨e, t, he, hst, live_step h hst, weight_lt he hst⟩

theorem live_start {config : ShardedKvConfig} {placement : K → Nat → Nat}
    (h : startWithPlacement config placement = .ok s)
    (hplacement : ∀ key, placement key config.shardCount < config.shardCount) :
    Live s ∧ Wired s := by
  have hwired := wired_start h
  refine ⟨⟨sound_start h hplacement, hwired.located ?_⟩, hwired⟩
  obtain ⟨_, hcapacity, rfl⟩ := start_cases h
  exact hcapacity

end ShardedKv
end Sitas.Kv
