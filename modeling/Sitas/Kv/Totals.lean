import Sitas.Kv.Soundness

namespace Sitas.Kv
open Sitas.Lib Sitas.Runtime List

section Reading
variable {K V : Type}

def KvCommand.isKeyed : KvCommand K V → Bool
  | .keyed _ => true
  | _ => false

/-- The functions that send no commands on keys. -/
def Op.reads : Op K V → Bool
  | .keyed _ | .getMany _ | .deleteMany _ => false
  | .totalLen | .shardSnapshots | .allKeys | .lenOnShard _ | .keysOnShard _ => true

def Event.reads : Event K V → Prop
  | .call op _ => op.reads = true
  | _ => True

theorem isKeyed_requests {s : ShardedKv K V} {op : Op K V} {requests : List (KvRequest K V)}
    {request : KvRequest K V} (hop : op.reads = true) (h : s.requests op = .ok requests)
    (hmem : request ∈ requests) : request.command.isKeyed = false := by
  have hasks := ShardedKv.asks_of_requests h hmem
  cases op with
  | keyed | getMany | deleteMany => cases hop
  | totalLen | shardSnapshots | allKeys | lenOnShard | keysOnShard =>
    obtain ⟨i, _, rfl⟩ := hasks
    rfl

variable [LinearOrder K]

def Reads (services : List (KvService K V)) : KvRequest K V → KvValue K V → Prop
  | .len i, .len n => ∃ service, services[i]? = some service ∧ n = service.len
  | .keys i, .keys keys => ∃ service, services[i]? = some service ∧ keys = service.keys
  | _, _ => False

variable {services : List (KvService K V)} {request : Nat → KvRequest K V}
  {receipts : List (Receipt K V)}

section Fold
variable {M : Type} {wrap : M → KvResult K V} (add : M → KvService K V → M)
  (hadd : ∀ i value total, Reads services (request i) value → ∃ service,
    services[i]? = some service ∧
      (wrap total).absorb (request i) value = some (wrap (add total service)))
include hadd

/-- A fold over replies of shards is a fold over the shards. -/
theorem absorbAll_reads (receipts : List (Receipt K V)) (indices : List Nat) (total : M)
    (hrequests : receipts.map (·.request) = indices.map request)
    (hreads : ∀ r ∈ receipts, Reads services r.request r.value) :
    ∃ read : List (KvService K V), indices.map (services[·]?) = read.map some ∧
      absorbAll (wrap total) receipts = some (wrap (read.foldl add total)) := by
  induction receipts generalizing indices total with
  | nil =>
    obtain rfl := map_eq_nil_iff.mp hrequests.symm
    exact ⟨[], rfl, rfl⟩
  | cons r receipts ih =>
    obtain ⟨i, indices, rfl, hi, hrest⟩ := map_eq_cons_iff.mp hrequests.symm
    have hi : request i = r.request := hi
    obtain ⟨service, hservice, habsorb⟩ := hadd i r.value total (hi ▸ hreads r mem_cons_self)
    obtain ⟨read, hread, hall⟩ := ih indices (add total service) hrest.symm
      fun r' hr' => hreads r' (mem_cons_of_mem _ hr')
    refine ⟨service :: read, ?_, ?_⟩
    · rw [map_cons, map_cons, hservice, hread]
    · rw [absorbAll, ← hi, habsorb]
      exact hall

theorem absorbAll_all (total : M)
    (hrequests : receipts.map (·.request) = (range services.length).map request)
    (hreads : ∀ r ∈ receipts, Reads services r.request r.value) :
    absorbAll (wrap total) receipts = some (wrap (services.foldl add total)) := by
  obtain ⟨read, hread, hall⟩ := absorbAll_reads add hadd receipts _ total hrequests hreads
  have hservices : (range services.length).map (services[·]?) = services.map some := by
    apply ext_getElem
    · simp
    · intro i hi hi'
      simp
  rw [hservices] at hread
  rw [hall, map_injective_iff.mpr (Option.some_injective _) hread]

end Fold

theorem absorbAll_len (hrequests : receipts.map (·.request) = (range services.length).map .len)
    (hreads : ∀ r ∈ receipts, Reads services r.request r.value) :
    absorbAll (.len 0) receipts = some (.len (services.map (·.map.keys.card)).sum) := by
  rw [absorbAll_all (fun n service => n + service.len) ?_ 0 hrequests hreads]
  · rw [sum_eq_foldl, foldl_map]
    rfl
  · intro i value total hreads
    cases value with
    | len n =>
      obtain ⟨service, hservice, rfl⟩ := hreads
      exact ⟨service, hservice, rfl⟩
    | answer | keys => exact hreads.elim

theorem absorbAll_keys
    (hrequests : receipts.map (·.request) = (range services.length).map .keys)
    (hreads : ∀ r ∈ receipts, Reads services r.request r.value) :
    absorbAll (.keys []) receipts = some (.keys (services.flatMap (·.map.keys.sort))) := by
  rw [absorbAll_all (fun keys service => keys ++ service.keys) ?_ [] hrequests hreads]
  · rw [flatMap_eq_foldl]
    rfl
  · intro i value total hreads
    cases value with
    | keys ks =>
      obtain ⟨service, hservice, rfl⟩ := hreads
      exact ⟨service, hservice, rfl⟩
    | answer | len => exact hreads.elim

end Reading

namespace ShardedKv
variable {K V : Type} [LinearOrder K] [DecidableEq V] {s t : ShardedKv K V} {id : Nat}
  {call : Call K V}

/-- No command on a key waits to be executed or to be submitted. -/
structure Quiescent (s : ShardedKv K V) : Prop where
  mailboxes : ∀ sh ∈ s.shards, ∀ q ∈ sh.mailbox, q.command.isKeyed = false
  calls : ∀ call ∈ s.calls, ∀ r ∈ call.phase.unsent, r.command.isKeyed = false

/-- Since a quiescent state only reads have been submitted: the maps of the shards stay as
they are, and the reply channels and calls made since then carry what is read there. -/
structure Quiet (quiescent s : ShardedKv K V) : Prop where
  sound : Sound s
  order : s.order = quiescent.order
  services : s.shards.map (·.service) = quiescent.shards.map (·.service)
  still : Quiescent s
  cells : quiescent.cells.length ≤ s.cells.length
  replying : ∀ sh ∈ s.shards, ∀ reply value stop, sh.thread = .replying reply value stop →
    quiescent.cells.length ≤ reply → ∀ cell, s.cells[reply]? = some cell →
      Reads (quiescent.shards.map (·.service)) cell.request value
  values : ∀ (reply : Nat) cell value, s.cells[reply]? = some cell →
    cell.state.value = some value → quiescent.cells.length ≤ reply →
      Reads (quiescent.shards.map (·.service)) cell.request value
  gathers : ∀ (id : Nat) call, s.calls[id]? = some call → quiescent.calls.length ≤ id →
    (∃ e, call.phase = .returned (.error e)) ∨
      ∃ requests receipts, s.requests call.op = .ok requests ∧
        call.Gathers requests
          (fun r => Reads (quiescent.shards.map (·.service)) r.request r.value) receipts
  pending : ∀ (id : Nat) call, s.calls[id]? = some call → quiescent.calls.length ≤ id →
    (∀ p ∈ call.phase.pending, quiescent.cells.length ≤ p.2) ∧
      ∀ shard request reply todo replies, call.phase = .sending shard request reply todo replies →
        quiescent.cells.length ≤ reply

theorem quiet_self (h : Sound s) (hq : Quiescent s) : Quiet s s := by
  have hnone : ∀ {α : Type} {l : List α} {i a}, l[i]? = some a → ¬ l.length ≤ i :=
    fun hget => Nat.not_le_of_lt (List.getElem?_eq_some_iff.mp hget).1
  refine ⟨h, rfl, rfl, hq, le_rfl, fun sh hsh reply value stop hthread hle cell hcell => ?_,
    fun reply cell value hcell _ hle => ?_, fun id call hcall hle => ?_,
    fun id call hcall hle => ?_⟩
  · exact absurd hle (hnone hcell)
  · exact absurd hle (hnone hcell)
  · exact absurd hle (hnone hcall)
  · exact absurd hle (hnone hcall)

section Client
omit [DecidableEq V]

section
variable (h : ClientStep s id call t)
include h

theorem ClientStep.order : t.order = s.order := by
  cases h <;> rfl

theorem ClientStep.services : t.shards.map (·.service) = s.shards.map (·.service) := by
  cases h with
  | submitted | unroutable | opened | refused | finished | failed | received => rfl
  | sent => exact map_modify_of fun _ => rfl

theorem ClientStep.cells_length : s.cells.length ≤ t.cells.length := by
  cases h with
  | submitted | unroutable | finished | failed => exact le_rfl
  | opened => exact (sublist_append_left s.cells _).length_le
  | refused | sent | received => exact Nat.le_of_eq (length_modify ..).symm

theorem ClientStep.shards {i : Nat} {sh' : KvShard K V} (hsh' : t.shards[i]? = some sh') :
    ∃ sh, s.shards[i]? = some sh ∧ sh'.service = sh.service ∧ sh'.thread = sh.thread ∧
      ∀ q ∈ sh'.mailbox, q ∈ sh.mailbox ∨ ∃ r ∈ call.phase.unsent, q.command = r.command := by
  cases h with
  | submitted | unroutable | opened | refused | finished | failed | received =>
    exact ⟨sh', hsh', rfl, rfl, fun q hq => .inl hq⟩
  | sent hphase =>
    rcases getElem?_modify_cases hsh' with ⟨_, hsh⟩ | ⟨_, sh, hsh, rfl⟩
    · exact ⟨sh', hsh, rfl, rfl, fun q hq => .inl hq⟩
    · refine ⟨sh, hsh, rfl, rfl, fun q hq => ?_⟩
      rcases mem_append.mp hq with hold | hnew
      · exact .inl hold
      · rw [mem_singleton.mp hnew, hphase]
        exact .inr ⟨_, mem_cons_self, rfl⟩

theorem ClientStep.unsent (hcall : s.calls[id]? = some call) {call' : Call K V}
    (hcall' : t.calls[id]? = some call') : call'.phase.unsent ⊆ call.phase.unsent := by
  cases h with
  | submitted hphase | unroutable hphase | opened hphase | finished hphase | failed hphase
  | refused hphase | received hphase =>
    cases modify_eq hcall hcall'
    rw [hphase]
    first
    | exact nil_subset _
    | exact Subset.refl _
  | sent hphase =>
    cases modify_eq hcall hcall'
    rw [hphase]
    exact subset_cons_self _ _

theorem ClientStep.values (hok : CallOk s id call) {reply : Nat} {cell' : Cell K V}
    {value : KvValue K V} (hcell' : t.cells[reply]? = some cell')
    (hvalue : cell'.state.value = some value) :
    ∃ cell, s.cells[reply]? = some cell ∧ cell'.request = cell.request ∧
      cell.state.value = some value := by
  cases h with
  | submitted | unroutable | finished | failed => exact ⟨cell', hcell', rfl, hvalue⟩
  | opened =>
    rcases getElem?_concat hcell' with hold | ⟨_, rfl⟩
    · exact ⟨cell', hold, rfl, hvalue⟩
    · cases hvalue
  | refused hphase =>
    obtain ⟨hcell, _⟩ := hok.sending _ _ _ _ _ hphase
    rcases getElem?_modify_cases hcell' with ⟨_, hold⟩ | ⟨rfl, cell, hold, rfl⟩
    · exact ⟨cell', hold, rfl, hvalue⟩
    · cases hcell.symm.trans hold
      cases hvalue
  | sent hphase =>
    rcases getElem?_modify_cases hcell' with ⟨_, hold⟩ | ⟨rfl, cell, hold, rfl⟩
    · exact ⟨cell', hold, rfl, hvalue⟩
    · exact ⟨cell, hold, rfl, hvalue⟩
  | received hphase hcell hwait =>
    rcases getElem?_modify_cases hcell' with ⟨_, hold⟩ | ⟨rfl, cell, hold, rfl⟩
    · exact ⟨cell', hold, rfl, hvalue⟩
    · rw [(Reply.wait_eq_ok hwait).2] at hvalue
      cases hvalue

end

end Client

variable {call' : Call K V} {q : ShardedKv K V} {i : Nat} {result : KvResult K V}

section
variable (h : Quiet q s)
include h

private theorem Quiet.pending_client (hcall : s.calls[id]? = some call) (hle : q.calls.length ≤ id)
    (hstep : ClientStep s id call t) (hcall' : t.calls[id]? = some call') :
    (∀ p ∈ call'.phase.pending, q.cells.length ≤ p.2) ∧
      ∀ shard request reply todo replies, call'.phase = .sending shard request reply todo replies →
        q.cells.length ≤ reply := by
  obtain ⟨hpending, hsending⟩ := h.pending id call hcall hle
  cases hstep with
  | submitted hphase =>
    cases modify_eq hcall hcall'
    rw [hphase] at hpending
    exact ⟨hpending, fun _ _ _ _ _ heq => by cases heq⟩
  | opened hphase =>
    cases modify_eq hcall hcall'
    rw [hphase] at hpending
    refine ⟨hpending, fun _ _ _ _ _ heq => ?_⟩
    cases heq
    exact h.cells
  | unroutable | refused | finished | failed =>
    cases modify_eq hcall hcall'
    exact ⟨fun p hp => absurd hp not_mem_nil, fun _ _ _ _ _ heq => by cases heq⟩
  | sent hphase =>
    have hnew := hsending _ _ _ _ _ hphase
    cases modify_eq hcall hcall'
    rw [hphase] at hpending
    refine ⟨fun p hp => ?_, fun _ _ _ _ _ heq => by cases heq⟩
    rcases mem_append.mp hp with hold | hlast
    · exact hpending p hold
    · rw [mem_singleton.mp hlast]
      exact hnew
  | received hphase =>
    cases modify_eq hcall hcall'
    rw [hphase] at hpending
    exact ⟨fun p hp => hpending p (mem_cons_of_mem _ hp), fun _ _ _ _ _ heq => by cases heq⟩

private theorem Quiet.gathers_client (hcall : s.calls[id]? = some call) (hle : q.calls.length ≤ id)
    (hstep : ClientStep s id call t) (hcall' : t.calls[id]? = some call') :
    (∃ e, call'.phase = .returned (.error e)) ∨
      ∃ requests receipts, t.requests call'.op = .ok requests ∧
        call'.Gathers requests
          (fun r => Reads (q.shards.map (·.service)) r.request r.value) receipts := by
  have hok := h.sound.calls id call hcall
  rw [hstep.requests]
  refine hstep.gathers hcall hcall' (h.gathers id call hcall hle) (fun _ hr => hr)
    (fun _ _ _ _ _ hphase => (hok.sending _ _ _ _ _ hphase).2)
    fun request reply pending total cell value hphase hcell hvalue => ?_
  have hmem : (request, reply) ∈ call.phase.pending := by
    rw [hphase]
    exact mem_cons_self
  obtain ⟨cell', hcell', _, hrequest, _⟩ := hok.pending _ hmem
  cases hcell.symm.trans hcell'
  cases hrequest
  exact h.values reply cell value hcell hvalue ((h.pending id call hcall hle).1 _ hmem)

theorem Quiet.client (hw : Wired s) (hst : s.client id = some t) : Quiet q t := by
  obtain ⟨call, hcall, hstep⟩ := client_cases hst
  have hok := h.sound.calls id call hcall
  have hothers : ∀ (j : Nat) call', t.calls[j]? = some call' → j ≠ id → s.calls[j]? = some call' := by
    intro j call' hcall' hj
    obtain ⟨phase, hcalls⟩ := hstep.calls
    rwa [hcalls, getElem?_modify_other (Ne.symm hj)] at hcall'
  refine ⟨h.sound.client hw hst, hstep.order.trans h.order, hstep.services.trans h.services,
    ⟨fun sh' hsh' q' hq' => ?_, fun call' hcall' r hr => ?_⟩,
    Nat.le_trans h.cells hstep.cells_length,
    fun sh' hsh' reply value stop hthread hle cell' hcell' => ?_,
    fun reply cell' value hcell' hvalue hle => ?_, fun j call' hcall' hle => ?_,
    fun j call' hcall' hle => ?_⟩
  · obtain ⟨i, hi⟩ := mem_iff_getElem?.mp hsh'
    obtain ⟨sh, hsh, _, _, hmailbox⟩ := hstep.shards hi
    rcases hmailbox q' hq' with hold | ⟨r, hr, hcommand⟩
    · exact h.still.mailboxes sh (mem_of_getElem? hsh) q' hold
    · rw [hcommand]
      exact h.still.calls call (mem_of_getElem? hcall) r hr
  · obtain ⟨j, hj⟩ := mem_iff_getElem?.mp hcall'
    by_cases hid : j = id
    · subst hid
      exact h.still.calls call (mem_of_getElem? hcall) r (hstep.unsent hcall hj hr)
    · exact h.still.calls call' (mem_of_getElem? (hothers j call' hj hid)) r hr
  · obtain ⟨i, hi⟩ := mem_iff_getElem?.mp hsh'
    obtain ⟨sh, hsh, _, hsame, _⟩ := hstep.shards hi
    rw [hsame] at hthread
    obtain ⟨_, _, cell, hcell, _⟩ := h.sound.filed.replying i sh reply value stop hsh hthread
    obtain ⟨cell'', hcell'', _, hrequest⟩ := hstep.tagged reply cell hcell
    cases hcell'.symm.trans hcell''
    rw [hrequest]
    exact h.replying sh (mem_of_getElem? hsh) reply value stop hthread hle cell hcell
  · obtain ⟨cell, hcell, hrequest, hvalue⟩ := hstep.values hok hcell' hvalue
    rw [hrequest]
    exact h.values reply cell value hcell hvalue hle
  · by_cases hid : j = id
    · subst hid
      exact h.gathers_client hcall hle hstep hcall'
    · rw [hstep.requests]
      exact h.gathers j call' (hothers j call' hcall' hid) hle
  · by_cases hid : j = id
    · subst hid
      exact h.pending_client hcall hle hstep hcall'
    · exact h.pending j call' (hothers j call' hcall' hid) hle

theorem Quiet.begin {op : Op K V} (hop : op.reads = true) (blocking : Bool) :
    Quiet q (s.begin op blocking) := by
  have hcalls : ∀ (id : Nat) call, (s.begin op blocking).calls[id]? = some call →
      s.calls[id]? = some call ∨ call.phase.pending = [] ∧
        (call.phase = .submitting call.phase.unsent [] ∧ call.op = op ∧
          s.requests op = .ok call.phase.unsent ∨ ∃ e, call.phase = .returned (.error e)) := by
    intro id call hcall
    rcases getElem?_concat hcall with hold | ⟨_, rfl⟩
    · exact .inl hold
    · right
      cases hrequests : s.requests op with
      | ok requests => exact ⟨rfl, .inl ⟨rfl, rfl, rfl⟩⟩
      | error e => exact ⟨rfl, .inr ⟨e, rfl⟩⟩
  refine ⟨h.sound.begin op blocking, h.order, h.services, ⟨h.still.mailboxes, fun call hcall r hr => ?_⟩,
    h.cells, h.replying, h.values, fun id call hcall hle => ?_, fun id call hcall hle => ?_⟩
  · obtain ⟨id, hid⟩ := mem_iff_getElem?.mp hcall
    obtain hold | ⟨_, ⟨_, _, hrequests⟩ | ⟨e, he⟩⟩ := hcalls id call hid
    · exact h.still.calls call (mem_of_getElem? hold) r hr
    · exact isKeyed_requests hop hrequests hr
    · rw [he] at hr
      cases hr
  · obtain hold | ⟨hpending, ⟨hphase, rfl, hrequests⟩ | ⟨e, he⟩⟩ := hcalls id call hcall
    · exact h.gathers id call hold hle
    · refine .inr ⟨call.phase.unsent, [], hrequests, ?_, ?_, ?_, fun _ hr => ?_⟩
      · rw [hpending]
        rfl
      · rw [hpending]
        exact Pairwise.nil
      · rw [hphase]
        rfl
      · cases hr
    · exact .inl ⟨e, he⟩
  · obtain hold | ⟨hpending, hphase⟩ := hcalls id call hcall
    · exact h.pending id call hold hle
    · refine ⟨fun p hp => ?_, fun _ _ _ _ _ heq => ?_⟩
      · rw [hpending] at hp
        cases hp
      · obtain ⟨hphase, _⟩ | ⟨e, he⟩ := hphase
        · cases heq.symm.trans hphase
        · cases heq.symm.trans he

theorem Quiet.recv (hw : Wired s) (hst : s.recv i = some t) : Quiet q t := by
  have hsound := h.sound.recv hw hst
  obtain ⟨sh, q', mailbox, hsh, hthread, hmailbox, heq⟩ := recv_cases hst
  have hrequests : t.requests = s.requests := by
    refine requests_congr (by rw [heq]) ?_
    rw [heq]
    exact length_set
  subst heq
  have hmem : q' ∈ sh.mailbox := by
    rw [hmailbox]
    exact mem_cons_self
  have hread := h.still.mailboxes sh (mem_of_getElem? hsh) q' hmem
  obtain ⟨_, cell, hcell, hout, hcommand⟩ := h.sound.filed.queued i sh hsh q' hmem
  obtain ⟨hrouted, _⟩ := h.sound.filed.issued q'.reply cell hcell
  have hservice : (q.shards.map (·.service))[i]? = some sh.service := by
    rw [← h.services, getElem?_map, hsh]
    rfl
  obtain ⟨hkept, horder, hvalue⟩ : (sh.service.handle q'.command).2 = sh.service ∧
      q'.effects (sh.service.handle q'.command).1 = [] ∧
      Reads (q.shards.map (·.service)) cell.request (sh.service.handle q'.command).1 := by
    rw [hout.shard] at hrouted
    rw [hcommand] at hread ⊢
    cases hrequest : cell.request with
    | keyed command =>
      rw [hrequest] at hread
      cases hread
    | len j | keys j =>
      rw [hrequest] at hrouted
      obtain ⟨rfl, _⟩ := hrouted
      rw [hrequest] at hcommand
      refine ⟨rfl, ?_, sh.service, hservice, rfl⟩
      simp only [Submission.effects, hcommand, KvRequest.command]
    | stop j =>
      rw [hrequest] at hrouted
      exact hrouted.elim
  refine ⟨hsound, ?_, ?_, ⟨fun sh' hsh' q'' hq'' => ?_, h.still.calls⟩, h.cells,
    fun sh' hsh' reply value stop hthread' hle c hc => ?_, h.values, fun id call hcall hle => ?_,
    h.pending⟩
  · simp only [horder, append_nil]
    exact h.order
  · rw [map_set_of hsh hkept]
    exact h.services
  · rcases mem_or_eq_of_mem_set hsh' with hold | rfl
    · exact h.still.mailboxes sh' hold q'' hq''
    · refine h.still.mailboxes sh (mem_of_getElem? hsh) q'' ?_
      rw [hmailbox]
      exact mem_cons_of_mem _ hq''
  · rcases mem_or_eq_of_mem_set hsh' with hold | rfl
    · exact h.replying sh' hold reply value stop hthread' hle c hc
    · cases hthread'
      cases hcell.symm.trans hc
      exact hvalue
  · rw [hrequests]
    exact h.gathers id call hcall hle

theorem Quiet.sendReply (hw : Wired s) (hst : s.sendReply i = some t) : Quiet q t := by
  have hsound := h.sound.sendReply hw hst
  obtain ⟨sh, reply, value, hsh, hthread, heq⟩ := sendReply_cases hst h.sound.filed.no_stop
  have hrequests : t.requests = s.requests := by
    refine requests_congr (by rw [heq]) ?_
    rw [heq]
    exact length_set
  subst heq
  obtain ⟨_, _, cell, hcell, hout, _⟩ := h.sound.filed.replying i sh reply value false hsh hthread
  have hcells : ∀ (id : Nat) c', (s.cells.modify reply fun cell =>
      { cell with state := (ReplySender.send cell.state value).1 })[id]? = some c' →
      ∃ c, s.cells[id]? = some c ∧ c'.request = c.request ∧
        (c' = c ∨ id = reply ∧ c'.state.value = some value) := by
    intro id c' hc'
    rcases getElem?_modify_cases hc' with ⟨_, hc⟩ | ⟨rfl, c, hc, rfl⟩
    · exact ⟨c', hc, rfl, .inl rfl⟩
    · cases hcell.symm.trans hc
      refine ⟨cell, hcell, rfl, .inr ⟨rfl, ?_⟩⟩
      rw [ReplySender.send_of_open (by rw [hout.state]; rfl)]
  refine ⟨hsound, h.order, ?_, ⟨fun sh' hsh' q'' hq'' => ?_, h.still.calls⟩, ?_,
    fun sh' hsh' reply' value' stop hthread' hle c' hc' => ?_,
    fun reply' c' value' hc' hvalue' hle => ?_, fun id call hcall hle => ?_, h.pending⟩
  · exact (map_set_of (y := { sh with thread := .receiving }) hsh rfl).trans h.services
  · rcases mem_or_eq_of_mem_set hsh' with hold | rfl
    · exact h.still.mailboxes sh' hold q'' hq''
    · exact h.still.mailboxes sh (mem_of_getElem? hsh) q'' hq''
  · simpa using h.cells
  · obtain ⟨c, hc, hrequest, _⟩ := hcells reply' c' hc'
    rw [hrequest]
    rcases mem_or_eq_of_mem_set hsh' with hold | rfl
    · exact h.replying sh' hold reply' value' stop hthread' hle c hc
    · cases hthread'
  · obtain ⟨c, hc, hrequest, rfl | ⟨rfl, hnew⟩⟩ := hcells reply' c' hc'
    · exact h.values reply' c' value' hc hvalue' hle
    · cases hnew.symm.trans hvalue'
      rw [hrequest]
      exact h.replying sh (mem_of_getElem? hsh) _ value false hthread hle c hc
  · rw [hrequests]
    exact h.gathers id call hcall hle

theorem Quiet.step (hw : Wired s) {e : Event K V} (he : e.reads) (hst : s.step e = some t) :
    Quiet q t ∧ Wired t := by
  refine ⟨?_, (h.sound.step hw hst).2⟩
  cases e with
  | call op blocking =>
    cases hst
    exact h.begin he blocking
  | client id => exact h.client hw hst
  | recv i => exact h.recv hw hst
  | reply i => exact h.sendReply hw hst

/-- A call made since the quiescent state that has returned a result. -/
private theorem Quiet.returned (hcall : s.calls[id]? = some call) (hle : q.calls.length ≤ id)
    (hphase : call.phase = .returned (.ok result)) :
    ∃ receipts total, s.requests call.op = .ok (receipts.map (·.request)) ∧
      (∀ r ∈ receipts, Reads (q.shards.map (·.service)) r.request r.value) ∧
      absorbAll call.op.start receipts = some total ∧ call.op.finish total = result := by
  obtain ⟨e, he⟩ | ⟨requests, receipts, hrequests, hparts, _, haccounts, heach⟩ :=
    h.gathers id call hcall hle
  · cases hphase.symm.trans he
  · rw [hphase] at hparts haccounts
    simp only [Phase.pending, Phase.unsent, map_nil, append_nil] at hparts
    obtain ⟨total, habsorb, hfinish⟩ := haccounts
    exact ⟨receipts, total, hparts ▸ hrequests, heach, habsorb, hfinish⟩

private theorem Quiet.all_shards {request : Nat → KvRequest K V} {requests : List (KvRequest K V)}
    (hrequests : (do
      s.ensureRunning
      return (range s.shardCount).map request : Except ShardError _) = .ok requests) :
    requests = (range (q.shards.map (·.service)).length).map request := by
  simp only [ensureRunning, h.sound.filed.running.1] at hrequests
  cases hrequests
  rw [← h.services, length_map]
  rfl

private theorem Quiet.parts :
    Partitioned s.shardForKey ((q.shards.map (·.service)).map (·.map)) q.whole.map := by
  have hparts := h.sound.filed.parts
  rw [whole, h.order] at hparts
  rw [← h.services, map_map]
  exact hparts

theorem Quiet.total_len (hcall : s.calls[id]? = some call) (hle : q.calls.length ≤ id)
    (hphase : call.phase = .returned (.ok result)) (hop : call.op = .totalLen) :
    result = .len q.whole.len := by
  obtain ⟨receipts, total, hrequests, hreads, habsorb, hfinish⟩ := h.returned hcall hle hphase
  rw [hop] at hrequests habsorb hfinish
  cases (absorbAll_len (h.all_shards hrequests) hreads).symm.trans habsorb
  have hsum := h.parts.sum_card
  rw [map_map] at hsum
  rw [← hfinish]
  exact congrArg KvResult.len hsum

theorem Quiet.all_keys (hcall : s.calls[id]? = some call) (hle : q.calls.length ≤ id)
    (hphase : call.phase = .returned (.ok result)) (hop : call.op = .allKeys) :
    result = .keys q.whole.keys := by
  obtain ⟨receipts, total, hrequests, hreads, habsorb, hfinish⟩ := h.returned hcall hle hphase
  rw [hop] at hrequests habsorb hfinish
  cases (absorbAll_keys (h.all_shards hrequests) hreads).symm.trans habsorb
  have hsort := h.parts.sort_keys
  rw [flatMap_map] at hsort
  rw [← hfinish]
  exact congrArg KvResult.keys hsort

end

end ShardedKv
end Sitas.Kv
