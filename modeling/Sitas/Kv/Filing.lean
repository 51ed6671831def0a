import Sitas.Kv.Wiring
import Sitas.Lib.Partition

/-! Where a command is between its submission and its reply, and what has become of the
map. A command on a key takes effect when the shard that owns the key executes it. -/
namespace Sitas.Kv
open Sitas.Lib Sitas.Runtime List KvService

variable {K V : Type} [LinearOrder K] [DecidableEq V]

/-- A value has the type of the request's reply and is what the command returned. -/
def Fits (order : List (Executed (KeyCommand K V) (Answer V))) (reply : Nat) :
    KvRequest K V → KvValue K V → Prop
  | .keyed command, .answer a => ⟨reply, command, a⟩ ∈ order
  | .len _, .len _ => True
  | .keys _, .keys _ => True
  | _, _ => False

omit [LinearOrder K] [DecidableEq V] in
theorem Fits.mono {order order' : List (Executed (KeyCommand K V) (Answer V))} {reply : Nat}
    {request : KvRequest K V} {value : KvValue K V} (h : Fits order reply request value)
    (hsub : order ⊆ order') : Fits order' reply request value := by
  cases request <;> cases value <;> first | exact h | exact hsub h

namespace ShardedKv

/-- The shard that a client's request is for: the owner of the key, or an existing shard that
is read. -/
def Routed (s : ShardedKv K V) : KvRequest K V → Nat → Prop
  | .keyed command, i => i = s.shardForKey command.key
  | .len j, i | .keys j, i => i = j ∧ j < s.shards.length
  | .stop _, _ => False

/-- The single map that the commands on keys have been executed on. -/
def whole (s : ShardedKv K V) : KvService K V := outcome KvService.execute .new s.order

structure Filed (s : ShardedKv K V) : Prop where
  running : s.stopped = false ∧ ∀ sh ∈ s.shards, sh.thread ≠ .stopped
  placed : ∀ key, s.shardForKey key < s.shards.length
  fresh : ∀ id ∈ s.history.filterMap HistoryEvent.invoked, id < s.cells.length
  issued : ∀ (id : Nat) cell, s.cells[id]? = some cell → s.Routed cell.request cell.shard ∧
    ∀ c, cell.request = .keyed c → .invoke id c ∈ s.history
  once : ∀ sh ∈ s.shards, (sh.mailbox.map (·.reply)).Nodup
  queued : ∀ (i : Nat) sh, s.shards[i]? = some sh → ∀ q ∈ sh.mailbox,
    q.reply ∉ s.order.map (·.id) ∧ ∃ cell, s.cells[q.reply]? = some cell ∧ cell.Outstanding i ∧
      q.command = cell.request.command
  replying : ∀ (i : Nat) sh reply value stop, s.shards[i]? = some sh →
    sh.thread = .replying reply value stop → stop = false ∧ reply ∉ sh.mailbox.map (·.reply) ∧
      ∃ cell, s.cells[reply]? = some cell ∧ cell.Outstanding i ∧
        Fits s.order reply cell.request value
  values : ∀ (id : Nat) cell value, s.cells[id]? = some cell → cell.state.value = some value →
    cell.sent = true ∧ Fits s.order id cell.request value
  effects : ∀ e ∈ s.order, ∃ cell, s.cells[e.id]? = some cell ∧ cell.sent = true
  linear : Linearization KvService.execute .new s.history s.order
  parts : Partitioned s.shardForKey (s.shards.map (·.service.map)) s.whole.map

def Unexecuted (s : ShardedKv K V) : Prop :=
  ∀ sh ∈ s.shards, ∀ q ∈ sh.mailbox, q.reply ∉ s.order.map (·.id)

def Fitting (s : ShardedKv K V) : Prop :=
  ∀ sh ∈ s.shards, ∀ reply value stop, sh.thread = .replying reply value stop → stop = false ∧
    ∃ cell, s.cells[reply]? = some cell ∧ Fits s.order reply cell.request value

variable {s t : ShardedKv K V}

section Wiring
omit [LinearOrder K] [DecidableEq V]

theorem Wired.once_mailbox (h : Wired s) : ∀ sh ∈ s.shards, (sh.mailbox.map (·.reply)).Nodup :=
  fun sh hsh => (nodup_append'.mp (h.once sh hsh)).2.1

theorem Wired.filed_queued (h : Wired s) (hnew : s.Unexecuted) (i : Nat) (sh : KvShard K V)
    (hsh : s.shards[i]? = some sh) (q : Submission K V) (hq : q ∈ sh.mailbox) :
    q.reply ∉ s.order.map (·.id) ∧ ∃ cell, s.cells[q.reply]? = some cell ∧ cell.Outstanding i ∧
      q.command = cell.request.command := by
  have hmem := mem_of_getElem? hsh
  obtain ⟨cell, hcell, hout⟩ := h.holds i sh hsh q.reply
    (mem_append_right _ (mem_map.mpr ⟨q, hq, rfl⟩))
  obtain ⟨cell', hcell', hcommand⟩ := h.queued sh hmem q hq
  cases hcell.symm.trans hcell'
  exact ⟨hnew sh hmem q hq, cell, hcell, hout, hcommand.symm⟩

theorem Wired.filed_replying (h : Wired s) (hfits : s.Fitting) (i : Nat) (sh : KvShard K V)
    (reply : Nat) (value : KvValue K V) (stop : Bool) (hsh : s.shards[i]? = some sh)
    (hthread : sh.thread = .replying reply value stop) :
    stop = false ∧ reply ∉ sh.mailbox.map (·.reply) ∧
      ∃ cell, s.cells[reply]? = some cell ∧ cell.Outstanding i ∧
        Fits s.order reply cell.request value := by
  have hmem := mem_of_getElem? hsh
  have hreplies : sh.replies = reply :: sh.mailbox.map (·.reply) := by
    rw [KvShard.replies, hthread]
    rfl
  have honce := h.once sh hmem
  rw [hreplies, nodup_cons] at honce
  obtain ⟨cell, hcell, hout⟩ := h.holds i sh hsh reply (hreplies ▸ mem_cons_self)
  obtain ⟨hstop, cell', hcell', hfit⟩ := hfits sh hmem reply value stop hthread
  cases hcell.symm.trans hcell'
  exact ⟨hstop, honce.1, cell, hcell, hout, hfit⟩

theorem Wired.current_notMem (h : Wired s) {i reply : Nat} {sh sh' : KvShard K V}
    {value : KvValue K V} {stop : Bool} {q : Submission K V} (hsh : s.shards[i]? = some sh)
    (hthread : sh.thread = .replying reply value stop) (hsh' : sh' ∈ s.shards)
    (hq : q ∈ sh'.mailbox) : q.reply ≠ reply := by
  rintro rfl
  obtain ⟨j, hj⟩ := getElem?_of_mem hsh'
  have hmem : q.reply ∈ sh'.mailbox.map (·.reply) := mem_map.mpr ⟨q, hq, rfl⟩
  have hcurrent : q.reply ∈ sh.thread.current := by
    rw [hthread]
    exact mem_cons_self
  obtain ⟨cell, hcell, hout⟩ := h.holds i sh hsh q.reply (mem_append_left _ hcurrent)
  obtain ⟨cell', hcell', hout'⟩ := h.holds j sh' hj q.reply (mem_append_right _ hmem)
  cases hcell.symm.trans hcell'
  cases hout.shard.symm.trans hout'.shard
  cases hsh.symm.trans hj
  exact (nodup_append'.mp (h.once sh hsh')).2.2 hcurrent hmem

end Wiring

theorem Filed.unexecuted (h : Filed s) : s.Unexecuted := by
  intro sh hsh q hq
  obtain ⟨i, hi⟩ := getElem?_of_mem hsh
  exact (h.queued i sh hi q hq).1

theorem Filed.fitting (h : Filed s) : s.Fitting := by
  intro sh hsh reply value stop hthread
  obtain ⟨i, hi⟩ := getElem?_of_mem hsh
  obtain ⟨hstop, _, cell, hcell, _, hfits⟩ := h.replying i sh reply value stop hi hthread
  exact ⟨hstop, cell, hcell, hfits⟩

theorem filed_start {config : ShardedKvConfig} {placement : K → Nat → Nat}
    (h : startWithPlacement config placement = .ok s)
    (hplacement : ∀ key, placement key config.shardCount < config.shardCount) : Filed s := by
  have hw := wired_start h
  obtain ⟨_, _, rfl⟩ := start_cases h
  have howner : ∀ key, placement key (replicate config.shardCount
      (⟨[], .new, .receiving⟩ : KvShard K V)).length < config.shardCount := by
    simpa using hplacement
  refine ⟨⟨rfl, fun sh hsh => ?_⟩, fun key => ?_, fun _ hid => ?_, fun _ _ hcell => ?_,
    hw.once_mailbox, hw.filed_queued fun _ _ _ _ => not_mem_nil,
    hw.filed_replying fun sh hsh reply value stop hreply => ?_,
    fun _ _ _ hcell => ?_, fun _ he => ?_, .empty, ?_⟩
  · rw [eq_of_mem_replicate hsh]
    simp
  · simpa [shardForKey, shardCount] using hplacement key
  · cases hid
  · cases hcell
  · rw [eq_of_mem_replicate hsh] at hreply
    cases hreply
  · cases hcell
  · cases he
  · rw [map_replicate]
    exact Partitioned.empty howner

theorem Filed.calls (h : Filed s) (calls : List (Call K V)) : Filed { s with calls } :=
  ⟨h.running, h.placed, h.fresh, h.issued, h.once, h.queued, h.replying, h.values, h.effects,
    h.linear, h.parts⟩

variable {reply i : Nat} {request : KvRequest K V}

theorem Filed.modifyCell (h : Filed s) (hw : Wired s) {cell : Cell K V}
    {f : ReplyState (KvValue K V) Empty → ReplyState (KvValue K V) Empty}
    (hcell : s.cells[reply]? = some cell) (hidle : cell.sent = true → cell.state ≠ replyChannel)
    (halive : (f cell.state).senderAlive = true → cell.state.senderAlive = true)
    (hvalue : ∀ v, (f cell.state).value = some v → cell.state.value = some v) :
    Filed (s.modifyCell reply fun cell => { cell with state := f cell.state }) := by
  have hwired := hw.modifyCell hcell hidle halive
  refine ⟨h.running, h.placed, ?_, fun id c' hc' => ?_, hwired.once_mailbox,
    hwired.filed_queued h.unexecuted, hwired.filed_replying fun sh hsh id value stop hthread => ?_,
    fun id c' value hc' hv => ?_, fun e he => exists_modify (h.effects e he) fun _ hsent => hsent,
    h.linear, h.parts⟩
  · simpa [ShardedKv.modifyCell] using h.fresh
  · rcases getElem?_modify_cases hc' with ⟨_, hc⟩ | ⟨rfl, c, hc, rfl⟩
    · exact h.issued id c' hc
    · exact h.issued _ c hc
  · obtain ⟨hstop, hfits⟩ := h.fitting sh hsh id value stop hthread
    exact ⟨hstop, exists_modify hfits fun _ hfits => hfits⟩
  · rcases getElem?_modify_cases hc' with ⟨_, hc⟩ | ⟨rfl, c, hc, rfl⟩
    · exact h.values id c' value hc hv
    · cases hcell.symm.trans hc
      exact h.values _ cell value hcell (hvalue value hv)

theorem Filed.respond (h : Filed s) {command : KeyCommand K V} {a : Answer V}
    (heffect : ⟨reply, command, a⟩ ∈ s.order) :
    Filed { s with history := s.history ++ [.respond reply a] } := by
  refine ⟨h.running, h.placed, fun id hid => ?_, fun id cell hcell => ?_, h.once, h.queued,
    h.replying, h.values, h.effects, h.linear.respond heffect, h.parts⟩
  · rw [filterMap_append, mem_append] at hid
    rcases hid with hold | hlast
    · exact h.fresh id hold
    · cases hlast
  · obtain ⟨hrouted, hinvoked⟩ := h.issued id cell hcell
    exact ⟨hrouted, fun c hc => mem_append_left _ (hinvoked c hc)⟩

theorem Filed.openReply (h : Filed s) (hw : Wired s) (call : Nat) {shard : Nat}
    (hrouted : s.Routed request shard) : Filed (s.openReply call shard request) := by
  obtain ⟨hlinear, hfresh, hsub, hinvoked⟩ :
      Linearization execute .new (s.openReply call shard request).history s.order ∧
      (∀ id ∈ (s.openReply call shard request).history.filterMap HistoryEvent.invoked,
        id < s.cells.length + 1) ∧
      s.history ⊆ (s.openReply call shard request).history ∧
      ∀ c, request = .keyed c → .invoke s.cells.length c ∈
        (s.openReply call shard request).history := by
    cases request with
    | keyed command =>
      refine ⟨h.linear.invoke command fun hmem => Nat.lt_irrefl _ (h.fresh _ hmem),
        fun id hid => ?_, subset_append_left _ _, fun c hc => ?_⟩
      · simp only [ShardedKv.openReply, filterMap_append, mem_append] at hid
        rcases hid with hold | hlast
        · exact Nat.lt_succ_of_lt (h.fresh id hold)
        · rw [mem_singleton.mp hlast]
          exact Nat.lt_succ_self _
      · cases hc
        exact mem_append_right _ mem_cons_self
    | len i | keys i =>
      simp only [ShardedKv.openReply, append_nil]
      exact ⟨h.linear, fun id hid => Nat.lt_succ_of_lt (h.fresh id hid), Subset.refl _,
        fun c hc => by cases hc⟩
    | stop i => exact hrouted.elim
  have hwired := hw.openReply call shard request
  refine ⟨h.running, h.placed, fun id hid => ?_, fun id c hc => ?_, h.once,
    hwired.filed_queued h.unexecuted, hwired.filed_replying fun sh hsh id value stop hthread => ?_,
    fun id c value hc hv => ?_, fun e he => ?_, hlinear, h.parts⟩
  · simpa [ShardedKv.openReply] using hfresh id hid
  · rcases getElem?_concat hc with hold | ⟨rfl, rfl⟩
    · obtain ⟨hrouted', hkeyed⟩ := h.issued id c hold
      exact ⟨hrouted', fun d hd => hsub (hkeyed d hd)⟩
    · exact ⟨hrouted, hinvoked⟩
  · obtain ⟨hstop, c, hc, hfits⟩ := h.fitting sh hsh id value stop hthread
    exact ⟨hstop, c, getElem?_concat_of hc, hfits⟩
  · rcases getElem?_concat hc with hold | ⟨rfl, rfl⟩
    · exact h.values id c value hold hv
    · cases hv
  · obtain ⟨c, hc, hsent⟩ := h.effects e he
    exact ⟨c, getElem?_concat_of hc, hsent⟩

omit [DecidableEq V] [LinearOrder K] in
theorem routing_congr (hplacement : t.placement = s.placement)
    (hlength : t.shards.length = s.shards.length) :
    t.shardForKey = s.shardForKey ∧ t.Routed = s.Routed := by
  have howner : t.shardForKey = s.shardForKey := by
    funext key
    rw [shardForKey, shardForKey, shardCount, shardCount, hplacement, hlength]
  refine ⟨howner, ?_⟩
  funext request i
  cases request with
  | keyed command => rw [Routed, Routed, howner]
  | len j | keys j | stop j => simp only [Routed, hlength]

theorem Filed.push (h : Filed s) (hw : Wired s) {call shard : Nat} {sh : KvShard K V}
    (hcell : s.cells[reply]? = some ⟨call, shard, request, false, replyChannel⟩)
    (hsh : s.shards[shard]? = some sh) : Filed (s.push shard request reply) := by
  have hwired := hw.push hcell hsh
  have hlength : (s.push shard request reply).shards.length = s.shards.length := length_modify ..
  obtain ⟨howner, hrouted⟩ := routing_congr (s := s) (t := s.push shard request reply) rfl hlength
  have hshards : ∀ sh' ∈ (s.push shard request reply).shards, ∃ sh ∈ s.shards,
      sh'.thread = sh.thread ∧ ∀ q ∈ sh'.mailbox, q ∈ sh.mailbox ∨ q.reply = reply := by
    intro sh' hsh'
    rcases push_cases hsh hsh' with hold | rfl
    · exact ⟨sh', hold, rfl, fun q hq => .inl hq⟩
    · refine ⟨sh, mem_of_getElem? hsh, rfl, fun q hq => (mem_append.mp hq).imp_right ?_⟩
      intro hlast
      rw [mem_singleton.mp hlast]
  refine ⟨⟨h.running.1, fun sh' hsh' => ?_⟩, fun key => ?_, fun id hid => ?_, fun id c hc => ?_,
    hwired.once_mailbox, hwired.filed_queued fun sh' hsh' q hq hmem => ?_,
    hwired.filed_replying fun sh' hsh' id value stop hthread => ?_, fun id c value hc hv => ?_,
    fun e he => exists_modify (h.effects e he) fun _ _ => rfl, h.linear, ?_⟩
  · obtain ⟨sh, hsh, hthread, _⟩ := hshards sh' hsh'
    rw [hthread]
    exact h.running.2 sh hsh
  · rw [howner, hlength]
    exact h.placed key
  · simpa [ShardedKv.push, ShardedKv.modifyCell] using h.fresh id hid
  · rw [hrouted]
    rcases getElem?_modify_cases hc with ⟨_, hold⟩ | ⟨rfl, c', hold, rfl⟩
    · exact h.issued id c hold
    · exact h.issued _ c' hold
  · obtain ⟨sh, hsh, _, hmailbox⟩ := hshards sh' hsh'
    rcases hmailbox q hq with hold | hlast
    · exact h.unexecuted sh hsh q hold hmem
    · obtain ⟨e, he, heq⟩ := mem_map.mp hmem
      obtain ⟨c, hc, hsent⟩ := h.effects e he
      rw [heq, hlast, hcell] at hc
      cases hc
      cases hsent
  · obtain ⟨sh, hsh, hsame, _⟩ := hshards sh' hsh'
    obtain ⟨hstop, hfits⟩ := h.fitting sh hsh id value stop (hsame ▸ hthread)
    exact ⟨hstop, exists_modify hfits fun _ hfits => hfits⟩
  · rcases getElem?_modify_cases hc with ⟨_, hold⟩ | ⟨rfl, c', hold, rfl⟩
    · exact h.values id c value hold hv
    · exact ⟨rfl, (h.values _ c' value hold hv).2⟩
  · rw [howner]
    have hservices : (s.push shard request reply).shards.map (·.service.map) =
        s.shards.map (·.service.map) := map_modify_of fun _ => rfl
    rw [hservices]
    exact h.parts

theorem Filed.no_stop (h : Filed s) : ∀ sh ∈ s.shards, ∀ reply value,
    sh.thread ≠ .replying reply value true := by
  intro sh hsh reply value hthread
  cases (h.fitting sh hsh reply value true hthread).1

theorem Filed.sendReply (h : Filed s) (hw : Wired s) (hst : s.sendReply i = some t) : Filed t := by
  have hwired := hw.sendReply hst
  obtain ⟨sh, reply, value, hsh, hthread, heq⟩ := sendReply_cases hst h.no_stop
  have hlength : t.shards.length = s.shards.length := by
    rw [heq]
    exact length_set
  obtain ⟨howner, hrouted⟩ := routing_congr (s := s) (t := t) (by rw [heq]) hlength
  subst heq
  obtain ⟨_, _, cell, hcell, hqueued, hfits⟩ := h.replying i sh reply value false hsh hthread
  refine ⟨⟨h.running.1, fun sh' hsh' => ?_⟩, fun key => ?_, fun id hid => ?_, fun id c' hc' => ?_,
    hwired.once_mailbox, hwired.filed_queued fun sh' hsh' => ?_,
    hwired.filed_replying fun sh' hsh' id v stop' hthread' => ?_, fun id c' v hc' hv => ?_,
    fun e he => exists_modify (h.effects e he) fun _ hsent => hsent, h.linear, ?_⟩
  · rcases mem_or_eq_of_mem_set hsh' with hold | rfl
    · exact h.running.2 sh' hold
    · simp
  · rw [howner, hlength]
    exact h.placed key
  · simpa using h.fresh id hid
  · rw [hrouted]
    rcases getElem?_modify_cases hc' with ⟨_, hc⟩ | ⟨rfl, c, hc, rfl⟩
    · exact h.issued id c' hc
    · exact h.issued _ c hc
  · rcases mem_or_eq_of_mem_set hsh' with hold | rfl
    · exact h.unexecuted sh' hold
    · exact h.unexecuted sh (mem_of_getElem? hsh)
  · rcases mem_or_eq_of_mem_set hsh' with hold | rfl
    · obtain ⟨hstop, hfits'⟩ := h.fitting sh' hold id v stop' hthread'
      exact ⟨hstop, exists_modify hfits' fun _ hfits => hfits⟩
    · cases hthread'
  · rcases getElem?_modify_cases hc' with ⟨_, hc⟩ | ⟨rfl, c, hc, rfl⟩
    · exact h.values id c' v hc hv
    · cases hcell.symm.trans hc
      rw [ReplySender.send_of_open (by rw [hqueued.state]; rfl)] at hv
      cases hv
      exact ⟨hqueued.sent, hfits⟩
  · rw [howner]
    have hservices : (s.shards.set i { sh with thread := .receiving }).map (·.service.map) =
        s.shards.map (·.service.map) := map_set_of hsh rfl
    exact hservices.symm ▸ h.parts

/-- What a shard thread executes is a step of the single map, if it is a command on a key. -/
private theorem Filed.effect (h : Filed s) {sh : KvShard K V} {q : Submission K V} {cell : Cell K V}
    (mailbox : List (Submission K V)) (thread : ShardThread K V) (hsh : s.shards[i]? = some sh)
    (hfresh : q.reply ∉ s.order.map (·.id)) (hcell : s.cells[q.reply]? = some cell)
    (hout : cell.Outstanding i) (hcommand : q.command = cell.request.command) :
    let value := (sh.service.handle q.command).1
    let order := s.order ++ q.effects value
    q.command ≠ .stop ∧ s.order ⊆ order ∧ (∀ e ∈ order, e ∈ s.order ∨ e.id = q.reply) ∧
      Fits order q.reply cell.request value ∧
      Linearization execute .new s.history order ∧
      Partitioned s.shardForKey
        ((s.shards.set i ⟨mailbox, (sh.service.handle q.command).2, thread⟩).map (·.service.map))
        (outcome execute .new order).map := by
  intro value order
  obtain ⟨hrouted, hkeyed⟩ := h.issued q.reply cell hcell
  cases hrequest : cell.request with
  | keyed c =>
    have hinvoked := hkeyed c hrequest
    rw [hrequest] at hrouted
    have hq : q.command = .keyed c := by
      rw [hcommand, hrequest]
      rfl
    have hi : i = s.shardForKey c.key := hout.shard.symm.trans hrouted
    subst hi
    have hpart : (s.shards.map (·.service.map))[s.shardForKey c.key]? = some sh.service.map := by
      rw [getElem?_map, hsh]
      rfl
    obtain ⟨hanswer, hafter⟩ :=
      execute_congr (s := sh.service) (t := s.whole) c (h.parts.lookup_owner hpart)
    have horder : order = s.order ++ [⟨q.reply, c, (sh.service.execute c).1⟩] := by
      simp only [order, value, hq, handle, Submission.effects]
    have hvalue : value = .answer (sh.service.execute c).1 := by
      simp only [value, hq, handle]
    rw [horder, hvalue]
    refine ⟨by rw [hq]; simp, subset_append_left _ _, fun e he => ?_, ?_, ?_, ?_⟩
    · rcases mem_append.mp he with hold | hlast
      · exact .inl hold
      · exact .inr (by rw [mem_singleton.mp hlast])
    · exact mem_append_right _ mem_cons_self
    · exact h.linear.commit hinvoked hfresh hanswer.symm
    · rw [outcome_append, map_set]
      refine h.parts.update hpart ?_ (fun k hk => ?_) fun k hk => ?_
      · rw [hq]
        exact hafter
      · rw [hq]
        exact sh.service.execute_get_of_ne c hk
      · exact s.whole.execute_get_of_ne c hk
  | len j | keys j =>
    have hq := hcommand
    rw [hrequest] at hq
    have horder : order = s.order := by
      simp only [order, Submission.effects, hq, KvRequest.command, append_nil]
    have hservice : (sh.service.handle q.command).2 = sh.service := by
      rw [hq]
      rfl
    rw [horder, map_set_of hsh (congrArg KvService.map hservice)]
    refine ⟨by rw [hq]; simp [KvRequest.command], Subset.refl _, fun e he => .inl he, ?_,
      h.linear, h.parts⟩
    simp only [value, hq, KvRequest.command, handle, Fits]
  | stop j =>
    rw [hrequest] at hrouted
    exact hrouted.elim

theorem Filed.recv (h : Filed s) (hw : Wired s) (hst : s.recv i = some t) : Filed t := by
  have hwired := hw.recv hst
  obtain ⟨sh, q, mailbox, hsh, hthread, hmailbox, heq⟩ := recv_cases hst
  have hmem : q ∈ sh.mailbox := by
    rw [hmailbox]
    exact mem_cons_self
  obtain ⟨hfresh, cell, hcell, hout, hcommand⟩ := h.queued i sh hsh q hmem
  obtain ⟨hstop, hsub, hids, hfits, hlinear, hparts⟩ := h.effect mailbox
    (.replying q.reply (sh.service.handle q.command).1 (q.command = .stop)) hsh hfresh hcell hout
    hcommand
  have hlength : t.shards.length = s.shards.length := by
    rw [heq]
    exact length_set
  obtain ⟨howner, hrouted⟩ := routing_congr (s := s) (t := t) (by rw [heq]) hlength
  subst heq
  refine ⟨⟨h.running.1, fun sh' hsh' => ?_⟩, fun key => ?_, h.fresh, fun id c hc => ?_,
    hwired.once_mailbox, hwired.filed_queued fun sh' hsh' q' hq' hexecuted => ?_,
    hwired.filed_replying fun sh' hsh' id v stop hthread' => ?_, fun id c v hc hv => ?_,
    fun e he => ?_, hlinear, ?_⟩
  · rcases mem_or_eq_of_mem_set hsh' with hold | rfl
    · exact h.running.2 sh' hold
    · simp
  · rw [howner, hlength]
    exact h.placed key
  · rw [hrouted]
    exact h.issued id c hc
  · have hold : ∃ sh₀ ∈ s.shards, q' ∈ sh₀.mailbox := by
      rcases mem_or_eq_of_mem_set hsh' with hold | rfl
      · exact ⟨sh', hold, hq'⟩
      · exact ⟨sh, mem_of_getElem? hsh, hmailbox ▸ mem_cons_of_mem _ hq'⟩
    obtain ⟨sh₀, hsh₀, hq₀⟩ := hold
    obtain ⟨e, he, heq⟩ := mem_map.mp hexecuted
    rcases hids e he with hold | hlast
    · exact h.unexecuted sh₀ hsh₀ q' hq₀ (mem_map.mpr ⟨e, hold, heq⟩)
    · exact hwired.current_notMem (List.getElem?_set_self (List.getElem?_eq_some_iff.mp hsh).1) rfl
        hsh' hq' (heq.symm.trans hlast)
  · rcases mem_or_eq_of_mem_set hsh' with hold | rfl
    · obtain ⟨hstop', c, hc, hfits'⟩ := h.fitting sh' hold id v stop hthread'
      exact ⟨hstop', c, hc, hfits'.mono hsub⟩
    · cases hthread'
      exact ⟨decide_eq_false hstop, cell, hcell, hfits⟩
  · obtain ⟨hsent, hfits'⟩ := h.values id c v hc hv
    exact ⟨hsent, hfits'.mono hsub⟩
  · rcases hids e he with hold | hlast
    · exact h.effects e hold
    · rw [hlast]
      exact ⟨cell, hcell, hout.sent⟩
  · rw [howner]
    exact hparts

end ShardedKv
end Sitas.Kv
