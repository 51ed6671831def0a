import Sitas.Kv.Gathering

namespace Sitas.Kv.ShardedKv
open Sitas.Lib Sitas.Runtime List

variable {K V : Type} {s t : ShardedKv K V} {reply id i : Nat} {gone : List Nat}
  {f : ReplyState (KvValue K V) Empty → ReplyState (KvValue K V) Empty} {cell' : Cell K V}
  {sh : KvShard K V} [LinearOrder K] [DecidableEq V]

/-- Every value that is on its way to a client is the one that its command produced. -/
structure Outputs (s : ShardedKv K V) (produced : List (Nat × KvValue K V)) : Prop where
  values : ∀ (id : Nat) cell value, s.cells[id]? = some cell → cell.state.value = some value →
    (id, value) ∈ produced
  replying : ∀ sh ∈ s.shards, ∀ reply value stop, sh.thread = .replying reply value stop →
    (reply, value) ∈ produced
  made : ∀ p ∈ produced, ∃ (cell : Cell K V) (service : KvService K V),
    s.cells[p.1]? = some cell ∧ cell.sent = true ∧ (service.handle cell.request.command).1 = p.2
  once : (produced.map (·.1)).Nodup
  queued : ∀ sh ∈ s.shards, ∀ q ∈ sh.mailbox, q.reply ∉ produced.map (·.1)

variable {produced : List (Nat × KvValue K V)}

theorem outputs_start {config : ShardedKvConfig} {placement : K → Nat → Nat}
    (h : startWithPlacement config placement = .ok s) : Outputs s [] := by
  obtain ⟨_, _, rfl⟩ := start_cases h
  refine ⟨fun _ _ _ hcell => ?_, fun sh hsh reply value stop hthread => ?_, fun p hp => ?_,
    nodup_nil, fun _ _ _ _ => not_mem_nil⟩
  · cases hcell
  · rw [eq_of_mem_replicate hsh] at hthread
    cases hthread
  · cases hp

section
variable (h : Outputs s produced)
include h

theorem Outputs.congr (hcells : t.cells = s.cells) (hshards : t.shards = s.shards) :
    Outputs t produced := by
  obtain ⟨values, replying, made, once, queued⟩ := h
  refine ⟨?_, ?_, ?_, once, ?_⟩
  · rwa [hcells]
  · rwa [hshards]
  · rwa [hcells]
  · rwa [hshards]

theorem Outputs.openReply (call shard : Nat) (request : KvRequest K V) :
    Outputs (s.openReply call shard request) produced := by
  refine ⟨fun id cell value hcell hvalue => ?_, h.replying, fun p hp => ?_, h.once, h.queued⟩
  · rcases getElem?_concat hcell with hold | ⟨_, rfl⟩
    · exact h.values id cell value hold hvalue
    · cases hvalue
  · obtain ⟨cell, service, hcell, hmade⟩ := h.made p hp
    exact ⟨cell, service, getElem?_concat_of hcell, hmade⟩

theorem Outputs.modifyCell {cell : Cell K V} (hcell : s.cells[reply]? = some cell)
    (hvalue : ∀ value, (f cell.state).value = some value → cell.state.value = some value) :
    Outputs (s.modifyCell reply fun cell => { cell with state := f cell.state }) produced := by
  refine ⟨fun id cell' value hcell' hvalue' => ?_, h.replying, fun p hp => ?_, h.once, h.queued⟩
  · rcases getElem?_modify_cases hcell' with ⟨_, hold⟩ | ⟨rfl, c, hold, rfl⟩
    · exact h.values id cell' value hold hvalue'
    · cases hcell.symm.trans hold
      exact h.values _ cell value hcell (hvalue value hvalue')
  · obtain ⟨c, service, hc, hmade⟩ := h.made p hp
    by_cases hid : reply = p.1
    · subst hid
      exact ⟨_, service, getElem?_modify_self hc, hmade⟩
    · exact ⟨c, service, (getElem?_modify_other hid).trans hc, hmade⟩

theorem Outputs.push {call shard : Nat} {request : KvRequest K V}
    (hcell : s.cells[reply]? = some ⟨call, shard, request, false, replyChannel⟩)
    (hsh : s.shards[shard]? = some sh) : Outputs (s.push shard request reply) produced := by
  refine ⟨fun id cell value hc hvalue => ?_, fun sh' hsh' r value stop hthread => ?_, fun p hp => ?_,
    h.once, fun sh' hsh' q hq => ?_⟩
  · rcases getElem?_modify_cases hc with ⟨_, hold⟩ | ⟨rfl, c, hold, rfl⟩
    · exact h.values id cell value hold hvalue
    · exact h.values _ c value hold hvalue
  · rcases push_cases hsh hsh' with hold | rfl
    · exact h.replying sh' hold r value stop hthread
    · exact h.replying sh (mem_of_getElem? hsh) r value stop hthread
  · obtain ⟨c, service, hc, hsent, hmade⟩ := h.made p hp
    by_cases hid : reply = p.1
    · subst hid
      exact ⟨_, service, getElem?_modify_self hc, rfl, hmade⟩
    · exact ⟨c, service, (getElem?_modify_other hid).trans hc, hsent, hmade⟩
  · rcases push_cases hsh hsh' with hold | rfl
    · exact h.queued sh' hold q hq
    · rcases mem_append.mp hq with hin | hlast
      · exact h.queued sh (mem_of_getElem? hsh) q hin
      · rw [mem_singleton.mp hlast]
        intro hmem
        obtain ⟨p, hp, hid⟩ := mem_map.mp hmem
        obtain ⟨c, service, hc, hsent, _⟩ := h.made p hp
        rw [hid] at hc
        cases hcell.symm.trans hc
        cases hsent

theorem Outputs.release {sh' : KvShard K V} (hsh : s.shards[i]? = some sh)
    (hshards : t.shards = s.shards.set i sh') (hreleased : Released s t gone)
    (hvalues : ∀ (id : Nat) cell value, t.cells[id]? = some cell →
      cell.state.value = some value → (id, value) ∈ produced) (hmailbox : sh'.mailbox ⊆ sh.mailbox)
    (hthread : ∀ reply value stop, sh'.thread ≠ .replying reply value stop) :
    Outputs t produced := by
  refine ⟨hvalues, fun sh₀ hmem reply value stop hreplying => ?_, fun p hp => ?_, h.once,
    fun sh₀ hmem q hq => ?_⟩
  · rw [hshards] at hmem
    rcases mem_or_eq_of_mem_set hmem with hold | rfl
    · exact h.replying sh₀ hold reply value stop hreplying
    · exact absurd hreplying (hthread reply value stop)
  · obtain ⟨c, service, hc, hsent, hmade⟩ := h.made p hp
    obtain ⟨c', hc', hsame, _⟩ := hreleased.cells p.1 c hc
    exact ⟨c', service, hc', by rw [hsame.sent, hsent], by rw [hsame.request, hmade]⟩
  · rw [hshards] at hmem
    rcases mem_or_eq_of_mem_set hmem with hold | rfl
    · exact h.queued sh₀ hold q hq
    · exact h.queued sh (mem_of_getElem? hsh) q (hmailbox hq)

end

omit [LinearOrder K] [DecidableEq V] in
theorem dropSender_value (h : (s.dropSender reply).cells[id]? = some cell') :
    ∃ cell, s.cells[id]? = some cell ∧ cell'.state.value = cell.state.value := by
  rcases getElem?_modify_cases h with ⟨_, hold⟩ | ⟨rfl, cell, hold, rfl⟩
  · exact ⟨cell', hold, rfl⟩
  · refine ⟨cell, hold, ?_⟩
    cases halive : cell.state.senderAlive <;> simp [ReplySender.drop, halive]

omit [LinearOrder K] [DecidableEq V] in
theorem dropAll_value {mailbox : List (Submission K V)}
    (h : (s.dropAll mailbox).cells[id]? = some cell') :
    ∃ cell, s.cells[id]? = some cell ∧ cell'.state.value = cell.state.value := by
  induction mailbox generalizing s with
  | nil => exact ⟨cell', h, rfl⟩
  | cons q mailbox ih =>
    obtain ⟨cell₁, hcell₁, hvalue₁⟩ := ih h
    obtain ⟨cell, hcell, hvalue⟩ := dropSender_value hcell₁
    exact ⟨cell, hcell, hvalue₁.trans hvalue⟩

theorem Outputs.sendReply (h : Outputs s produced) (hst : s.sendReply i = some t) :
    Outputs t produced := by
  obtain ⟨sh, reply, value, stop, hsh, hthread, rfl⟩ := sendReply_spec hst
  have hreleased := released_reply s reply value (if stop then sh.mailbox else [])
  refine h.release hsh rfl ⟨hreleased.length, hreleased.cells⟩ (fun id cell' v hcell' hv => ?_) ?_ ?_
  · obtain ⟨cell, hcell, hvalue⟩ := dropAll_value hcell'
    rw [hvalue] at hv
    rcases getElem?_modify_cases hcell with ⟨_, hold⟩ | ⟨rfl, c, hold, rfl⟩
    · exact h.values id cell v hold hv
    · have hsent := h.replying sh (mem_of_getElem? hsh) reply value stop hthread
      cases hc : c.state.value with
      | none =>
        rw [ReplySender.send_of_open hc] at hv
        cases hv
        exact hsent
      | some w =>
        refine h.values _ c v hold ?_
        cases halive : c.state.senderAlive <;>
          simpa [ReplySender.send, ReplySender.drop, hc, halive] using hv
  · cases stop with
    | true => exact nil_subset _
    | false => exact Subset.refl _
  · intro reply' value' stop' hthread'
    cases stop <;> cases hthread'

theorem Outputs.die (h : Outputs s produced) (hsh : s.shards[i]? = some sh) :
    Outputs (s.die i sh) produced := by
  refine h.release hsh rfl (released_die s i sh) (fun id cell' v hcell' hv => ?_)
    (nil_subset _) ?_
  · obtain ⟨cell₁, hcell₁, hvalue₁⟩ := dropAll_value hcell'
    rw [hvalue₁] at hv
    cases hthread : sh.thread with
    | receiving | stopped =>
      rw [hthread] at hcell₁
      exact h.values id cell₁ v hcell₁ hv
    | replying reply value stop =>
      rw [hthread] at hcell₁
      obtain ⟨cell, hcell, hvalue⟩ := dropSender_value hcell₁
      exact h.values id cell v hcell (hvalue ▸ hv)
  · intro reply value stop hthread
    cases hthread

theorem Outputs.recv (h : Outputs s produced) (hw : Wired s) (hwired : Wired t) {q : Submission K V}
    {mailbox : List (Submission K V)} (hsh : s.shards[i]? = some sh)
    (hmailbox : sh.mailbox = q :: mailbox) (hcells : t.cells = s.cells)
    (hshards : t.shards = s.shards.set i ⟨mailbox, (sh.service.handle q.command).2,
      .replying q.reply (sh.service.handle q.command).1 (q.command = .stop)⟩) :
    Outputs t (produced ++ [(q.reply, (sh.service.handle q.command).1)]) := by
  have hmem := mem_of_getElem? hsh
  have hq : q ∈ sh.mailbox := by
    rw [hmailbox]
    exact mem_cons_self
  refine ⟨fun id cell value hcell hvalue => ?_, fun sh₀ hsh₀ reply value stop hthread => ?_,
    fun p hp => ?_, ?_, fun sh₀ hsh₀ q' hq' => ?_⟩
  · exact mem_append_left _ (h.values id cell value (hcells ▸ hcell) hvalue)
  · rw [hshards] at hsh₀
    rcases mem_or_eq_of_mem_set hsh₀ with hold | rfl
    · exact mem_append_left _ (h.replying sh₀ hold reply value stop hthread)
    · cases hthread
      exact mem_append_right _ mem_cons_self
  · rw [hcells]
    rcases mem_append.mp hp with hold | hlast
    · exact h.made p hold
    · rw [mem_singleton.mp hlast]
      obtain ⟨cell, hcell, hout⟩ := hw.holds i sh hsh q.reply
        (mem_append_right _ (mem_map.mpr ⟨q, hq, rfl⟩))
      obtain ⟨cell', hcell', hcommand⟩ := hw.queued sh hmem q hq
      cases hcell.symm.trans hcell'
      exact ⟨cell, sh.service, hcell, hout.sent, by rw [hcommand]⟩
  · rw [map_append]
    refine h.once.append (nodup_singleton _) fun id hid hlast => ?_
    have hid' : id = q.reply := mem_singleton.mp hlast
    exact h.queued sh hmem q hq (hid' ▸ hid)
  · rw [map_append, mem_append, not_or, map_cons, map_nil, mem_singleton]
    have hnow : t.shards[i]? = some _ :=
      hshards ▸ List.getElem?_set_self (List.getElem?_eq_some_iff.mp hsh).1
    refine ⟨?_, hwired.current_notMem hnow rfl hsh₀ hq'⟩
    rw [hshards] at hsh₀
    rcases mem_or_eq_of_mem_set hsh₀ with hold | rfl
    · exact h.queued sh₀ hold q' hq'
    · refine h.queued sh hmem q' ?_
      rw [hmailbox]
      exact mem_cons_of_mem _ hq'

theorem ClientStep.outputs {call : Call K V} (h : ClientStep s id call t) (ho : Outputs s produced)
    (hsends : s.Sends id call.phase) : Outputs t produced := by
  cases h with
  | submitted | unroutable | finished | failed => exact ho.congr rfl rfl
  | opened => exact (ho.openReply _ _ _).congr rfl rfl
  | refused hphase =>
    obtain ⟨hcell, _⟩ := hsends _ _ _ _ _ hphase
    exact Outputs.congr (ho.modifyCell (f := fun state => (ReplySender.drop state).1) hcell
      fun value hvalue => hvalue) rfl rfl
  | sent hphase hsh =>
    obtain ⟨hcell, _⟩ := hsends _ _ _ _ _ hphase
    exact (ho.push hcell hsh).congr rfl rfl
  | @received request reply pending total cell value state total' hphase hcell hwait =>
    obtain ⟨_, hstate⟩ := Reply.wait_eq_ok hwait
    refine Outputs.congr (ho.modifyCell (f := fun _ => state) hcell fun v hv => ?_) rfl rfl
    rw [hstate] at hv
    cases hv

end Sitas.Kv.ShardedKv
