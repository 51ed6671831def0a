import Sitas.Kv.Shutdown
import Sitas.Lib.Entries

namespace Sitas.Kv
open Sitas.Lib Sitas.Runtime List

variable {K V : Type}

/-- The command has entered the mailbox of a shard and has not been answered. -/
structure Cell.Outstanding (cell : Cell K V) (shard : Nat) : Prop where
  shard : cell.shard = shard
  sent : cell.sent = true
  state : cell.state = replyChannel

def KvShard.replies (sh : KvShard K V) : List Nat :=
  sh.thread.current ++ sh.mailbox.map (·.reply)

structure Cell.Same (cell cell' : Cell K V) : Prop where
  call : cell'.call = cell.call
  shard : cell'.shard = cell.shard
  request : cell'.request = cell.request
  sent : cell'.sent = cell.sent

theorem Cell.Same.refl (cell : Cell K V) : cell.Same cell := ⟨rfl, rfl, rfl, rfl⟩

theorem Cell.Same.trans {a b c : Cell K V} (h : a.Same b) (h' : b.Same c) : a.Same c :=
  ⟨h'.call.trans h.call, h'.shard.trans h.shard, h'.request.trans h.request, h'.sent.trans h.sent⟩

theorem drop_senderAlive {T W : Type} (state : ReplyState T W) :
    (ReplySender.drop state).1.senderAlive = false := by
  cases halive : state.senderAlive <;> simp [ReplySender.drop, halive]

def KvShard.answered (sh : KvShard K V) (stop : Bool) : KvShard K V :=
  if stop then { sh with mailbox := [], thread := .stopped } else { sh with thread := .receiving }

namespace ShardedKv
variable {s t u : ShardedKv K V}

/-- The senders of some reply channels are gone after a step, the other channels are as they
were. -/
structure Released (s t : ShardedKv K V) (gone : List Nat) : Prop where
  length : t.cells.length = s.cells.length
  cells : ∀ (id : Nat) cell, s.cells[id]? = some cell → ∃ cell', t.cells[id]? = some cell' ∧
    cell.Same cell' ∧ (id ∉ gone → cell' = cell) ∧ (id ∈ gone → cell'.state.senderAlive = false)

theorem released_of_cells (h : t.cells = s.cells) : Released s t [] :=
  ⟨by rw [h], fun _ cell hcell =>
    ⟨cell, h ▸ hcell, .refl cell, fun _ => rfl, fun hid => absurd hid not_mem_nil⟩⟩

variable {reply id i : Nat} {f : ReplyState (KvValue K V) Empty → ReplyState (KvValue K V) Empty}
  {gone : List Nat} {cell' : Cell K V} {sh : KvShard K V}

theorem released_modify
    (h : t.cells = s.cells.modify reply fun cell => { cell with state := f cell.state })
    (hf : ∀ cell, s.cells[reply]? = some cell → (f cell.state).senderAlive = false) :
    Released s t [reply] := by
  refine ⟨by rw [h, length_modify], fun id cell hcell => ?_⟩
  rw [h]
  by_cases hid : reply = id
  · subst hid
    exact ⟨_, getElem?_modify_self hcell, ⟨rfl, rfl, rfl, rfl⟩,
      fun hne => absurd mem_cons_self hne, fun _ => hf cell hcell⟩
  · exact ⟨cell, (getElem?_modify_other hid).trans hcell, .refl cell, fun _ => rfl,
      fun hmem => absurd (mem_singleton.mp hmem).symm hid⟩

theorem Released.trans {gone' : List Nat} (h : Released s t gone) (h' : Released t u gone') :
    Released s u (gone ++ gone') := by
  refine ⟨h'.length.trans h.length, fun id cell hcell => ?_⟩
  obtain ⟨cell₁, hcell₁, hsame₁, hkept₁, hgone₁⟩ := h.cells id cell hcell
  obtain ⟨cell₂, hcell₂, hsame₂, hkept₂, hgone₂⟩ := h'.cells id cell₁ hcell₁
  refine ⟨cell₂, hcell₂, hsame₁.trans hsame₂, fun hid => ?_, fun hid => ?_⟩
  · rw [mem_append, not_or] at hid
    rw [hkept₂ hid.2, hkept₁ hid.1]
  · by_cases hlast : id ∈ gone'
    · exact hgone₂ hlast
    · rw [hkept₂ hlast]
      exact hgone₁ ((mem_append.mp hid).resolve_right hlast)

section
variable (s : ShardedKv K V)

theorem released_dropSender (reply : Nat) : Released s (s.dropSender reply) [reply] :=
  released_modify (f := fun state => (ReplySender.drop state).1) rfl
    fun cell _ => drop_senderAlive cell.state

theorem released_dropAll (mailbox : List (Submission K V)) :
    Released s (s.dropAll mailbox) (mailbox.map (·.reply)) := by
  induction mailbox generalizing s with
  | nil => exact released_of_cells rfl
  | cons q mailbox ih => exact (released_dropSender s q.reply).trans (ih _)

theorem released_die (i : Nat) (sh : KvShard K V) : Released s (s.die i sh) sh.replies := by
  have hcurrent : Released s (sh.thread.current.foldl dropSender s) sh.thread.current := by
    cases sh.thread with
    | receiving | stopped => exact released_of_cells rfl
    | replying reply value stop => exact released_dropSender s reply
  have hall := hcurrent.trans (released_dropAll _ sh.mailbox)
  exact ⟨hall.length, hall.cells⟩

theorem dropAll_eq (mailbox : List (Submission K V)) :
    s.dropAll mailbox = { s with cells := (s.dropAll mailbox).cells } := by
  induction mailbox generalizing s with
  | nil => rfl
  | cons q mailbox ih => exact ih (s.dropSender q.reply)

theorem die_eq (i : Nat) (sh : KvShard K V) :
    s.die i sh = { s with
      cells := (s.die i sh).cells
      shards := s.shards.set i { sh with mailbox := [], thread := .stopped } } := by
  unfold die
  rw [dropAll_eq]
  cases sh.thread <;> rfl

end

theorem Released.before (h : Released s t gone) (hcell' : t.cells[id]? = some cell') :
    ∃ cell, s.cells[id]? = some cell ∧ cell.Same cell' ∧
      (id ∉ gone → cell' = cell) ∧ (id ∈ gone → cell'.state.senderAlive = false) := by
  obtain ⟨hid, _⟩ := List.getElem?_eq_some_iff.mp hcell'
  rw [h.length] at hid
  have hcell := getElem?_eq_getElem hid
  obtain ⟨cell₁, hcell₁, hrest⟩ := h.cells id _ hcell
  cases hcell₁.symm.trans hcell'
  exact ⟨_, hcell, hrest⟩

def Asked (s : ShardedKv K V) (id : Nat) (command : KvCommand K V) : Prop :=
  ∃ cell, s.cells[id]? = some cell ∧ cell.request.command = command

structure Wired (s : ShardedKv K V) : Prop where
  holds : ∀ (i : Nat) sh, s.shards[i]? = some sh → ∀ id ∈ sh.replies,
    ∃ cell, s.cells[id]? = some cell ∧ cell.Outstanding i
  once : ∀ sh ∈ s.shards, sh.replies.Nodup
  found : ∀ (id : Nat) cell, s.cells[id]? = some cell → cell.sent = true →
    cell.state.senderAlive = true → ∃ sh, s.shards[cell.shard]? = some sh ∧ id ∈ sh.replies
  queued : ∀ sh ∈ s.shards, ∀ q ∈ sh.mailbox, s.Asked q.reply q.command
  replying : ∀ sh ∈ s.shards, ∀ reply value stop, sh.thread = .replying reply value stop →
    ∃ command, s.Asked reply command ∧ (stop = true ↔ command = .stop)

theorem Asked.released {command : KvCommand K V} (h : s.Asked id command) (hr : Released s t gone) :
    t.Asked id command := by
  obtain ⟨cell, hcell, hcommand⟩ := h
  obtain ⟨cell', hcell', hsame, _⟩ := hr.cells id cell hcell
  exact ⟨cell', hcell', by rw [hsame.request, hcommand]⟩

theorem wired_start {config : ShardedKvConfig} {placement : K → Nat → Nat}
    (h : startWithPlacement config placement = .ok s) : Wired s := by
  obtain ⟨_, _, rfl⟩ := start_cases h
  refine ⟨fun i sh hi id hid => ?_, fun sh hsh => ?_, fun id cell hcell => ?_,
    fun sh hsh q hq => ?_, fun sh hsh reply value stop hthread => ?_⟩
  · rw [eq_of_mem_replicate (mem_of_getElem? hi)] at hid
    cases hid
  · rw [eq_of_mem_replicate hsh]
    exact nodup_nil
  · cases hcell
  · rw [eq_of_mem_replicate hsh] at hq
    cases hq
  · rw [eq_of_mem_replicate hsh] at hthread
    cases hthread

theorem Wired.congr (h : Wired s) (hcells : t.cells = s.cells) (hshards : t.shards = s.shards) :
    Wired t := by
  obtain ⟨holds, once, found, queued, replying⟩ := h
  refine ⟨?_, ?_, ?_, ?_, ?_⟩
  · rwa [hcells, hshards]
  · rwa [hshards]
  · rwa [hcells, hshards]
  · simpa only [Asked, hcells, hshards] using queued
  · simpa only [Asked, hcells, hshards] using replying

theorem Wired.openReply (h : Wired s) (call shard : Nat) (request : KvRequest K V) :
    Wired (s.openReply call shard request) := by
  have hasked : ∀ {id command}, s.Asked id command →
      (s.openReply call shard request).Asked id command := fun ⟨cell, hcell, hcommand⟩ =>
    ⟨cell, getElem?_concat_of hcell, hcommand⟩
  refine ⟨fun i sh hi id hid => ?_, h.once, fun id cell hcell hsent halive => ?_,
    fun sh hsh q hq => hasked (h.queued sh hsh q hq), fun sh hsh reply value stop hthread => ?_⟩
  · obtain ⟨cell, hcell, hout⟩ := h.holds i sh hi id hid
    exact ⟨cell, getElem?_concat_of hcell, hout⟩
  · rcases getElem?_concat hcell with hold | ⟨_, rfl⟩
    · exact h.found id cell hold hsent halive
    · cases hsent
  · obtain ⟨command, hcommand, hstop⟩ := h.replying sh hsh reply value stop hthread
    exact ⟨command, hasked hcommand, hstop⟩

theorem Wired.modifyCell (h : Wired s) {cell : Cell K V} (hcell : s.cells[reply]? = some cell)
    (hnot : cell.sent = true → cell.state ≠ replyChannel)
    (halive : (f cell.state).senderAlive = true → cell.state.senderAlive = true) :
    Wired (s.modifyCell reply fun cell => { cell with state := f cell.state }) := by
  have hasked : ∀ {id command}, s.Asked id command →
      (s.modifyCell reply fun cell => { cell with state := f cell.state }).Asked id command :=
    fun h => exists_modify h fun _ hcommand => hcommand
  refine ⟨fun i sh hi id hid => ?_, h.once, fun id cell' hcell' hsent' halive' => ?_,
    fun sh hsh q hq => hasked (h.queued sh hsh q hq), fun sh hsh r value stop hthread => ?_⟩
  · obtain ⟨c, hc, hout⟩ := h.holds i sh hi id hid
    have hne : reply ≠ id := by
      rintro rfl
      cases hcell.symm.trans hc
      exact hnot hout.sent hout.state
    exact ⟨c, (getElem?_modify_other hne).trans hc, hout⟩
  · rcases getElem?_modify_cases hcell' with ⟨_, hold⟩ | ⟨rfl, c, hold, rfl⟩
    · exact h.found id cell' hold hsent' halive'
    · cases hcell.symm.trans hold
      exact h.found _ cell hcell hsent' (halive halive')
  · obtain ⟨command, hcommand, hstop⟩ := h.replying sh hsh r value stop hthread
    exact ⟨command, hasked hcommand, hstop⟩

theorem push_cases {shard : Nat} {request : KvRequest K V} {sh' : KvShard K V}
    (hsh : s.shards[shard]? = some sh) (h : sh' ∈ (s.push shard request reply).shards) :
    sh' ∈ s.shards ∨ sh' = { sh with mailbox := sh.mailbox ++ [⟨request.command, reply⟩] } := by
  obtain ⟨i, hi⟩ := getElem?_of_mem h
  rcases getElem?_modify_cases hi with ⟨_, hold⟩ | ⟨rfl, x, hold, rfl⟩
  · exact .inl (mem_of_getElem? hold)
  · cases hsh.symm.trans hold
    exact .inr rfl

theorem Wired.push (h : Wired s) {call shard : Nat} {request : KvRequest K V}
    (hcell : s.cells[reply]? = some ⟨call, shard, request, false, replyChannel⟩)
    (hsh : s.shards[shard]? = some sh) : Wired (s.push shard request reply) := by
  have hasked : ∀ {id command}, s.Asked id command → (s.push shard request reply).Asked id command :=
    fun h => exists_modify h fun _ hcommand => hcommand
  have hreplies : ({ sh with mailbox := sh.mailbox ++ [⟨request.command, reply⟩] } :
      KvShard K V).replies = sh.replies ++ [reply] := by
    simp [KvShard.replies]
  have hout : ∀ (i : Nat) sh, s.shards[i]? = some sh → ∀ id ∈ sh.replies,
      ∃ cell, (s.push shard request reply).cells[id]? = some cell ∧ cell.Outstanding i := by
    intro i sh' hi id hid
    obtain ⟨c, hc, hout⟩ := h.holds i sh' hi id hid
    have hne : reply ≠ id := by
      rintro rfl
      cases hcell.symm.trans hc
      cases hout.sent
    exact ⟨c, (getElem?_modify_other hne).trans hc, hout⟩
  have hnew := getElem?_modify_self (f := fun cell => { cell with sent := true }) hcell
  have hsh' := getElem?_modify_self
    (f := fun sh => { sh with mailbox := sh.mailbox ++ [⟨request.command, reply⟩] }) hsh
  refine ⟨fun i sh' hi id hid => ?_, fun sh' hmem => ?_, fun id cell hc hsent halive => ?_,
    fun sh' hmem q hq => ?_, fun sh' hmem r value stop hthread => ?_⟩
  · rcases getElem?_modify_cases hi with ⟨_, hold⟩ | ⟨rfl, x, hold, rfl⟩
    · exact hout i sh' hold id hid
    · cases hsh.symm.trans hold
      rw [hreplies] at hid
      rcases mem_append.mp hid with hin | hlast
      · exact hout _ sh hsh id hin
      · rw [mem_singleton.mp hlast]
        exact ⟨_, hnew, rfl, rfl, rfl⟩
  · rcases push_cases hsh hmem with hold | rfl
    · exact h.once sh' hold
    · rw [hreplies]
      refine (h.once sh (mem_of_getElem? hsh)).append (nodup_singleton _) ?_
      intro id hid hlast
      obtain ⟨c, hc, hout⟩ := h.holds shard sh hsh id hid
      rw [mem_singleton.mp hlast] at hc
      cases hcell.symm.trans hc
      cases hout.sent
  · rcases getElem?_modify_cases hc with ⟨_, hold⟩ | ⟨rfl, x, hold, rfl⟩
    · obtain ⟨sh₀, hsh₀, hin⟩ := h.found id cell hold hsent halive
      by_cases hshard : shard = cell.shard
      · subst hshard
        cases hsh.symm.trans hsh₀
        refine ⟨_, hsh', ?_⟩
        rw [hreplies]
        exact mem_append_left _ hin
      · exact ⟨sh₀, (getElem?_modify_other hshard).trans hsh₀, hin⟩
    · cases hcell.symm.trans hold
      refine ⟨_, hsh', ?_⟩
      rw [hreplies]
      exact mem_append_right _ mem_cons_self
  · rcases push_cases hsh hmem with hold | rfl
    · exact hasked (h.queued sh' hold q hq)
    · rcases mem_append.mp hq with hin | hlast
      · exact hasked (h.queued sh (mem_of_getElem? hsh) q hin)
      · rw [mem_singleton.mp hlast]
        exact ⟨_, hnew, rfl⟩
  · have hold : ∃ sh₀ ∈ s.shards, sh₀.thread = .replying r value stop := by
      rcases push_cases hsh hmem with hold | rfl
      · exact ⟨sh', hold, hthread⟩
      · exact ⟨sh, mem_of_getElem? hsh, hthread⟩
    obtain ⟨sh₀, hsh₀, hthread₀⟩ := hold
    obtain ⟨command, hcommand, hstop⟩ := h.replying sh₀ hsh₀ r value stop hthread₀
    exact ⟨command, hasked hcommand, hstop⟩

/-- A shard goes on to its next command: the senders of some commands are gone, the others
are still with the shard. -/
theorem Wired.release (h : Wired s) {sh' : KvShard K V} (hsh : s.shards[i]? = some sh)
    (hshards : t.shards = s.shards.set i sh') (hreleased : Released s t gone)
    (hreplies : sh.replies = gone ++ sh'.replies) (hmailbox : sh'.mailbox ⊆ sh.mailbox)
    (hthread : ∀ reply value stop, sh'.thread = .replying reply value stop →
      ∃ command, s.Asked reply command ∧ (stop = true ↔ command = .stop)) : Wired t := by
  have hnodup := h.once sh (mem_of_getElem? hsh)
  rw [hreplies] at hnodup
  have hapart := (nodup_append'.mp hnodup).2.2
  have hkept : ∀ (j : Nat) sh₀, t.shards[j]? = some sh₀ → ∀ id ∈ sh₀.replies, id ∉ gone ∧
      ∃ cell, s.cells[id]? = some cell ∧ cell.Outstanding j := by
    intro j sh₀ hj id hid
    rw [hshards] at hj
    rcases getElem?_set_cases hj with ⟨hne, hold⟩ | ⟨rfl, rfl⟩
    · obtain ⟨cell, hcell, hout⟩ := h.holds j sh₀ hold id hid
      refine ⟨fun hgone => ?_, cell, hcell, hout⟩
      obtain ⟨cell', hcell', hout'⟩ := h.holds i sh hsh id (hreplies ▸ mem_append_left _ hgone)
      cases hcell.symm.trans hcell'
      exact hne (hout'.shard.symm.trans hout.shard)
    · obtain ⟨cell, hcell, hout⟩ := h.holds i sh hsh id (hreplies ▸ mem_append_right _ hid)
      exact ⟨fun hgone => hapart hgone hid, cell, hcell, hout⟩
  have hcases : ∀ sh₀ ∈ t.shards, sh₀ ∈ s.shards ∨ sh₀ = sh' := by
    intro sh₀ hmem
    rw [hshards] at hmem
    exact mem_or_eq_of_mem_set hmem
  refine ⟨fun j sh₀ hj id hid => ?_, fun sh₀ hmem => ?_, fun id cell hcell hsent halive => ?_,
    fun sh₀ hmem q hq => ?_, fun sh₀ hmem r value stop hreplying => ?_⟩
  · obtain ⟨hnot, cell, hcell, hout⟩ := hkept j sh₀ hj id hid
    obtain ⟨cell', hcell', _, hsame, _⟩ := hreleased.cells id cell hcell
    rw [hsame hnot] at hcell'
    exact ⟨cell, hcell', hout⟩
  · rcases hcases sh₀ hmem with hold | rfl
    · exact h.once sh₀ hold
    · exact (nodup_append'.mp hnodup).2.1
  · obtain ⟨cell₀, hcell₀, hsame, hsame', hgone⟩ := hreleased.before hcell
    have hnot : id ∉ gone := fun hin => by
      rw [hgone hin] at halive
      cases halive
    rw [hsame' hnot] at hsent halive ⊢
    obtain ⟨sh₀, hsh₀, hin⟩ := h.found id cell₀ hcell₀ hsent halive
    by_cases hshard : i = cell₀.shard
    · subst hshard
      cases hsh.symm.trans hsh₀
      refine ⟨sh', ?_, (mem_append.mp (hreplies ▸ hin)).resolve_left hnot⟩
      rw [hshards]
      exact List.getElem?_set_self (List.getElem?_eq_some_iff.mp hsh).1
    · refine ⟨sh₀, ?_, hin⟩
      rw [hshards]
      exact (getElem?_set_ne hshard).trans hsh₀
  · rcases hcases sh₀ hmem with hold | rfl
    · exact (h.queued sh₀ hold q hq).released hreleased
    · exact (h.queued sh (mem_of_getElem? hsh) q (hmailbox hq)).released hreleased
  · obtain ⟨command, hcommand, hstop⟩ : ∃ command, s.Asked r command ∧
        (stop = true ↔ command = .stop) := by
      rcases hcases sh₀ hmem with hold | rfl
      · exact h.replying sh₀ hold r value stop hreplying
      · exact hthread r value stop hreplying
    exact ⟨command, hcommand.released hreleased, hstop⟩

theorem sendReply_spec (h : s.sendReply i = some t) :
    ∃ sh reply value stop, s.shards[i]? = some sh ∧ sh.thread = .replying reply value stop ∧
      t = { (s.modifyCell reply fun cell =>
          { cell with state := (ReplySender.send cell.state value).1 }).dropAll
            (if stop then sh.mailbox else []) with
        shards := s.shards.set i (sh.answered stop) } := by
  obtain ⟨sh, hsh, h⟩ := Option.bind_eq_some_iff.mp h
  cases hthread : sh.thread with
  | receiving | stopped =>
    rw [hthread] at h
    cases h
  | replying reply value stop =>
    rw [hthread] at h
    cases stop with
    | true | false =>
      cases h
      exact ⟨sh, reply, value, _, hsh, hthread, rfl⟩

theorem send_senderAlive {T W : Type} (state : ReplyState T W) (value : T) :
    (ReplySender.send state value).1.senderAlive = false := by
  cases hvalue : state.value <;> simp [ReplySender.send, hvalue, drop_senderAlive]

theorem released_reply (s : ShardedKv K V) (reply : Nat) (value : KvValue K V)
    (mailbox : List (Submission K V)) : Released s ((s.modifyCell reply fun cell =>
      { cell with state := (ReplySender.send cell.state value).1 }).dropAll mailbox)
      (reply :: mailbox.map (·.reply)) := by
  have hanswer : Released s (s.modifyCell reply fun cell =>
      { cell with state := (ReplySender.send cell.state value).1 }) [reply] :=
    released_modify (f := fun state => (ReplySender.send state value).1) rfl
      fun cell _ => send_senderAlive cell.state value
  exact hanswer.trans (released_dropAll _ mailbox)

theorem replies_answered {value : KvValue K V} {stop : Bool}
    (hthread : sh.thread = .replying reply value stop) :
    sh.replies = (reply :: (if stop then sh.mailbox else []).map (·.reply)) ++
      (sh.answered stop).replies := by
  cases stop <;> simp [KvShard.replies, KvShard.answered, hthread, ShardThread.current]

theorem Wired.sendReply (h : Wired s) (hst : s.sendReply i = some t) : Wired t := by
  obtain ⟨sh, reply, value, stop, hsh, hthread, rfl⟩ := sendReply_spec hst
  have hreleased := released_reply s reply value (if stop then sh.mailbox else [])
  refine h.release hsh rfl ⟨hreleased.length, hreleased.cells⟩ (replies_answered hthread) ?_ ?_
  · cases stop with
    | true => exact nil_subset _
    | false => exact Subset.refl _
  · intro reply' value' stop' hthread'
    cases stop <;> cases hthread'

theorem Wired.die (h : Wired s) (hsh : s.shards[i]? = some sh) : Wired (s.die i sh) := by
  refine h.release hsh rfl (released_die s i sh) ?_ (nil_subset _) ?_
  · simp [KvShard.replies, ShardThread.current]
  · intro reply value stop hthread
    cases hthread

variable [LinearOrder K] [DecidableEq V]

theorem Wired.recv (h : Wired s) (hst : s.recv i = some t) : Wired t := by
  obtain ⟨sh, q, mailbox, hsh, hthread, hmailbox, rfl⟩ := recv_cases hst
  refine h.release hsh rfl (released_of_cells rfl) ?_ ?_ ?_
  · simp [KvShard.replies, ShardThread.current, hthread, hmailbox]
  · rw [hmailbox]
    exact subset_cons_self _ _
  · intro reply value stop hreplying
    cases hreplying
    have hq : q ∈ sh.mailbox := by
      rw [hmailbox]
      exact mem_cons_self
    exact ⟨q.command, h.queued sh (mem_of_getElem? hsh) q hq, decide_eq_true_iff⟩

end ShardedKv
end Sitas.Kv
