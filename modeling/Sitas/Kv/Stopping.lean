import Sitas.Kv.Draining

namespace Sitas.Kv
open Sitas.Lib Sitas.Runtime List

variable {K V : Type}

structure KvShard.Unsignalled (sh : KvShard K V) : Prop where
  queued : ∀ q ∈ sh.mailbox, q.command ≠ .stop
  thread : ∀ reply value, sh.thread ≠ .replying reply value true

/-- Nothing comes after a stop command. -/
structure KvShard.Orderly (sh : KvShard K V) : Prop where
  last : ∀ q ∈ sh.mailbox.dropLast, q.command ≠ .stop
  stopping : ∀ reply value, sh.thread = .replying reply value true → sh.mailbox = []
  stopped : sh.thread = .stopped → sh.mailbox = []

section Shards
variable {sh : KvShard K V}

theorem orderly_dead (service : KvService K V) : (⟨[], service, .stopped⟩ : KvShard K V).Orderly :=
  ⟨fun _ hq => absurd hq not_mem_nil, fun _ _ _ => rfl, fun _ => rfl⟩

theorem unsignalled_dead (service : KvService K V) :
    (⟨[], service, .stopped⟩ : KvShard K V).Unsignalled := by
  refine ⟨fun _ hq => absurd hq not_mem_nil, fun reply value hthread => ?_⟩
  cases hthread

theorem KvShard.Orderly.answered (h : sh.Orderly) (stop : Bool) : (sh.answered stop).Orderly := by
  cases stop with
  | true => exact orderly_dead sh.service
  | false =>
    refine ⟨h.last, fun reply value hthread => ?_, fun hthread => ?_⟩
    · cases hthread
    · cases hthread

theorem KvShard.Unsignalled.answered (h : sh.Unsignalled) (stop : Bool) :
    (sh.answered stop).Unsignalled := by
  cases stop with
  | true => exact unsignalled_dead sh.service
  | false =>
    refine ⟨h.queued, fun reply value hthread => ?_⟩
    cases hthread

theorem KvShard.Unsignalled.push (h : sh.Unsignalled) {q : Submission K V} (hq : q.command ≠ .stop) :
    ({ sh with mailbox := sh.mailbox ++ [q] } : KvShard K V).Unsignalled := by
  refine ⟨fun q' hq' => ?_, h.thread⟩
  rcases mem_append.mp hq' with hold | hlast
  · exact h.queued q' hold
  · rw [mem_singleton.mp hlast]
    exact hq

theorem KvShard.Unsignalled.orderly_push (h : sh.Unsignalled) (hrun : sh.thread ≠ .stopped)
    (q : Submission K V) : ({ sh with mailbox := sh.mailbox ++ [q] } : KvShard K V).Orderly := by
  refine ⟨fun q' hq' => h.queued q' ?_, fun reply value hthread => absurd hthread (h.thread _ _),
    fun hthread => absurd hthread hrun⟩
  simpa using hq'

variable [DecidableEq K] [DecidableEq V] {q : Submission K V} {mailbox : List (Submission K V)}

theorem KvShard.Orderly.recv (h : sh.Orderly) (hmailbox : sh.mailbox = q :: mailbox)
    (service : KvService K V) (value : KvValue K V) :
    (⟨mailbox, service, .replying q.reply value (q.command = .stop)⟩ : KvShard K V).Orderly := by
  have hlast := h.last
  rw [hmailbox] at hlast
  refine ⟨fun q' hq' => hlast q' ?_, fun reply value' hthread => ?_, fun hthread => ?_⟩
  · cases mailbox with
    | nil => cases hq'
    | cons q₁ mailbox => exact mem_cons_of_mem _ hq'
  · injection hthread with _ _ hstop
    cases mailbox with
    | nil => rfl
    | cons q₁ mailbox => exact absurd (of_decide_eq_true hstop) (hlast q mem_cons_self)
  · cases hthread

theorem KvShard.Unsignalled.recv (h : sh.Unsignalled) (hmailbox : sh.mailbox = q :: mailbox)
    (service : KvService K V) (value : KvValue K V) :
    (⟨mailbox, service, .replying q.reply value (q.command = .stop)⟩ : KvShard K V).Unsignalled := by
  have hqueued := h.queued
  rw [hmailbox] at hqueued
  refine ⟨fun q' hq' => hqueued q' (mem_cons_of_mem _ hq'), fun reply value' hthread => ?_⟩
  injection hthread with _ _ hstop
  exact hqueued q mem_cons_self (of_decide_eq_true hstop)

end Shards

namespace KvLifecycle
variable {s t : KvLifecycle K V}

structure Reached (s : KvLifecycle K V) (i : Nat) : Prop where
  stopped : ∀ (k : Nat) sh, k < i → s.kv.shards[k]? = some sh → sh.thread = .stopped
  signalled : s.signalled.map (·.1) = List.range i
  joins : s.joins = List.range s.kv.shardCount
  joined : s.joined = []

/-- Every shard has been told to stop and has ended, and its thread is joined except for
some. -/
structure Ended (s : KvLifecycle K V) (threads : List Nat) : Prop where
  stopped : ∀ sh ∈ s.kv.shards, sh.thread = .stopped
  signalled : s.signalled.map (·.1) = List.range s.kv.shardCount
  joined : s.joined ++ threads = List.range s.kv.shardCount
  joins : s.joins = []

def UnsignalledFrom (s : KvLifecycle K V) (i : Nat) : Prop :=
  ∀ (k : Nat) sh, i ≤ k → s.kv.shards[k]? = some sh → sh.Unsignalled

/-- The stop command of a shard is on its way, or the shard has ended. -/
def StopSent (s : KvLifecycle K V) (i reply : Nat) : Prop :=
  ∃ cell, s.kv.cells[reply]? = some cell ∧ cell.request = .stop i ∧ cell.shard = i ∧
    cell.sent = true ∧ (cell.state = replyChannel ∨
      ∃ sh, s.kv.shards[i]? = some sh ∧ sh.thread = .stopped)

def Advance (s : KvLifecycle K V) : ShutdownPhase → Prop
  | .idle => s.Ended []
  | .stopping i _ => i ≤ s.kv.shardCount ∧ s.Reached i ∧ s.UnsignalledFrom i
  | .sending i reply _ => i < s.kv.shardCount ∧ s.Reached i ∧ s.UnsignalledFrom i ∧
    ∃ call, s.kv.cells[reply]? = some ⟨call, i, .stop i, false, replyChannel⟩
  | .awaiting i reply _ => i < s.kv.shardCount ∧ s.Reached i ∧ s.UnsignalledFrom (i + 1) ∧
    s.StopSent i reply
  | .joining threads _ _ => s.Ended threads

/-- The shards and the reply channels of stop commands after a step of the clients or of a
shard. -/
structure Proceeds (s t : KvLifecycle K V) : Prop where
  length : t.kv.shards.length = s.kv.shards.length
  stopped : ∀ (k : Nat) sh sh', s.kv.shards[k]? = some sh → t.kv.shards[k]? = some sh' →
    sh.thread = .stopped → sh'.thread = .stopped
  unsignalled : ∀ (k : Nat) sh sh', s.kv.shards[k]? = some sh → t.kv.shards[k]? = some sh' →
    sh.Unsignalled → sh'.Unsignalled
  cells : ∀ (reply : Nat) cell i, s.kv.cells[reply]? = some cell → cell.request = .stop i →
    ∃ cell', t.kv.cells[reply]? = some cell' ∧ cell.Same cell' ∧ (cell' = cell ∨
      (cell.sent = true ∧ ∃ sh, t.kv.shards[cell.shard]? = some sh ∧ sh.thread = .stopped))
  signalled : t.signalled = s.signalled
  joins : t.joins = s.joins
  joined : t.joined = s.joined

theorem proceeds_of_shards (hshards : t.kv.shards = s.kv.shards)
    (hcells : ∀ (reply : Nat) cell i, s.kv.cells[reply]? = some cell → cell.request = .stop i →
      t.kv.cells[reply]? = some cell)
    (hsignalled : t.signalled = s.signalled) (hjoins : t.joins = s.joins)
    (hjoined : t.joined = s.joined) : Proceeds s t := by
  refine ⟨by rw [hshards], fun k sh sh' hsh hsh' hstopped => ?_, fun k sh sh' hsh hsh' hun => ?_,
    fun reply cell i hcell hrequest =>
      ⟨cell, hcells reply cell i hcell hrequest, .refl cell, .inl rfl⟩,
    hsignalled, hjoins, hjoined⟩
  · rw [hshards] at hsh'
    cases hsh.symm.trans hsh'
    exact hstopped
  · rw [hshards] at hsh'
    cases hsh.symm.trans hsh'
    exact hun

theorem Proceeds.before (h : Proceeds s t) {k : Nat} {sh' : KvShard K V}
    (hsh' : t.kv.shards[k]? = some sh') : ∃ sh, s.kv.shards[k]? = some sh := by
  obtain ⟨hk, _⟩ := List.getElem?_eq_some_iff.mp hsh'
  rw [h.length] at hk
  exact ⟨_, getElem?_eq_getElem hk⟩

theorem Proceeds.after (h : Proceeds s t) {k : Nat} {sh : KvShard K V}
    (hsh : s.kv.shards[k]? = some sh) : ∃ sh', t.kv.shards[k]? = some sh' := by
  obtain ⟨hk, _⟩ := List.getElem?_eq_some_iff.mp hsh
  rw [← h.length] at hk
  exact ⟨_, getElem?_eq_getElem hk⟩

theorem Reached.proceeds {i : Nat} (h : s.Reached i) (hp : Proceeds s t) : t.Reached i := by
  refine ⟨fun k sh' hk hsh' => ?_, by rw [hp.signalled]; exact h.signalled, ?_,
    by rw [hp.joined]; exact h.joined⟩
  · obtain ⟨sh, hsh⟩ := hp.before hsh'
    exact hp.stopped k sh sh' hsh hsh' (h.stopped k sh hk hsh)
  · rw [hp.joins, h.joins, ShardedKv.shardCount, ShardedKv.shardCount, hp.length]

theorem Ended.proceeds {threads : List Nat} (h : s.Ended threads) (hp : Proceeds s t) :
    t.Ended threads := by
  have hcount : t.kv.shardCount = s.kv.shardCount := hp.length
  refine ⟨fun sh' hmem => ?_, ?_, ?_, by rw [hp.joins]; exact h.joins⟩
  · obtain ⟨k, hsh'⟩ := getElem?_of_mem hmem
    obtain ⟨sh, hsh⟩ := hp.before hsh'
    exact hp.stopped k sh sh' hsh hsh' (h.stopped sh (mem_of_getElem? hsh))
  · rw [hp.signalled, hcount]
    exact h.signalled
  · rw [hp.joined, hcount]
    exact h.joined

theorem UnsignalledFrom.proceeds {i : Nat} (h : s.UnsignalledFrom i) (hp : Proceeds s t) :
    t.UnsignalledFrom i := by
  intro k sh' hk hsh'
  obtain ⟨sh, hsh⟩ := hp.before hsh'
  exact hp.unsignalled k sh sh' hsh hsh' (h k sh hk hsh)

theorem StopSent.proceeds {i reply : Nat} (h : s.StopSent i reply) (hp : Proceeds s t) :
    t.StopSent i reply := by
  obtain ⟨cell, hcell, hrequest, rfl, hsent, hstate⟩ := h
  obtain ⟨cell', hcell', hsame, hnext⟩ := hp.cells reply cell _ hcell hrequest
  refine ⟨cell', hcell', hsame.request.trans hrequest, hsame.shard, hsame.sent.trans hsent, ?_⟩
  rcases hnext with rfl | ⟨_, hended⟩
  · refine hstate.imp_right ?_
    rintro ⟨sh, hsh, hthread⟩
    obtain ⟨sh', hsh'⟩ := hp.after hsh
    exact ⟨sh', hsh', hp.stopped _ sh sh' hsh hsh' hthread⟩
  · exact .inr hended

theorem Advance.proceeds {phase : ShutdownPhase} (h : s.Advance phase) (hp : Proceeds s t) :
    t.Advance phase := by
  have hcount : t.kv.shardCount = s.kv.shardCount := hp.length
  cases phase with
  | idle | joining => exact Ended.proceeds h hp
  | stopping i result =>
    obtain ⟨hle, hreached, hrest⟩ := h
    exact ⟨hcount ▸ hle, hreached.proceeds hp, hrest.proceeds hp⟩
  | sending i reply result =>
    obtain ⟨hlt, hreached, hrest, call, hcell⟩ := h
    obtain ⟨cell', hcell', _, hnext⟩ := hp.cells reply _ i hcell rfl
    refine ⟨hcount ▸ hlt, hreached.proceeds hp, hrest.proceeds hp, call, ?_⟩
    rcases hnext with rfl | ⟨hsent, _⟩
    · exact hcell'
    · cases hsent
  | awaiting i reply result =>
    obtain ⟨hlt, hreached, hrest, hsent⟩ := h
    exact ⟨hcount ▸ hlt, hreached.proceeds hp, hrest.proceeds hp, hsent.proceeds hp⟩

/-- A shard that has not ended takes a step, which may use up some of its commands. -/
structure ShardStep (s t : KvLifecycle K V) (j : Nat) (sh sh' : KvShard K V) (gone : List Nat) :
    Prop where
  before : s.kv.shards[j]? = some sh
  runs : sh.thread ≠ .stopped
  after : t.kv.shards = s.kv.shards.set j sh'
  released : ShardedKv.Released s.kv t.kv gone
  accepted : gone ⊆ sh.replies
  unsignalled : sh.Unsignalled → sh'.Unsignalled
  orderly : sh.Orderly → sh'.Orderly
  /-- The reply to a stop command is the last act of the shard. -/
  ends : ∀ reply ∈ gone, s.kv.Asked reply .stop → sh'.thread = .stopped
  same : t.signalled = s.signalled ∧ t.joins = s.joins ∧ t.joined = s.joined

section ShardSteps
variable {j : Nat} {sh sh' : KvShard K V} {gone : List Nat}

section
variable (h : ShardStep s t j sh sh' gone)
include h

theorem ShardStep.length : t.kv.shards.length = s.kv.shards.length := by
  rw [h.after, length_set]

theorem ShardStep.orderly_all (horderly : ∀ sh ∈ s.kv.shards, sh.Orderly) :
    ∀ sh ∈ t.kv.shards, sh.Orderly := by
  intro sh₀ hmem
  rw [h.after] at hmem
  rcases mem_or_eq_of_mem_set hmem with hold | rfl
  · exact horderly sh₀ hold
  · exact h.orderly (horderly sh (mem_of_getElem? h.before))

theorem ShardStep.proceeds (hw : s.kv.Wired) : Proceeds s t := by
  have hcases : ∀ (k : Nat) sh₀ sh₁, s.kv.shards[k]? = some sh₀ → t.kv.shards[k]? = some sh₁ →
      sh₁ = sh₀ ∨ (sh₀ = sh ∧ sh₁ = sh') := by
    intro k sh₀ sh₁ hsh₀ hsh₁
    rw [h.after] at hsh₁
    rcases getElem?_set_cases hsh₁ with ⟨_, hold⟩ | ⟨rfl, rfl⟩
    · exact .inl (Option.some.inj (hold.symm.trans hsh₀))
    · exact .inr ⟨Option.some.inj (hsh₀.symm.trans h.before), rfl⟩
  refine ⟨h.length, fun k sh₀ sh₁ hsh₀ hsh₁ hstopped => ?_,
    fun k sh₀ sh₁ hsh₀ hsh₁ hunsignalled => ?_, fun reply cell i hcell hrequest => ?_,
    h.same.1, h.same.2.1, h.same.2.2⟩
  · rcases hcases k sh₀ sh₁ hsh₀ hsh₁ with rfl | ⟨rfl, rfl⟩
    · exact hstopped
    · exact absurd hstopped h.runs
  · rcases hcases k sh₀ sh₁ hsh₀ hsh₁ with rfl | ⟨rfl, rfl⟩
    · exact hunsignalled
    · exact h.unsignalled hunsignalled
  · obtain ⟨cell', hcell', hsame, hkept, _⟩ := h.released.cells reply cell hcell
    refine ⟨cell', hcell', hsame, ?_⟩
    by_cases hgone : reply ∈ gone
    · obtain ⟨c, hc, hout⟩ := hw.holds j sh h.before reply (h.accepted hgone)
      cases hcell.symm.trans hc
      refine .inr ⟨hout.sent, sh', ?_, h.ends reply hgone ⟨cell, hcell, by rw [hrequest]; rfl⟩⟩
      rw [hout.shard, h.after]
      exact List.getElem?_set_self (List.getElem?_eq_some_iff.mp h.before).1
    · exact .inl (hkept hgone)

theorem ShardStep.tagged : ShardedKv.Tagged s.kv t.kv := by
  intro reply cell hcell
  obtain ⟨cell', hcell', hsame, _⟩ := h.released.cells reply cell hcell
  exact ⟨cell', hcell', hsame.call, hsame.request⟩

end

/-- The replies that calls wait for are still to come, if those of the commands that are used
up have come. -/
theorem ShardStep.tracks (h : ShardStep s t j sh sh' gone) (hw : s.kv.Wired)
    (hpanicked : t.panicked = [] → s.panicked = [])
    (hopen : t.panicked = [] → ∀ reply ∈ gone, ∀ cell', t.kv.cells[reply]? = some cell' →
      cell'.state.Open) (id : Nat) : Tracks s t id := by
  intro reply cell hcell _ _
  obtain ⟨cell', hcell', hsame, hkept, _⟩ := h.released.cells reply cell hcell
  refine ⟨cell', hcell', hsame, fun hhope hcalm => ?_, fun hunsent => hkept fun hgone => ?_⟩
  · by_cases hgone : reply ∈ gone
    · exact hopen hcalm reply hgone cell' hcell'
    · rw [hkept hgone]
      exact hhope (hpanicked hcalm)
  · obtain ⟨c, hc, hout⟩ := hw.holds j sh h.before reply (h.accepted hgone)
    cases hcell.symm.trans hc
    cases hout.sent.symm.trans hunsent

end ShardSteps

variable [LinearOrder K] [DecidableEq V]

structure Draining (s : KvLifecycle K V) : Prop where
  capacity : 0 < s.kv.capacity
  wired : s.kv.Wired
  outputs : s.kv.Outputs s.produced
  orderly : ∀ sh ∈ s.kv.shards, sh.Orderly
  calls : ∀ (id : Nat) call, s.kv.calls[id]? = some call → s.Carried id call
  running : s.kv.stopped = false → s.shutdown = .idle ∧ s.Reached 0 ∧ s.UnsignalledFrom 0
  advance : s.kv.stopped = true → s.Advance s.shutdown

theorem Draining.phases (h : Draining s) (hp : Proceeds s t) (hstopped : t.kv.stopped = s.kv.stopped)
    (hshutdown : t.shutdown = s.shutdown) :
    (t.kv.stopped = false → t.shutdown = .idle ∧ t.Reached 0 ∧ t.UnsignalledFrom 0) ∧
      (t.kv.stopped = true → t.Advance t.shutdown) := by
  rw [hstopped, hshutdown]
  refine ⟨fun hrun => ?_, fun hstop => (h.advance hstop).proceeds hp⟩
  obtain ⟨hidle, hreached, hrest⟩ := h.running hrun
  exact ⟨hidle, hreached.proceeds hp, hrest.proceeds hp⟩

theorem draining_start {config : ShardedKvConfig} {placement : K → Nat → Nat} {kv : ShardedKv K V}
    (h : ShardedKv.startWithPlacement config placement = .ok kv) : Draining (new kv) := by
  have hwired := ShardedKv.wired_start h
  have houtputs := ShardedKv.outputs_start h
  obtain ⟨_, hcapacity, rfl⟩ := ShardedKv.start_cases h
  refine ⟨hcapacity, hwired, houtputs, fun sh hsh => ?_, fun id call hcall => ?_, fun _ => ?_,
    fun hstopped => ?_⟩
  · rw [eq_of_mem_replicate hsh]
    refine ⟨fun _ hq => absurd hq not_mem_nil, fun _ _ _ => rfl, fun _ => rfl⟩
  · cases hcall
  · refine ⟨rfl, ⟨fun k _ hk => absurd hk (Nat.not_lt_zero k), rfl, rfl, rfl⟩, fun k sh _ hsh => ?_⟩
    rw [eq_of_mem_replicate (mem_of_getElem? hsh)]
    refine ⟨fun _ hq => absurd hq not_mem_nil, fun reply value hthread => ?_⟩
    cases hthread
  · cases hstopped

end KvLifecycle
end Sitas.Kv
