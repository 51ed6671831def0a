import Sitas.Kv.Filing

namespace Sitas.Kv
open Sitas.Lib Sitas.Runtime List Phase

section Phases
variable {K V : Type} [LinearOrder K]

def Phase.pending : Phase K V → List (KvRequest K V × Nat)
  | .submitting _ replies | .sending _ _ _ _ replies => replies
  | .waiting pending _ => pending
  | .returned _ => []

def Phase.unsent : Phase K V → List (KvRequest K V)
  | .submitting todo _ => todo
  | .sending _ request _ todo _ => request :: todo
  | .waiting _ _ | .returned _ => []

structure Receipt (K V : Type) where
  request : KvRequest K V
  reply : Nat
  value : KvValue K V

def absorbAll (total : KvResult K V) : List (Receipt K V) → Option (KvResult K V)
  | [] => some total
  | r :: rs => (total.absorb r.request r.value).bind fun total => absorbAll total rs

omit [LinearOrder K] in
theorem absorbAll_concat (total : KvResult K V) (rs : List (Receipt K V)) (r : Receipt K V) :
    absorbAll total (rs ++ [r]) =
      (absorbAll total rs).bind fun total => total.absorb r.request r.value := by
  induction rs generalizing total with
  | nil => simp [absorbAll]
  | cons r' rs ih => simp only [cons_append, absorbAll, Option.bind_assoc, ih]

/-- What a phase says of the values received so far. -/
def Phase.Accounts (op : Op K V) (receipts : List (Receipt K V)) : Phase K V → Prop
  | .submitting _ _ | .sending _ _ _ _ _ => receipts = []
  | .waiting _ total => absorbAll op.start receipts = some total
  | .returned (.ok result) => ∃ total, absorbAll op.start receipts = some total ∧
      op.finish total = result
  | .returned (.error _) => False

/-- A call goes through its requests in their order. -/
structure Call.Gathers (call : Call K V) (requests : List (KvRequest K V))
    (P : Receipt K V → Prop) (receipts : List (Receipt K V)) : Prop where
  parts : requests = receipts.map (·.request) ++ call.phase.pending.map (·.1) ++ call.phase.unsent
  ascending : (receipts.map (·.reply) ++ call.phase.pending.map (·.2)).Pairwise (· < ·)
  accounts : call.phase.Accounts call.op receipts
  each : ∀ r ∈ receipts, P r

theorem Call.pending_ascending {call : Call K V} {ok : List (KvRequest K V) → Prop}
    {P : Receipt K V → Prop} (h : (∃ e, call.phase = .returned (.error e)) ∨
      ∃ requests receipts, ok requests ∧ call.Gathers requests P receipts) :
    (call.phase.pending.map (·.2)).Pairwise (· < ·) := by
  obtain ⟨e, he⟩ | ⟨requests, receipts, _, hgathers⟩ := h
  · rw [he]
    exact .nil
  · exact (pairwise_append.mp hgathers.ascending).2.1

end Phases

namespace ShardedKv
variable {K V : Type} [LinearOrder K] {s t : ShardedKv K V} {id : Nat} {call : Call K V}

theorem ClientStep.calls (h : ClientStep s id call t) :
    ∃ phase, t.calls = s.calls.modify id fun call => { call with phase } := by
  cases h with
  | submitted | unroutable | opened | refused | sent | finished | failed | received =>
    exact ⟨_, rfl⟩

theorem ClientStep.not_returned (h : ClientStep s id call t)
    (result : Except ShardError (KvResult K V)) : call.phase ≠ .returned result := by
  intro hreturned
  cases h with
  | submitted hphase | unroutable hphase | opened hphase | refused hphase | sent hphase
  | finished hphase | failed hphase | received hphase => cases hphase.symm.trans hreturned

theorem ClientStep.gathers (h : ClientStep s id call t) {call' : Call K V}
    (hcall : s.calls[id]? = some call) (hcall' : t.calls[id]? = some call')
    {asks : Op K V → Except ShardError (List (KvRequest K V))} {P Q : Receipt K V → Prop}
    (hgathers : (∃ e, call.phase = .returned (.error e)) ∨
      ∃ requests receipts, asks call.op = .ok requests ∧ call.Gathers requests P receipts)
    (hkept : ∀ r, P r → Q r)
    (hsending : ∀ shard request reply todo replies,
      call.phase = .sending shard request reply todo replies → ∀ p ∈ replies, p.2 < reply)
    (hreceived : ∀ request reply pending total cell value,
      call.phase = .waiting ((request, reply) :: pending) total → s.cells[reply]? = some cell →
      cell.state.value = some value → Q ⟨request, reply, value⟩) :
    (∃ e, call'.phase = .returned (.error e)) ∨
      ∃ requests receipts, asks call'.op = .ok requests ∧ call'.Gathers requests Q receipts := by
  obtain ⟨e, he⟩ | ⟨requests, receipts, hrequests, hparts, hascending, haccounts, hold⟩ := hgathers
  · exact absurd he (h.not_returned _)
  have heach : ∀ r ∈ receipts, Q r := fun r hr => hkept r (hold r hr)
  cases h with
  | submitted hphase =>
    cases modify_eq hcall hcall'
    simp only [hphase, pending, unsent, Accounts] at hparts hascending haccounts
    refine .inr ⟨requests, receipts, hrequests, hparts, hascending, ?_, heach⟩
    rw [haccounts]
    rfl
  | unroutable hphase _ | refused hphase _ _ | failed hphase _ _ =>
    cases modify_eq hcall hcall'
    exact .inl ⟨_, rfl⟩
  | opened hphase _ =>
    cases modify_eq hcall hcall'
    simp only [hphase, pending, unsent, Accounts] at hparts hascending haccounts
    exact .inr ⟨requests, receipts, hrequests, hparts, hascending, haccounts, heach⟩
  | sent hphase _ _ =>
    have hlast := hsending _ _ _ _ _ hphase
    cases modify_eq hcall hcall'
    simp only [hphase, pending, unsent, Accounts] at hparts hascending haccounts
    subst haccounts
    refine .inr ⟨requests, [], hrequests, ?_, ?_, rfl, heach⟩
    · simpa [pending, unsent] using hparts
    · simp only [pending, map_nil, nil_append, map_append,
        pairwise_append] at hascending ⊢
      refine ⟨hascending, pairwise_singleton _ _, fun a ha b hb => ?_⟩
      obtain ⟨p, hp, rfl⟩ := mem_map.mp ha
      simp only [map_cons, map_nil, mem_singleton] at hb
      rw [hb]
      exact hlast p hp
  | finished hphase =>
    cases modify_eq hcall hcall'
    simp only [hphase, pending, unsent, Accounts] at hparts hascending haccounts
    exact .inr ⟨requests, receipts, hrequests, hparts, hascending, ⟨_, haccounts, rfl⟩, heach⟩
  | @received request reply pending total cell value state total' hphase hcell hwait habsorb =>
    have hnew := hreceived _ _ _ _ _ _ hphase hcell (Reply.wait_eq_ok hwait).1
    cases modify_eq hcall hcall'
    simp only [hphase, Phase.pending, Phase.unsent, Phase.Accounts] at hparts hascending haccounts
    refine .inr ⟨requests, receipts ++ [⟨request, reply, value⟩], hrequests, ?_, ?_, ?_, ?_⟩
    · simpa [Phase.pending, Phase.unsent] using hparts
    · simpa [Phase.pending] using hascending
    · simp only [Accounts, absorbAll_concat, haccounts]
      exact habsorb
    · intro r hr
      rcases mem_append.mp hr with hold | hlast
      · exact heach r hold
      · rw [mem_singleton.mp hlast]
        exact hnew

def Awaits (s : ShardedKv K V) (R : ReplyState (KvValue K V) Empty → Prop) (id : Nat)
    (p : KvRequest K V × Nat) : Prop :=
  ∃ cell, s.cells[p.2]? = some cell ∧ cell.call = id ∧ cell.request = p.1 ∧ cell.sent = true ∧
    R cell.state

def Sends (s : ShardedKv K V) (id : Nat) (phase : Phase K V) : Prop :=
  ∀ shard request reply todo replies, phase = .sending shard request reply todo replies →
    s.cells[reply]? = some ⟨id, shard, request, false, replyChannel⟩ ∧ ∀ p ∈ replies, p.2 < reply

theorem ClientStep.awaits {R : ReplyState (KvValue K V) Empty → Prop} (h : ClientStep s id call t)
    (hcall : s.calls[id]? = some call) {call' : Call K V} (hcall' : t.calls[id]? = some call')
    (hR : R replyChannel) (hpending : ∀ p ∈ call.phase.pending, s.Awaits R id p)
    (hascending : (call.phase.pending.map (·.2)).Pairwise (· < ·))
    (hsending : s.Sends id call.phase) :
    (∀ p ∈ call'.phase.pending, t.Awaits R id p) ∧ t.Sends id call'.phase := by
  cases h with
  | submitted hphase =>
    cases modify_eq hcall hcall'
    rw [hphase] at hpending
    refine ⟨hpending, fun _ _ _ _ _ hnext => ?_⟩
    cases hnext
  | unroutable hphase hroute | refused hphase hsh hcause | finished hphase
  | failed hphase hcell hwait =>
    cases modify_eq hcall hcall'
    refine ⟨fun p hp => ?_, fun _ _ _ _ _ hnext => ?_⟩
    · cases hp
    · cases hnext
  | opened hphase hroute =>
    cases modify_eq hcall hcall'
    rw [hphase] at hpending
    refine ⟨fun p hp => ?_, fun _ _ _ _ _ hnext => ?_⟩
    · obtain ⟨cell, hcell, hrest⟩ := hpending p hp
      exact ⟨cell, getElem?_concat_of hcell, hrest⟩
    · cases hnext
      refine ⟨getElem?_concat_length, fun p hp => ?_⟩
      obtain ⟨cell, hcell, _⟩ := hpending p hp
      exact (List.getElem?_eq_some_iff.mp hcell).1
  | @sent shard request reply todo replies sh hphase hsh hroom =>
    obtain ⟨hcell, hlast⟩ := hsending _ _ _ _ _ hphase
    cases modify_eq hcall hcall'
    rw [hphase] at hpending
    refine ⟨fun p hp => ?_, fun _ _ _ _ _ hnext => ?_⟩
    · rcases mem_append.mp hp with hold | hnew
      · obtain ⟨cell, hc, hrest⟩ := hpending p hold
        exact ⟨cell, (getElem?_modify_other (Nat.ne_of_gt (hlast p hold))).trans hc, hrest⟩
      · rw [mem_singleton.mp hnew]
        exact ⟨_, getElem?_modify_self hcell, rfl, rfl, rfl, hR⟩
    · cases hnext
  | @received request reply pending total cell value state total' hphase hcell hwait habsorb =>
    rw [hphase] at hpending hascending
    cases modify_eq hcall hcall'
    refine ⟨fun p hp => ?_, fun _ _ _ _ _ hnext => ?_⟩
    · obtain ⟨cell', hc, hrest⟩ := hpending p (mem_cons_of_mem _ hp)
      have hlt : reply < p.2 := (pairwise_cons.mp hascending).1 p.2 (mem_map.mpr ⟨p, hp, rfl⟩)
      exact ⟨cell', (getElem?_modify_other (Nat.ne_of_lt hlt)).trans hc, hrest⟩
    · cases hnext

end ShardedKv
end Sitas.Kv
