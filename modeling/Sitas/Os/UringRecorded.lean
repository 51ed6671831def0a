import Sitas.Os.UringRelease

namespace Sitas.Os.Uring
open Sitas.Lib List AList IoUringDispatcher

namespace IoUringOperationKindCounts

def sum (c : IoUringOperationKindCounts) : Nat :=
  c.nops + c.reads + c.writes + c.accepts + c.connects + c.sends + c.recvs + c.timeouts +
    c.cancellations

theorem sum_add (c : IoUringOperationKindCounts) (kind : IoUringOperationKind) :
    (c.add kind).sum = c.sum + 1 := by
  cases kind <;> simp only [add, sum] <;> omega

end IoUringOperationKindCounts

namespace OperationTotal

def Balanced (t : OperationTotal) : Prop := t.kinds.sum = t.operations

theorem Balanced.add {t : OperationTotal} (h : t.Balanced) (kind : IoUringOperationKind) :
    (t.add kind).Balanced := by
  rw [Balanced, OperationTotal.add, IoUringOperationKindCounts.sum_add, h]

end OperationTotal

namespace IoUringDispatcher
variable {d : IoUringDispatcher}

structure Totals (d : IoUringDispatcher) : Prop where
  dispatched : d.totalDispatched.operations =
    d.totalBuffered.operations + d.totalDiscarded.operations
  woken : d.totalWoken.operations ≤ d.totalBuffered.operations
  balanced : d.totalDispatched.Balanced ∧ d.totalBuffered.Balanced ∧ d.totalWoken.Balanced ∧
    d.totalDiscarded.Balanced

theorem totals_new (ring : IoUring) : Totals (.new ring) :=
  ⟨rfl, le_rfl, rfl, rfl, rfl, rfl⟩

theorem Totals.dispatch (h : Totals d) (completion : IoUringOperationCompletion) :
    Totals (d.dispatch completion).2 := by
  obtain ⟨hdispatched, hwoken, hd, hb, hw, hdis⟩ := h
  rw [IoUringDispatcher.dispatch]
  dsimp only
  split
  · exact ⟨by simp only [OperationTotal.add]; omega, hwoken, hd.add _, hb, hw, hdis.add _⟩
  · split
    · exact ⟨by simp only [OperationTotal.add]; omega,
        by simp only [OperationTotal.add]; omega, hd.add _, hb.add _, hw, hdis⟩
    · exact ⟨by simp only [OperationTotal.add]; omega,
        by simp only [OperationTotal.add]; omega, hd.add _, hb.add _, hw.add _, hdis⟩

theorem Totals.abandonOperation (h : Totals d) (hd : d.ring.Numbered) (operation : Nat) :
    Totals (d.abandonOperation operation) := by
  have ha := abandons_abandonOperation hd operation
  generalize d.abandonOperation operation = d' at ha
  cases ha <;> exact { h with }

theorem Totals.deferBufferDrop (h : Totals d) (hd : d.ring.Numbered) (operation : Nat)
    (buffer : Buffer) : Totals (d.deferBufferDrop operation buffer) := by
  have habandoned := h.abandonOperation hd operation
  rw [IoUringDispatcher.deferBufferDrop]
  split <;> exact { habandoned with }

theorem drainOutcome_eq (d : IoUringDispatcher) (maxWaits dispatched : Nat) :
    ∃ deferred leaked, (d.drainOutcome maxWaits dispatched).2 =
      { d with deferredBuffers := deferred, leaked := leaked } := by
  rw [drainOutcome]
  split
  · exact ⟨_, _, rfl⟩
  · split <;> exact ⟨_, _, rfl⟩

end IoUringDispatcher

namespace Session
open IoUringDispatcher

/-- Each completion is dispatched at most once. It is discarded exactly if its operation was given
up before, and else it waits until one taker gets it or the operation is given up. -/
structure DeliveredOnce (s : Session) : Prop where
  once : s.ended.Nodup
  discarded : ∀ x ∈ s.dispatched, x.discarded = true ↔ x.operation ∈ s.abandoned
  buffered : ∀ x ∈ s.dispatched, x.discarded = false →
    s.dispatcher.completions.lookup x.operation = some x.completion ∨ x.completion ∈ s.handed ∨
      x.operation ∈ s.withdrawn
  waiting : ∀ op c, s.dispatcher.completions.lookup op = some c → c.operation = op ∧
    (∃ x ∈ s.dispatched, x.completion = c ∧ x.discarded = false) ∧ op ∉ s.handed.map (·.operation)
  handed : ∀ c ∈ s.handed, ∃ x ∈ s.dispatched, x.completion = c ∧ x.discarded = false
  handedOnce : (s.handed.map (·.operation)).Nodup
  totals : s.dispatcher.Totals

/-- What the record says about the completions dispatched so far. -/
structure Recorded (s : Session) : Prop extends DeliveredOnce s where
  contained : s.dispatcher.Contained
  ended : ∀ x ∈ s.dispatched, x.operation ∉ s.dispatcher.ring.operations ∧
    x.operation < operationUserDataBase + s.dispatcher.ring.nextOperation
  abandoned : ∀ op, op ∈ s.dispatcher.abandonedOperations ↔
    op ∈ s.abandoned ∧ op ∈ s.dispatcher.ring.operations
  givenUp : ∀ op ∈ s.abandoned,
    op < operationUserDataBase + s.dispatcher.ring.nextOperation

variable {s t : Session}

theorem recorded_new (entries : Nat) : Recorded (new entries) where
  contained := contained_new entries
  ended x hx := by cases hx
  once := nodup_nil
  abandoned op := ⟨fun h => absurd h (notMem_empty op), fun h => by cases h.1⟩
  givenUp op h := by cases h
  discarded x hx := by cases hx
  waiting op c h := by cases h
  buffered x hx := by cases hx
  handed c hc := by cases hc
  handedOnce := nodup_nil
  totals := totals_new _

theorem Recorded.ring (h : Recorded s) {ring : IoUring}
    (hsame : SameOperations s.dispatcher.ring ring) :
    Recorded { s with dispatcher := { s.dispatcher with ring := ring } } :=
  { h with
    contained := h.contained.ring hsame
    ended := by simpa only [hsame.operations, hsame.nextOperation] using h.ended
    abandoned := by simpa only [hsame.operations] using h.abandoned
    givenUp := by simpa only [hsame.nextOperation] using h.givenUp
    totals := { h.totals with } }

private theorem completions_dispatch (d : IoUringDispatcher)
    (completion : IoUringOperationCompletion) :
    (d.dispatch completion).2.completions =
      if completion.operation ∈ d.abandonedOperations then d.completions
      else d.completions.insert completion.operation completion := by
  rw [dispatch]
  dsimp only
  split
  · rfl
  · split <;> rfl

theorem abandonedOperations_dispatch (d : IoUringDispatcher)
    (completion : IoUringOperationCompletion) (op : Nat) :
    op ∈ (d.dispatch completion).2.abandonedOperations ↔
      op ≠ completion.operation ∧ op ∈ d.abandonedOperations := by
  rw [dispatch]
  dsimp only
  split
  · exact mem_erase
  next hnot =>
    have hiff : op ∈ d.abandonedOperations ↔
        op ≠ completion.operation ∧ op ∈ d.abandonedOperations :=
      ⟨fun hop => ⟨fun heq => hnot (heq ▸ hop), hop⟩, And.right⟩
    split <;> exact hiff

/-- One completion is dispatched: it is the first of its operation, and it is discarded
exactly if the operation was given up. -/
theorem Recorded.dispatch {xs : List Dispatched} {d : IoUringDispatcher}
    (h : Recorded { s with dispatcher := d, dispatched := xs }) {ring : IoUring}
    {completion : IoUringOperationCompletion} (hmem : completion.operation ∈ d.ring.operations)
    (hops : ring.operations = d.ring.operations.erase completion.operation)
    (hnext : ring.nextOperation = d.ring.nextOperation) :
    Recorded { s with
      dispatcher := ({ d with ring := ring }.dispatch completion).2
      dispatched := xs ++ [{ d with ring := ring }.dispatchedOf completion] } := by
  have hfresh : completion.operation ∉ xs.map Dispatched.operation := by
    intro hin
    obtain ⟨x, hx, heq⟩ := mem_map.mp hin
    exact (h.ended x hx).1 (heq ▸ hmem)
  have habandoned : (decide (completion.operation ∈ d.abandonedOperations) = true) ↔
      completion.operation ∈ s.abandoned := by
    rw [decide_eq_true_eq, h.abandoned]
    exact and_iff_left hmem
  have hlookup : ∀ op, op ≠ completion.operation →
      ({ d with ring := ring }.dispatch completion).2.completions.lookup op =
        d.completions.lookup op := by
    intro op hne
    rw [completions_dispatch]
    split
    · rfl
    · exact lookup_insert_ne hne
  have hnone : d.completions.lookup completion.operation = none :=
    lookup_eq_none.mpr fun hin => (h.contained.completed _ hin).1 hmem
  have htotals : Totals { d with ring := ring } := { h.totals with }
  refine ⟨⟨?_, fun x hx => ?_, fun x hx hkept => ?_, fun op c hc => ?_, fun c hc => ?_, h.handedOnce,
    htotals.dispatch completion⟩, h.contained.dispatch hmem hops hnext, fun x hx => ?_, fun op => ?_, ?_⟩
  · rw [Session.ended, map_append]
    refine nodup_append.mpr ⟨h.once, nodup_singleton _, fun a ha b hb hab => ?_⟩
    have heq : a = completion.operation := hab.trans (mem_singleton.mp hb)
    exact hfresh (heq ▸ ha)
  · rcases mem_append.mp hx with hx | hx
    · exact h.discarded x hx
    · rw [mem_singleton.mp hx]
      exact habandoned
  · dsimp only
    rcases mem_append.mp hx with hx | hx
    · have hne : x.operation ≠ completion.operation :=
        fun heq => hfresh (mem_map.mpr ⟨x, hx, heq⟩)
      rw [hlookup _ hne]
      exact h.buffered x hx hkept
    · rw [mem_singleton.mp hx] at hkept ⊢
      have hnot : completion.operation ∉ d.abandonedOperations := of_decide_eq_false hkept
      refine .inl ?_
      rw [completions_dispatch, if_neg hnot]
      exact lookup_insert _
  · dsimp only at hc
    by_cases hop : op = completion.operation
    · rw [hop, completions_dispatch] at hc
      split at hc
      · exact absurd (hnone.symm.trans hc) (Option.some_ne_none c).symm
      next hnot =>
        rw [lookup_insert] at hc
        cases hc
        refine ⟨hop.symm, ⟨_, mem_append_right _ (mem_singleton.mpr rfl), rfl, ?_⟩, ?_⟩
        · exact decide_eq_false hnot
        · intro hin
          obtain ⟨c', hc', heq⟩ := mem_map.mp hin
          obtain ⟨x, hx, rfl, _⟩ := h.handed c' hc'
          exact hfresh (mem_map.mpr ⟨x, hx, heq.trans hop⟩)
    · rw [hlookup op hop] at hc
      obtain ⟨hown, ⟨x, hx, hxc⟩, hnot⟩ := h.waiting op c hc
      exact ⟨hown, ⟨x, mem_append_left _ hx, hxc⟩, hnot⟩
  · obtain ⟨x, hx, hxc⟩ := h.handed c hc
    exact ⟨x, mem_append_left _ hx, hxc⟩
  · rw [dispatch_ring]
    dsimp only
    rw [hops, hnext, mem_erase]
    rcases mem_append.mp hx with hx | hx
    · exact ⟨fun hin => (h.ended x hx).1 hin.2, (h.ended x hx).2⟩
    · rw [mem_singleton.mp hx]
      exact ⟨fun hin => hin.1 rfl, (h.contained.numbered.used _ hmem).2⟩
  · rw [abandonedOperations_dispatch, dispatch_ring]
    dsimp only
    rw [hops, mem_erase, h.abandoned]
    exact and_left_comm
  · rw [dispatch_ring]
    dsimp only
    rw [hnext]
    exact h.givenUp

private theorem traced_recorded (s : Session) :
    Traced fun xs d => Recorded { s with dispatcher := d, dispatched := xs } :=
  ⟨fun _ _ _ hsame h => h.ring hsame, fun _ _ _ _ hmem hops hnext h => h.dispatch hmem hops hnext⟩

private theorem mem_giveUp {operation op : Nat} : op ∈ (s.giveUp operation).abandoned ↔
    op ∈ s.abandoned ∨ op = operation ∧ operation ∈ s.dispatcher.ring.operations ∨
      op ∈ (s.dispatcher.abandonOperation operation).ring.operations ∧
        op ∉ s.dispatcher.ring.operations := by
  have hnamed : op ∈ (if operation ∈ s.dispatcher.ring.operations then [operation] else []) ↔
      op = operation ∧ operation ∈ s.dispatcher.ring.operations := by
    split
    next hin =>
      rw [List.mem_singleton, and_iff_left hin]
    next hout =>
      exact ⟨fun h => absurd h not_mem_nil, fun h => absurd h.2 hout⟩
  rw [giveUp, mem_append, mem_append, hnamed, cancellations, mem_filter,
    decide_eq_true_eq, ← AList.mem_keys, or_assoc]

private theorem Recorded.abandoned_giveUp (h : Recorded s) (operation op : Nat) :
    op ∈ (s.dispatcher.abandonOperation operation).abandonedOperations ↔
      op ∈ (s.giveUp operation).abandoned ∧
        op ∈ (s.dispatcher.abandonOperation operation).ring.operations := by
  have ha := abandons_abandonOperation h.contained.numbered operation
  have hmem : op ∈ s.dispatcher.ring.operations → _ := h.contained.mem_of_abandons ha
  rw [h.contained.mem_abandoned ha, mem_giveUp, h.abandoned]
  constructor
  · rintro (⟨hold, hin⟩ | ⟨rfl, hin⟩ | hnew)
    · exact ⟨.inl hold, hmem hin⟩
    · exact ⟨.inr (.inl ⟨rfl, hin⟩), hmem hin⟩
    · exact ⟨.inr (.inr hnew), hnew.1⟩
  · rintro ⟨hold | hnamed | hnew, hin⟩
    · by_cases hbefore : op ∈ s.dispatcher.ring.operations
      · exact .inl ⟨hold, hbefore⟩
      · exact .inr (.inr ⟨hin, hbefore⟩)
    · exact .inr (.inl hnamed)
    · exact .inr (.inr hnew)

theorem Recorded.abandon (h : Recorded s) (operation : Nat) :
    Recorded { s.giveUp operation with
      dispatcher := s.dispatcher.abandonOperation operation } := by
  have ha := abandons_abandonOperation h.contained.numbered operation
  have habandoned := h.abandoned_giveUp operation
  have hcontained := h.contained.abandonOperation operation
  have htotals := h.totals.abandonOperation h.contained.numbered operation
  have hgiven : ∀ op, op ∈ (s.giveUp operation).abandoned ↔ _ := fun op => mem_giveUp
  generalize s.dispatcher.abandonOperation operation = d at ha habandoned hcontained htotals hgiven ⊢
  have hover : ∀ x ∈ s.dispatched, x.operation ∉ d.ring.operations ∧
      x.operation < operationUserDataBase + d.ring.nextOperation := fun x hx =>
    let ⟨hlt, hiff⟩ := ha.issued (h.ended x hx).2
    ⟨mt hiff.mp (h.ended x hx).1, hlt⟩
  have hlocated : ∀ op c, s.dispatcher.completions.lookup op = some c →
      d.completions.lookup op = some c ∨ op ∈ (s.giveUp operation).withdrawn := by
    intro op c hc
    cases ha with
    | withdrawn completed =>
      by_cases heq : op = operation
      · refine .inr (mem_append_right _ ?_)
        rw [if_pos completed, heq]
        exact mem_singleton.mpr rfl
      · exact .inl ((lookup_erase_ne heq).trans hc)
    | unknown completed tracked | again kind completed tracked known
    | first kind y ring completed tracked queued => exact .inl hc
  refine ⟨⟨h.once, fun x hx => ?_, fun x hx hkept => ?_, fun op c hc => ?_, h.handed, h.handedOnce,
    htotals⟩, hcontained, hover, habandoned, fun op hop => ?_⟩
  · rw [h.discarded x hx, hgiven]
    refine ⟨.inl, fun hin => ?_⟩
    rcases hin with hin | ⟨heq, hin⟩ | ⟨hin, _⟩
    · exact hin
    · exact absurd (heq ▸ hin) (h.ended x hx).1
    · exact absurd hin (hover x hx).1
  · rcases h.buffered x hx hkept with hwaiting | hhanded | hwithdrawn
    · exact (hlocated _ _ hwaiting).imp_right .inr
    · exact .inr (.inl hhanded)
    · exact .inr (.inr (mem_append_left _ hwithdrawn))
  · exact h.waiting op c (ha.lookup_completions hc)
  · rcases (hgiven op).mp hop with hold | ⟨rfl, hin⟩ | ⟨hin, _⟩
    · exact (ha.issued (h.givenUp op hold)).1
    · exact (ha.issued (h.contained.numbered.used op hin).2).1
    · exact (hcontained.numbered.used op hin).2

private theorem Recorded.take (h : Recorded s) (operation : Nat) :
    Recorded { s with
      dispatcher := (s.dispatcher.takeCompletion operation).2
      handed := s.handed ++ (s.dispatcher.takeCompletion operation).1.toList } := by
  have htaken : ∀ c ∈ (s.dispatcher.completions.lookup operation).toList,
      s.dispatcher.completions.lookup operation = some c := fun c hc => Option.mem_toList.mp hc
  refine { h with
    contained := h.contained.take operation
    waiting := fun op c hc => ?_
    buffered := fun x hx hkept => ?_
    handed := fun c hc => ?_
    handedOnce := ?_
    totals := { h.totals with } }
  · rcases h.buffered x hx hkept with hwaiting | hhanded | hwithdrawn
    · by_cases heq : x.operation = operation
      · refine .inr (.inl (mem_append_right _ (Option.mem_toList.mpr ?_)))
        exact heq ▸ hwaiting
      · exact .inl ((lookup_erase_ne heq).trans hwaiting)
    · exact .inr (.inl (mem_append_left _ hhanded))
    · exact .inr (.inr hwithdrawn)
  · obtain ⟨hne, hc⟩ := lookup_erase_eq_some.mp hc
    obtain ⟨hown, hx, hnot⟩ := h.waiting op c hc
    refine ⟨hown, hx, fun hin => ?_⟩
    rw [map_append] at hin
    rcases mem_append.mp hin with hin | hin
    · exact hnot hin
    · obtain ⟨c', hc', heq⟩ := mem_map.mp hin
      exact hne (heq.symm.trans (h.waiting operation c' (htaken c' hc')).1)
  · rcases mem_append.mp hc with hc | hc
    · exact h.handed c hc
    · exact (h.waiting operation c (htaken c hc)).2.1
  · rw [map_append]
    refine nodup_append.mpr ⟨h.handedOnce, ?_, fun a ha b hb hab => ?_⟩
    · rw [takeCompletion]
      cases s.dispatcher.completions.lookup operation <;> simp
    · obtain ⟨c, hc, rfl⟩ := mem_map.mp hb
      obtain ⟨hown, _, hnot⟩ := h.waiting operation c (htaken c hc)
      exact hnot (hown ▸ hab ▸ ha)

theorem Recorded.queue (h : Recorded s) {kind : IoUringOperationKind}
    {x : Except IoError Nat} {ring : IoUring} (hq : s.dispatcher.ring.Queued kind (x, ring)) :
    Recorded { s with
      dispatcher := { s.dispatcher with ring := ring }
      queued := s.queued ++ x.toOption.toList } := by
  refine { h with
    contained := h.contained.queue hq
    ended := fun op hop => ?_
    abandoned := fun op => ?_
    givenUp := fun op hop => hq.issued (h.givenUp op hop)
    totals := { h.totals with } }
  · obtain ⟨hout, hlt⟩ := h.ended op hop
    exact ⟨fun hin => hout ((hq.issued_mem_iff hlt).mp hin), hq.issued hlt⟩
  · rw [h.abandoned]
    exact and_congr_right fun hop => (hq.issued_mem_iff (h.givenUp op hop)).symm

theorem handOver_eq (s : Session) (operation : Nat) (buffer : Buffer) :
    ∃ kept late foreign, s.handOver operation buffer =
      { s with kept := kept, late := late, foreign := foreign } := by
  rw [handOver]
  split
  · exact ⟨_, _, _, rfl⟩
  · split <;> exact ⟨_, _, _, rfl⟩

theorem Recorded.defer (h : Recorded s) (operation : Nat) (buffer : Buffer) :
    Recorded { (s.giveUp operation).handOver operation buffer with
      dispatcher := s.dispatcher.deferBufferDrop operation buffer } := by
  have habandoned := h.abandon operation
  have hcontained := h.contained.deferBufferDrop operation buffer
  have htotals := h.totals.deferBufferDrop h.contained.numbered operation buffer
  obtain ⟨kept, late, foreign, heq⟩ := handOver_eq (s.giveUp operation) operation buffer
  rw [heq]
  rw [h.contained.deferBufferDrop_eq] at hcontained htotals ⊢
  by_cases htracked : operation ∈ s.dispatcher.ring.operations
  · rw [if_pos htracked] at hcontained htotals ⊢
    exact { habandoned with contained := hcontained, totals := htotals }
  · rw [if_neg htracked] at hcontained htotals ⊢
    exact { habandoned with contained := hcontained, totals := htotals }

variable {call : Call}

theorem Recorded.act (h : Recorded s) (ha : Act s call t) : Recorded t := by
  cases ha with
  | queued hq => exact h.queue hq
  | dispatched hleads => exact hleads _ (traced_recorded s) h
  | taken operation => exact h.take operation
  | abandoned operation => exact h.abandon operation
  | drained maxWaits dispatched =>
    have hcontained := h.contained.drainOutcome maxWaits dispatched
    obtain ⟨deferred, leaked, heq⟩ := s.dispatcher.drainOutcome_eq maxWaits dispatched
    rw [heq] at hcontained ⊢
    exact { h with contained := hcontained, totals := { h.totals with } }
  | waiters _ | noted _ =>
    exact { h with contained := { h.contained with }, totals := { h.totals with } }
  | dropped => exact { h with }

theorem Recorded.step (h : Recorded s) (hst : s.step call = some t) : Recorded t := by
  rcases acts_of_step h.contained hst with ⟨operation, buffer, rfl, rfl⟩ | hacts
  · exact h.defer operation buffer
  · exact hacts.keeps h fun _ _ hu ha => hu.act ha

end Session
end Sitas.Os.Uring
