import Sitas.Executor.Uring
import Sitas.Os.UringDispatch

namespace Sitas.Executor.Uring
open Sitas.Lib Sitas.Os.Uring List AList IoUringDispatcher TransferAtUring Option

/-- The operation an abandoned entry stands for: a cancellation stands for its target. -/
def subjectOf (operation : Nat) : IoUringOperationKind → Nat
  | .cancel target => target
  | _ => operation

section Cells
variable (cells : Nat → Option FutureCell)

def QueuedOn (g operation f : Nat) : Prop :=
  ∃ cell, cells f = some cell ∧ cell.queued = some (g, operation)

def IsDropped (f : Nat) : Prop := ∃ cell, cells f = some cell ∧ cell.dropped = true

def Waits (f : Nat) : Prop :=
  ∃ cell, cells f = some cell ∧ cell.resolution = none ∧ cell.dropped = false

def Distinct : Prop := ∀ g operation f f', QueuedOn cells g operation f →
  QueuedOn cells g operation f' → f = f'

/-- What a dispatcher keeps for the futures queued on it. The buffers of the futures in
`released` have been given back before. -/
structure Kept (released : Nat → Prop) (g : Nat) (d : IoUringDispatcher) : Prop where
  numbered : d.ring.Numbered
  queued : ∀ op f, QueuedOn cells g op f → op < operationUserDataBase + d.ring.nextOperation
  plain : ∀ op f kind, QueuedOn cells g op f → d.ring.operations.lookup op = some kind →
    subjectOf op kind = op
  completed : ∀ op ∈ d.completions,
    op ∉ d.ring.operations ∧ op < operationUserDataBase + d.ring.nextOperation
  abandoned : ∀ op kind, d.abandonedOperations.lookup op = some kind →
    op < operationUserDataBase + d.ring.nextOperation ∧
      (∃ f, QueuedOn cells g (subjectOf op kind) f ∧ IsDropped cells f) ∧
      ∀ f, QueuedOn cells g op f → subjectOf op kind = op
  deferred : ∀ op b, d.deferredBuffers.lookup op = some b →
    QueuedOn cells g op b.addr ∧ IsDropped cells b.addr
  freed : ∀ b ∈ d.freed, released b.addr ∨
    IsDropped cells b.addr ∧ ∃ op, QueuedOn cells g op b.addr
  untracked : ∀ op f, QueuedOn cells g op f → (released f ∨ ∃ b ∈ d.freed, b.addr = f) →
    op ∉ d.ring.operations
  waiting : ∀ op f, QueuedOn cells g op f → Waits cells f →
    op ∈ d.ring.operations ∨ op ∈ d.completions

end Cells

section Dispatcher
variable {cells : Nat → Option FutureCell} {released : Nat → Prop} {g : Nat} {d : IoUringDispatcher}
  {op op' f : Nat} {kind : IoUringOperationKind} {b : Buffer}

theorem QueuedOn.unique {g' : Nat} (h : QueuedOn cells g op f) (h' : QueuedOn cells g' op' f) :
    g = g' ∧ op = op' := by
  obtain ⟨cell, hcell, hq⟩ := h
  obtain ⟨cell', hcell', hq'⟩ := h'
  cases hcell.symm.trans hcell'
  cases hq.symm.trans hq'
  exact ⟨rfl, rfl⟩

theorem Waits.not_dropped (h : Waits cells f) : ¬ IsDropped cells f := by
  rintro ⟨cell', hcell', hd⟩
  obtain ⟨cell, hcell, _, hnot⟩ := h
  cases hcell.symm.trans hcell'
  cases hnot.symm.trans hd

theorem kept_new (entries : Nat) (hnone : ∀ op f, ¬ QueuedOn cells g op f) :
    Kept cells released g (.new (.new entries)) where
  numbered := IoUring.numbered_new entries
  queued op f h := absurd h (hnone op f)
  plain op f kind h := absurd h (hnone op f)
  completed op h := absurd h (notMem_empty op)
  abandoned op kind h := by cases h
  deferred op b h := by cases h
  freed b h := by cases h
  untracked op f h := absurd h (hnone op f)
  waiting op f h := absurd h (hnone op f)

theorem Kept.dropped_of_abandoned (h : Kept cells released g d) (hdistinct : Distinct cells)
    (hq : QueuedOn cells g op f) (ha : op ∈ d.abandonedOperations) : IsDropped cells f := by
  obtain ⟨kind, hkind⟩ := isSome_iff_exists.mp (lookup_isSome.mpr ha)
  obtain ⟨_, ⟨f', hf', hdropped⟩, hplain⟩ := h.abandoned op kind hkind
  rw [hplain f hq] at hf'
  exact hdistinct g op f' f hf' hq ▸ hdropped

private theorem Kept.ring (h : Kept cells released g d) {ring : IoUring}
    (hsame : SameOperations d.ring ring) : Kept cells released g { d with ring := ring } := by
  have hops := hsame.operations
  have hnext := hsame.nextOperation
  exact { h with
    numbered := h.numbered.same hsame
    queued := by simpa only [hnext] using h.queued
    plain := by simpa only [hops] using h.plain
    completed := by simpa only [hops, hnext] using h.completed
    abandoned := by simpa only [hnext] using h.abandoned
    untracked := by simpa only [hops] using h.untracked
    waiting := by simpa only [hops] using h.waiting }

/-- A buffer is given back with the completion of its own operation. -/
private theorem Kept.dispatch (h : Kept cells released g d) (hdistinct : Distinct cells)
    {ring : IoUring} {completion : IoUringOperationCompletion}
    (hmem : completion.operation ∈ d.ring.operations)
    (hops : ring.operations = d.ring.operations.erase completion.operation)
    (hnext : ring.nextOperation = d.ring.nextOperation) :
    Kept cells released g ({ d with ring := ring }.dispatch completion).2 := by
  have hring := h.numbered.erased hops hnext
  have herased : ∀ op, op ∉ d.ring.operations → op ∉ d.ring.operations.erase completion.operation :=
    fun op hnot hop => hnot (mem_erase.mp hop).2
  have hplain : ∀ op f kind, QueuedOn cells g op f → ring.operations.lookup op = some kind →
      subjectOf op kind = op := by
    intro op f kind hq hkind
    rw [hops] at hkind
    exact h.plain op f kind hq (lookup_erase_eq_some.mp hkind).2
  rw [IoUringDispatcher.dispatch]
  dsimp only
  split
  next hab =>
    constructor
    · exact hring
    · simpa only [hnext] using h.queued
    · exact hplain
    · intro op hop
      rw [hops, hnext]
      exact ⟨herased op (h.completed op hop).1, (h.completed op hop).2⟩
    · intro op kind hkind
      rw [hnext]
      exact h.abandoned op kind (lookup_erase_eq_some.mp hkind).2
    · exact fun op b hb => h.deferred op b (lookup_erase_eq_some.mp hb).2
    · intro b hb
      rcases mem_append.mp hb with hb | hb
      · exact h.freed b hb
      · obtain ⟨hq, hd⟩ := h.deferred _ b (mem_toList.mp hb)
        exact .inr ⟨hd, _, hq⟩
    · rintro op f hq (hrel | ⟨b, hb, rfl⟩) hop
      · exact h.untracked op f hq (.inl hrel) (mem_erase.mp (hops ▸ hop)).2
      · rcases mem_append.mp hb with hb | hb
        · exact h.untracked op _ hq (.inr ⟨b, hb, rfl⟩) (mem_erase.mp (hops ▸ hop)).2
        · have heq := (hq.unique (h.deferred _ b (mem_toList.mp hb)).1).2
          exact (mem_erase.mp (hops ▸ hop)).1 heq
    · intro op f hq hw
      refine (h.waiting op f hq hw).imp_left fun hop => ?_
      rw [hops, mem_erase]
      refine ⟨fun heq => ?_, hop⟩
      exact hw.not_dropped (h.dropped_of_abandoned hdistinct hq (heq ▸ hab))
  · have hbuffered : Kept cells released g { d with
        ring := ring
        completions := d.completions.insert completion.operation completion } := { h with
      numbered := hring
      queued := by simpa only [hnext] using h.queued
      plain := hplain
      abandoned := by simpa only [hnext] using h.abandoned
      completed := by
        intro op hop
        rw [hops, hnext]
        rcases (mem_insert _).mp hop with rfl | hop
        · exact ⟨fun hop => (mem_erase.mp hop).1 rfl, (h.numbered.used _ hmem).2⟩
        · exact ⟨herased op (h.completed op hop).1, (h.completed op hop).2⟩
      untracked := by
        intro op f hq hrel
        rw [hops]
        exact herased op (h.untracked op f hq hrel)
      waiting := by
        intro op f hq hw
        rw [hops, mem_erase, mem_insert]
        by_cases heq : op = completion.operation
        · exact .inr (.inl heq)
        · exact (h.waiting op f hq hw).imp (⟨heq, ·⟩) .inr }
    split <;> exact { hbuffered with }

theorem carried_kept (hdistinct : Distinct cells) : Carried fun _ => Kept cells released g :=
  ⟨fun _ _ _ hsame h => h.ring hsame, fun _ _ _ _ hmem hops hnext h =>
    h.dispatch hdistinct hmem hops hnext⟩

section
variable (h : Kept cells released g d)
include h

theorem Kept.congr {cells' : Nat → Option FutureCell}
    (hq : ∀ op f, QueuedOn cells' g op f ↔ QueuedOn cells g op f)
    (hdropped : ∀ f, IsDropped cells f → IsDropped cells' f)
    (hwaits : ∀ op f, QueuedOn cells' g op f → Waits cells' f → Waits cells f) :
    Kept cells' released g d where
  numbered := h.numbered
  queued op f hop := h.queued op f ((hq op f).mp hop)
  plain op f kind hop := h.plain op f kind ((hq op f).mp hop)
  completed := h.completed
  abandoned op kind hkind := by
    obtain ⟨hlt, ⟨f, hf, hd⟩, hplain⟩ := h.abandoned op kind hkind
    exact ⟨hlt, ⟨f, (hq _ f).mpr hf, hdropped f hd⟩, fun f hop => hplain f ((hq op f).mp hop)⟩
  deferred op b hb := (h.deferred op b hb).imp (hq op _).mpr (hdropped _)
  freed b hb := (h.freed b hb).imp_right fun ⟨hd, op, hop⟩ => ⟨hdropped _ hd, op, (hq op _).mpr hop⟩
  untracked op f hop := h.untracked op f ((hq op f).mp hop)
  waiting op f hop hw := h.waiting op f ((hq op f).mp hop) (hwaits op f hop hw)

theorem Kept.release {released' : Nat → Prop}
    (hgrow : ∀ f, released' f → released f ∨ (∃ b ∈ d.freed, b.addr = f) ∨
      ∀ op, QueuedOn cells g op f → op ∉ d.ring.operations)
    (hfreed : ∀ b ∈ d.freed, released' b.addr) : Kept cells released' g d :=
  { h with
    freed := fun b hb => .inl (hfreed b hb)
    untracked := by
      intro op f hq hrel
      have hrel' : released' f := by
        rcases hrel with hrel | ⟨b, hb, rfl⟩
        · exact hrel
        · exact hfreed b hb
      rcases hgrow f hrel' with hold | hown | hfree
      · exact h.untracked op f hq (.inl hold)
      · exact h.untracked op f hq (.inr hown)
      · exact hfree op hq }

theorem Kept.take (hnot : ∀ f, QueuedOn cells g op f → ¬ Waits cells f) :
    Kept cells released g (d.takeCompletion op).2 :=
  { h with
    completed := fun op' hop => h.completed op' (mem_erase.mp hop).2
    waiting := by
      intro op' f hq hw
      refine (h.waiting op' f hq hw).imp_right fun hop => mem_erase.mpr ⟨?_, hop⟩
      rintro rfl
      exact hnot f hq hw }

theorem Kept.rejected {e : IoError} {ring : IoUring} (hq : d.ring.Queued kind (.error e, ring)) :
    Kept cells released g { d with ring := ring } := by
  cases hq with
  | rejected _ operations next bound =>
    have hmem : ∀ op, op ∈ ring.operations ↔ op ∈ d.ring.operations := by
      intro op
      rw [← lookup_isSome, ← lookup_isSome, operations]
    have hlt : ∀ {op}, op < operationUserDataBase + d.ring.nextOperation →
        op < operationUserDataBase + ring.nextOperation := fun h => by omega
    exact { h with
      numbered := by
        refine ⟨fun op hop => ?_, bound⟩
        obtain ⟨hle, hop⟩ := h.numbered.used op ((hmem op).mp hop)
        exact ⟨hle, hlt hop⟩
      queued := fun op f hop => hlt (h.queued op f hop)
      plain := by simpa only [operations] using h.plain
      completed := by
        intro op hop
        rw [hmem]
        exact (h.completed op hop).imp_right hlt
      abandoned := fun op kind hkind => (h.abandoned op kind hkind).imp_left hlt
      untracked := by simpa only [hmem] using h.untracked
      waiting := by simpa only [hmem] using h.waiting }

/-- The ring tracks a new operation, which is either of no future or of a new one. -/
theorem Kept.accepted {cells' : Nat → Option FutureCell} {ring : IoUring}
    (hqueued : d.ring.Queued kind (.ok op, ring))
    (hq : ∀ op' f, QueuedOn cells' g op' f → QueuedOn cells g op' f ∨
      op' = op ∧ subjectOf op kind = op ∧ ¬ released f ∧ ∀ b ∈ d.freed, b.addr ≠ f)
    (hold : ∀ op' f, QueuedOn cells g op' f → QueuedOn cells' g op' f)
    (hdropped : ∀ f, IsDropped cells f → IsDropped cells' f)
    (hwaits : ∀ op' f, QueuedOn cells g op' f → Waits cells' f → Waits cells f) :
    Kept cells' released g { d with ring := ring } := by
  cases hqueued with
  | accepted operations next bound =>
    have hnew : ∀ {op}, op < operationUserDataBase + d.ring.nextOperation →
        op ≠ operationUserDataBase + d.ring.nextOperation := fun h => Nat.ne_of_lt h
    have hlt : ∀ {op}, op < operationUserDataBase + d.ring.nextOperation →
        op < operationUserDataBase + ring.nextOperation := fun h => by omega
    constructor
    · refine ⟨fun op hop => ?_, bound⟩
      rw [operations, mem_insert] at hop
      dsimp only
      rcases hop with rfl | hop
      · omega
      · obtain ⟨hle, hop⟩ := h.numbered.used op hop
        exact ⟨hle, hlt hop⟩
    · intro op f hop
      rcases hq op f hop with hop | ⟨rfl, _⟩
      · exact hlt (h.queued op f hop)
      · rw [next]
        omega
    · intro op f kind' hop hkind
      rw [operations] at hkind
      rcases hq op f hop with hop | ⟨rfl, hsubject, _⟩
      · rw [lookup_insert_ne (hnew (h.queued op f hop))] at hkind
        exact h.plain op f kind' hop hkind
      · rw [lookup_insert] at hkind
        cases hkind
        exact hsubject
    · intro op hop
      rw [operations, mem_insert]
      obtain ⟨hnot, hused⟩ := h.completed op hop
      exact ⟨not_or_intro (hnew hused) hnot, hlt hused⟩
    · intro op kind' hkind
      obtain ⟨hused, ⟨f, hf, hd⟩, hplain⟩ := h.abandoned op kind' hkind
      refine ⟨hlt hused, ⟨f, hold _ f hf, hdropped f hd⟩, fun f hop => ?_⟩
      rcases hq op f hop with hop | ⟨rfl, _⟩
      · exact hplain f hop
      · exact absurd rfl (hnew hused)
    · exact fun op b hb => (h.deferred op b hb).imp (hold op _) (hdropped _)
    · exact fun b hb => (h.freed b hb).imp_right fun ⟨hd, op, hop⟩ =>
        ⟨hdropped _ hd, op, hold op _ hop⟩
    · intro op f hop hrel
      rw [operations, mem_insert]
      rcases hq op f hop with hop | ⟨_, _, hnot, hnone⟩
      · exact not_or_intro (hnew (h.queued op f hop)) (h.untracked op f hop hrel)
      · rcases hrel with hrel | ⟨b, hb, haddr⟩
        · exact absurd hrel hnot
        · exact absurd haddr (hnone b hb)
    · intro op f hop hw
      rw [operations, mem_insert]
      rcases hq op f hop with hop | ⟨rfl, _⟩
      · exact (h.waiting op f hop (hwaits op f hop hw)).imp_left .inr
      · exact .inl (.inl rfl)

private theorem Kept.insertAbandoned (hused : op < operationUserDataBase + d.ring.nextOperation)
    (hq : QueuedOn cells g (subjectOf op kind) f) (hd : IsDropped cells f)
    (hplain : ∀ f, QueuedOn cells g op f → subjectOf op kind = op) :
    Kept cells released g { d with abandonedOperations := d.abandonedOperations.insert op kind } :=
  { h with
    abandoned := by
      intro op' kind' hkind
      obtain ⟨rfl, rfl⟩ | ⟨_, hkind⟩ := lookup_insert_eq_some.mp hkind
      · exact ⟨hused, ⟨f, hq, hd⟩, hplain⟩
      · exact h.abandoned op' kind' hkind }

theorem Kept.abandon (hdistinct : Distinct cells) (hq : QueuedOn cells g op f)
    (hd : IsDropped cells f) : Kept cells released g (d.abandonOperation op) := by
  have hcleared : Kept cells released g (d.clearWaker op) := { h with }
  have ha := abandons_abandonOperation h.numbered op
  have hmarked : ∀ kind, d.ring.operationKind op = some kind → Kept cells released g
      { d.clearWaker op with abandonedOperations := d.abandonedOperations.insert op kind } := by
    intro kind hkind
    have hsubject := h.plain op f kind hq hkind
    exact hcleared.insertAbandoned (h.queued op f hq) (hsubject.symm ▸ hq) hd fun _ _ => hsubject
  generalize d.abandonOperation op = d' at ha
  cases ha with
  | withdrawn =>
    refine hcleared.take fun f' hq' hw => hw.not_dropped ?_
    exact hdistinct g op f f' hq hq' ▸ hd
  | unknown => exact hcleared
  | again kind _ _ _ named => exact hmarked kind named
  | first kind x ring _ _ queued named =>
    cases x with
    | error e => exact (hmarked kind named).rejected queued
    | ok cancel =>
      have hring := (hmarked kind named).accepted queued (fun _ _ => .inl) (fun _ _ => id)
        (fun _ => id) fun _ _ _ => id
      cases queued with
      | accepted operations next bound =>
        refine hring.insertAbandoned ?_ hq hd fun f' hq' => ?_
        · dsimp only
          omega
        · exact absurd (h.queued _ f' hq') (Nat.lt_irrefl _)

end

theorem deferBufferDrop_other (hnumbered : d.ring.Numbered) (hne : op' ≠ op) (b : Buffer) :
    (op' ∈ d.ring.operations → op' ∈ (d.deferBufferDrop op b).ring.operations) ∧
      (d.deferBufferDrop op b).waiters.lookup op' = d.waiters.lookup op' ∧
      (op' ∈ d.completions → op' ∈ (d.deferBufferDrop op b).completions) := by
  have habandon : (op' ∈ d.ring.operations → op' ∈ (d.abandonOperation op).ring.operations) ∧
      (d.abandonOperation op).waiters.lookup op' = d.waiters.lookup op' ∧
      (op' ∈ d.completions → op' ∈ (d.abandonOperation op).completions) := by
    have hwaiters : (d.clearWaker op).waiters.lookup op' = d.waiters.lookup op' :=
      lookup_erase_ne hne
    have ha := abandons_abandonOperation hnumbered op
    generalize d.abandonOperation op = d' at ha
    cases ha with
    | withdrawn => exact ⟨id, hwaiters, fun hop => mem_erase.mpr ⟨hne, hop⟩⟩
    | unknown | again => exact ⟨id, hwaiters, id⟩
    | first kind x ring _ _ queued => exact ⟨queued.mem, hwaiters, id⟩
  rw [deferBufferDrop]
  split <;> exact habandon

theorem completions_deferBufferDrop (hnumbered : d.ring.Numbered) {c : IoUringOperationCompletion}
    (hc : (d.deferBufferDrop op b).completions.lookup op' = some c) :
    d.completions.lookup op' = some c := by
  rw [deferBufferDrop] at hc
  split at hc <;> exact (abandons_abandonOperation hnumbered op).lookup_completions hc

theorem Kept.deferBufferDrop (h : Kept cells released g d) (hdistinct : Distinct cells)
    (hq : QueuedOn cells g op b.addr) (hd : IsDropped cells b.addr)
    (hnone : d.deferredBuffers.lookup op = none) :
    Kept cells released g (d.deferBufferDrop op b) := by
  have habandoned := h.abandon hdistinct hq hd
  rw [IoUringDispatcher.deferBufferDrop]
  split
  · rw [(abandons_abandonOperation h.numbered op).buffers.1, hnone, toList_none, append_nil]
    exact { habandoned with
      deferred := by
        intro op' b' hb
        obtain ⟨rfl, rfl⟩ | ⟨_, hb⟩ := lookup_insert_eq_some.mp hb
        · exact ⟨hq, hd⟩
        · exact h.deferred op' b' hb }
  next hnot =>
    have huntracked : op ∉ (d.abandonOperation op).ring.operations := by
      simpa [IoUring.isOperationTracked] using hnot
    exact { habandoned with
      freed := by
        intro b' hb
        rcases mem_append.mp hb with hb | hb
        · exact habandoned.freed b' hb
        · rw [mem_singleton.mp hb]
          exact .inr ⟨hd, op, hq⟩
      untracked := by
        rintro op' f hq' (hrel | ⟨b', hb, rfl⟩)
        · exact habandoned.untracked op' f hq' (.inl hrel)
        · rcases mem_append.mp hb with hb | hb
          · exact habandoned.untracked op' _ hq' (.inr ⟨b', hb, rfl⟩)
          · cases mem_singleton.mp hb
            exact (hq'.unique hq).2 ▸ huntracked }

theorem deferBufferDrop_unknown (b : Buffer) (hc : op ∉ d.completions)
    (ht : op ∉ d.ring.operations) :
    d.deferBufferDrop op b = { d.clearWaker op with freed := d.freed ++ [b] } := by
  have habandon : d.abandonOperation op = d.clearWaker op := by
    rw [abandonOperation]
    dsimp only
    rw [if_neg (show op ∉ (d.clearWaker op).completions from hc)]
    have hkind : (d.clearWaker op).ring.operationKind op = none := lookup_eq_none.mpr ht
    rw [hkind]
  have htracked : ¬ (d.clearWaker op).ring.isOperationTracked op = true := fun htrue =>
    ht (of_decide_eq_true htrue)
  rw [deferBufferDrop, habandon, if_neg htracked]
  rfl

theorem Kept.giveBack (h : Kept cells released g d) (hb : released b.addr) (op : Nat) :
    Kept cells released g { d.clearWaker op with freed := d.freed ++ [b] } :=
  { h with
    freed := by
      intro b' hb'
      rcases mem_append.mp hb' with hb' | hb'
      · exact h.freed b' hb'
      · exact .inl (mem_singleton.mp hb' ▸ hb)
    untracked := by
      rintro op' f hq (hrel | ⟨b', hb', rfl⟩)
      · exact h.untracked op' f hq (.inl hrel)
      · rcases mem_append.mp hb' with hb' | hb'
        · exact h.untracked op' _ hq (.inr ⟨b', hb', rfl⟩)
        · exact h.untracked op' _ hq (.inl (mem_singleton.mp hb' ▸ hb)) }

end Dispatcher
end Sitas.Executor.Uring
