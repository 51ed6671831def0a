import Sitas.Executor.UringAttempts

namespace Sitas.Executor.Uring
open Sitas.Lib Sitas.Os.Uring List Function Threads Option

namespace Threads

def Released (s : Threads) (f : Nat) : Prop :=
  (∃ b ∈ s.freed, b.addr = f) ∨ ∃ g d, s.dispatchers g = some d ∧ ∃ b ∈ d.freed, b.addr = f

/-- The buffer is in nobody's hands and no operation of its future is in flight. -/
def Loose (s : Threads) (f : Nat) : Prop :=
  ∃ cell, s.futures f = some cell ∧ cell.future.buffer = none ∧
    ∀ g op d, cell.queued = some (g, op) → s.dispatchers g = some d → op ∉ d.ring.operations

end Threads

structure Proper (released : Nat → Prop) (f : Nat) (cell : FutureCell) : Prop where
  operation : ∀ op, cell.future.operation = some op → ∃ g, cell.queued = some (g, op)
  unqueued : ∀ b, cell.future.buffer = some b → cell.future.operation = none → cell.queued = none
  buffer : ∀ b, cell.future.buffer = some b → b.addr = f ∧ ¬ released f ∧ cell.dropped = false

structure Sound (s : Threads) : Prop where
  kept : ∀ g d, s.dispatchers g = some d → Kept s.futures s.Released g d
  created : ∀ g d, s.dispatchers g = some d → g < s.created
  home : ∀ g op f, QueuedOn s.futures g op f → ∃ d, s.dispatchers g = some d
  distinct : Distinct s.futures
  released : ∀ f, s.Released f → ∃ cell, s.futures f = some cell
  proper : ∀ f cell, s.futures f = some cell → Proper s.Released f cell

theorem Proper.mono {released released' : Nat → Prop} {f : Nat} {cell : FutureCell}
    (h : Proper released f cell) (hle : ∀ b, cell.future.buffer = some b → cell.dropped = false →
      released' f → released f) : Proper released' f cell := by
  refine { h with buffer := fun b hb => ?_ }
  obtain ⟨haddr, hnot, halive⟩ := h.buffer b hb
  exact ⟨haddr, mt (hle b hb halive) hnot, halive⟩

theorem dispatchers_setDispatcher {s : Threads} {g g' : Nat} {d d' : IoUringDispatcher} :
    (s.setDispatcher g d).dispatchers g' = some d' ↔
      g' = g ∧ d' = d ∨ g' ≠ g ∧ s.dispatchers g' = some d' := by
  by_cases heq : g' = g
  · simp [setDispatcher, heq, eq_comm]
  · simp [setDispatcher, heq]

theorem exists_setDispatcher {s : Threads} {g g' : Nat} {d : IoUringDispatcher}
    (h : ∃ d, s.dispatchers g' = some d) : ∃ d', (s.setDispatcher g d).dispatchers g' = some d' := by
  obtain ⟨d', hd'⟩ := h
  by_cases heq : g' = g
  · exact ⟨d, dispatchers_setDispatcher.mpr (.inl ⟨heq, rfl⟩)⟩
  · exact ⟨d', dispatchers_setDispatcher.mpr (.inr ⟨heq, hd'⟩)⟩

section Update
variable {cells : Nat → Option FutureCell} {f g op x : Nat} {cell : FutureCell}

theorem queuedOn_update_self :
    QueuedOn (update cells f (some cell)) g op f ↔ cell.queued = some (g, op) := by
  simp [QueuedOn]

theorem queuedOn_update_ne (hne : x ≠ f) :
    QueuedOn (update cells f (some cell)) g op x ↔ QueuedOn cells g op x := by
  simp [QueuedOn, update_of_ne hne]

theorem isDropped_update_ne (hne : x ≠ f) :
    IsDropped (update cells f (some cell)) x ↔ IsDropped cells x := by
  simp [IsDropped, update_of_ne hne]

theorem waits_update_ne (hne : x ≠ f) : Waits (update cells f (some cell)) x ↔ Waits cells x := by
  simp [Waits, update_of_ne hne]

end Update

namespace Sound
variable {s : Threads} {f g : Nat} {cell cell' : FutureCell} {d d' : IoUringDispatcher}

theorem sound_new : Sound .new where
  kept g d hd := by cases hd
  created g d hd := by cases hd
  home := by rintro g op f ⟨cell, hcell, _⟩; cases hcell
  distinct := by rintro g op f f' ⟨cell, hcell, _⟩; cases hcell
  released := by
    rintro f (⟨b, hb, _⟩ | ⟨g, d, hd, _⟩)
    · cases hb
    · cases hd
  proper f cell hcell := by cases hcell

theorem congr {s' : Threads} (h : Sound s) (hdispatchers : s'.dispatchers = s.dispatchers)
    (hcreated : s'.created = s.created) (hfutures : s'.futures = s.futures)
    (hfreed : s'.freed = s.freed) : Sound s' := by
  obtain ⟨⟩ := s
  obtain ⟨⟩ := s'
  cases hdispatchers
  cases hcreated
  cases hfutures
  cases hfreed
  exact ⟨h.kept, h.created, h.home, h.distinct, h.released, h.proper⟩

theorem released_setDispatcher {x : Nat} (hx : (s.setDispatcher g d').Released x) :
    s.Released x ∨ ∃ b ∈ d'.freed, b.addr = x := by
  rcases hx with hx | ⟨g', d, hd, hx⟩
  · exact .inl (.inl hx)
  · rcases dispatchers_setDispatcher.mp hd with ⟨rfl, rfl⟩ | ⟨_, hd⟩
    · exact .inr hx
    · exact .inl (.inr ⟨g', d, hd, hx⟩)

section
variable (h : Sound s)
include h

theorem setDispatcher {released : Nat → Prop} (hd : s.dispatchers g = some d)
    (hk : Kept s.futures released g d') (hle : ∀ x, s.Released x → released x)
    (hloose : ∀ x, released x → s.Released x ∨ s.Loose x) : Sound (s.setDispatcher g d') := by
  have hnew : ∀ x, (s.setDispatcher g d').Released x → s.Released x ∨ s.Loose x ∨
      IsDropped s.futures x ∧ ∃ op, QueuedOn s.futures g op x := by
    intro x hx
    rcases released_setDispatcher hx with hx | ⟨b, hb, rfl⟩
    · exact .inl hx
    · rcases hk.freed b hb with hrel | hdropped
      · exact (hloose _ hrel).imp_right .inl
      · exact .inr (.inr hdropped)
  refine ⟨fun g' d'' hd'' => ?_, fun g' d'' hd'' => ?_, fun g' op f hq => ?_, h.distinct,
    fun x hx => ?_, fun x cell hcell => ?_⟩
  · rcases dispatchers_setDispatcher.mp hd'' with ⟨rfl, rfl⟩ | ⟨hne, hold⟩
    · refine hk.release (fun x hx => ?_) fun b hb => .inr ⟨g', d'', hd'', b, hb, rfl⟩
      exact (released_setDispatcher hx).imp (hle x) .inl
    · refine (h.kept g' d'' hold).release (fun x hx => ?_) fun b hb =>
        .inr ⟨g', d'', hd'', b, hb, rfl⟩
      rcases hnew x hx with hrel | ⟨cell, hcell, _, hfree⟩ | ⟨_, op, hq⟩
      · exact .inl hrel
      · refine .inr (.inr fun op hq => ?_)
        obtain ⟨cell', hcell', hqueued⟩ := hq
        cases hcell.symm.trans hcell'
        exact hfree g' op d'' hqueued hold
      · exact .inr (.inr fun op' hq' => absurd (hq'.unique hq).1 hne)
  · rcases dispatchers_setDispatcher.mp hd'' with ⟨rfl, _⟩ | ⟨_, hold⟩
    · exact h.created g' d hd
    · exact h.created g' d'' hold
  · exact exists_setDispatcher (h.home g' op f hq)
  · rcases hnew x hx with hrel | ⟨cell, hcell, _⟩ | ⟨⟨cell, hcell, _⟩, _⟩
    · exact h.released x hrel
    · exact ⟨cell, hcell⟩
    · exact ⟨cell, hcell⟩
  · refine (h.proper x cell hcell).mono fun b hb halive hx => ?_
    rcases hnew x hx with hrel | ⟨cell', hcell', hnone, _⟩ | ⟨⟨cell', hcell', hdropped⟩, _⟩
    · exact hrel
    · cases hcell.symm.trans hcell'
      cases hb.symm.trans hnone
    · cases hcell.symm.trans hcell'
      cases halive.symm.trans hdropped

theorem keep (hd : s.dispatchers g = some d) (hk : Kept s.futures s.Released g d') :
    Sound (s.setDispatcher g d') :=
  h.setDispatcher hd hk (fun _ => id) fun _ => .inl

theorem setFuture (hqueued : ∀ g op, cell.queued = some (g, op) ↔ QueuedOn s.futures g op f)
    (hdropped : IsDropped s.futures f → cell.dropped = true)
    (hwaits : cell.queued ≠ none → cell.resolution = none → cell.dropped = false →
      Waits s.futures f) (hproper : Proper s.Released f cell) : Sound (s.setFuture f cell) := by
  have hq : ∀ g op x, QueuedOn (s.setFuture f cell).futures g op x ↔ QueuedOn s.futures g op x := by
    intro g op x
    by_cases heq : x = f
    · subst heq
      exact queuedOn_update_self.trans (hqueued g op)
    · exact queuedOn_update_ne heq
  refine ⟨fun g d hd => ?_, h.created, fun g op x hx => h.home g op x ((hq g op x).mp hx),
    fun g op x x' hx hx' => h.distinct g op x x' ((hq g op x).mp hx) ((hq g op x').mp hx'),
    fun x hx => ?_, fun x cell' hx => ?_⟩
  · refine (h.kept g d hd).congr (hq g) (fun x hx => ?_) fun op x hop hx => ?_
    · by_cases heq : x = f
      · subst heq
        exact ⟨cell, update_self .., hdropped hx⟩
      · exact (isDropped_update_ne heq).mpr hx
    · by_cases heq : x = f
      · subst heq
        obtain ⟨cell', hcell', hres, hd'⟩ := hx
        cases (update_self ..).symm.trans hcell'
        refine hwaits (fun hnone => ?_) hres hd'
        cases hnone.symm.trans (queuedOn_update_self.mp hop)
      · exact (waits_update_ne heq).mp hx
  · by_cases heq : x = f
    · subst heq
      exact ⟨cell, update_self ..⟩
    · obtain ⟨cell', hcell'⟩ := h.released x hx
      exact ⟨cell', (update_of_ne heq ..).trans hcell'⟩
  · obtain ⟨rfl, rfl⟩ | ⟨_, hx⟩ := update_eq_some.mp hx
    · exact hproper
    · exact h.proper x cell' hx

theorem change (hcell : s.futures f = some cell) (cell' : FutureCell)
    (hqueued : cell'.queued = cell.queued) (hdropped : cell.dropped = true → cell'.dropped = true)
    (hwaits : cell'.resolution = none → cell'.dropped = false →
      cell.resolution = none ∧ cell.dropped = false) (hproper : Proper s.Released f cell') :
    Sound (s.setFuture f cell') := by
  refine h.setFuture (fun g op => ?_) ?_ (fun _ hres hd => ⟨cell, hcell, hwaits hres hd⟩) hproper
  · simp [QueuedOn, hcell, hqueued]
  · rintro ⟨cell₀, hcell₀, hd⟩
    cases hcell.symm.trans hcell₀
    exact hdropped hd

theorem free {b : Buffer} (hloose : s.Loose b.addr) : Sound { s with freed := s.freed ++ [b] } := by
  obtain ⟨cell₀, hcell₀, hnone, hfree⟩ := hloose
  have hnew : ∀ x, Released { s with freed := s.freed ++ [b] } x → s.Released x ∨ x = b.addr := by
    rintro x (⟨b', hb', rfl⟩ | hx)
    · rcases mem_append.mp hb' with hb' | hb'
      · exact .inl (.inl ⟨b', hb', rfl⟩)
      · exact .inr (mem_singleton.mp hb' ▸ rfl)
    · exact .inl (.inr hx)
  refine ⟨fun g d hd => ?_, h.created, h.home, h.distinct, fun x hx => ?_, fun x cell hcell => ?_⟩
  · refine (h.kept g d hd).release (fun x hx => ?_) fun b hb => .inr ⟨g, d, hd, b, hb, rfl⟩
    rcases hnew x hx with hrel | rfl
    · exact .inl hrel
    · refine .inr (.inr fun op ⟨cell, hcell, hqueued⟩ => ?_)
      cases hcell₀.symm.trans hcell
      exact hfree g op d hqueued hd
  · rcases hnew x hx with hrel | rfl
    · exact h.released x hrel
    · exact ⟨cell₀, hcell₀⟩
  · refine (h.proper x cell hcell).mono fun b' hb' _ hx => ?_
    rcases hnew x hx with hrel | rfl
    · exact hrel
    · cases hcell₀.symm.trans hcell
      cases hb'.symm.trans hnone

theorem queue (hcell : s.futures f = some cell) {b : Buffer} (hbuffer : cell.future.buffer = some b)
    (hunqueued : cell.future.operation = none) (hd : s.dispatchers g = some d)
    {kind : IoUringOperationKind} {op : Nat} {ring : IoUring}
    (houtcome : d.ring.Queued kind (.ok op, ring)) (hplain : subjectOf op kind = op) :
    Sound ((s.setDispatcher g { d with ring := ring }).setFuture f { cell with
      future := { cell.future with operation := some op }, queued := some (g, op) }) := by
  have hp := h.proper f cell hcell
  have hnone := hp.unqueued b hbuffer hunqueued
  obtain ⟨haddr, hheld, halive⟩ := hp.buffer b hbuffer
  have hfresh : op = operationUserDataBase + d.ring.nextOperation := by cases houtcome; rfl
  have hne : ∀ {g' op' x}, QueuedOn s.futures g' op' x → x ≠ f := by
    rintro g' op' x ⟨cell', hcell', hq⟩ rfl
    cases hcell.symm.trans hcell'
    cases hnone.symm.trans hq
  have hreleased : ∀ x, (s.setDispatcher g { d with ring := ring }).Released x → s.Released x :=
    fun x hx => (released_setDispatcher hx).elim id fun hx => .inr ⟨g, d, hd, hx⟩
  have hinv : ∀ {g' op' x}, QueuedOn ((s.setDispatcher g { d with ring := ring }).setFuture f
      { cell with
        future := { cell.future with operation := some op }, queued := some (g, op) }).futures
      g' op' x → QueuedOn s.futures g' op' x ∨ g' = g ∧ op' = op ∧ x = f := by
    intro g' op' x hq
    by_cases heq : x = f
    · subst heq
      cases queuedOn_update_self.mp hq
      exact .inr ⟨rfl, rfl, rfl⟩
    · exact .inl ((queuedOn_update_ne heq).mp hq)
  have hdropped : ∀ x, IsDropped s.futures x → x ≠ f := by
    rintro x ⟨cell', hcell', hd'⟩ rfl
    cases hcell.symm.trans hcell'
    cases halive.symm.trans hd'
  refine ⟨fun g' d' hd' => ?_, fun g' d' hd' => ?_, fun g' op' x hq => ?_, fun g' op' x x' hq hq' => ?_,
    fun x hx => ?_, fun x cell' hx => ?_⟩
  · have hgrown : Kept (update s.futures f (some { cell with
        future := { cell.future with operation := some op }, queued := some (g, op) }))
        s.Released g' d' := by
      rcases dispatchers_setDispatcher.mp hd' with ⟨rfl, rfl⟩ | ⟨hother, hold⟩
      · refine (h.kept g' d hd).accepted houtcome (fun op' x hq => ?_)
          (fun op' x hq => (queuedOn_update_ne (hne hq)).mpr hq)
          (fun x hx => (isDropped_update_ne (hdropped x hx)).mpr hx)
          fun op' x hq hw => (waits_update_ne (hne hq)).mp hw
        refine (hinv hq).imp_right fun ⟨_, hop, hx⟩ => ⟨hop, hplain, hx ▸ hheld, ?_⟩
        exact fun b' hb' haddr' => hheld (.inr ⟨g', d, hd, b', hb', haddr'.trans hx⟩)
      · refine (h.kept g' d' hold).congr
          (fun op' x => ⟨fun hq => ?_, fun hq => (queuedOn_update_ne (hne hq)).mpr hq⟩)
          (fun x hx => (isDropped_update_ne (hdropped x hx)).mpr hx) fun op' x hq hw => ?_
        · exact (hinv hq).resolve_right fun heq => hother heq.1
        · have hq' := (hinv hq).resolve_right fun heq => hother heq.1
          exact (waits_update_ne (hne hq')).mp hw
    exact hgrown.release (fun x hx => .inl (hreleased x hx)) fun b' hb' =>
      .inr ⟨g', d', hd', b', hb', rfl⟩
  · rcases dispatchers_setDispatcher.mp hd' with ⟨rfl, _⟩ | ⟨_, hold⟩
    · exact h.created g' d hd
    · exact h.created g' d' hold
  · refine exists_setDispatcher ?_
    rcases hinv hq with hq | ⟨rfl, _⟩
    · exact h.home g' op' x hq
    · exact ⟨d, hd⟩
  · have hnew : ∀ x, ¬ QueuedOn s.futures g op x := fun x hx =>
      Nat.lt_irrefl _ (hfresh ▸ (h.kept g d hd).queued op x hx)
    rcases hinv hq with hold | ⟨rfl, rfl, rfl⟩
    · rcases hinv hq' with hold' | ⟨rfl, rfl, rfl⟩
      · exact h.distinct g' op' x x' hold hold'
      · exact absurd hold (hnew x)
    · rcases hinv hq' with hold' | ⟨_, _, rfl⟩
      · exact absurd hold' (hnew x')
      · rfl
  · by_cases heq : x = f
    · subst heq
      exact ⟨_, update_self ..⟩
    · obtain ⟨cell', hcell'⟩ := h.released x (hreleased x hx)
      exact ⟨cell', (update_of_ne heq ..).trans hcell'⟩
  · obtain ⟨rfl, rfl⟩ | ⟨_, hx⟩ := update_eq_some.mp hx
    · refine ⟨fun op' hop => ?_, fun _ _ hop => ?_, fun b' hb' => ?_⟩
      · cases hop
        exact ⟨g, rfl⟩
      · cases hop
      · cases hbuffer.symm.trans hb'
        exact ⟨haddr, fun hx => hheld (hreleased x hx), halive⟩
    · exact (h.proper x cell' hx).mono fun _ _ _ => hreleased x

theorem setCurrent (thread : Nat) (c : Option CurrentIoUring) : Sound (s.setCurrent thread c) :=
  h.congr rfl rfl rfl rfl

theorem wakeAll (woken : List Nat) : Sound (s.wakeAll woken) :=
  h.congr rfl rfl rfl rfl

theorem install (thread owner entries : Nat) :
    Sound (s.install thread owner (some (.new entries))) := by
  have hreleased : ∀ x, (s.install thread owner (some (.new entries))).Released x → s.Released x := by
    intro x hx
    refine (released_setDispatcher (s := s) (x := x) hx).elim id ?_
    rintro ⟨b, hb, _⟩
    cases hb
  refine ⟨fun g d hd => ?_, fun g d hd => ?_, fun g op x hq => ?_, h.distinct,
    fun x hx => h.released x (hreleased x hx), fun x cell hcell => ?_⟩
  · have hkept : Kept s.futures s.Released g d := by
      rcases dispatchers_setDispatcher.mp hd with ⟨rfl, rfl⟩ | ⟨_, hold⟩
      · refine kept_new entries fun op f hq => ?_
        obtain ⟨d, hd⟩ := h.home _ op f hq
        exact Nat.lt_irrefl _ (h.created _ d hd)
      · exact h.kept g d hold
    exact hkept.release (fun x hx => .inl (hreleased x hx)) fun b hb => .inr ⟨g, d, hd, b, hb, rfl⟩
  · rcases dispatchers_setDispatcher.mp hd with ⟨rfl, _⟩ | ⟨_, hold⟩
    · exact Nat.lt_succ_self _
    · exact Nat.lt_succ_of_lt (h.created g d hold)
  · exact exists_setDispatcher (h.home g op x hq)
  · exact (h.proper x cell hcell).mono fun _ _ _ => hreleased x

end

end Sound

end Sitas.Executor.Uring
