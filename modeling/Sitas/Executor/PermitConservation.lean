import Sitas.Executor.FutureDrops
import Sitas.Executor.GuardCount

namespace Sitas.Executor.Permits
open Sitas.Lib Interleaving Backpressure List Option Function Executing

section Ledger
variable {F W : Type}

def reserves : Access (Wrapped F) → Bool
  | .allocateTask w _ _ => w.permit
  | _ => false

def reserved (exec : Executing (Wrapped F)) : Nat := (Calls.due exec.calls).countP reserves

/-- The permits a task holds and how often its future was dropped, from whether it has ended, was
spawned with a permit and was freed. -/
def tally : Option Bool → Bool → Bool → Nat × Nat
  | some ended, true, freed => if ended || freed then (0, 1) else (1, 0)
  | _, _, _ => (0, 0)

/-- The permits are those of their owners, and every task has its own. -/
structure Tallied (s : Backpressured F W) (ended : Nat → Option Bool) (spawning : Nat) : Prop where
  total : s.owners.length = s.guard.permits
  spawning : s.owners.count .spawning = spawning
  freed : ∀ id ∈ s.freed, ended id ≠ none
  tasks : ∀ id, (s.owners.count (.task id), s.dropped.count id) =
    tally (ended id) (s.backed id) (s.freed.contains id)

variable {s : Backpressured F W} {ended : Nat → Option Bool} {n id : Nat}

theorem Tallied.not_freed (h : Tallied s ended n) (hid : ended id = none) : id ∉ s.freed :=
  fun hmem => h.freed id hmem hid

private theorem length_exchange {owners : List Owner} {x y : Owner} (hx : x ∈ owners) :
    (owners.erase x ++ [y]).length = owners.length := by
  have hpos := length_pos_of_mem hx
  rw [length_append, length_erase_of_mem hx, length_singleton]
  omega

theorem Tallied.allocate (h : Tallied s ended n) (hid : ended id = none) (w : Wrapped F)
    (hpos : w.permit = true → 0 < n) :
    Tallied (s.allocate id w) (update ended id (some false)) (n - w.permit.toNat) := by
  obtain ⟨hheld, hdropped⟩ := Prod.mk.inj ((h.tasks id).trans (congrArg (tally · _ _) hid))
  have hfreed := h.not_freed hid
  have hkept : ∀ i ∈ s.freed, update ended id (some false) i ≠ none := by
    intro i hi
    rw [update_apply]
    split
    · exact some_ne_none _
    · exact h.freed i hi
  obtain ⟨permit, future⟩ := w
  cases permit with
  | false =>
    refine ⟨h.total, h.spawning, hkept, fun i => ?_⟩
    by_cases hi : i = id
    · simp [Backpressured.allocate, hi, hheld, hdropped, tally]
    · simpa [Backpressured.allocate, hi] using h.tasks i
  | true =>
    have hmem : Owner.spawning ∈ s.owners := by
      rw [← count_pos_iff, h.spawning]
      exact hpos rfl
    refine ⟨(length_exchange hmem).trans h.total, ?_, hkept, fun i => ?_⟩
    · simp [Backpressured.allocate, h.spawning]
    · have htask := h.tasks i
      by_cases hi : i = id
      · simp [Backpressured.allocate, hi, hheld, hdropped, hfreed, tally]
      · simpa [Backpressured.allocate, hi, Ne.symm hi] using h.tasks i

theorem Tallied.lose (h : Tallied s ended n) (hid : ended id = some false) :
    Tallied (s.lose id) (update ended id (some true)) n := by
  have hkept : ∀ i ∈ s.freed, update ended id (some true) i ≠ none := by
    intro i hi
    rw [update_apply]
    split
    · exact some_ne_none _
    · exact h.freed i hi
  have htask := h.tasks id
  rw [hid] at htask
  unfold Backpressured.lose
  split
  next hcond =>
    simp only [Bool.and_eq_true, Bool.not_eq_true'] at hcond
    obtain ⟨hbacked, hfreed⟩ := hcond
    rw [hbacked, hfreed] at htask
    obtain ⟨hheld, hdropped⟩ := Prod.mk.inj htask
    have hmem : Owner.task id ∈ s.owners := count_pos_iff.mp (by rw [hheld]; exact Nat.one_pos)
    refine ⟨(length_exchange hmem).trans h.total, ?_, hkept, fun i => ?_⟩
    · simp [h.spawning]
    · by_cases hi : i = id
      · simp [hi, hheld, hdropped, hbacked, tally]
      · simpa [hi, Ne.symm hi, count_singleton] using h.tasks i
  next hcond =>
    refine ⟨h.total, h.spawning, hkept, fun i => ?_⟩
    by_cases hi : i = id
    · subst hi
      rw [htask, update_self]
      cases hbacked : s.backed i <;> by_cases hfreed : i ∈ s.freed <;>
        simp [hbacked, hfreed, tally] at hcond ⊢
    · rw [update_of_ne hi]
      exact h.tasks i

theorem Tallied.forget {ended' : Nat → Option Bool} (h : Tallied s ended n)
    (hid : ended id = some true) (hsame : ∀ i, i ≠ id → ended' i = ended i)
    (hsome : ended' id ≠ none) : Tallied { s with freed := id :: s.freed } ended' n := by
  refine ⟨h.total, h.spawning, fun i hi => ?_, fun i => ?_⟩
  · by_cases heq : i = id
    · exact heq ▸ hsome
    · rw [hsame i heq]
      exact h.freed i ((mem_cons.mp hi).resolve_left heq)
  · by_cases heq : i = id
    · obtain ⟨b, hb⟩ := ne_none_iff_exists'.mp hsome
      have htask := h.tasks id
      rw [hid] at htask
      rw [heq, hb]
      cases hbacked : s.backed id <;> simpa [hbacked, tally] using htask
    · have hcontains : (id :: s.freed).contains i = s.freed.contains i := by simp [heq]
      dsimp only
      rw [hcontains, hsame i heq]
      exact h.tasks i

theorem Tallied.free (h : Tallied s s.exec.ended n) (hid : s.exec.ended id ≠ none) :
    Tallied (s.free id) s.exec.ended n := by
  unfold Backpressured.free
  by_cases hlive : s.exec.ended id = some false
  · have hlost := h.lose hlive
    simp only [hlive, beq_self_eq_true, if_true]
    exact hlost.forget (update_self ..) (fun i hi => (update_of_ne hi ..).symm) hid
  · have hended : s.exec.ended id = some true := by
      obtain ⟨b, hb⟩ := ne_none_iff_exists'.mp hid
      cases b with
      | true => exact hb
      | false => exact absurd hb hlive
    have hcond : (s.exec.ended id == some false) = false := by simp [hended]
    simp only [hcond, Bool.false_eq_true, if_false]
    exact h.forget hended (fun _ _ => rfl) hid

theorem Tallied.owners {guard : Guard W} {owners : List Owner} (h : Tallied s ended n)
    (htotal : owners.length = guard.permits)
    (hspawning : owners.count .spawning = s.owners.count .spawning)
    (htasks : ∀ id, owners.count (.task id) = s.owners.count (.task id)) :
    Tallied { s with guard, owners } ended n :=
  ⟨htotal, hspawning.trans h.spawning, h.freed, fun i => by
    dsimp only
    rw [htasks i]
    exact h.tasks i⟩

end Ledger

section Reserved
variable {F : Type} {s t : Executing (Wrapped F)} {e : Interleaving.Event (Wrapped F)}

private theorem reserved_enter (a : Access (Wrapped F)) :
    reserved (s.enter [a]) = reserved s + (reserves a).toNat := by
  cases ha : reserves a <;> simp [reserved, enter, Calls.due, ha]

theorem reserved_spawn {w : Wrapped F} {panicHandler : Option Unit} {group : Nat}
    (h : s.call (.spawn w panicHandler group) = some t) :
    reserved t = reserved s + w.permit.toNat := by
  obtain ⟨_, rfl⟩ := guarded h
  exact reserved_enter _

theorem reserved_call {c : Call (Wrapped F)} (h : s.call c = some t)
    (hc : ∀ w panicHandler group, c = .spawn w panicHandler group → w.permit = false) :
    reserved t = reserved s := by
  cases c with
  | spawn w panicHandler group => rw [reserved_spawn h, hc w panicHandler group rfl]; rfl
  | requestStop | wakeRoot root =>
    cases h
    exact reserved_enter _
  | createSchedulingGroup | wake | abort | cloneSpawner =>
    obtain ⟨_, rfl⟩ := guarded h
    exact reserved_enter _
  | dropSpawner =>
    obtain ⟨_, rfl⟩ := guarded h
    exact reserved_enter (s := { s with shared.spawners := s.shared.spawners - 1 }) _
  | dropExecutor =>
    simp only [call] at h
    split at h
    · cases h
      exact reserved_enter (s := { s with dropped := true }) _
    · cases h

/-- A task that is allocated takes the permit its spawn had reserved. -/
theorem reserved_thread {i now : Nat} {alive : Nat → Bool}
    (hst : s.step (.thread i now alive) = some t) :
    reserved s = reserved t + (s.allocation (.thread i now alive)).elim 0 (·.2.permit.toNat) := by
  obtain ⟨⟨a, rest⟩, hnext, rfl⟩ := map_eq_some_iff.mp hst
  obtain ⟨hbefore, hafter⟩ := Calls.due_perform hnext
  have hnone : (s.shared.perform now alive a).2.countP reserves = 0 := by
    rw [countP_eq_zero]
    intro b hb
    have hbegins := Shared.begins_of_mem_perform hb
    cases b <;> first | exact Bool.false_ne_true | cases hbegins
  have hcurrent : s.current (.thread i now alive) = some (a, alive) := by
    simp [current, hnext]
  have halloc : (reserves a).toNat =
      (s.allocation (.thread i now alive)).elim 0 (·.2.permit.toNat) := by
    rw [allocation, hcurrent]
    cases a <;> rfl
  simp only [reserved]
  rw [hbefore.countP_eq, (hafter _).countP_eq, countP_append, hnone, ← halloc,
    countP_cons]
  cases reserves a <;> simp

theorem reserved_step (h : Alive s) (hst : s.step e = some t)
    (hspawn : ∀ w panicHandler group, e = .call (.spawn w panicHandler group) → w.permit = false) :
    reserved s = reserved t + (s.allocation e).elim 0 (·.2.permit.toNat) := by
  cases e with
  | thread i now alive => exact reserved_thread hst
  | call c =>
    exact (reserved_call hst fun w p g hc => hspawn w p g (congrArg Interleaving.Event.call hc)).symm
  | advance now alive =>
    rw [h.allocation_advance, reserved, reserved, step_calls hst (by simp) (by simp)]
    rfl
  | start | rootPending | rootEnds | taskReturns | taskPending | taskPanics | reactor =>
    rw [reserved, reserved, step_calls hst (by simp) (by simp)]
    rfl

end Reserved

namespace Backpressured
variable {F W : Type} {s t : Backpressured F W} {n : Nat}

/-- The invariant of the guard, the executor and the permits between them. -/
structure Holding (n : Nat) (s : Backpressured F W) : Prop where
  capacity : s.guard.inner.capacity = n
  counted : s.guard.Counted
  alive : Alive s.exec
  tallied : Tallied s s.exec.ended (reserved s.exec)

theorem lose_frame (s : Backpressured F W) (id : Nat) :
    (s.lose id).guard = s.guard ∧ (s.lose id).exec = s.exec := by
  unfold lose
  split <;> exact ⟨rfl, rfl⟩

theorem free_frame (s : Backpressured F W) (id : Nat) :
    (s.free id).guard = s.guard ∧ (s.free id).exec = s.exec := by
  unfold free
  dsimp only
  split
  · exact s.lose_frame id
  · exact ⟨rfl, rfl⟩

theorem Holding.free (h : Holding n s) {id : Nat} (hid : s.exec.ended id ≠ none) :
    Holding n (s.free id) := by
  obtain ⟨hguard, hexec⟩ := s.free_frame id
  refine ⟨hguard ▸ h.capacity, hguard ▸ h.counted, hexec ▸ h.alive, ?_⟩
  rw [hexec]
  exact h.tallied.free hid

/-- The permits after an event of the executor, before a rejected task is freed. -/
theorem Holding.transfer (h : Holding n s) {e : Interleaving.Event (Wrapped F)}
    {exec : Executing (Wrapped F)} (hended : ∀ id, exec.ended id = s.exec.endedAfter e id)
    (hreserved : reserved s.exec =
      reserved exec + (s.exec.allocation e).elim 0 (·.2.permit.toNat)) :
    (s.transfer e exec).guard = s.guard ∧ (s.transfer e exec).exec = exec ∧
      Tallied (s.transfer e exec) exec.ended (reserved exec) := by
  have hbase : Tallied { s with exec } s.exec.ended (reserved s.exec) :=
    ⟨h.tallied.total, h.tallied.spawning, h.tallied.freed, h.tallied.tasks⟩
  unfold Backpressured.transfer
  cases halloc : s.exec.allocation e with
  | some a =>
    obtain ⟨id, w⟩ := a
    obtain ⟨hnone, hdrop⟩ := h.alive.ended_of_allocation halloc
    have hfun : exec.ended = update s.exec.ended id (some false) := by
      funext i
      rw [hended i, endedAfter, halloc, hdrop]
      by_cases hi : i = id
      · simp [hi]
      · simp [hi, Ne.symm hi]
    rw [halloc] at hreserved
    rw [hdrop, hfun]
    have hnew := hbase.allocate hnone w (fun hw => by simp [hreserved, hw])
    have hn : reserved s.exec - w.permit.toNat = reserved exec := by
      rw [hreserved]
      exact Nat.add_sub_cancel ..
    rw [hn] at hnew
    exact ⟨rfl, rfl, hnew⟩
  | none =>
    rw [halloc] at hreserved
    rw [hreserved] at hbase
    cases hdrop : s.exec.futureDrop e with
    | none =>
      have hfun : exec.ended = s.exec.ended := by
        funext i
        simp [hended i, endedAfter, halloc, hdrop]
      rw [hfun]
      exact ⟨rfl, rfl, hbase⟩
    | some id =>
      have hlive := h.alive.ended_of_futureDrop hdrop
      have hfun : exec.ended = update s.exec.ended id (some true) := by
        funext i
        rw [hended i, endedAfter, halloc, hdrop]
        by_cases hi : i = id
        · simp [hi, hlive]
        · simp [hi, Ne.symm hi]
      rw [hfun]
      obtain ⟨hguard, hexec⟩ := lose_frame { s with exec } id
      exact ⟨hguard, hexec, hbase.lose hlive⟩

theorem Holding.settle (h : Holding n s) {e : Interleaving.Event (Wrapped F)}
    {exec : Executing (Wrapped F)} (hadmits : s.admits e = true)
    (hst : s.exec.step e = some exec) : Holding n (s.settle e exec) := by
  obtain ⟨halive, hended⟩ := h.alive.step hst
  have hreserved := reserved_step h.alive hst fun w p g he => by
    subst he
    simpa [admits] using hadmits
  obtain ⟨hguard, hexec, htallied⟩ := h.transfer hended hreserved
  have hholding : Holding n (s.transfer e exec) := by
    refine ⟨hguard ▸ h.capacity, hguard ▸ h.counted, ?_, ?_⟩
    · rw [hexec]
      exact halive
    · rw [hexec]
      exact htallied
  unfold Backpressured.settle
  cases hrejects : s.exec.rejection e with
  | none => exact hholding
  | some id =>
    refine hholding.free ?_
    rw [hexec, hended id]
    exact endedAfter_ne_none (ended_of_rejection hrejects)

variable [DecidableEq W]

variable {guard : Guard W} {thread : Nat}

section
variable (h : Holding n s)
include h

theorem Holding.access {e : Backpressure.Event W} (hst : s.guard.step e = some guard)
    (hsame : s.guard.permitsAfter e = s.guard.permits) : Holding n { s with guard } := by
  obtain ⟨hcounted, hcapacity, hpermits⟩ := h.counted.step hst
  refine ⟨hcapacity.trans h.capacity, hcounted, h.alive, ?_⟩
  exact h.tallied.owners (h.tallied.total.trans (hpermits.trans hsame).symm) rfl fun _ => rfl

theorem Holding.dropPermit {x : Owner} (hx : x ∈ s.owners) (hspawning : x ≠ .spawning)
    (htask : ∀ id, x ≠ .task id) (hst : s.guard.step (.call thread .dropPermit) = some guard) :
    Holding n { s with guard, owners := s.owners.erase x } := by
  obtain ⟨hcounted, hcapacity, hpermits⟩ := h.counted.step hst
  refine ⟨hcapacity.trans h.capacity, hcounted, h.alive,
    h.tallied.owners ?_ ?_ fun id => ?_⟩
  · rw [length_erase_of_mem hx, h.tallied.total, hpermits]
    rfl
  · exact count_erase_of_ne hspawning.symm
  · exact count_erase_of_ne (htask id).symm

theorem Holding.gain (hst : s.guard.step (.advance thread) = some guard)
    (hgain : s.guard.acquires thread = true) :
    guard.inner.capacity = n ∧ guard.Counted ∧
      ∀ x, (s.owners ++ [x]).length = guard.permits := by
  obtain ⟨hcounted, hcapacity, hpermits⟩ := h.counted.step hst
  refine ⟨hcapacity.trans h.capacity, hcounted, fun x => ?_⟩
  simp [hpermits, Guard.permitsAfter, hgain, h.tallied.total]

theorem Holding.use {e : Backpressure.Event W} (hst : s.use e = some t) : Holding n t := by
  cases e with
  | call thread op =>
    obtain ⟨_, hst⟩ := ite_none_right_eq_some.mp hst
    cases op with
    | dropPermit =>
      obtain ⟨huser, hst⟩ := ite_none_right_eq_some.mp hst
      obtain ⟨guard, hguard, rfl⟩ := map_eq_some_iff.mp hst
      exact h.dropPermit huser (by simp) (by simp) hguard
    | tryAcquire | acquire | poll | dropAcquire =>
      obtain ⟨guard, hguard, rfl⟩ := map_eq_some_iff.mp hst
      exact h.access hguard rfl
  | advance thread =>
    obtain ⟨_, hst⟩ := ite_none_right_eq_some.mp hst
    obtain ⟨guard, hguard, rfl⟩ := map_eq_some_iff.mp hst
    cases hgain : s.guard.acquires thread with
    | false => exact h.access hguard (by simp [Guard.permitsAfter, hgain])
    | true =>
      obtain ⟨hcapacity, hcounted, htotal⟩ := h.gain hguard hgain
      refine ⟨hcapacity, hcounted, h.alive, h.tallied.owners (htotal .user) ?_ fun id => ?_⟩
      · simp
      · simp

theorem Holding.acquire (hst : s.acquire thread = some t) : Holding n t := by
  obtain ⟨r, _, hst⟩ := bind_eq_some_iff.mp hst
  obtain ⟨guard, hguard, hst⟩ := bind_eq_some_iff.mp hst
  cases hgain : s.guard.acquires thread with
  | false =>
    have haccess := h.access hguard (by simp [Guard.permitsAfter, hgain])
    have hspawns : ∀ spawns, Holding n { s with guard, spawns } := fun _ =>
      ⟨haccess.capacity, haccess.counted, haccess.alive, haccess.tallied.total,
        haccess.tallied.spawning, haccess.tallied.freed, haccess.tallied.tasks⟩
    simp only [hgain, Bool.false_eq_true, if_false] at hst
    split at hst
    · cases hst
      exact hspawns _
    · cases hst
      exact hspawns _
  | true =>
    simp only [hgain, if_true] at hst
    obtain ⟨exec, hexec, hst⟩ := bind_eq_some_iff.mp hst
    cases hst
    obtain ⟨hcapacity, hcounted, htotal⟩ := h.gain hguard hgain
    have hcall : s.exec.step (.call (.spawn ⟨true, r.future⟩ r.panicHandler r.group)) =
        some exec := hexec
    obtain ⟨halive, hended⟩ := h.alive.step hcall
    have hfun : exec.ended = s.exec.ended := by
      funext i
      simp [hended i, endedAfter, allocation, futureDrop,
        current]
    refine ⟨hcapacity, hcounted, halive, htotal .spawning, ?_, ?_, ?_⟩
    · simp [reserved_spawn hexec, h.tallied.spawning]
    · rw [hfun]
      exact h.tallied.freed
    · intro id
      rw [hfun]
      simpa using h.tallied.tasks id

theorem Holding.step {e : PermitEvent F W} (hst : s.step e = some t) : Holding n t := by
  cases e with
  | guard e => exact h.use hst
  | spawn thread r =>
    obtain ⟨_, hst⟩ := ite_none_right_eq_some.mp hst
    obtain ⟨guard, hguard, rfl⟩ := map_eq_some_iff.mp hst
    have haccess := h.access hguard rfl
    exact ⟨haccess.capacity, haccess.counted, haccess.alive, haccess.tallied.total,
      haccess.tallied.spawning, haccess.tallied.freed, haccess.tallied.tasks⟩
  | acquire thread => exact h.acquire hst
  | exec e =>
    obtain ⟨hadmits, hst⟩ := ite_none_right_eq_some.mp hst
    obtain ⟨exec, hexec, rfl⟩ := map_eq_some_iff.mp hst
    exact h.settle hadmits hexec
  | free id =>
    obtain ⟨hcond, rfl⟩ := guarded hst
    simp only [Bool.and_eq_true] at hcond
    exact h.free (isSome_iff_ne_none.mp hcond.1.1)
  | dropPermit thread =>
    obtain ⟨hcond, hst⟩ := ite_none_right_eq_some.mp hst
    obtain ⟨guard, hguard, rfl⟩ := map_eq_some_iff.mp hst
    simp only [Bool.and_eq_true, contains_iff_mem] at hcond
    exact h.dropPermit hcond.2 (by simp) (by simp) hguard

end

end Backpressured
end Sitas.Executor.Permits
