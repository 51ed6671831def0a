import Sitas.Executor.Permits

namespace Sitas.Executor.Backpressure
open List Function
variable {W : Type}

def Event.thread : Event W → Nat
  | .call t _ | .advance t => t

def Pc.trying : Pc W → Bool
  | .tryLoad | .tryExchange _ => true
  | _ => false

namespace Guard

/-- A permit counts until its destructor has decremented the counter, which never
exceeds the capacity. -/
structure Counted (g : Guard W) : Prop where
  releasing : ∃ ts : List Nat, ts.Nodup ∧ (∀ t, t ∈ ts ↔ g.threads t = .releasing) ∧
    g.inner.inFlight = g.permits + ts.length
  expected : ∀ t current, (g.threads t).expects = some current → current < g.inner.capacity
  bounded : g.inner.inFlight ≤ g.inner.capacity

def permitsAfter (g : Guard W) : Event W → Nat
  | .call _ .dropPermit => g.permits - 1
  | .call _ _ => g.permits
  | .advance t => if g.acquires t then g.permits + 1 else g.permits

variable {g g' : Guard W} {t : Nat} {pc : Pc W}

section
variable (h : Counted g)
include h

theorem Counted.move (hthreads : g'.threads = update g.threads t pc)
    (hfrom : g.threads t ≠ .releasing) (hto : pc ≠ .releasing)
    (hexpects : ∀ current, pc.expects = some current → current < g.inner.capacity)
    (hcapacity : g'.inner.capacity = g.inner.capacity)
    (hcount : g'.inner.inFlight + g.permits = g.inner.inFlight + g'.permits)
    (hbound : g'.inner.inFlight ≤ g.inner.capacity) : Counted g' := by
  obtain ⟨ts, hnodup, hts, hflight⟩ := h.releasing
  refine ⟨⟨ts, hnodup, fun u => ?_, by omega⟩, fun u c hc => ?_, hcapacity ▸ hbound⟩
  · rw [hts u, hthreads]
    by_cases hu : u = t
    · subst hu
      simp [hfrom, hto]
    · rw [update_of_ne hu]
  · rw [hthreads] at hc
    rw [hcapacity]
    by_cases hu : u = t
    · rw [hu, update_self] at hc
      exact hexpects c hc
    · rw [update_of_ne hu] at hc
      exact h.expected u c hc

theorem Counted.same (hthreads : g'.threads = g.threads)
    (hcapacity : g'.inner.capacity = g.inner.capacity)
    (hflight : g'.inner.inFlight = g.inner.inFlight) (hpermits : g'.permits = g.permits) :
    Counted g' := by
  refine ⟨?_, ?_, ?_⟩
  · rw [hthreads, hflight, hpermits]
    exact h.releasing
  · rw [hthreads, hcapacity]
    exact h.expected
  · rw [hflight, hcapacity]
    exact h.bounded

theorem Counted.dropPermit (hidle : g.threads t = .idle) (hpos : 0 < g.permits) :
    Counted ({ g with permits := g.permits - 1 }.setPc t .releasing) := by
  obtain ⟨ts, hnodup, hts, hflight⟩ := h.releasing
  have hnot : t ∉ ts := by
    simp [hts t, hidle]
  refine ⟨⟨t :: ts, nodup_cons.mpr ⟨hnot, hnodup⟩, fun u => ?_, ?_⟩, fun u c hc => ?_,
    h.bounded⟩
  · by_cases hu : u = t
    · simp [setPc, hu]
    · simp [setPc, hu, hts u]
  · simp only [setPc, length_cons]
    omega
  · by_cases hu : u = t
    · simp [setPc, hu, Pc.expects] at hc
    · exact h.expected u c (by simpa [setPc, hu] using hc)

theorem Counted.release (ht : g.threads t = .releasing) :
    Counted ({ g with inner := { g.inner with inFlight := g.inner.inFlight - 1 } }.setPc t
      .draining) := by
  obtain ⟨ts, hnodup, hts, hflight⟩ := h.releasing
  have hmem : t ∈ ts := (hts t).mpr ht
  have hlength := length_erase_of_mem hmem
  have hpos := length_pos_of_mem hmem
  refine ⟨⟨ts.erase t, hnodup.erase t, fun u => ?_, ?_⟩, fun u c hc => ?_, ?_⟩
  · rw [hnodup.mem_erase_iff]
    by_cases hu : u = t
    · simp [setPc, hu]
    · simp [setPc, hu, hts u]
  · simp only [setPc]
    omega
  · by_cases hu : u = t
    · simp [setPc, hu, Pc.expects] at hc
    · exact h.expected u c (by simpa [setPc, hu] using hc)
  · have hbounded := h.bounded
    simp only [setPc]
    omega

theorem Counted.call {op : Op W} (hidle : g.threads t = .idle) (hst : g.call t op = some g') :
    Counted g' ∧ g'.inner.capacity = g.inner.capacity ∧
      g'.permits = g.permitsAfter (.call t op) := by
  have hfrom : g.threads t ≠ .releasing := by simp [hidle]
  cases op with
  | tryAcquire =>
    cases hst
    refine ⟨h.move rfl hfrom (by simp) (fun c hc => ?_) rfl rfl h.bounded, rfl, rfl⟩
    cases hc
  | acquire =>
    cases hst
    exact ⟨h.same rfl rfl rfl rfl, rfl, rfl⟩
  | poll f w =>
    simp only [Guard.call] at hst
    split at hst
    · cases hst
      refine ⟨h.move rfl hfrom (by simp) (fun c hc => ?_) rfl rfl h.bounded, rfl, rfl⟩
      cases hc
    · cases hst
  | dropPermit =>
    obtain ⟨hpos, hst⟩ := Option.ite_none_right_eq_some.mp hst
    cases hst
    exact ⟨h.dropPermit hidle hpos, rfl, rfl⟩
  | dropAcquire f =>
    simp only [Guard.call] at hst
    split at hst
    · cases hst
      exact ⟨h.same rfl rfl rfl rfl, rfl, rfl⟩
    · cases hst

theorem Counted.exchange {current : Nat} (hexpects : (g.threads t).expects = some current)
    (hflight : g.inner.inFlight = current)
    (hthreads : g'.threads = update g.threads t .idle)
    (hinner : g'.inner = { g.inner with inFlight := current + 1 })
    (hpermits : g'.permits = g.permits + 1) : Counted g' := by
  have hlt := h.expected t current hexpects
  refine h.move hthreads ?_ (by simp) (fun c hc => ?_) (by rw [hinner]) ?_ ?_
  · intro hr
    rw [hr] at hexpects
    cases hexpects
  · cases hc
  · rw [hinner, hpermits]
    dsimp only
    omega
  · rw [hinner]
    exact hlt

end

variable [DecidableEq W]

theorem Counted.advance (h : Counted g) (hst : g.advance t (g.threads t) = some g') :
    Counted g' ∧ g'.inner.capacity = g.inner.capacity ∧
      g'.permits = g.permitsAfter (.advance t) := by
  have hmove : ∀ pc : Pc W, g.threads t ≠ .releasing → pc ≠ .releasing →
      (∀ c, pc.expects = some c → c < g.inner.capacity) →
      g'.threads = update g.threads t pc → g'.inner.capacity = g.inner.capacity →
      g'.inner.inFlight = g.inner.inFlight → g'.permits = g.permits → Counted g' := by
    intro pc hfrom hto hexpects hthreads hcapacity hflight hpermits
    exact h.move hthreads hfrom hto hexpects hcapacity (by rw [hflight, hpermits])
      (hflight ▸ h.bounded)
  have hafter : ∀ pc, g.threads t = pc → pc.expects = none → g'.permits = g.permits →
      g'.permits = g.permitsAfter (.advance t) := by
    intro pc hpc hexpects hpermits
    simp [permitsAfter, acquires, hpc, hexpects, hpermits]
  cases hpc : g.threads t with
  | idle =>
    rw [hpc] at hst
    cases hst
  | tryLoad =>
    rw [hpc] at hst
    simp only [Guard.advance] at hst
    split at hst
    · cases hst
      exact ⟨hmove .idle (by simp [hpc]) (by simp) (by simp [Pc.expects]) rfl rfl rfl rfl, rfl, hafter _ hpc rfl rfl⟩
    next hroom =>
      cases hst
      refine ⟨hmove _ (by simp [hpc]) (by simp) (fun c hc => ?_) rfl rfl rfl rfl, rfl, hafter _ hpc rfl rfl⟩
      cases hc
      exact Nat.lt_of_not_le hroom
  | pollLoad f w =>
    rw [hpc] at hst
    simp only [Guard.advance] at hst
    split at hst
    next hroom =>
      cases hst
      refine ⟨hmove _ (by simp [hpc]) (by simp) (fun c hc => ?_) rfl rfl rfl rfl, rfl, hafter _ hpc rfl rfl⟩
      cases hc
      exact hroom
    · cases hst
      exact ⟨hmove (.pollRegister f w) (by simp [hpc]) (by simp) (by simp [Pc.expects]) rfl rfl rfl
        rfl, rfl, hafter _ hpc rfl rfl⟩
  | tryExchange current | pollExchange f w current =>
    rw [hpc] at hst
    simp only [Guard.advance] at hst
    split at hst
    next hflight =>
      cases hst
      refine ⟨h.exchange (by rw [hpc]; rfl) hflight rfl rfl rfl, rfl, ?_⟩
      simp [permitsAfter, acquires, hpc, Pc.expects, hflight, setPc, setFuture, take]
    next hflight =>
      cases hst
      refine ⟨hmove _ (by simp [hpc]) (by simp) (by simp [Pc.expects]) rfl rfl rfl rfl, rfl, ?_⟩
      simp [permitsAfter, acquires, hpc, Pc.expects, Ne.symm hflight, setPc]
  | releasing =>
    rw [hpc] at hst
    cases hst
    exact ⟨h.release hpc, rfl, hafter _ hpc rfl rfl⟩
  | pollRegister f w | draining =>
    rw [hpc] at hst
    cases hst
    exact ⟨hmove _ (by simp [hpc]) (by simp) (by simp [Pc.expects]) rfl rfl rfl rfl, rfl, hafter _ hpc rfl rfl⟩
  | waking ws =>
    rw [hpc] at hst
    cases ws with
    | nil | cons w ws =>
      cases hst
      exact ⟨hmove _ (by simp [hpc]) (by simp) (by simp [Pc.expects]) rfl rfl rfl rfl, rfl,
        hafter _ hpc rfl rfl⟩

theorem Counted.step {e : Event W} (h : Counted g) (hst : g.step e = some g') :
    Counted g' ∧ g'.inner.capacity = g.inner.capacity ∧ g'.permits = g.permitsAfter e := by
  cases e with
  | call t op =>
    simp only [Guard.step] at hst
    split at hst
    next hidle =>
      exact h.call hidle hst
    · cases hst
  | advance t => exact h.advance hst

theorem threads_step_of_ne {e : Event W} (hst : g.step e = some g') {u : Nat}
    (hu : u ≠ e.thread) : g'.threads u = g.threads u := by
  cases e with
  | call t op =>
    have hother : u ≠ t := hu
    simp only [Guard.step] at hst
    split at hst
    · cases op with
      | tryAcquire | acquire =>
        cases hst
        simp [setPc, setFuture, hother]
      | dropPermit =>
        obtain ⟨_, rfl⟩ := Lib.guarded hst
        simp [setPc, hother]
      | poll f w | dropAcquire f =>
        simp only [Guard.call] at hst
        split at hst
        · cases hst
          simp [setPc, setFuture, hother]
        · cases hst
    · cases hst
  | advance t =>
    have hother : u ≠ t := hu
    simp only [Guard.step] at hst
    cases hpc : g.threads t with
    | idle =>
      rw [hpc] at hst
      cases hst
    | releasing | draining | pollRegister f w =>
      rw [hpc] at hst
      cases hst
      simp [setPc, setFuture, hother]
    | tryLoad | pollLoad f w | tryExchange current | pollExchange f w current =>
      rw [hpc] at hst
      simp only [Guard.advance] at hst
      split at hst <;> cases hst <;> simp [setPc, setFuture, take, hother]
    | waking ws =>
      rw [hpc] at hst
      cases ws <;> cases hst <;> simp [setPc, hother]

end Guard
end Sitas.Executor.Backpressure
