import Sitas.Os.Uring

/-! When the teardown of a dispatcher returns. Each wait of the drain is a loop around
`io_uring_enter` that only a completion or an error other than an interruption ends. -/
namespace Sitas.Os.Uring
open List Option

/-- The call that follows `k` calls, all of them answered, ends a wait for one completion:
it fails for another reason than an interruption, or it succeeds and a completion has been
posted since the wait began. -/
def EndsAfter (kernel : Kernel) : Nat → Nat → List IoUringCompletion → Prop
  | 0, n, posted => ∃ reply, kernel n = some reply ∧
      match reply.result with
      | .error errno => errno ≠ eintr
      | .ok _ => posted ++ reply.posted ≠ []
  | k + 1, n, posted => ∃ reply, kernel n = some reply ∧
      EndsAfter kernel k (n + 1) (posted ++ reply.posted)

def Answered (kernel : Kernel) (n : Nat) : Prop := ∃ k, EndsAfter kernel k n []

namespace IoUring
variable {kernel : Kernel} {n : Nat} {r : IoUring}

section Reply
variable {target submitted errno : Nat} {reply : EnterReply}

private theorem waitLoop_of_none (h : kernel n = none) (fuel : Nat) :
    waitLoop kernel target fuel n r = none := by
  cases fuel with
  | zero => rfl
  | succ fuel => rw [waitLoop, h, bind_none]

private theorem waitLoop_of_ok (h : kernel n = some reply) (hresult : reply.result = .ok submitted) :
    ∃ r' : IoUring, r'.completions = r.completions ++ (r.completionQueue ++ reply.posted) ∧
      r'.completionQueue = [] ∧ ∀ fuel, waitLoop kernel target (fuel + 1) n r =
        if target ≤ r'.completions.length then some (.ok r'.completions.length, r', n + 1)
        else waitLoop kernel target fuel (n + 1) r' := by
  refine ⟨{ r.enter reply with
    pendingSubmissions := r.pendingSubmissions - submitted }.drainCompletions, rfl, rfl, fun fuel => ?_⟩
  rw [waitLoop, h, bind_some, hresult]
  rfl

private theorem waitLoop_of_error (h : kernel n = some reply) (hresult : reply.result = .error errno)
    (fuel : Nat) : waitLoop kernel target (fuel + 1) n r =
      if errno = eintr then waitLoop kernel target fuel (n + 1) (r.enter reply)
      else some (.error (.os errno), r.enter reply, n + 1) := by
  rw [waitLoop, h, bind_some, hresult]

end Reply

theorem waitLoop_mono {target fuel : Nat} {x : Except IoError Nat × IoUring × Nat}
    (h : waitLoop kernel target fuel n r = some x) (more : Nat) :
    waitLoop kernel target (fuel + more) n r = some x := by
  induction fuel generalizing n r with
  | zero => cases h
  | succ fuel ih =>
    rw [Nat.succ_add]
    cases hreply : kernel n with
    | none =>
      rw [waitLoop_of_none hreply] at h
      cases h
    | some reply =>
      cases hresult : reply.result with
      | ok submitted =>
        obtain ⟨r', _, _, hloop⟩ := waitLoop_of_ok (r := r) hreply hresult
        rw [hloop] at h ⊢
        split at h
        next henough =>
          rwa [if_pos henough]
        next hfew =>
          rw [if_neg hfew]
          exact ih h
      | error errno =>
        rw [waitLoop_of_error hreply hresult] at h ⊢
        split at h
        next hint =>
          rw [if_pos hint]
          exact ih h
        next hint =>
          rwa [if_neg hint]

/-- A wait for one completion that begins without any returns exactly if the kernel ends
it, counting the completions already in the shared queue. -/
theorem waitLoop_returns_iff (hr : r.completions = []) :
    (∃ fuel, (waitLoop kernel 1 fuel n r).isSome = true) ↔
      ∃ k, EndsAfter kernel k n r.completionQueue := by
  constructor
  · rintro ⟨fuel, h⟩
    induction fuel generalizing n r with
    | zero => cases h
    | succ fuel ih =>
      cases hreply : kernel n with
      | none =>
        rw [waitLoop_of_none hreply] at h
        cases h
      | some reply =>
        cases hresult : reply.result with
        | ok submitted =>
          obtain ⟨r', hlocal, hqueue, hloop⟩ := waitLoop_of_ok (r := r) hreply hresult
          rw [hr, nil_append] at hlocal
          by_cases hposted : r.completionQueue ++ reply.posted = []
          · rw [hposted] at hlocal
            rw [hloop, if_neg (by rw [hlocal]; decide)] at h
            obtain ⟨k, hk⟩ := ih hlocal h
            exact ⟨k + 1, reply, hreply, by rwa [hposted, ← hqueue]⟩
          · exact ⟨0, reply, hreply, by rw [hresult]; exact hposted⟩
        | error errno =>
          rw [waitLoop_of_error hreply hresult] at h
          split at h
          · obtain ⟨k, hk⟩ := ih (r := r.enter reply) hr h
            exact ⟨k + 1, reply, hreply, hk⟩
          next hint =>
            exact ⟨0, reply, hreply, by rw [hresult]; exact hint⟩
  · rintro ⟨k, h⟩
    induction k generalizing n r with
    | zero =>
      obtain ⟨reply, hreply, hend⟩ := h
      refine ⟨1, ?_⟩
      cases hresult : reply.result with
      | ok submitted =>
        rw [hresult] at hend
        obtain ⟨r', hlocal, _, hloop⟩ := waitLoop_of_ok (r := r) hreply hresult
        rw [hr, nil_append] at hlocal
        rw [hloop, if_pos (by rw [hlocal]; exact length_pos_iff.mpr hend)]
        rfl
      | error errno =>
        rw [hresult] at hend
        rw [waitLoop_of_error hreply hresult, if_neg hend]
        rfl
    | succ k ih =>
      obtain ⟨reply, hreply, hend⟩ := h
      cases hresult : reply.result with
      | ok submitted =>
        obtain ⟨r', hlocal, hqueue, hloop⟩ := waitLoop_of_ok (r := r) hreply hresult
        rw [hr, nil_append] at hlocal
        by_cases hposted : r.completionQueue ++ reply.posted = []
        · rw [hposted] at hlocal hend
          obtain ⟨fuel, hfuel⟩ := ih hlocal (by rwa [hqueue])
          refine ⟨fuel + 1, ?_⟩
          rwa [hloop, if_neg (by rw [hlocal]; decide)]
        · refine ⟨1, ?_⟩
          rw [hloop, if_pos (by rw [hlocal]; exact length_pos_iff.mpr hposted)]
          rfl
      | error errno =>
        by_cases hint : errno = eintr
        · obtain ⟨fuel, hfuel⟩ := ih (r := r.enter reply) hr hend
          refine ⟨fuel + 1, ?_⟩
          rwa [waitLoop_of_error hreply hresult, if_pos hint]
        · refine ⟨1, ?_⟩
          rw [waitLoop_of_error hreply hresult, if_neg hint]
          rfl

theorem waitCompletions_returns_iff :
    (∃ fuel, (r.waitCompletions kernel fuel n 1).isSome = true) ↔
      (r.drainCompletions.completions = [] → Answered kernel n) := by
  by_cases hlocal : r.drainCompletions.completions = []
  · have hwait : ∀ fuel, r.waitCompletions kernel fuel n 1 =
        waitLoop kernel 1 fuel n r.drainCompletions := by
      intro fuel
      rw [waitCompletions, if_neg (by decide)]
      exact if_neg (by rw [hlocal]; decide)
    simp only [hwait, waitLoop_returns_iff hlocal]
    exact ⟨fun h _ => h, fun h => h hlocal⟩
  · refine iff_of_true ⟨0, ?_⟩ fun h => absurd h hlocal
    have hwait : r.waitCompletions kernel 0 n 1 = some (.ok r.drainCompletions.completions.length,
        r.drainCompletions, n) := by
      rw [waitCompletions, if_neg (by decide)]
      exact if_pos (length_pos_iff.mpr hlocal)
    rw [hwait]
    rfl

theorem waitCompletions_mono {minComplete fuel : Nat} {x : Except IoError Nat × IoUring × Nat}
    (h : r.waitCompletions kernel fuel n minComplete = some x) (more : Nat) :
    r.waitCompletions kernel (fuel + more) n minComplete = some x := by
  rw [waitCompletions] at h ⊢
  split at h
  next hbig =>
    rwa [if_pos hbig]
  next hbig =>
    rw [if_neg hbig]
    dsimp only at h ⊢
    split at h
    next henough =>
      rwa [if_pos henough]
    next hfew =>
      rw [if_neg hfew]
      exact waitLoop_mono h more

end IoUring

namespace IoUringDispatcher
variable {kernel : Kernel} {n : Nat} {d : IoUringDispatcher}

def stops (d : IoUringDispatcher) : Bool := d.isIdle || d.ring.isIdle

/-- The states in which a drain that began in the first one makes its wait number `i`. -/
def Reached (kernel : Kernel) : Nat → IoUringDispatcher × Nat → IoUringDispatcher × Nat → Prop
  | 0, x, y => x = y
  | i + 1, x, y => x.1.stops = false ∧ ∃ fuel count z,
      x.1.waitAndDispatch kernel fuel x.2 1 = some (.ok count, z) ∧ Reached kernel i z y

/-- The kernel answers every wait that a drain with so many waits comes to. A wait that
finds a completion in the local queue needs no answer. -/
def WaitsAnswered (kernel : Kernel) (maxWaits : Nat) (d : IoUringDispatcher) (n : Nat) : Prop :=
  ∀ i < maxWaits, ∀ x, Reached kernel i (d, n) x → x.1.stops = false →
    x.1.ring.drainCompletions.completions = [] → Answered kernel x.2

theorem waitAndDispatch_returns_iff :
    (∃ fuel, (d.waitAndDispatch kernel fuel n 1).isSome = true) ↔
      (d.ring.drainCompletions.completions = [] → Answered kernel n) := by
  simp only [waitAndDispatch, isSome_map, IoUring.waitCompletions_returns_iff]

theorem waitAndDispatch_mono {fuel : Nat} {x : Except IoError Nat × IoUringDispatcher × Nat}
    (h : d.waitAndDispatch kernel fuel n 1 = some x) (more : Nat) :
    d.waitAndDispatch kernel (fuel + more) n 1 = some x := by
  obtain ⟨y, hy, rfl⟩ := map_eq_some_iff.mp h
  rw [waitAndDispatch, IoUring.waitCompletions_mono hy more]
  rfl

theorem drainLoop_mono {waits fuel : Nat} {x : Nat × IoUringDispatcher × Nat}
    (h : drainLoop kernel fuel waits n d = some x) (more : Nat) :
    drainLoop kernel (fuel + more) waits n d = some x := by
  induction waits generalizing n d x with
  | zero => exact h
  | succ waits ih =>
    rw [drainLoop] at h ⊢
    split at h
    next hstops =>
      rwa [if_pos hstops]
    next hstops =>
      rw [if_neg hstops]
      obtain ⟨⟨result, d', n'⟩, hwait, hrest⟩ := bind_eq_some_iff.mp h
      rw [waitAndDispatch_mono hwait more, bind_some]
      cases result with
      | error e => exact hrest
      | ok count =>
        obtain ⟨y, hy, heq⟩ := map_eq_some_iff.mp hrest
        exact map_eq_some_iff.mpr ⟨y, ih hy, heq⟩

theorem drainLoop_returns_iff {waits : Nat} :
    (∃ fuel, (drainLoop kernel fuel waits n d).isSome = true) ↔ WaitsAnswered kernel waits d n := by
  induction waits generalizing n d with
  | zero => exact iff_of_true ⟨0, rfl⟩ fun i hi => absurd hi (Nat.not_lt_zero i)
  | succ waits ih =>
    cases hstops : d.stops with
    | true =>
      refine iff_of_true ⟨0, ?_⟩ fun i _ x hreached hgoes _ => ?_
      · have hidle : (d.isIdle || d.ring.isIdle) = true := hstops
        rw [drainLoop, if_pos hidle]
        rfl
      · cases i with
        | zero =>
          cases hreached
          cases hstops.symm.trans hgoes
        | succ i => cases hstops.symm.trans hreached.1
    | false =>
      have hgoes : ¬ (d.isIdle || d.ring.isIdle) = true := by
        rw [show (d.isIdle || d.ring.isIdle) = false from hstops]
        exact Bool.false_ne_true
      constructor
      · rintro ⟨fuel, h⟩ i hi x hreached hx hlocal
        rw [drainLoop, if_neg hgoes] at h
        obtain ⟨y, hy⟩ := isSome_iff_exists.mp h
        obtain ⟨⟨result, z⟩, hwait, hrest⟩ := bind_eq_some_iff.mp hy
        cases i with
        | zero =>
          cases hreached
          exact waitAndDispatch_returns_iff.mp ⟨fuel, by rw [hwait]; rfl⟩ hlocal
        | succ i =>
          obtain ⟨_, fuel', count, z', hwait', hreached⟩ := hreached
          have hsame := (waitAndDispatch_mono hwait fuel').symm.trans
            (Nat.add_comm fuel' fuel ▸ waitAndDispatch_mono hwait' fuel)
          cases hsame
          obtain ⟨w, hw, _⟩ := map_eq_some_iff.mp hrest
          exact ih.mp ⟨fuel, by rw [hw]; rfl⟩ i (Nat.lt_of_succ_lt_succ hi) x hreached hx hlocal
      · intro h
        obtain ⟨fuel, hsome⟩ := waitAndDispatch_returns_iff.mpr
          (h 0 (Nat.succ_pos waits) (d, n) rfl hstops)
        obtain ⟨⟨result, d', n'⟩, hwait⟩ := isSome_iff_exists.mp hsome
        cases result with
        | error e =>
          refine ⟨fuel, ?_⟩
          rw [drainLoop, if_neg hgoes, hwait]
          rfl
        | ok count =>
          have hlater : WaitsAnswered kernel waits d' n' := fun i hi x hreached =>
            h (i + 1) (Nat.succ_lt_succ hi) x ⟨hstops, fuel, count, (d', n'), hwait, hreached⟩
          obtain ⟨fuel', hsome'⟩ := ih.mpr hlater
          obtain ⟨w, hw⟩ := isSome_iff_exists.mp hsome'
          refine ⟨fuel + fuel', ?_⟩
          rw [drainLoop, if_neg hgoes, waitAndDispatch_mono hwait fuel', bind_some]
          dsimp only
          rw [Nat.add_comm fuel, drainLoop_mono hw fuel]
          rfl

/-- `shutdown_drain` without registered wakers, and the drop of any dispatcher, return
exactly if the kernel answers every wait they come to. -/
theorem teardown_returns_iff (kernel : Kernel) (n maxWaits : Nat) (d : IoUringDispatcher)
    (hwakers : d.registeredWakers = 0) :
    ((∃ fuel, (d.shutdownDrain kernel fuel n maxWaits).isSome = true) ↔
      WaitsAnswered kernel maxWaits d.dispatchAvailable.2.2 n) ∧
    ((∃ fuel, (d.drop kernel fuel n).isSome = true) ↔
      WaitsAnswered kernel dropDrainMaxWaits d.dispatchAvailable.2.2 n) := by
  have hdrain : ∀ maxWaits fuel, (d.shutdownDrain kernel fuel n maxWaits).isSome =
      (drainLoop kernel fuel maxWaits n d.dispatchAvailable.2.2).isSome := by
    intro maxWaits fuel
    rw [shutdownDrain, if_neg (by rw [hwakers]; exact Nat.lt_irrefl 0)]
    exact isSome_map ..
  have hcleared : { d with waiters := ∅ } = d := by
    have hempty : d.waiters = ∅ := AList.ext (length_eq_zero_iff.mp hwakers)
    rw [← hempty]
  refine ⟨?_, ?_⟩
  · simp only [hdrain, drainLoop_returns_iff]
  · simp only [drop, isSome_map, hcleared, hdrain, drainLoop_returns_iff]

/-- A read in a submission queue of one entry is abandoned, so that its cancellation cannot
be queued. -/
def abandonedRead : IoUringDispatcher :=
  let (_, ring) := (IoUring.new 1).queueReadOperation 3 ⟨0, 16⟩ 0
  (new ring).deferBufferDrop operationUserDataBase ⟨0, 16⟩

/-- A kernel that completes the read lets the teardown return. -/
theorem completed_teardown_returns :
    abandonedRead.registeredWakers = 0 ∧ ∃ fuel, (abandonedRead.shutdownDrain
      (fun _ => some ⟨.ok 1, [⟨operationUserDataBase, 16, 0⟩]⟩) fuel 0 8).isSome = true :=
  ⟨rfl, (teardown_returns_iff _ 0 8 abandonedRead rfl).1.mpr
    fun _ _ _ _ _ _ => ⟨0, _, rfl, cons_ne_nil _ _⟩⟩

/-- A kernel that never completes the read keeps the teardown in its first wait. -/
theorem blocked_teardown_never_returns :
    abandonedRead.registeredWakers = 0 ∧
      (¬ ∃ fuel, (abandonedRead.shutdownDrain (fun _ => none) fuel 0 8).isSome = true) ∧
      ¬ ∃ fuel, (abandonedRead.drop (fun _ => none) fuel 0).isSome = true := by
  refine ⟨rfl, ?_, ?_⟩
  · rintro ⟨fuel, h⟩
    cases fuel <;> cases h
  · rintro ⟨fuel, h⟩
    cases fuel <;> cases h

end IoUringDispatcher
end Sitas.Os.Uring
