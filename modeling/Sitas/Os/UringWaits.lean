import Sitas.Os.UringDispatch

/-! What a wait for completions does with the queued submissions. A wait that finds enough
completions returns before it submits anything, so a raw completion in the local queue can
keep a dispatcher from ever submitting. -/
namespace Sitas.Os.Uring
open List IoUring

def accepted (kernel : Kernel) (i : Nat) : Nat :=
  (kernel i).elim 0 fun reply => reply.result.toOption.getD 0

def postedBy (kernel : Kernel) (i : Nat) : List IoUringCompletion := (kernel i).elim [] (·.posted)

def taken (kernel : Kernel) (n m : Nat) : Nat := ((range' n (m - n)).map (accepted kernel)).sum

def posted (kernel : Kernel) (n m : Nat) : List IoUringCompletion :=
  (range' n (m - n)).flatMap (postedBy kernel)

def Succeeds (kernel : Kernel) (i : Nat) : Prop := ∃ reply k, kernel i = some reply ∧ reply.result = .ok k

def Interrupted (kernel : Kernel) (i : Nat) : Prop :=
  ∃ reply, kernel i = some reply ∧ reply.result = .error eintr

/-- Of the calls from `n` on, `i` is the first that succeeds with enough completions, of which
`available` were there before, and until then none fails. -/
structure Ends (kernel : Kernel) (target available n i : Nat) : Prop where
  le : n ≤ i
  succeeds : Succeeds kernel i
  enough : target ≤ available + (posted kernel n (i + 1)).length
  before : ∀ j, n ≤ j → j < i → Interrupted kernel j ∨
    Succeeds kernel j ∧ available + (posted kernel n (j + 1)).length < target

/-- A wait that begins before the `n`-th call returns well before the `m`-th. Without a call it
does so if it finds enough completions. -/
def Returns (kernel : Kernel) (target available n m : Nat) : Prop :=
  if target ≤ available then m = n else ∃ i, m = i + 1 ∧ Ends kernel target available n i

section Calls
variable {kernel : Kernel} {target available n m i : Nat}

theorem range'_of_lt (h : n < m) : range' n (m - n) = n :: range' (n + 1) (m - (n + 1)) := by
  obtain ⟨k, rfl⟩ := Nat.exists_eq_add_of_lt h
  rw [show n + k + 1 - n = k + 1 by omega, show n + k + 1 - (n + 1) = k by omega, range'_succ]

theorem taken_of_lt (h : n < m) :
    taken kernel n m = accepted kernel n + taken kernel (n + 1) m := by
  rw [taken, range'_of_lt h, map_cons, sum_cons, taken]

theorem posted_of_lt (h : n < m) :
    posted kernel n m = postedBy kernel n ++ posted kernel (n + 1) m := by
  rw [posted, range'_of_lt h, flatMap_cons, posted]

@[simp] theorem taken_self : taken kernel n n = 0 := by simp [taken]

@[simp] theorem posted_self : posted kernel n n = [] := by simp [posted]

theorem posted_succ : posted kernel n (n + 1) = postedBy kernel n := by
  rw [posted_of_lt (Nat.lt_succ_self n), posted_self, append_nil]

theorem Succeeds.not_interrupted (h : Succeeds kernel n) : ¬ Interrupted kernel n := by
  rintro ⟨reply, hreply, herror⟩
  obtain ⟨_, _, hsome, hok⟩ := h
  cases hreply.symm.trans hsome
  cases herror.symm.trans hok

theorem Ends.answered (h : Ends kernel target available n i) :
    Interrupted kernel n ∨ Succeeds kernel n := by
  rcases Nat.eq_or_lt_of_le h.le with rfl | hlt
  · exact .inr h.succeeds
  · exact (h.before n (Nat.le_refl n) hlt).imp_right And.left

theorem ends_self_iff (hsucceeds : Succeeds kernel n)
    (henough : target ≤ available + (postedBy kernel n).length) :
    Ends kernel target available n i ↔ n = i := by
  constructor
  · intro hends
    by_contra hne
    rcases hends.before n (Nat.le_refl n) (Nat.lt_of_le_of_ne hends.le hne) with
      hinterrupted | ⟨_, hfew⟩
    · exact hsucceeds.not_interrupted hinterrupted
    · exact absurd henough (Nat.not_le_of_lt (posted_succ ▸ hfew))
  · rintro rfl
    exact ⟨Nat.le_refl n, hsucceeds, posted_succ ▸ henough,
      fun _ hle hlt => absurd hlt (Nat.not_lt_of_le hle)⟩

theorem ends_succ_iff (hfirst : Interrupted kernel n ∨
      Succeeds kernel n ∧ available + (postedBy kernel n).length < target) :
    Ends kernel target available n i ↔
      Ends kernel target (available + (postedBy kernel n).length) (n + 1) i := by
  have hposted : ∀ j, n < j → available + (posted kernel n (j + 1)).length =
      available + (postedBy kernel n).length + (posted kernel (n + 1) (j + 1)).length := by
    intro j hj
    rw [posted_of_lt (Nat.lt_succ_of_lt hj), length_append, Nat.add_assoc]
  constructor
  · rintro ⟨hle, hsucceeds, henough, hbefore⟩
    have hne : n ≠ i := by
      rintro rfl
      rcases hfirst with hinterrupted | ⟨_, hfew⟩
      · exact hsucceeds.not_interrupted hinterrupted
      · exact absurd (posted_succ ▸ henough) (Nat.not_le_of_lt hfew)
    have hlt := Nat.lt_of_le_of_ne hle hne
    refine ⟨hlt, hsucceeds, hposted i hlt ▸ henough, fun j hj hji => ?_⟩
    rw [← hposted j hj]
    exact hbefore j (Nat.le_of_succ_le hj) hji
  · rintro ⟨hle, hsucceeds, henough, hbefore⟩
    refine ⟨Nat.le_of_succ_le hle, hsucceeds, hposted i hle ▸ henough, fun j hj hji => ?_⟩
    rcases Nat.eq_or_lt_of_le hj with rfl | hj
    · rwa [posted_succ]
    · rw [hposted j hj]
      exact hbefore j hj hji

end Calls

namespace IoUring
variable {kernel : Kernel} {target fuel n m count : Nat} {r r' : IoUring}

def available (r : IoUring) : Nat := r.completions.length + r.completionQueue.length

def after (r : IoUring) (kernel : Kernel) (n m : Nat) : IoUring :=
  { r with
    submissions := r.submissions.drop (taken kernel n m)
    pendingSubmissions := r.pendingSubmissions - taken kernel n m
    completions := r.completions ++ r.completionQueue ++ posted kernel n m
    completionQueue := [] }

def Submitted (r r' : IoUring) : Prop :=
  r'.pendingSubmissions = 0 ∧
    ∃ k, r.pendingSubmissions ≤ k ∧ r'.submissions = r.submissions.drop k

theorem submitted_after_iff :
    Submitted r (r.after kernel n m) ↔ r.pendingSubmissions ≤ taken kernel n m :=
  ⟨fun h => Nat.le_of_sub_eq_zero h.1, fun h => ⟨Nat.sub_eq_zero_of_le h, _, h, rfl⟩⟩

def entered (r : IoUring) (reply : EnterReply) (submitted : Nat) : IoUring :=
  { r.enter reply with
    pendingSubmissions := (r.enter reply).pendingSubmissions - submitted }.drainCompletions

private theorem waitLoop_ok {reply : EnterReply} {k : Nat} (hreply : kernel n = some reply)
    (hresult : reply.result = .ok k) : waitLoop kernel target (fuel + 1) n r =
      if target ≤ (r.entered reply k).completions.length then
        some (.ok (r.entered reply k).completions.length, r.entered reply k, n + 1)
      else waitLoop kernel target fuel (n + 1) (r.entered reply k) := by
  rw [waitLoop, hreply, Option.bind_some, hresult]
  rfl

private theorem waitLoop_error {reply : EnterReply} {errno : Nat} (hreply : kernel n = some reply)
    (hresult : reply.result = .error errno) : waitLoop kernel target (fuel + 1) n r =
      if errno = eintr then waitLoop kernel target fuel (n + 1) (r.enter reply)
      else some (.error (.os errno), r.enter reply, n + 1) := by
  rw [waitLoop, hreply, Option.bind_some, hresult]

private theorem after_ok {reply : EnterReply} {k : Nat} (hreply : kernel n = some reply)
    (hresult : reply.result = .ok k) (hlt : n < m) :
    (r.entered reply k).after kernel (n + 1) m = r.after kernel n m := by
  have hk : accepted kernel n = k := by simp [accepted, hreply, hresult, Except.toOption]
  have hp : postedBy kernel n = reply.posted := by simp [postedBy, hreply]
  simp [after, entered, drainCompletions, enter, hresult, taken_of_lt hlt, posted_of_lt hlt, hk, hp,
    Nat.sub_sub]

private theorem after_interrupted {reply : EnterReply} (hreply : kernel n = some reply)
    (hresult : reply.result = .error eintr) (hlt : n < m) :
    (r.enter reply).after kernel (n + 1) m = r.after kernel n m := by
  have hk : accepted kernel n = 0 := by simp [accepted, hreply, hresult, Except.toOption]
  have hp : postedBy kernel n = reply.posted := by simp [postedBy, hreply]
  simp [after, enter, hresult, taken_of_lt hlt, posted_of_lt hlt, hk, hp]

private theorem exists_ends_succ_iff {t : IoUring}
    (hfirst : Interrupted kernel n ∨
      Succeeds kernel n ∧ r.available + (postedBy kernel n).length < target)
    (havailable : t.available = r.available + (postedBy kernel n).length)
    (hafter : ∀ m, n < m → t.after kernel (n + 1) m = r.after kernel n m) :
    (∃ i, m = i + 1 ∧ i < n + 1 + fuel ∧ Ends kernel target t.available (n + 1) i ∧
        r' = t.after kernel (n + 1) m ∧ count = r'.completions.length) ↔
      ∃ i, m = i + 1 ∧ i < n + (fuel + 1) ∧ Ends kernel target r.available n i ∧
        r' = r.after kernel n m ∧ count = r'.completions.length := by
  rw [havailable]
  refine exists_congr fun i => and_congr_right fun hm => ?_
  rw [ends_succ_iff hfirst, Nat.add_right_comm, Nat.add_assoc]
  refine and_congr_right fun _ => and_congr_right fun hends => ?_
  rw [hafter m (hm ▸ Nat.lt_succ_of_lt hends.le)]

/-- The loop of a wait returns well exactly with the call that ends it. -/
private theorem waitLoop_ok_iff : waitLoop kernel target fuel n r = some (.ok count, r', m) ↔
    ∃ i, m = i + 1 ∧ i < n + fuel ∧ Ends kernel target r.available n i ∧
      r' = r.after kernel n m ∧ count = r'.completions.length := by
  induction fuel generalizing n r with
  | zero =>
    refine ⟨fun h => (by cases h), ?_⟩
    rintro ⟨i, _, hlt, hends, _⟩
    exact absurd hends.le (Nat.not_le_of_lt hlt)
  | succ fuel ih =>
    cases hreply : kernel n with
    | none =>
      rw [waitLoop, hreply]
      refine ⟨fun h => (by cases h), ?_⟩
      rintro ⟨i, _, _, hends, _⟩
      rcases hends.answered with ⟨_, hsome, _⟩ | ⟨_, _, hsome, _⟩ <;> cases hreply.symm.trans hsome
    | some reply =>
      have hposted : postedBy kernel n = reply.posted := by simp [postedBy, hreply]
      cases hresult : reply.result with
      | ok k =>
        have hsucceeds : Succeeds kernel n := ⟨reply, k, hreply, hresult⟩
        have hafter := fun m => after_ok (r := r) (m := m) hreply hresult
        have hlength : (r.entered reply k).completions.length =
            r.available + (postedBy kernel n).length := by
          simp [entered, drainCompletions, enter, available, hposted, Nat.add_assoc]
        rw [waitLoop_ok hreply hresult]
        split
        next hle =>
          have hself : r.entered reply k = r.after kernel n (n + 1) := by
            rw [← hafter (n + 1) (Nat.lt_succ_self n)]
            simp [after, entered, drainCompletions]
          rw [hlength] at hle
          simp only [ends_self_iff hsucceeds hle]
          rw [hself]
          constructor
          · intro h
            cases h
            exact ⟨n, rfl, by omega, rfl, rfl, rfl⟩
          · rintro ⟨_, rfl, _, rfl, rfl, rfl⟩
            rfl
        next hlt =>
          rw [hlength] at hlt
          rw [ih]
          refine exists_ends_succ_iff (.inr ⟨hsucceeds, Nat.lt_of_not_le hlt⟩) ?_ hafter
          rw [available, hlength]
          rfl
      | error errno =>
        rw [waitLoop_error hreply hresult]
        split
        next heintr =>
          have hresult := hresult.trans (congrArg _ heintr)
          rw [ih]
          refine exists_ends_succ_iff (.inl ⟨reply, hreply, hresult⟩) ?_ fun m =>
            after_interrupted hreply hresult
          simp [available, enter, hposted, Nat.add_assoc]
        next hfails =>
          refine ⟨fun h => (by cases h), ?_⟩
          rintro ⟨i, _, _, hends, _⟩
          rcases hends.answered with ⟨_, hsome, herror⟩ | ⟨_, _, hsome, hok⟩
          · cases hreply.symm.trans hsome
            cases hresult.symm.trans herror
            exact absurd rfl hfails
          · cases hreply.symm.trans hsome
            cases hresult.symm.trans hok

theorem waitCompletions_ok_iff :
    (∃ fuel, waitCompletions kernel fuel n target r = some (.ok count, r', m)) ↔
      target ≤ u32Max ∧ Returns kernel target r.available n m ∧ r' = r.after kernel n m ∧
        count = r'.completions.length := by
  have hlength : r.drainCompletions.completions.length = r.available := by
    simp [drainCompletions, available]
  have hafter : r.drainCompletions.after kernel n m = r.after kernel n m := by
    simp [after, drainCompletions]
  have havailable : r.drainCompletions.available = r.available := by
    simp [available, drainCompletions]
  have hself : r.after kernel n n = r.drainCompletions := by
    simp [after, drainCompletions]
  by_cases hmax : u32Max < target
  · simp [waitCompletions, hmax, Nat.not_le_of_lt hmax]
  · simp only [waitCompletions, hmax, if_false, Nat.le_of_not_lt hmax, true_and, hlength, Returns]
    split
    next hle =>
      constructor
      · rintro ⟨_, h⟩
        cases h
        exact ⟨rfl, hself.symm, hlength.symm⟩
      · rintro ⟨rfl, rfl, rfl⟩
        rw [hself, hlength]
        exact ⟨0, rfl⟩
    next hlt =>
      simp only [waitLoop_ok_iff, hafter, havailable]
      constructor
      · rintro ⟨fuel, i, rfl, _, hends, hr, hcount⟩
        exact ⟨⟨i, rfl, hends⟩, hr, hcount⟩
      · rintro ⟨⟨i, rfl, hends⟩, hr, hcount⟩
        exact ⟨i + 1, i, rfl, by omega, hends, hr, hcount⟩

end IoUring

namespace IoUringDispatcher
variable {kernel : Kernel} {n m count : Nat} {d d' : IoUringDispatcher}

private theorem submissions_tryOperationCompletion (r : IoUring) :
    r.tryOperationCompletion.2.pendingSubmissions = r.pendingSubmissions ∧
      r.tryOperationCompletion.2.submissions = r.submissions := by
  rw [tryOperationCompletion]
  dsimp only
  split
  · exact ⟨rfl, rfl⟩
  · simp only [completeOperation]
    split <;> exact ⟨rfl, rfl⟩

private theorem submissions_dispatchAvailableLimit (limit : Nat) (d : IoUringDispatcher) :
    (dispatchAvailableLimit limit d).2.2.ring.pendingSubmissions = d.ring.pendingSubmissions ∧
      (dispatchAvailableLimit limit d).2.2.ring.submissions = d.ring.submissions := by
  induction limit generalizing d with
  | zero => exact ⟨rfl, rfl⟩
  | succ limit ih =>
    rw [dispatchAvailableLimit]
    have htry := submissions_tryOperationCompletion d.ring
    split
    next ring heq =>
      rw [heq] at htry
      exact htry
    next completion ring heq =>
      rw [heq] at htry
      have hrest := ih ({ d with ring := ring }.dispatch completion).2
      rw [dispatch_ring] at hrest
      exact ⟨hrest.1.trans htry.1, hrest.2.trans htry.2⟩

/-- Something is dispatched exactly if the completion of a tracked operation is available. -/
private theorem dispatches_iff {limit : Nat} (hlimit : 0 < limit) :
    0 < (dispatchAvailableLimit limit d).1 ↔
      ∃ c ∈ d.ring.completions ++ d.ring.completionQueue, c.userData ∈ d.ring.operations := by
  obtain ⟨limit, rfl⟩ := Nat.exists_eq_succ_of_ne_zero (Nat.ne_of_gt hlimit)
  constructor
  · intro hpos
    by_contra hraw
    have hnone : d.ring.drainCompletions.completions.find?
        (fun c => d.ring.drainCompletions.isOperationTracked c.userData) = none := by
      exact find?_eq_none.mpr fun c hc htracked => hraw ⟨c, hc, of_decide_eq_true htracked⟩
    simp [dispatchAvailableLimit, tryOperationCompletion, hnone] at hpos
  · rintro ⟨c, hc, htracked⟩
    have htried := d.ring.tried_tryOperationCompletion
    rw [dispatchAvailableLimit]
    generalize d.ring.tryOperationCompletion = tried at htried ⊢
    cases htried with
    | nothing same queue raw posted =>
      exact absurd (same.operations ▸ htracked) (raw c (posted ▸ hc))
    | taken => exact Nat.succ_pos _

theorem waitAndDispatch_ok_iff :
    (∃ fuel, waitAndDispatch kernel fuel n 1 d = some (.ok count, d', m)) ↔
      Returns kernel 1 d.ring.available n m ∧
        { d with ring := d.ring.after kernel n m }.dispatchAvailable.1 = count ∧
        { d with ring := d.ring.after kernel n m }.dispatchAvailable.2.2 = d' := by
  constructor
  · rintro ⟨fuel, h⟩
    obtain ⟨⟨result, ring, k⟩, hwait, heq⟩ := Option.map_eq_some_iff.mp h
    cases result with
    | error e => cases heq
    | ok completed =>
      obtain ⟨_, hreturns, rfl, _⟩ := waitCompletions_ok_iff.mp ⟨fuel, hwait⟩
      cases heq
      exact ⟨hreturns, rfl, rfl⟩
  · rintro ⟨hreturns, rfl, rfl⟩
    obtain ⟨fuel, hwait⟩ := waitCompletions_ok_iff.mpr ⟨by decide, hreturns, rfl, rfl⟩
    exact ⟨fuel, by rw [waitAndDispatch, hwait]; rfl⟩

/-- A wait for one completion that returns well has submitted everything and dispatched a
tracked completion. -/
def Progresses (kernel : Kernel) (n : Nat) (d : IoUringDispatcher) : Prop :=
  ∀ fuel count d' m, waitAndDispatch kernel fuel n 1 d = some (.ok count, d', m) →
    Submitted d.ring d'.ring ∧ 0 < count ∧ d'.ring.trackedOperations < d.ring.trackedOperations

private theorem submitted_dispatchAvailable_iff :
    Submitted d.ring { d with ring := d.ring.after kernel n m }.dispatchAvailable.2.2.ring ↔
      d.ring.pendingSubmissions ≤ taken kernel n m := by
  obtain ⟨hpending, hsubmissions⟩ :=
    submissions_dispatchAvailableLimit usizeMax { d with ring := d.ring.after kernel n m }
  rw [← submitted_after_iff, Submitted, Submitted, dispatchAvailable, hpending, hsubmissions]

theorem progresses_iff : Progresses kernel n d ↔
    ∀ m, Returns kernel 1 d.ring.available n m →
      d.ring.pendingSubmissions ≤ taken kernel n m ∧
      ∃ c ∈ d.ring.completions ++ d.ring.completionQueue ++ posted kernel n m,
        c.userData ∈ d.ring.operations := by
  have hpos : 0 < usizeMax := by decide
  have hdispatches : ∀ m, 0 < { d with ring := d.ring.after kernel n m }.dispatchAvailable.1 ↔
      ∃ c ∈ d.ring.completions ++ d.ring.completionQueue ++ posted kernel n m,
        c.userData ∈ d.ring.operations := by
    intro m
    rw [dispatchAvailable, dispatches_iff hpos]
    simp only [IoUring.after, append_nil]
  constructor
  · intro hprogress m hreturns
    obtain ⟨fuel, hwait⟩ := waitAndDispatch_ok_iff.mpr ⟨hreturns, rfl, rfl⟩
    obtain ⟨hsubmitted, hcount, _⟩ := hprogress fuel _ _ m hwait
    exact ⟨submitted_dispatchAvailable_iff.mp hsubmitted, (hdispatches m).mp hcount⟩
  · intro hcalls fuel count d' m hwait
    obtain ⟨hreturns, rfl, rfl⟩ := waitAndDispatch_ok_iff.mp ⟨fuel, hwait⟩
    obtain ⟨hpending, c, hc, htracked⟩ := hcalls m hreturns
    refine ⟨submitted_dispatchAvailable_iff.mpr hpending, (hdispatches m).mpr ⟨c, hc, htracked⟩, ?_⟩
    exact trackedOperations_dispatchAvailableLimit_lt
      (d := { d with ring := d.ring.after kernel n m }) hpos (mem_append_left _ hc) htracked

end IoUringDispatcher

/-- A wait that returns well has submitted everything exactly if its calls take all pending entries,
and dispatched something exactly if a tracked completion was available or is posted by them. -/
theorem waits_submit_and_dispatch_iff (kernel : Kernel) (n : Nat) :
    (∀ r minComplete, minComplete ≤ u32Max →
      ((∀ fuel count r' m,
        IoUring.waitCompletions kernel fuel n minComplete r = some (.ok count, r', m) →
        Submitted r r') ↔
      ∀ m, Returns kernel minComplete r.available n m → r.pendingSubmissions ≤ taken kernel n m)) ∧
    ∀ d, IoUringDispatcher.Progresses kernel n d ↔
      ∀ m, Returns kernel 1 d.ring.available n m →
        d.ring.pendingSubmissions ≤ taken kernel n m ∧
        ∃ c ∈ d.ring.completions ++ d.ring.completionQueue ++ posted kernel n m,
          c.userData ∈ d.ring.operations := by
  refine ⟨fun r minComplete hmax => ⟨fun hsubmits m hreturns => ?_, ?_⟩,
    fun d => IoUringDispatcher.progresses_iff⟩
  · obtain ⟨fuel, hwait⟩ := waitCompletions_ok_iff.mpr ⟨hmax, hreturns, rfl, rfl⟩
    exact submitted_after_iff.mp (hsubmits fuel _ _ m hwait)
  · intro hcalls fuel count r' m hwait
    obtain ⟨_, hreturns, rfl, _⟩ := waitCompletions_ok_iff.mp ⟨fuel, hwait⟩
    exact submitted_after_iff.mpr (hcalls m hreturns)

private def queuedNop : IoUringDispatcher := .new (IoUring.new 4).queueNopOperation.2

private def nopKernel : Kernel
  | 0 => some ⟨.error eintr, []⟩
  | 1 => some ⟨.ok 1, [⟨operationUserDataBase, 0, 0⟩]⟩
  | _ => none

/-- A queued no-op is submitted and its completion dispatched. -/
theorem queued_nop_is_dispatched :
    ∃ d', queuedNop.waitAndDispatch nopKernel 2 0 1 = some (.ok 1, d', 2) ∧
      Submitted queuedNop.ring d'.ring ∧ 0 < 1 ∧
      d'.ring.trackedOperations < queuedNop.ring.trackedOperations := by
  have hwait : ∃ d', queuedNop.waitAndDispatch nopKernel 2 0 1 = some (.ok 1, d', 2) := ⟨_, rfl⟩
  obtain ⟨d', hwait⟩ := hwait
  refine ⟨d', hwait, ((waits_submit_and_dispatch_iff nopKernel 0).2 queuedNop).mpr ?_ 2 1 d' 2 hwait⟩
  rintro m ⟨i, rfl, hends⟩
  obtain ⟨reply, k, hreply, hok⟩ := hends.succeeds
  match i with
  | 0 =>
    cases hreply
    cases hok
  | 1 => exact ⟨by decide, ⟨operationUserDataBase, 0, 0⟩, by decide, by decide⟩
  | i + 2 => cases hreply

private def rawNop : IoUring := ((IoUring.new 4).queueSqe ⟨.nop, 7⟩).2

/-- A dispatcher whose ring was used for a raw no-op before. -/
private def blockedDispatcher : IoUringDispatcher :=
  .new ({ rawNop.enter ⟨.ok 1, [⟨7, 0, 0⟩]⟩ with
    pendingSubmissions := 0 }.drainCompletions.queueNopOperation.2)

/-- With a raw completion in the local queue every wait returns at once and submits nothing. -/
theorem raw_completion_blocks_submission :
    blockedDispatcher.ring.trackedOperations = 1 ∧ blockedDispatcher.ring.pendingSubmissions = 1 ∧
    (∀ kernel fuel n, blockedDispatcher.ring.waitCompletions kernel fuel n 1 =
      some (.ok 1, blockedDispatcher.ring, n)) ∧
    ∀ kernel fuel n, blockedDispatcher.waitAndDispatch kernel fuel n 1 =
      some (.ok 0, blockedDispatcher, n) :=
  ⟨rfl, rfl, fun _ _ _ => rfl, fun _ _ _ => rfl⟩

end Sitas.Os.Uring
