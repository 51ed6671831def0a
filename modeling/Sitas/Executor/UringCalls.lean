import Sitas.Executor.UringPolls

/-! What becomes of io_uring operations when calls of one executor follow each other on one
thread: the dispatcher stays installed while a waker is registered and is shut down
otherwise. -/
namespace Sitas.Executor.Uring
open Sitas.Lib Sitas.Os.Uring List Function AList IoUringDispatcher Threads Option

def IsPosted (r : IoUring) (op : Nat) : Prop :=
  ∃ c ∈ r.completions ++ r.completionQueue, c.userData = op

/-- An action of the executor on its thread, of one of its futures, or of the kernel. -/
def Event.within (thread owner : Nat) : Event → Bool
  | .create .. => true
  | .enter t o .. => t == thread && o == owner
  | .leave t o .. => t == thread && o == owner
  | .poll t _ => t == thread
  | .drop t _ => t == thread
  | .dispatch t => t == thread
  | .submit t _ => t == thread
  | .post .. => true

/-- A call that ends without a registered waker leaves no completion behind, and a future
that was resolved with an error is dropped in place. -/
def Event.tidy (s : Threads) : Event → Bool
  | .leave thread .. => (s.currentDispatcher thread).all fun (_, d) =>
      decide (0 < d.registeredWakers) || d.completions.entries.isEmpty
  | .drop thread f => Event.inPlace s (.drop thread f)
  | _ => true

section Steps
variable {thread owner f op i g fuel : Nat} {who : Nat → Prop} {s t : Threads}
  {d : IoUringDispatcher} {kernel : Kernel}

section
variable (h : Steady thread owner (fun _ => True) s)
include h

theorem Steady.idle_of_tidy
    (hcur : s.currentDispatcher thread = some (i, d)) (hidle : d.registeredWakers = 0)
    (hempty : d.completions.entries = []) (hq : QueuedOn s.futures g op f) :
    ¬ Waits s.futures f := by
  intro hw
  obtain ⟨d', hd'⟩ := h.waiting_installed hq hw
  cases hcur.symm.trans hd'
  rcases (h.awaited i d hcur).awaited op f trivial hq hw with ⟨_, hwaiter⟩ | ⟨hop, _⟩
  · have hmem := mem_lookup_iff.mp hwaiter
    rw [length_eq_zero_iff.mp hidle] at hmem
    cases hmem
  · have hkeys := AList.mem_keys.mp hop
    rw [AList.keys, hempty] at hkeys
    cases hkeys

theorem Steady.leave {unwinds : Bool}
    (hok : (Event.leave thread owner unwinds kernel fuel).tidy s = true) (hsound : Sound t)
    (ht : s.leave thread owner unwinds kernel fuel = some t) :
    Steady thread owner (fun _ => True) t := by
  cases ended_leave ht with
  | kept => exact h
  | shut i d d' installed idle =>
    have hempty : d.completions.entries = [] := by
      simpa [Event.tidy, installed, idle] using hok
    have hgone : ((s.setDispatcher i d').setCurrent thread none).current thread = none :=
      update_self ..
    refine h.idle (fun g op f hq => h.idle_of_tidy installed idle hempty hq) hsound rfl
      (fun c hc => ?_) fun g d hd => ?_
    · cases hgone.symm.trans hc
    · cases (currentDispatcher_of_current_none hgone).symm.trans hd

theorem Steady.drop (hok : (Event.drop thread f).inPlace s = true) (hsound : Sound t)
    (ht : s.drop thread f = some t) : Steady thread owner (fun _ => True) t := by
  obtain ⟨cell, hcell, hrest⟩ := bind_eq_some_iff.mp ht
  have hp := h.sound.proper f cell hcell
  split at hrest
  · cases hrest
  · have hcells : ∀ {u : Threads} x cell', update s.futures f (some cell.taken) x = some cell' →
        s.futures x = some cell' ∨ Answers thread u cell' := by
      intro u x cell' hx
      refine (futures_update hx).imp_right ?_
      rintro ⟨_, rfl⟩
      refine ⟨fun g op _ _ halive => ?_, (h.cells f cell hcell).own⟩
      cases halive
    have hne : ∀ {x}, Waits (update s.futures f (some cell.taken)) x → x ≠ f := by
      rintro x ⟨cell', hcell', _, halive⟩ rfl
      cases (update_self ..).symm.trans hcell'
      cases halive
    have hsame : ∀ g d, s.currentDispatcher thread = some (g, d) →
        Awaited (update s.futures f (some cell.taken)) (fun _ => True)
          (fun x => s.woken x = true) g d := by
      intro g d hd
      refine ⟨(h.awaited g d hd).named, fun op x _ hq hw => ?_⟩
      exact (h.awaited g d hd).awaited op x trivial ((queuedOn_update_ne (hne hw)).mp hq)
        ((waits_update_ne (hne hw)).mp hw)
    dsimp only at hrest
    split at hrest
    · cases hrest
      exact h.change _ hsound rfl (fun _ => id) hcells hsame
    · cases hrest
      exact h.change _ hsound rfl (fun _ => id) hcells hsame
    next op b hop hb =>
      split at hrest
      · cases hrest
        exact h.change _ hsound rfl (fun _ => id) hcells hsame
      next i d hcur =>
        cases hrest
        obtain ⟨hd, o, hc⟩ := currentDispatcher_eq_some.mp hcur
        obtain ⟨g, hqueued⟩ := hp.operation op hop
        have hwhere : i = g ∨ s.tracks g op = false ∧ s.knows i op = false := by
          simpa [Event.inPlace, operationOf_eq hcell hop hqueued, hc] using hok
        refine h.change _ hsound rfl (fun _ => exists_setDispatcher) hcells fun g' d' hd' => ?_
        obtain ⟨rfl, rfl⟩ := currentDispatcher_replaced hcur hd' rfl (update_self ..)
        have haw := hsame _ d hcur
        have hnumbered := (h.sound.kept _ d hd).numbered
        refine ⟨fun op' c hc => haw.named op' c (completions_deferBufferDrop hnumbered hc),
          fun op' x _ hq hw => ?_⟩
        have hthere := haw.awaited op' x trivial hq hw
        have hother : op' ≠ op := by
          rintro rfl
          rcases hwhere with rfl | ⟨_, hunknown⟩
          · have hold := (queuedOn_update_ne (hne hw)).mp hq
            exact hne hw (h.sound.distinct _ _ x f hold ⟨cell, hcell, hqueued⟩)
          · have hnot : op' ∉ d.ring.operations ∧ op' ∉ d.completions := by
              simpa [knows, hd, IoUring.isOperationTracked] using hunknown
            exact hthere.elim (fun hop => hnot.1 hop.1) fun hop => hnot.2 hop.1
        obtain ⟨hring, hwaiters, hcompletions⟩ :=
          deferBufferDrop_other hnumbered hother b
        rw [hwaiters]
        exact hthere.imp (fun hkept => ⟨hring hkept.1, hkept.2⟩)
          fun hfound => ⟨hcompletions hfound.1, hfound.2⟩

theorem Steady.step {e : Event} (hwithin : e.within thread owner = true) (htidy : e.tidy s = true)
    (ht : s.step e = some t) : Steady thread owner (fun _ => True) t := by
  cases e with
  | create f transfer fd offset len => exact h.create (h.sound.step rfl ht) ht
  | enter thread' owner' setup required kernel fuel =>
    obtain ⟨rfl, rfl⟩ : thread' = thread ∧ owner' = owner := by simpa [Event.within] using hwithin
    have hsound := h.sound.step rfl ht
    obtain ⟨result, hinstall, hresult⟩ := bind_eq_some_iff.mp ht
    cases result with
    | error e => cases hresult
    | ok t' =>
      cases hresult
      exact h.enter hsound hinstall
  | leave thread' owner' unwinds kernel fuel =>
    obtain ⟨rfl, rfl⟩ : thread' = thread ∧ owner' = owner := by simpa [Event.within] using hwithin
    exact h.leave htidy (h.sound.step rfl ht) ht
  | poll thread' f =>
    obtain rfl : thread' = thread := by simpa [Event.within] using hwithin
    exact h.poll (h.sound.step (h.poll_inPlace ht) ht) ht
  | drop thread' f =>
    obtain rfl : thread' = thread := by simpa [Event.within] using hwithin
    have hinPlace : (Event.drop thread' f).inPlace s = true := htidy
    exact h.drop hinPlace (h.sound.step hinPlace ht) ht
  | dispatch thread' =>
    obtain rfl : thread' = thread := by simpa [Event.within] using hwithin
    exact h.dispatch (h.sound.step rfl ht) ht
  | submit thread' kernel =>
    obtain ⟨⟨i, d⟩, hcur, hrest⟩ := bind_eq_some_iff.mp ht
    obtain ⟨⟨result, ring, n⟩, hsubmit, rfl⟩ := map_eq_some_iff.mp hrest
    exact h.ring (currentDispatcher_eq_some.mp hcur).1 (IoUring.sameOperations_submitLoop hsubmit)
  | post i completions =>
    obtain ⟨d, hd, rfl⟩ := map_eq_some_iff.mp ht
    exact h.ring hd ⟨rfl, rfl⟩

end

/-- A poll after the completion was posted resolves the future with it. -/
theorem Steady.resolves (h : Steady thread owner who s)
    (hq : QueuedOn s.futures g op f) (hw : Waits s.futures f)
    (hcur : s.currentDispatcher thread = some (g, d))
    (hposted : IsPosted d.ring op ∨ op ∈ d.completions) :
    ∃ t cell c, s.poll thread f = some t ∧ t.futures f = some cell ∧
      cell.resolution = some (.completion g c) ∧ c.operation = op := by
  obtain ⟨hkept, haw⟩ : Kept s.futures s.Released g d.dispatchAvailable.2.2 ∧
      Awaited s.futures who (fun x => s.woken x = true ∨ x ∈ d.dispatchAvailable.2.1) g
        d.dispatchAvailable.2.2 := h.dispatchedLimit hcur usizeMax
  have hold := h.sound.kept g d (currentDispatcher_eq_some.mp hcur).1
  have hover : op ∉ d.dispatchAvailable.2.2.ring.operations := by
    intro hmem
    rcases hposted with ⟨c, hc, rfl⟩ | hop
    · obtain ⟨hqueue, hraw⟩ :=
        dispatchAvailableLimit_raw hold.numbered.trackedOperations_lt
      have hstays := posted_dispatchAvailableLimit usizeMax hc hmem
      rw [hqueue, append_nil] at hstays
      exact hraw c hstays hmem
    · exact (carried_untracked op).dispatchAvailable [] (hold.completed op hop).1 hmem
  have hop := (hkept.waiting op f hq hw).resolve_left hover
  obtain ⟨c, hc⟩ := isSome_iff_exists.mp (lookup_isSome.mpr hop)
  obtain ⟨cell, hcell, hqueued⟩ := hq
  obtain ⟨cell', hcell', hres, halive⟩ := hw
  cases hcell.symm.trans hcell'
  obtain ⟨_, hoperation, b, hb⟩ := (h.cells f cell hcell).pending g op hqueued hres halive
  obtain ⟨result, future, woken, d', hpoll⟩ : ∃ result future woken d',
      cell.future.poll d f = some (.completed c result, future, woken, d') := by
    rw [TransferAtUring.poll, TransferAtUring.ensureQueued, hoperation]
    simp only [bind_some, pollOperation_eq, hc, hb]
    cases completionResultToUsize c.result with
    | error e | ok bytes => exact ⟨_, _, _, _, rfl⟩
  refine ⟨s.polled f g (cell.queuedAs g d) (.completed c result) future woken d', _, c, ?_,
    update_self .., rfl, haw.named op c hc⟩
  simp [Threads.poll, hcell, hres, halive, hcur, hpoll]

/-- Dispatching delivers a posted completion after finitely many rounds and wakes the
future. -/
theorem Steady.wakes (h : Steady thread owner (fun _ => True) s)
    (hq : QueuedOn s.futures g op f) (hw : Waits s.futures f)
    (hcur : s.currentDispatcher thread = some (g, d)) (hposted : IsPosted d.ring op) :
    ∃ n t, run Threads.step s (List.replicate n (.dispatch thread)) = some t ∧ t.woken f = true := by
  induction hk : d.ring.trackedOperations using Nat.strong_induction_on generalizing s d with
  | _ k ih =>
    rcases (h.awaited g d hcur).awaited op f trivial hq hw with ⟨htracked, _⟩ | ⟨_, hwoken⟩
    · obtain ⟨c, hc, rfl⟩ := hposted
      have hless := trackedOperations_dispatchAvailableLimit_lt
        (show 0 < executorIoUringCompletionBudget by decide) hc htracked
      obtain ⟨t, ht, hcur', hfutures⟩ : ∃ t, s.step (.dispatch thread) = some t ∧
          t.currentDispatcher thread = some (g,
            (dispatchAvailableLimit executorIoUringCompletionBudget d).2.2) ∧
          t.futures = s.futures := by
        obtain ⟨_, o, ho⟩ := currentDispatcher_eq_some.mp hcur
        refine ⟨(s.setDispatcher g _).wakeAll
          (dispatchAvailableLimit executorIoUringCompletionBudget d).2.1, ?_,
          currentDispatcher_eq_some.mpr ⟨update_self .., o, ho⟩, rfl⟩
        simp only [Threads.step, Threads.dispatch, hcur, map_some]
      have h' : Steady thread owner (fun _ => True) t := h.step (by simp [Event.within]) rfl ht
      rw [← hfutures] at hq hw
      by_cases hin : c.userData ∈ (dispatchAvailableLimit
          executorIoUringCompletionBudget d).2.2.ring.operations
      · have hstays := posted_dispatchAvailableLimit
          executorIoUringCompletionBudget hc hin
        obtain ⟨n, t', hrun, hwoken⟩ := ih _ (hk ▸ hless) h' hq hw hcur' ⟨c, hstays, rfl⟩ rfl
        refine ⟨n + 1, t', ?_, hwoken⟩
        rw [replicate_succ, run, ht]
        exact hrun
      · refine ⟨1, t, ?_, ?_⟩
        · rw [replicate_succ, run, ht]
          rfl
        · rcases (h'.awaited g _ hcur').awaited _ f trivial hq hw with ⟨hop, _⟩ | ⟨_, hwoken⟩
          · exact absurd hop hin
          · exact hwoken
    · exact ⟨0, s, rfl, hwoken⟩

end Steps

/-- A queued operation is followed through to its own future. -/
structure Survives (thread : Nat) (s : Threads) : Prop where
  /-- A future is only ever resolved with the completion of its own operation. -/
  own : ∀ f cell g c, s.futures f = some cell → cell.resolution = some (.completion g c) →
    cell.queued = some (g, c.operation)
  /-- While the future waits, the dispatcher it was queued on stays installed. -/
  pending : ∀ g op f, QueuedOn s.futures g op f → Waits s.futures f →
    ∃ d, s.currentDispatcher thread = some (g, d) ∧
      (op ∈ d.ring.operations ∧ d.waiters.lookup op = some f ∨
        op ∈ d.completions ∧ s.woken f = true)
  /-- Dispatching wakes the future once the kernel has posted the completion. -/
  wakes : ∀ g d op f, QueuedOn s.futures g op f → Waits s.futures f →
    s.currentDispatcher thread = some (g, d) → IsPosted d.ring op →
    ∃ n t, run Threads.step s (List.replicate n (.dispatch thread)) = some t ∧ t.woken f = true
  /-- A poll then resolves it. -/
  resolves : ∀ g d op f, QueuedOn s.futures g op f → Waits s.futures f →
    s.currentDispatcher thread = some (g, d) → IsPosted d.ring op ∨ op ∈ d.completions →
    ∃ t cell c, s.poll thread f = some t ∧ t.futures f = some cell ∧
      cell.resolution = some (.completion g c) ∧ c.operation = op

/-- Operations survive the calls of one executor on one thread when every call ends tidily. -/
theorem operations_survive_calls (thread owner : Nat) {s : Threads}
    (hr : Reach Threads.step (fun s e => e.within thread owner = true ∧ e.tidy s = true) .new s) :
    Survives thread s := by
  have h : Steady thread owner (fun _ => True) s :=
    hr.invariant steady_new fun _ _ _ h hok ht => h.step hok.1 hok.2 ht
  refine ⟨fun f cell g c hcell => (h.cells f cell hcell).own g c, fun g op f hq hw => ?_,
    fun g d op f => h.wakes, fun g d op f => h.resolves⟩
  obtain ⟨d, hcur⟩ := h.waiting_installed hq hw
  exact ⟨d, hcur, (h.awaited g d hcur).awaited op f trivial hq hw⟩

/-- A read that is pending at the end of a call is resolved in the next one. -/
theorem read_resolved_in_second_call :
    ∃ s cell, run Threads.step .new [.enter 0 0 (.ok ()) false (fun _ => none) 0,
        .create 0 .read 3 0 8, .poll 0 0, .leave 0 0 false (fun _ => none) 0,
        .enter 0 0 (.ok ()) false (fun _ => none) 0, .post 0 [⟨operationUserDataBase, 5, 0⟩],
        .dispatch 0, .poll 0 0] = some s ∧ s.futures 0 = some cell ∧
      cell.resolution = some (.completion 0 ⟨operationUserDataBase, .read, 5, 0⟩) ∧
      Survives 0 s := by
  refine ⟨_, _, rfl, rfl, rfl, operations_survive_calls 0 0 (reach_of_run
    [.enter 0 0 (.ok ()) false (fun _ => none) 0, .create 0 .read 3 0 8, .poll 0 0,
      .leave 0 0 false (fun _ => none) 0, .enter 0 0 (.ok ()) false (fun _ => none) 0,
      .post 0 [⟨operationUserDataBase, 5, 0⟩], .dispatch 0, .poll 0 0] ?_ rfl)⟩
  decide

/-- A completion that is not consumed when the call ends is lost, and in the next call the future
takes that of another read. -/
theorem unconsumed_completion_lost :
    ∃ s cell, Reach Threads.step (fun _ e => e.within 0 0 = true) .new s ∧
      s.futures 0 = some cell ∧ cell.queued = some (0, operationUserDataBase) ∧
      cell.resolution = some (.completion 1 ⟨operationUserDataBase, .read, 7, 0⟩) ∧
      QueuedOn s.futures 1 operationUserDataBase 1 ∧ Waits s.futures 1 := by
  refine ⟨_, _, reach_of_run [.enter 0 0 (.ok ()) false (fun _ => none) 0,
    .create 0 .read 3 0 8, .poll 0 0, .submit 0 (fun _ => some ⟨.ok 1, []⟩),
    .post 0 [⟨operationUserDataBase, 5, 0⟩], .dispatch 0, .leave 0 0 false (fun _ => none) 0,
    .enter 0 0 (.ok ()) false (fun _ => none) 0, .create 1 .read 4 0 8, .poll 0 1,
    .post 1 [⟨operationUserDataBase, 7, 0⟩], .poll 0 0] ?_ rfl, rfl, rfl, rfl, ⟨_, rfl, rfl⟩,
    ⟨_, rfl, rfl, rfl⟩⟩
  decide

end Sitas.Executor.Uring
