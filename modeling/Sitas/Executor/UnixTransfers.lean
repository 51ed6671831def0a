import Sitas.Executor.UnixIo

namespace Sitas.Executor.UnixIo
open Sitas.Lib List Option

def outcomes (es : List Event) : List Outcome := es.filterMap Event.outcome?

namespace Loop
variable {σ : Type} {zero : IoError} {move : σ → Nat → Nat → σ} {s s' : Loop σ} {e : Event}
  {es : List Event}

def view (s : Loop σ) : Transfer IoError := ⟨s.len, s.moved, s.result⟩

/-- A call either leaves the data alone or moves bytes that were asked for. -/
def Moves (move : σ → Nat → Nat → σ) (s s' : Loop σ) : Prop :=
  s'.moved = s.moved ∧ s'.data = s.data ∨
    ∃ n, n ≤ s.len - s.moved ∧ s'.moved = s.moved + n ∧ s'.data = move s.data s.moved n

theorem step_cases (h : step zero move s e = some s') :
    e = .ready ∧ s' = { s with awaiting := false } ∨
    ∃ o, e = .call o ∧ s.result = none ∧ s'.view = s.view.call IoError.retried zero o ∧
      Moves move s s' ∧ (s'.result = some (.ok ()) → s'.len ≤ s'.moved) := by
  cases e with
  | ready =>
    obtain ⟨-, rfl⟩ := guarded h
    exact .inl ⟨rfl, rfl⟩
  | call o =>
    refine .inr ⟨o, rfl, ?_⟩
    cases o with
    | ok n =>
      obtain ⟨⟨hresult, -, hle⟩, heq⟩ := ite_none_right_eq_some.mp h
      have hmin : min n (s.len - s.moved) = n := Nat.min_eq_left hle
      split at heq <;> cases heq
      next hn =>
        refine ⟨hresult, ?_, .inl ⟨rfl, rfl⟩, fun hok => ?_⟩
        · simp [view, Transfer.call, hn]
        · cases hok
      next hn =>
        refine ⟨hresult, ?_, .inr ⟨n, hle, rfl, rfl⟩, fun hok => ?_⟩
        · by_cases hlt : s.moved + n < s.len
          · simp [view, Transfer.call, hn, hmin, hlt, Nat.not_le_of_lt hlt]
          · simp [view, Transfer.call, hn, hmin, hlt, Nat.le_of_not_lt hlt]
        · by_contra hlt
          rw [if_pos (Nat.lt_of_not_le hlt)] at hok
          cases hok
    | error e =>
      obtain ⟨⟨hresult, -⟩, heq⟩ := ite_none_right_eq_some.mp h
      obtain ⟨kind, message⟩ := e
      cases kind with
      | interrupted | wouldBlock =>
        cases heq
        refine ⟨hresult, rfl, .inl ⟨rfl, rfl⟩, fun hok => ?_⟩
        rw [hresult] at hok
        cases hok
      | unexpectedEof | writeZero | invalidInput | other code =>
        cases heq
        refine ⟨hresult, rfl, .inl ⟨rfl, rfl⟩, fun hok => ?_⟩
        cases hok

/-- A run of a loop is a run of the transfer on the outcomes of its calls. -/
theorem view_of_run (h : run (step zero move) s es = some s') :
    s'.view = s.view.run IoError.retried zero (outcomes es) := by
  refine (Transfer.run_of_simulates (fun _ => True) h trivial fun s e t _ hst => ?_).2
  rcases step_cases hst with ⟨rfl, rfl⟩ | ⟨o, rfl, hresult, hview, -, -⟩
  · exact ⟨trivial, rfl⟩
  · exact ⟨trivial, hresult, hview⟩

theorem len_of_view {t : Transfer IoError} {o : Outcome}
    (h : s'.view = t.call IoError.retried zero o) : s'.len = t.total :=
  (congrArg Transfer.total h).trans (Transfer.call_total t o)

theorem data_of_run {P : σ → Nat → Prop} (h : run (step zero move) s es = some s')
    (hmove : ∀ d i n, i + n ≤ s.len → P d i → P (move d i n) (i + n))
    (hle : s.moved ≤ s.len) (h0 : P s.data s.moved) :
    s'.len = s.len ∧ s'.moved ≤ s.len ∧ P s'.data s'.moved := by
  induction es generalizing s with
  | nil =>
    cases h
    exact ⟨rfl, hle, h0⟩
  | cons e es ih =>
    obtain ⟨t, hstep, hrest⟩ := bind_eq_some_iff.mp h
    rcases step_cases hstep with ⟨-, rfl⟩ | ⟨o, -, -, hview, hmoves, -⟩
    · have hkept := ih hrest hmove hle h0
      exact hkept
    · have hlen : t.len = s.len := len_of_view hview
      have hkept : t.moved ≤ s.len ∧ P t.data t.moved := by
        rcases hmoves with ⟨hmoved, hdata⟩ | ⟨n, hn, hmoved, hdata⟩
        · rw [hmoved, hdata]
          exact ⟨hle, h0⟩
        · rw [hmoved, hdata]
          exact ⟨Nat.add_le_of_le_sub' hle hn, hmove _ _ _ (Nat.add_le_of_le_sub' hle hn) h0⟩
      rw [← hlen] at hkept hmove ⊢
      exact ih hrest hmove hkept.1 hkept.2

theorem view_start (len : Nat) (data : σ) : (start len data).view = Transfer.start len := by
  by_cases h : 0 < len
  · simp [start, view, Transfer.start, h, Nat.ne_of_gt h]
  · simp [start, view, Transfer.start, Nat.eq_zero_of_not_pos h]

theorem full_of_run (h : run (step zero move) s es = some s')
    (h0 : s.result = some (.ok ()) → s.len ≤ s.moved) :
    s'.result = some (.ok ()) → s'.len ≤ s'.moved := by
  induction es generalizing s with
  | nil =>
    cases h
    exact h0
  | cons e es ih =>
    obtain ⟨t, hstep, hrest⟩ := bind_eq_some_iff.mp h
    rcases step_cases hstep with ⟨-, rfl⟩ | ⟨o, -, -, -, -, hfull⟩
    · have hkept := ih hrest h0
      exact hkept
    · exact ih hrest hfull

theorem full_start {len : Nat} {data : σ} (h : (start len data).result = some (.ok ())) :
    (start len data).len ≤ (start len data).moved := by
  by_contra hlt
  have hpos : 0 < len := Nat.lt_of_not_le hlt
  rw [start, if_pos hpos] at h
  cases h

/-- A loop returns what it should for the outcomes of its calls. Until then it waits for readiness
or takes any outcome of its next call. -/
structure Follows (zero : IoError) (move : σ → Nat → Nat → σ) (len : Nat) (es : List Event)
    (s : Loop σ) : Prop where
  ok_iff : s.result = some (.ok ()) ↔ Transfer.Supplies IoError.retried len (outcomes es)
  error_iff : ∀ e, s.result = some (.error e) ↔
    Transfer.Breaks IoError.retried zero len e (outcomes es)
  proceeds : s.result = none →
    s.awaiting = true ∧ (step zero move s .ready).isSome = true ∨
    (∀ n, n ≤ len - s.moved → (step zero move s (.call (.ok n))).isSome = true) ∧
      ∀ e, (step zero move s (.call (.error e))).isSome = true

/-- The rule for a run of a loop: how it returns, and what the calls have kept of the data. -/
theorem follows_of_run {len : Nat} {data : σ} {P : σ → Nat → Prop}
    (h : run (step zero move) (start len data) es = some s')
    (hmove : ∀ d i n, P d i → P (move d i n) (i + n)) (h0 : P data 0) :
    Follows zero move len es s' ∧ P s'.data s'.moved ∧
      (s'.result = some (.ok ()) → s'.moved = len) := by
  obtain ⟨hlen, hle, hdata⟩ := data_of_run h (fun d i n _ => hmove d i n) (Nat.zero_le _) h0
  have hview := view_of_run h
  rw [view_start] at hview
  have hresult : s'.result = s'.view.result := rfl
  refine ⟨⟨?_, fun e => ?_, fun hnone => ?_⟩, hdata, fun hok => ?_⟩
  · rw [hresult, hview]
    exact Transfer.run_start_ok_iff
  · rw [hresult, hview]
    exact Transfer.run_start_error_iff
  · cases hawaiting : s'.awaiting with
    | true => exact .inl ⟨rfl, by simp [step, hawaiting]⟩
    | false =>
      refine .inr ⟨fun n hn => ?_, fun e => ?_⟩
      · rw [step, if_pos ⟨hnone, hawaiting, hlen.symm ▸ hn⟩]
        rfl
      · rw [step, if_pos ⟨hnone, hawaiting⟩]
        rfl
  · have hfull := full_of_run h full_start hok
    exact Nat.le_antisymm hle (hlen.symm.trans_le hfull)

end Loop

section Bytes
variable (source : Nat → UInt8) (buffer : List UInt8)

theorem bytes_append (i m n : Nat) :
    bytes source i m ++ bytes source (i + m) n = bytes source i (m + n) := by
  have h : i + m = i + 1 * m := by rw [Nat.one_mul]
  rw [bytes, bytes, bytes, ← map_append, h, range'_append]

theorem store_bytes (i n : Nat) :
    store (bytes source 0 i ++ buffer.drop i) i (bytes source i n) =
      bytes source 0 (i + n) ++ buffer.drop (i + n) := by
  have hnext : bytes source 0 i ++ bytes source i n = bytes source 0 (i + n) := by
    have happend := bytes_append source 0 i n
    rwa [Nat.zero_add] at happend
  rw [store, take_left' (length_bytes source 0 i), hnext, length_bytes, ← drop_drop,
    drop_left' (length_bytes source 0 i), drop_drop]

theorem accept_append_drop (input accepted : List UInt8) (i n : Nat) :
    accept input accepted i n ++ input.drop (i + n) = accepted ++ input.drop i := by
  rw [accept, append_assoc, ← drop_drop, take_append_drop]

end Bytes

/-- `read_exact_async` returns what it should, and has read the bytes that it has consumed into the
buffer. -/
structure ReadsExactly (source : Nat → UInt8) (buffer : List UInt8) (es : List Event)
    (s : Loop Reading) : Prop extends
    Loop.Follows readEof (Reading.read source) buffer.length es s where
  filled : s.data = ⟨bytes source 0 s.moved ++ buffer.drop s.moved, s.moved⟩
  full : s.result = some (.ok ()) → s.data = ⟨bytes source 0 buffer.length, buffer.length⟩

/-- `write_all_async` returns what it should, and the writer has accepted the first bytes of the
input. -/
structure WritesAll (input : List UInt8) (es : List Event) (s : Loop (List UInt8)) : Prop extends
    Loop.Follows writeZero (accept input) input.length es s where
  accepted : s.data = input.take s.moved
  full : s.result = some (.ok ()) → s.data = input

private theorem reads_exactly {source : Nat → UInt8} {buffer : List UInt8} {es : List Event}
    {s : Loop Reading} (h : run (readExactAsync source) (readExactStart buffer) es = some s) :
    ReadsExactly source buffer es s := by
  obtain ⟨hfollows, hdata, hfull⟩ := Loop.follows_of_run
    (P := fun d i => d = ⟨bytes source 0 i ++ buffer.drop i, i⟩) h
    (fun d i n hd => by rw [hd, Reading.read, store_bytes]) rfl
  refine ⟨hfollows, hdata, fun hok => ?_⟩
  rw [hdata, hfull hok, drop_length, append_nil]

private theorem writes_all {input : List UInt8} {es : List Event} {s : Loop (List UInt8)}
    (h : run (writeAllAsync input) (writeAllStart input []) es = some s) :
    WritesAll input es s := by
  obtain ⟨hfollows, hdata, hfull⟩ := Loop.follows_of_run (P := fun d i => d = input.take i) h
    (fun d i n hd => by rw [hd, accept, take_add]) rfl
  refine ⟨hfollows, hdata, fun hok => ?_⟩
  rw [hdata, hfull hok, take_length]

/-- The bytes that were read and that `write_all_async` still has to write. -/
def Copy.inFlight (s : Copy) : List UInt8 :=
  match s.phase with
  | .writing loop => (s.buffer.take loop.len).drop loop.moved
  | _ => []

/-- What a copy has done with the bytes that the reader produced. -/
structure Balanced (source : Nat → UInt8) (s : Copy) : Prop where
  /-- Only an error loses bytes. -/
  kept : (∀ e, s.phase ≠ .returned (.error e)) →
    s.accepted ++ s.inFlight = bytes source 0 s.consumed
  accepted : s.accepted <+: bytes source 0 s.consumed
  copied : s.phase = .reading ∨ s.phase = .awaiting → s.copied = s.consumed
  writing : ∀ loop, s.phase = .writing loop → loop.len ≤ s.buffer.length ∧
    loop.moved ≤ loop.len ∧ loop.result = none ∧ loop.data = s.accepted ∧
    s.copied + loop.len = s.consumed
  returned : ∀ n, s.phase = .returned (.ok n) → n = s.consumed

section Copying
variable {source : Nat → UInt8} {s s' : Copy}

private theorem balanced_settled (haccepted : s.accepted = bytes source 0 s.consumed)
    (hcopied : s.copied = s.consumed ∨ s.phase = .panicked) (hflight : s.inFlight = [])
    (hwriting : ∀ loop, s.phase ≠ .writing loop)
    (hreturned : ∀ n, s.phase = .returned (.ok n) → n = s.consumed) : Balanced source s where
  kept _ := by rw [hflight, append_nil, haccepted]
  accepted := haccepted ▸ prefix_rfl
  copied hphase := by
    rcases hcopied with hcopied | hpanicked
    · exact hcopied
    · rw [hpanicked] at hphase
      rcases hphase with hphase | hphase <;> cases hphase
  writing loop hphase := absurd hphase (hwriting loop)
  returned := hreturned

private theorem balanced_failed {e : IoError} (hphase : s.phase = .returned (.error e))
    (haccepted : s.accepted <+: bytes source 0 s.consumed) : Balanced source s where
  kept hne := absurd hphase (hne e)
  accepted := haccepted
  copied h := by
    rw [hphase] at h
    rcases h with h | h <;> cases h
  writing loop h := by
    rw [hphase] at h
    cases h
  returned n h := by
    rw [hphase] at h
    cases h

private theorem Balanced.settled (h : Balanced source s)
    (hphase : s.phase = .reading ∨ s.phase = .awaiting) :
    s.accepted = bytes source 0 s.consumed ∧ s.copied = s.consumed := by
  have hkept := h.kept fun e he => by
    rw [he] at hphase
    rcases hphase with hphase | hphase <;> cases hphase
  have hflight : s.inFlight = [] := by
    rcases hphase with hphase | hphase <;> rw [Copy.inFlight, hphase]
  rw [hflight, append_nil] at hkept
  exact ⟨hkept, h.copied hphase⟩

private theorem Balanced.read_ok {n : Nat} (h : Balanced source s)
    (hst : copyAsync source s (.read (.ok n)) = some s') : Balanced source s' := by
  obtain ⟨⟨hphase, hle⟩, heq⟩ := ite_none_right_eq_some.mp hst
  obtain ⟨haccepted, hcopied⟩ := h.settled (.inl hphase)
  split at heq <;> cases heq
  · refine balanced_settled haccepted (.inl hcopied) rfl (fun loop hl => by cases hl) ?_
    intro m hm
    cases hm
    exact hcopied
  next hn =>
    have htake := take_store_zero source s.buffer s.consumed n
    have hlen : ((store s.buffer 0 (bytes source s.consumed n)).take n).length = n := by
      rw [htake, length_bytes]
    have hproduced : s.accepted ++ bytes source s.consumed n = bytes source 0 (s.consumed + n) := by
      have happend := bytes_append source 0 s.consumed n
      rwa [Nat.zero_add, ← haccepted] at happend
    refine ⟨fun _ => ?_, ?_, fun hp => ?_, fun loop hl => ?_, fun m hm => ?_⟩
    · dsimp only [Copy.inFlight, writeAllStart, Loop.start]
      rw [hlen, drop_zero, htake, hproduced]
    · dsimp only
      rw [← hproduced]
      exact prefix_append _ _
    · rcases hp with hp | hp <;> cases hp
    · cases hl
      dsimp only [writeAllStart, Loop.start]
      rw [hlen]
      refine ⟨?_, Nat.zero_le n, if_pos (Nat.pos_of_ne_zero hn), rfl, by rw [hcopied]⟩
      rw [store_zero_bytes, length_append, length_bytes]
      exact Nat.le_add_right n _
    · cases hm

private theorem Balanced.read_error {e : IoError} (h : Balanced source s)
    (hst : copyAsync source s (.read (.error e)) = some s') : Balanced source s' := by
  obtain ⟨hphase, heq⟩ := ite_none_right_eq_some.mp hst
  obtain ⟨haccepted, hcopied⟩ := h.settled (.inl hphase)
  obtain ⟨kind, message⟩ := e
  cases kind with
  | interrupted =>
    cases heq
    exact h
  | wouldBlock =>
    cases heq
    exact balanced_settled haccepted (.inl hcopied) rfl (fun loop hl => by cases hl)
      (fun n hn => by cases hn)
  | unexpectedEof | writeZero | invalidInput | other code =>
    cases heq
    exact balanced_failed rfl h.accepted

private theorem Balanced.readable (h : Balanced source s)
    (hst : copyAsync source s .readable = some s') : Balanced source s' := by
  obtain ⟨hphase, rfl⟩ := guarded hst
  obtain ⟨haccepted, hcopied⟩ := h.settled (.inr hphase)
  exact balanced_settled haccepted (.inl hcopied) rfl (fun loop hl => by cases hl)
    (fun n hn => by cases hn)

private theorem accepted_of_write {loop loop' : Loop (List UInt8)} {input : List UInt8}
    {event : Event} (hstep : writeAllAsync input loop event = some loop')
    (hle : loop.moved ≤ loop.len) (hresult : loop.result = none) :
    (loop'.len = loop.len ∧ loop'.moved ≤ loop.len ∧
      loop'.data ++ input.drop loop'.moved = loop.data ++ input.drop loop.moved) ∧
    (loop'.result = some (.ok ()) → loop'.len ≤ loop'.moved) := by
  have hrun : run (writeAllAsync input) loop [event] = some loop' := by
    rw [run, hstep]
    rfl
  constructor
  · exact Loop.data_of_run
      (P := fun d i => d ++ input.drop i = loop.data ++ input.drop loop.moved) hrun
      (fun d i n _ hd => by rw [accept_append_drop, hd]) hle rfl
  · refine Loop.full_of_run hrun fun hok => ?_
    rw [hresult] at hok
    cases hok

private theorem Balanced.continueWrite {loop : Loop (List UInt8)} (hlen : loop.len ≤ s.buffer.length)
    (hle : loop.moved ≤ loop.len) (hcopied : s.copied + loop.len = s.consumed)
    (hkept : loop.data ++ (s.buffer.take loop.len).drop loop.moved = bytes source 0 s.consumed)
    (hfull : loop.result = some (.ok ()) → loop.len ≤ loop.moved) :
    Balanced source (s.continueWrite loop) := by
  have hprefix : loop.data <+: bytes source 0 s.consumed := ⟨_, hkept⟩
  cases hresult : loop.result with
  | none =>
    simp only [Copy.continueWrite, hresult]
    refine ⟨fun _ => hkept, hprefix, fun hp => ?_, fun l hl => ?_, fun n hn => ?_⟩
    · rcases hp with hp | hp <;> cases hp
    · cases hl
      exact ⟨hlen, hle, hresult, rfl, hcopied⟩
    · cases hn
  | some r =>
    cases r with
    | error e =>
      simp only [Copy.continueWrite, hresult]
      exact balanced_failed rfl hprefix
    | ok u =>
      have hall : loop.data = bytes source 0 s.consumed := by
        rwa [drop_of_length_le ((length_take_le _ _).trans (hfull hresult)),
          append_nil] at hkept
      simp only [Copy.continueWrite, hresult, Copy.wrote]
      split
      · exact balanced_settled hall (.inl hcopied) rfl (fun l hl => by cases hl)
          (fun n hn => by cases hn)
      · exact balanced_settled hall (.inr rfl) rfl (fun l hl => by cases hl)
          (fun n hn => by cases hn)

private theorem writing_of_write {event : Event}
    (hst : copyAsync source s (.write event) = some s') :
    ∃ loop loop', s.phase = .writing loop ∧
      writeAllAsync (s.buffer.take loop.len) loop event = some loop' ∧
      s.continueWrite loop' = s' := by
  cases hphase : s.phase with
  | reading | awaiting | panicked | returned r =>
    rw [copyAsync, hphase] at hst
    cases hst
  | writing loop =>
    rw [copyAsync, hphase] at hst
    obtain ⟨loop', hstep, heq⟩ := map_eq_some_iff.mp hst
    exact ⟨loop, loop', rfl, hstep, heq⟩

private theorem Balanced.write {event : Event} (h : Balanced source s)
    (hst : copyAsync source s (.write event) = some s') : Balanced source s' := by
  obtain ⟨loop, loop', hphase, hstep, rfl⟩ := writing_of_write hst
  obtain ⟨hbuffer, hle, hresult, hdata, hcopied⟩ := h.writing loop hphase
  obtain ⟨⟨hlen, hle', hmoved⟩, hfull⟩ := accepted_of_write hstep hle hresult
  have hkept := h.kept fun e he => by
    rw [he] at hphase
    cases hphase
  rw [Copy.inFlight, hphase] at hkept
  dsimp only at hkept
  rw [← hdata, ← hmoved, ← hlen] at hkept
  rw [← hlen] at hbuffer hle' hcopied
  exact Balanced.continueWrite hbuffer hle' hcopied hkept hfull

private theorem Balanced.step {event : CopyEvent} (h : Balanced source s)
    (hst : copyAsync source s event = some s') : Balanced source s' := by
  cases event with
  | read o =>
    cases o with
    | ok n => exact h.read_ok hst
    | error e => exact h.read_error hst
  | readable => exact h.readable hst
  | write event => exact h.write hst

private theorem balanced_start (source : Nat → UInt8) (buffer : List UInt8) :
    Balanced source (copyStart buffer) := by
  by_cases hempty : buffer = []
  · simp only [copyStart, if_pos hempty]
    exact balanced_failed rfl prefix_rfl
  · simp only [copyStart, if_neg hempty]
    exact balanced_settled rfl (.inl rfl) rfl (fun l hl => by cases hl) (fun n hn => by cases hn)

private theorem copyAsync_of_returned {r : Except IoError Nat} (h : s.phase = .returned r)
    (event : CopyEvent) : copyAsync source s event = none := by
  cases event with
  | read o =>
    cases o with
    | ok n => exact if_neg fun hp => by rw [h] at hp; cases hp.1
    | error e => exact if_neg fun hp => by rw [h] at hp; cases hp
  | readable => exact if_neg fun hp => by rw [h] at hp; cases hp
  | write event => rw [copyAsync, h]

private theorem eof_of_returned {event : CopyEvent} {n : Nat}
    (hst : copyAsync source s event = some s') (h : s'.phase = .returned (.ok n)) :
    event = .read (.ok 0) := by
  cases event with
  | read o =>
    cases o with
    | ok m =>
      obtain ⟨-, heq⟩ := ite_none_right_eq_some.mp hst
      by_cases hm : m = 0
      · rw [hm]
      · rw [if_neg hm] at heq
        cases heq
        cases h
    | error e =>
      obtain ⟨hphase, heq⟩ := ite_none_right_eq_some.mp hst
      obtain ⟨kind, message⟩ := e
      cases kind with
      | interrupted =>
        cases heq
        rw [hphase] at h
        cases h
      | wouldBlock | unexpectedEof | writeZero | invalidInput | other code =>
        cases heq
        cases h
  | readable =>
    obtain ⟨-, rfl⟩ := guarded hst
    cases h
  | write event =>
    obtain ⟨loop, loop', -, -, rfl⟩ := writing_of_write hst
    cases hresult : loop'.result with
    | none =>
      simp only [Copy.continueWrite, hresult] at h
      cases h
    | some r =>
      cases r with
      | error e =>
        simp only [Copy.continueWrite, hresult] at h
        cases h
      | ok u =>
        simp only [Copy.continueWrite, hresult, Copy.wrote] at h
        split at h <;> cases h

private theorem last_of_returned {es : List CopyEvent} {n : Nat}
    (h : run (copyAsync source) s es = some s') (hne : ∀ m, s.phase ≠ .returned (.ok m))
    (hret : s'.phase = .returned (.ok n)) : es.getLast? = some (.read (.ok 0)) := by
  induction es generalizing s with
  | nil =>
    cases h
    exact absurd hret (hne n)
  | cons e es ih =>
    obtain ⟨t, hstep, hrest⟩ := bind_eq_some_iff.mp h
    by_cases ht : ∃ m, t.phase = .returned (.ok m)
    · obtain ⟨m, hm⟩ := ht
      cases es with
      | nil => rw [eof_of_returned hstep hm, getLast?_singleton]
      | cons e' es =>
        rw [run, copyAsync_of_returned hm] at hrest
        cases hrest
    · have hlast := ih hrest fun m hm => ht ⟨m, hm⟩
      rw [getLast?_cons, hlast]
      rfl

end Copying

/-- `copy_async` writes what it reads: `Balanced` in every state, and it returns well only at
the end of the file, with everything written. -/
structure CopiesAll (source : Nat → UInt8) (es : List CopyEvent) (s : Copy) : Prop where
  balanced : Balanced source s
  returned : ∀ n, s.phase = .returned (.ok n) →
    s.accepted = bytes source 0 s.consumed ∧ n = s.consumed ∧
      es.getLast? = some (.read (.ok 0))

/-- The exact transfers over arbitrary outcomes of the calls. -/
theorem transfers_exact :
    (∀ source buffer es s, run (readExactAsync source) (readExactStart buffer) es = some s →
      ReadsExactly source buffer es s) ∧
    (∀ input es s, run (writeAllAsync input) (writeAllStart input []) es = some s →
      WritesAll input es s) ∧
    ∀ source buffer es s, run (copyAsync source) (copyStart buffer) es = some s →
      CopiesAll source es s := by
  refine ⟨fun source buffer es s h => reads_exactly h, fun input es s h => writes_all h, ?_⟩
  intro source buffer es s h
  have hbalanced : Balanced source s :=
    (reachable_of_run es h).invariant (balanced_start source buffer)
      fun _ _ _ hb _ hst => Balanced.step hb hst
  refine ⟨hbalanced, fun n hn => ⟨?_, hbalanced.returned n hn, ?_⟩⟩
  · have hkept := hbalanced.kept fun e he => by
      rw [hn] at he
      cases he
    have hflight : s.inFlight = [] := by rw [Copy.inFlight, hn]
    rwa [hflight, append_nil] at hkept
  · refine last_of_returned h (fun m hm => ?_) hn
    rw [copyStart] at hm
    split at hm <;> cases hm

private def retryEvents : List Event :=
  [.call (.ok 1), .call (.error ⟨.interrupted, "EINTR"⟩), .call (.error ⟨.wouldBlock, "EAGAIN"⟩),
    .ready, .call (.ok 2)]

private def copyEvents : List CopyEvent :=
  [.read (.error ⟨.wouldBlock, "EAGAIN"⟩), .readable, .read (.ok 3)] ++
    retryEvents.map .write ++ [.read (.ok 0)]

/-- Three bytes moved by two calls, with an interruption and a wait between them. -/
theorem retried_transfers_exact :
    (∃ s, run (readExactAsync UInt8.ofNat) (readExactStart [9, 9, 9]) retryEvents = some s ∧
      s.result = some (.ok ()) ∧ ReadsExactly UInt8.ofNat [9, 9, 9] retryEvents s) ∧
    (∃ s, run (writeAllAsync [7, 8, 9]) (writeAllStart [7, 8, 9] []) retryEvents = some s ∧
      s.result = some (.ok ()) ∧ WritesAll [7, 8, 9] retryEvents s) ∧
    ∃ s, run (copyAsync UInt8.ofNat) (copyStart [9, 9, 9, 9]) copyEvents = some s ∧
      s.phase = .returned (.ok 3) ∧ CopiesAll UInt8.ofNat copyEvents s := by
  obtain ⟨hread, hwrite, hcopy⟩ := transfers_exact
  exact ⟨⟨_, rfl, rfl, hread _ _ _ _ rfl⟩, ⟨_, rfl, rfl, hwrite _ _ _ rfl⟩,
    ⟨_, rfl, rfl, hcopy _ [9, 9, 9, 9] _ _ rfl⟩⟩

end Sitas.Executor.UnixIo
