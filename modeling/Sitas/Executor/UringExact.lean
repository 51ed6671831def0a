import Sitas.Executor.UringTransfers

namespace Sitas.Executor.UringIo
open Sitas.Lib List Transfer
open Sitas.Executor.UnixIo (bytes store u64Range length_bytes take_store_zero)

def never : TransferError → Bool := fun _ => false

def outcomes (replies : List Reply) : List (Except TransferError Nat) :=
  replies.filterMap Reply.outcome?

namespace ReadExactAt
variable {contents : Nat → Nat → UInt8} {offset len : Nat} {s s' : ReadExactAt} {reply : Reply}

def view (s : ReadExactAt) : Transfer TransferError :=
  ⟨s.len, s.output.length, s.result.map fun r => r.map fun _ => ()⟩

/-- Every byte of the output is the one at its position in the file, as one of the operations
found it. -/
def Sourced (contents : Nat → Nat → UInt8) (offset issued : Nat) (output : List UInt8) : Prop :=
  ∀ i b, output[i]? = some b → ∃ n, 0 < n ∧ n ≤ issued ∧ b = contents n (offset + i)

structure Awaits (s : ReadExactAt) : Prop where
  remain : s.output.length < s.len
  position : s.future.offset = s.offset + s.output.length
  buffer : s.future.buffer = some (List.replicate (s.len - s.output.length) 0)
  issued : s.issued + (if s.future.queued then 0 else 1) ≤ s.output.length + 1
  queued : s.future.queued = true → 0 < s.issued

structure Inv (contents : Nat → Nat → UInt8) (offset len : Nat) (s : ReadExactAt) : Prop where
  offset_eq : s.offset = offset
  len_eq : s.len = len
  issued : s.issued ≤ len
  sourced : Sourced contents offset s.issued s.output
  awaits : s.result = none → s.Awaits
  returned : ∀ output, s.result = some (.ok output) → output = s.output ∧ output.length = len

theorem Sourced.mono {issued issued' : Nat} {output : List UInt8}
    (h : Sourced contents offset issued output) (hle : issued ≤ issued') :
    Sourced contents offset issued' output := by
  intro i b hb
  obtain ⟨n, hpos, hn, hb⟩ := h i b hb
  exact ⟨n, hpos, hn.trans hle, hb⟩

theorem Sourced.append {issued count : Nat} {output : List UInt8} (hpos : 0 < issued)
    (h : Sourced contents offset issued output) :
    Sourced contents offset issued
      (output ++ bytes (contents issued) (offset + output.length) count) := by
  intro i b hb
  by_cases hi : i < output.length
  · rw [getElem?_append_left hi] at hb
    exact h i b hb
  · have hle := Nat.le_of_not_lt hi
    rw [getElem?_append_right hle, bytes, getElem?_map] at hb
    obtain ⟨p, hp, rfl⟩ := Option.map_eq_some_iff.mp hb
    obtain ⟨hlt, rfl⟩ := List.getElem?_eq_some_iff.mp hp
    refine ⟨issued, hpos, le_rfl, ?_⟩
    rw [getElem_range', Nat.one_mul, Nat.add_assoc, Nat.add_sub_cancel' hle]

variable (contents) in
private theorem inv_turn (hrange : offset + len < u64Range) (hresult : s.result = none)
    (hoffset : s.offset = offset) (hlen : s.len = len) (hissued : s.issued ≤ s.output.length)
    (hle : s.output.length ≤ len) (hsourced : Sourced contents offset s.issued s.output) :
    Inv contents offset len s.turn ∧
      s.turn.view =
        ⟨len, s.output.length, if len ≤ s.output.length then some (.ok ()) else none⟩ := by
  subst hoffset hlen
  by_cases hlt : s.output.length < s.len
  · have hmod : (s.offset + s.output.length) % u64Range = s.offset + s.output.length :=
      Nat.mod_eq_of_lt (by omega)
    rw [turn, if_pos hlt, hmod, if_neg (Nat.not_le_of_lt hlt)]
    refine ⟨⟨rfl, rfl, hissued.trans hle, hsourced, fun _ => ⟨hlt, rfl, rfl, ?_, ?_⟩, ?_⟩, ?_⟩
    · exact Nat.add_le_add_right hissued 1
    · exact fun hqueued => absurd hqueued Bool.false_ne_true
    · intro output hout
      rw [hresult] at hout
      cases hout
    · rw [view, hresult]
      rfl
  · rw [turn, if_neg hlt, if_pos (Nat.le_of_not_lt hlt)]
    refine ⟨⟨rfl, rfl, hissued.trans hle, hsourced, fun hnone => ?_, fun output hout => ?_⟩, rfl⟩
    · cases hnone
    · cases hout
      exact ⟨rfl, Nat.le_antisymm hle (Nat.le_of_not_lt hlt)⟩

private theorem inv_failed {e : TransferError} (hoffset : s.offset = offset) (hlen : s.len = len)
    (hissued : s.issued ≤ len) (hsourced : Sourced contents offset s.issued s.output)
    (hresult : s.result = some (.error e)) : Inv contents offset len s where
  offset_eq := hoffset
  len_eq := hlen
  issued := hissued
  sourced := hsourced
  awaits hnone := by
    rw [hresult] at hnone
    cases hnone
  returned output hout := by
    rw [hresult] at hout
    cases hout

private theorem inv_extend {data : List UInt8} {count : Nat} (hrange : offset + len < u64Range)
    (hresult : s.result = none) (hoffset : s.offset = offset) (hlen : s.len = len)
    (hpos : 0 < s.issued) (hissued : s.issued ≤ s.output.length + 1)
    (hremain : s.output.length < s.len) (hcount : count ≤ len - s.output.length)
    (hsourced : Sourced contents offset s.issued s.output)
    (hdata : data = bytes (contents s.issued) (offset + s.output.length) count) :
    Inv contents offset len (s.extend data) ∧
      (s.extend data).view = s.view.call never eof (.ok count) := by
  have hlength : data.length = count := by rw [hdata, length_bytes]
  by_cases hzero : count = 0
  · rw [hzero] at hlength
    rw [extend, if_pos (length_eq_zero_iff.mp hlength), call, if_pos hzero]
    exact ⟨inv_failed hoffset hlen (by dsimp only; omega) hsourced rfl, rfl⟩
  · have hne : data ≠ [] := fun hnil => hzero (hlength.symm.trans (congrArg length hnil))
    have hall : (s.output ++ data).length = s.output.length + count := by
      rw [length_append, hlength]
    obtain ⟨hinv, hview⟩ := inv_turn contents (s := { s with output := s.output ++ data })
      hrange hresult hoffset hlen (by dsimp only; omega) (by dsimp only; omega)
      (by rw [hdata]; exact hsourced.append hpos)
    rw [extend, if_neg hne]
    refine ⟨hinv, hview.trans ?_⟩
    have hmin : min count (s.len - s.output.length) = count := by omega
    dsimp only [call, view]
    rw [if_neg hzero, hmin, hall, hlen]

theorem Inv.step (hrange : offset + len < u64Range) (h : Inv contents offset len s)
    (hst : step contents s reply = some s') :
    Inv contents offset len s' ∧ Simulates never eof view Reply.outcome? s reply s' := by
  obtain ⟨hresult, hmap⟩ := Option.ite_none_right_eq_some.mp hst
  obtain ⟨⟨ready, future⟩, hpoll, rfl⟩ := Option.map_eq_some_iff.mp hmap
  have hawaits := h.awaits hresult
  have hview : s.view.result = none := by
    rw [view, hresult]
    rfl
  rw [Simulates]
  rcases AtUring.poll_cases hawaits.buffer hpoll with ⟨e, ho, rfl, hqueues⟩ | ⟨hqueues, hcases⟩
  · rw [ho]
    have hissued := (Nat.add_le_add_left hqueues s.issued).trans hawaits.issued
    exact ⟨inv_failed h.offset_eq h.len_eq (hissued.trans (h.len_eq ▸ hawaits.remain))
      (h.sourced.mono (Nat.le_add_right _ _)) rfl, hview, rfl⟩
  have hissued : s.issued + s.future.queues reply ≤ s.output.length + 1 := hqueues ▸ hawaits.issued
  have hle : s.issued + s.future.queues reply ≤ len := hissued.trans (h.len_eq ▸ hawaits.remain)
  have hpos : 0 < s.issued + s.future.queues reply := by
    rw [hqueues]
    split
    · exact Nat.lt_of_lt_of_le (hawaits.queued ‹_›) (Nat.le_add_right _ _)
    · exact Nat.succ_pos _
  have hsourced := h.sourced.mono (Nat.le_add_right s.issued (s.future.queues reply))
  rcases hcases with ⟨ho, rfl, rfl⟩ | ⟨n, ho, hn, rfl⟩
  · rw [ho]
    refine ⟨⟨h.offset_eq, h.len_eq, hle, hsourced, fun _ => ?_, h.returned⟩, rfl⟩
    exact ⟨hawaits.remain, hawaits.position, hawaits.buffer, hissued, fun _ => hpos⟩
  · rw [ho]
    rw [length_replicate, h.len_eq] at hn
    have hdata := take_store_zero (contents (s.issued + s.future.queues reply))
      (replicate (s.len - s.output.length) 0) s.future.offset n
    obtain ⟨hinv, hcall⟩ := inv_extend
      (s := { s with future, issued := s.issued + s.future.queues reply })
      hrange hresult h.offset_eq h.len_eq hpos hissued hawaits.remain hn hsourced
      (hdata.trans (by rw [hawaits.position, h.offset_eq]))
    exact ⟨hinv, hview, hcall⟩

theorem view_ok_iff : s.view.result = some (.ok ()) ↔ ∃ output, s.result = some (.ok output) := by
  rw [view]
  rcases s.result with _ | _ | output <;> simp [Except.map]

theorem view_error_iff {e : TransferError} :
    s.view.result = some (.error e) ↔ s.result = some (.error e) := by
  rw [view]
  rcases s.result with _ | _ | output <;> simp [Except.map]

theorem inv_start (contents : Nat → Nat → UInt8) (hrange : offset + len < u64Range) :
    Inv contents offset len (start offset len) ∧ (start offset len).view = Transfer.start len := by
  obtain ⟨hinv, hview⟩ := inv_turn contents
    (s := ⟨offset, len, [], .new 0 [], 0, none⟩) hrange rfl rfl rfl (Nat.le_refl 0)
    (Nat.zero_le len) (fun i b hb => by cases hb)
  refine ⟨hinv, hview.trans ?_⟩
  rw [Transfer.start]
  congr 1
  exact if_congr Nat.le_zero rfl rfl

end ReadExactAt

def Tiles : Nat → List (Nat × List UInt8) → Prop
  | _, [] => True
  | position, (p, c) :: chunks => p = position ∧ c ≠ [] ∧ Tiles (position + c.length) chunks

def accepted (chunks : List (Nat × List UInt8)) : List UInt8 := chunks.flatMap Prod.snd

theorem accepted_concat (chunks : List (Nat × List UInt8)) (p : Nat) (c : List UInt8) :
    accepted (chunks ++ [(p, c)]) = accepted chunks ++ c := by
  simp [accepted]

theorem Tiles.concat {chunks : List (Nat × List UInt8)} {position : Nat} {c : List UInt8}
    (h : Tiles position chunks) (hc : c ≠ []) :
    Tiles position (chunks ++ [(position + (accepted chunks).length, c)]) := by
  induction chunks generalizing position with
  | nil => exact ⟨rfl, hc, trivial⟩
  | cons chunk chunks ih =>
    obtain ⟨p, d⟩ := chunk
    obtain ⟨hp, hd, hrest⟩ := h
    refine ⟨hp, hd, ?_⟩
    have hnext := ih hrest
    rwa [Nat.add_assoc, ← length_append] at hnext

namespace WriteAllAt
variable {input : List UInt8} {offset : Nat} {s s' : WriteAllAt} {reply : Reply}

def view (input : List UInt8) (s : WriteAllAt) : Transfer TransferError :=
  ⟨input.length, (accepted s.chunks).length, s.result⟩

structure Awaits (input : List UInt8) (offset : Nat) (s : WriteAllAt) : Prop where
  remain : (accepted s.chunks).length < input.length
  writeOffset : s.writeOffset = offset + (accepted s.chunks).length
  position : s.future.offset = offset + (accepted s.chunks).length
  buffer : s.future.buffer = some (input.drop (accepted s.chunks).length)
  requested : s.requested = input.length - (accepted s.chunks).length
  issued : s.issued + (if s.future.queued then 0 else 1) ≤ (accepted s.chunks).length + 1

structure Inv (input : List UInt8) (offset : Nat) (s : WriteAllAt) : Prop where
  issued : s.issued ≤ input.length
  written : accepted s.chunks = input.take (accepted s.chunks).length
  tiles : Tiles offset s.chunks
  awaits : s.result = none → s.Awaits input offset
  returned : s.result = some (.ok ()) → accepted s.chunks = input

private theorem inv_turn {buffer : List UInt8} (hresult : s.result = none)
    (hwritten : accepted s.chunks = input.take (accepted s.chunks).length)
    (htiles : Tiles offset s.chunks) (hissued : s.issued ≤ (accepted s.chunks).length)
    (hoffset : s.writeOffset = offset + (accepted s.chunks).length)
    (hbuffer : buffer = input.drop (accepted s.chunks).length) :
    Inv input offset (s.turn buffer) ∧
      (s.turn buffer).view input = ⟨input.length, (accepted s.chunks).length,
        if input.length ≤ (accepted s.chunks).length then some (.ok ()) else none⟩ := by
  have hle : (accepted s.chunks).length ≤ input.length := by
    rw [hwritten]
    exact length_take_le' _ _
  by_cases hempty : buffer = []
  · have hall : input.length ≤ (accepted s.chunks).length :=
      drop_eq_nil_iff.mp (hbuffer.symm.trans hempty)
    rw [turn, if_pos hempty, if_pos hall]
    refine ⟨⟨hissued.trans hle, hwritten, htiles, fun hnone => ?_, fun _ => ?_⟩, rfl⟩
    · cases hnone
    · exact hwritten.trans (take_of_length_le hall)
  · have hlt : (accepted s.chunks).length < input.length :=
      Nat.lt_of_not_le fun hall => hempty (hbuffer.trans (drop_eq_nil_iff.mpr hall))
    rw [turn, if_neg hempty, if_neg (Nat.not_le_of_lt hlt)]
    refine ⟨⟨hissued.trans hle, hwritten, htiles, fun _ => ?_, fun hok => ?_⟩, ?_⟩
    · refine ⟨hlt, hoffset, hoffset, congrArg some hbuffer, ?_, Nat.add_le_add_right hissued 1⟩
      dsimp only
      rw [hbuffer, length_drop]
    · rw [hresult] at hok
      cases hok
    · rw [view, hresult]

private theorem inv_failed {e : TransferError} (hissued : s.issued ≤ input.length)
    (hwritten : accepted s.chunks = input.take (accepted s.chunks).length)
    (htiles : Tiles offset s.chunks) (hresult : s.result = some (.error e)) :
    Inv input offset s where
  issued := hissued
  written := hwritten
  tiles := htiles
  awaits hnone := by
    rw [hresult] at hnone
    cases hnone
  returned hok := by
    rw [hresult] at hok
    cases hok

private theorem inv_advance {count : Nat} {chunks : List (Nat × List UInt8)}
    (hrange : offset + input.length < u64Range) (hresult : s.result = none)
    (hcount : count ≠ 0) (hlen : (accepted chunks).length + count ≤ input.length)
    (hwritten : accepted chunks = input.take (accepted chunks).length)
    (htiles : Tiles offset chunks) (hissued : s.issued ≤ (accepted chunks).length + 1)
    (hoffset : s.writeOffset = offset + (accepted chunks).length)
    (hrequested : s.requested = input.length - (accepted chunks).length)
    (hchunks : s.chunks = chunks ++ [(offset + (accepted chunks).length,
      (input.drop (accepted chunks).length).take count)]) :
    let t := s.advance count (input.drop (accepted chunks).length)
    Inv input offset t ∧ t.view input = ⟨input.length, (accepted chunks).length + count,
      if input.length ≤ (accepted chunks).length + count then some (.ok ()) else none⟩ := by
  intro t
  have hchunk : ((input.drop (accepted chunks).length).take count).length = count := by
    rw [length_take, length_drop]
    omega
  have hlength : (accepted s.chunks).length = (accepted chunks).length + count := by
    rw [hchunks, accepted_concat, length_append, hchunk]
  have hne : (input.drop (accepted chunks).length).take count ≠ [] :=
    fun hnil => hcount (hchunk.symm.trans (congrArg length hnil))
  have hmod : (s.writeOffset + count) % u64Range = offset + (accepted s.chunks).length := by
    rw [hoffset, hlength, Nat.mod_eq_of_lt (by omega), Nat.add_assoc]
  have hrest : (if s.requested ≤ count then []
      else (input.drop (accepted chunks).length).drop count) =
      input.drop (accepted s.chunks).length := by
    rw [hlength, ← drop_drop]
    split
    · refine (drop_eq_nil_iff.mpr ?_).symm
      rw [length_drop]
      omega
    · rfl
  have ht : t = turn { s with writeOffset := (s.writeOffset + count) % u64Range }
      (if s.requested ≤ count then [] else (input.drop (accepted chunks).length).drop count) :=
    if_neg hcount
  rw [ht, ← hlength]
  refine inv_turn (s := { s with writeOffset := (s.writeOffset + count) % u64Range })
    hresult ?_ ?_ (by dsimp only; omega) hmod hrest
  · dsimp only
    rw [hlength, hchunks, accepted_concat, take_add, ← hwritten]
  · dsimp only
    rw [hchunks]
    exact htiles.concat hne

theorem Inv.step (hrange : offset + input.length < u64Range) (h : Inv input offset s)
    (hst : step s reply = some s') :
    Inv input offset s' ∧
      Simulates never zero (view input) Reply.outcome? s reply s' := by
  obtain ⟨hresult, hmap⟩ := Option.ite_none_right_eq_some.mp hst
  obtain ⟨⟨ready, future⟩, hpoll, rfl⟩ := Option.map_eq_some_iff.mp hmap
  have hawaits := h.awaits hresult
  have hview : (s.view input).result = none := hresult
  rw [Simulates]
  rcases AtUring.poll_cases hawaits.buffer hpoll with ⟨e, ho, rfl, hqueues⟩ | ⟨hqueues, hcases⟩
  · rw [ho]
    have hissued := (Nat.add_le_add_left hqueues s.issued).trans hawaits.issued
    exact ⟨inv_failed (hissued.trans hawaits.remain) h.written h.tiles rfl, hview, rfl⟩
  have hissued : s.issued + s.future.queues reply ≤ (accepted s.chunks).length + 1 :=
    hqueues ▸ hawaits.issued
  rcases hcases with ⟨ho, rfl, rfl⟩ | ⟨n, ho, hn, rfl⟩
  · rw [ho]
    refine ⟨⟨hissued.trans hawaits.remain, h.written, h.tiles, fun _ => ?_, h.returned⟩, rfl⟩
    exact ⟨hawaits.remain, hawaits.writeOffset, hawaits.position, hawaits.buffer,
      hawaits.requested, hissued⟩
  · rw [ho]
    rw [length_drop] at hn
    by_cases hzero : n = 0
    · subst hzero
      exact ⟨inv_failed (hissued.trans hawaits.remain) h.written h.tiles rfl, hview, rfl⟩
    · obtain ⟨hinv, hadvance⟩ := inv_advance
        (s := { s with
          future
          issued := s.issued + s.future.queues reply
          chunks := s.chunks ++
            [(s.future.offset, (input.drop (accepted s.chunks).length).take n)] })
        hrange hresult hzero (by omega) h.written h.tiles hissued hawaits.writeOffset
        hawaits.requested (by rw [hawaits.position])
      have hmin : min n (input.length - (accepted s.chunks).length) = n := Nat.min_eq_left hn
      dsimp only
      rw [if_neg hzero]
      refine ⟨hinv, hview, hadvance.trans ?_⟩
      dsimp only [call, view]
      rw [if_neg hzero, hmin]
      rfl

theorem inv_start (input : List UInt8) (offset : Nat) :
    Inv input offset (start offset input) ∧
      (start offset input).view input = Transfer.start input.length := by
  obtain ⟨hinv, hview⟩ := inv_turn (s := ⟨offset, 0, .new 0 [], [], 0, none⟩) rfl rfl trivial
    (Nat.le_refl 0) rfl rfl
  refine ⟨hinv, hview.trans ?_⟩
  rw [Transfer.start]
  congr 1
  exact if_congr Nat.le_zero rfl rfl

end WriteAllAt

/-- `read_exact_at_uring` of `len` bytes from `offset`, after the replies to its polls. -/
structure ReadsAt (contents : Nat → Nat → UInt8) (offset len : Nat) (replies : List Reply)
    (s : ReadExactAt) : Prop where
  ok_iff : (∃ output, s.result = some (.ok output)) ↔ Transfer.Supplies never len (outcomes replies)
  error_iff : ∀ e, s.result = some (.error e) ↔
    Transfer.Breaks never ReadExactAt.eof len e (outcomes replies)
  output : ∀ output, s.result = some (.ok output) → output.length = len ∧
    ReadExactAt.Sourced contents offset s.issued output
  issued : s.issued ≤ len

/-- `write_all_at_uring` of an input at `offset`, after the replies to its polls. -/
structure WritesAt (input : List UInt8) (offset : Nat) (replies : List Reply)
    (s : WriteAllAt) : Prop where
  ok_iff : s.result = some (.ok ()) ↔ Transfer.Supplies never input.length (outcomes replies)
  error_iff : ∀ e, s.result = some (.error e) ↔
    Transfer.Breaks never WriteAllAt.zero input.length e (outcomes replies)
  tiles : Tiles offset s.chunks
  accepted_prefix : accepted s.chunks <+: input
  written : s.result = some (.ok ()) → accepted s.chunks = input
  issued : s.issued ≤ input.length

private theorem reads_at {contents : Nat → Nat → UInt8} {offset len : Nat} {replies : List Reply}
    {s : ReadExactAt} (hrange : offset + len < u64Range)
    (h : run (ReadExactAt.step contents) (ReadExactAt.start offset len) replies = some s) :
    ReadsAt contents offset len replies s := by
  obtain ⟨hstart, hview0⟩ := ReadExactAt.inv_start contents hrange
  obtain ⟨hinv, hview⟩ := run_of_simulates (ReadExactAt.Inv contents offset len) h hstart
    fun s reply t hs hst => ReadExactAt.Inv.step hrange hs hst
  rw [hview0] at hview
  refine ⟨?_, fun e => ?_, fun output hout => ?_, hinv.issued⟩
  · rw [← ReadExactAt.view_ok_iff, hview]
    exact run_start_ok_iff
  · rw [← ReadExactAt.view_error_iff, hview]
    exact run_start_error_iff
  · obtain ⟨rfl, hlen⟩ := hinv.returned output hout
    exact ⟨hlen, hinv.sourced⟩

private theorem writes_at {input : List UInt8} {offset : Nat} {replies : List Reply}
    {s : WriteAllAt} (hrange : offset + input.length < u64Range)
    (h : run WriteAllAt.step (WriteAllAt.start offset input) replies = some s) :
    WritesAt input offset replies s := by
  obtain ⟨hstart, hview0⟩ := WriteAllAt.inv_start input offset
  obtain ⟨hinv, hview⟩ := run_of_simulates (WriteAllAt.Inv input offset) h hstart
    fun s reply t hs hst => WriteAllAt.Inv.step hrange hs hst
  rw [hview0] at hview
  have hresult : s.result = (s.view input).result := rfl
  refine ⟨?_, fun e => ?_, hinv.tiles, ?_, hinv.returned, hinv.issued⟩
  · rw [hresult, hview]
    exact run_start_ok_iff
  · rw [hresult, hview]
    exact run_start_error_iff
  · rw [hinv.written]
    exact take_prefix _ _

/-- The exact io_uring transfers, whatever the operations complete with. -/
theorem uring_transfers_exact {offset len : Nat} (hrange : offset + len < u64Range) :
    (∀ contents replies s,
      run (ReadExactAt.step contents) (ReadExactAt.start offset len) replies = some s →
      ReadsAt contents offset len replies s) ∧
    ∀ input replies s, input.length = len →
      run WriteAllAt.step (WriteAllAt.start offset input) replies = some s →
      WritesAt input offset replies s := by
  refine ⟨fun contents replies s h => reads_at hrange h, ?_⟩
  rintro input replies s rfl h
  exact writes_at hrange h

private def shortReplies : List Reply := [.pending, .completed 1, .completed 2]

/-- Three bytes moved by two operations. -/
theorem short_transfers_exact :
    10 + 3 < u64Range ∧
    (∃ s, run (ReadExactAt.step fun _ => UInt8.ofNat) (ReadExactAt.start 10 3) shortReplies = some s ∧
      s.result = some (.ok [10, 11, 12]) ∧
      ReadsAt (fun _ => UInt8.ofNat) 10 3 shortReplies s) ∧
    ∃ s, run WriteAllAt.step (WriteAllAt.start 10 [7, 8, 9]) shortReplies = some s ∧
      s.chunks = [(10, [7]), (11, [8, 9])] ∧ WritesAt [7, 8, 9] 10 shortReplies s := by
  have hrange : 10 + 3 < u64Range := by decide
  obtain ⟨hread, hwrite⟩ := uring_transfers_exact hrange
  exact ⟨hrange, ⟨_, rfl, by decide +kernel, hread _ _ _ rfl⟩,
    ⟨_, rfl, by decide +kernel, hwrite [7, 8, 9] _ _ rfl rfl⟩⟩

end Sitas.Executor.UringIo
