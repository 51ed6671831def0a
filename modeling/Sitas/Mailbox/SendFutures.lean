import Mathlib.Data.Finset.Card
import Sitas.Lib.Runs
import Sitas.Mailbox.SharedMailbox

/-! Send futures waiting for capacity. The waiter queue of the mailbox stores bare
wakers; the system remembers for each entry which future appended it. -/
namespace Sitas.Mailbox
open Sitas.Lib List Function SharedMailbox Parking Finset

structure Senders (M W : Type) where
  mailbox : SharedMailbox M W
  messages : Nat → Option (Option M)
  parked : Parking Nat W
  /-- The future that appended each entry of `sendWakers`. The code has no such record. -/
  owners : List Nat

inductive Event (M W : Type) where
  | send (future : Nat) (message : M)
  | pollSend (future : Nat) (waker : W)
  | dropSend (future : Nat)
  | trySend (message : M)
  | tryRecv
  | pollRecv (waker : W)
  | closeReceiver
  | addSender
  | dropSender
  | closeSenderFactory

namespace Senders
variable {M W : Type}

section Model
variable [DecidableEq W]

def new (shardId capacity : Nat) : Senders M W :=
  ⟨.new shardId capacity, fun _ => none, .empty, []⟩

/-- The state after an operation that removed entries only at the front of the
waiter queue and invoked the given wakers. -/
def after (s : Senders M W) (r : SharedMailbox M W × List W) : Senders M W :=
  { s with
    mailbox := r.1
    parked := s.parked.wake r.2
    owners := s.owners.drop (s.owners.length - r.1.sendWakers.length) }

def finish (s : Senders M W) (f : Nat) (slot : Option (Option M)) : Senders M W :=
  { s with messages := Function.update s.messages f slot, parked := s.parked.leave f }

def suspend (s : Senders M W) (mailbox : SharedMailbox M W) (f : Nat) (w : W)
    (slot : Option M) : Senders M W where
  mailbox := mailbox
  messages := Function.update s.messages f (some slot)
  parked := s.parked.park f w
  owners := s.owners ++ [f]

/-- One operation on the mailbox, taken as a whole. The name of a dropped future is not given
to another while its entry is queued. -/
def step (s : Senders M W) : Event M W → Option (Senders M W)
  | .send f m =>
    if (s.messages f).isNone && !s.owners.contains f then
      some { s with messages := Function.update s.messages f (some (some m)) }
    else none
  | .pollSend f w =>
    (s.messages f).bind fun slot =>
      (s.mailbox.pollSend slot w).map fun (mailbox, slot, result, wakes) =>
        match result with
        | .ready _ => (s.after (mailbox, wakes)).finish f (some slot)
        | .pending => s.suspend mailbox f w slot
  | .dropSend f =>
    (s.messages f).map fun slot => (s.after (s.mailbox.dropSend slot)).finish f none
  | .trySend m => some (s.after ((s.mailbox.trySend m).1, (s.mailbox.trySend m).2.2))
  | .tryRecv => some (s.after (s.mailbox.tryRecv.1, s.mailbox.tryRecv.2.2))
  | .pollRecv w => some (s.after ((s.mailbox.pollRecv w).1, (s.mailbox.pollRecv w).2.2))
  | .closeReceiver => some (s.after s.mailbox.closeReceiver)
  | .addSender => some (s.after (s.mailbox.addSender, []))
  | .dropSender => some (s.after s.mailbox.dropSender)
  | .closeSenderFactory => some (s.after s.mailbox.closeSenderFactory)

end Model

/-- With a free slot and a pending send future, one such future has been woken. -/
def NoStranded (s : Senders M W) : Prop :=
  s.mailbox.receiverClosed = false → s.mailbox.queue.length < s.mailbox.capacity →
    (∃ f, s.parked.waker f ≠ none) → ∃ f, s.parked.Woken f

/-- A future is polled only once its earlier entry has left the waiter queue, and
is dropped only when its entry has left or is the one the destructor removes. -/
def OwnEntry (s : Senders M W) : Event M W → Prop
  | .pollSend f _ => f ∉ s.owners
  | .dropSend f => f ∈ s.owners → s.owners.head? = some f
  | _ => True

instance (s : Senders M W) (a : Event M W) : Decidable (s.OwnEntry a) := by
  cases a <;> unfold OwnEntry <;> infer_instance

/-- Every entry belongs to a pending future, and while entries remain the free slots
and `surplus` more are covered by pending futures that have none. -/
structure Covered (surplus : Nat) (s : Senders M W) : Prop where
  bounded : s.mailbox.queue.length ≤ s.mailbox.capacity
  closed : s.mailbox.receiverClosed = true → s.owners = []
  entries : List.Forall₂ (fun f w => s.parked.waker f = some w) s.owners s.mailbox.sendWakers
  nodup : s.owners.Nodup
  unowned : ∀ f, s.parked.waker f ≠ none → f ∉ s.owners → s.parked.Woken f
  slots : s.owners ≠ [] → ∃ u : Finset Nat,
    s.mailbox.capacity + surplus ≤ s.mailbox.queue.length + u.card ∧
      ∀ f ∈ u, s.parked.waker f ≠ none ∧ f ∉ s.owners
  holding : ∀ f, s.parked.waker f ≠ none → ∃ m, s.messages f = some (some m)

private theorem covered_new (shardId capacity : Nat) :
    Covered 0 (new shardId capacity : Senders M W) where
  bounded := Nat.zero_le _
  closed _ := rfl
  entries := .nil
  nodup := .nil
  unowned _ hf := absurd rfl hf
  slots h := absurd rfl h
  holding _ hf := absurd rfl hf

variable {s : Senders M W} {fs : List Nat} {ws : List W} {f d : Nat}

theorem Covered.noStranded (h : Covered 0 s) : s.NoStranded := by
  intro _ hfree ⟨f, hf⟩
  by_cases hown : f ∈ s.owners
  · obtain ⟨u, hu, hmem⟩ := h.slots (ne_nil_of_mem hown)
    obtain ⟨g, hg⟩ : u.Nonempty := card_pos.mp (by omega)
    exact ⟨g, h.unowned g (hmem g hg).1 (hmem g hg).2⟩
  · exact ⟨f, h.unowned f hf hown⟩

/-- What an operation other than a pending send poll does to the waiter queue: it
removes `n` entries at the front and wakes them. -/
structure Pops (n : Nat) (a : SharedMailbox M W) (r : SharedMailbox M W × List W) : Prop where
  capacity : r.1.capacity = a.capacity
  bounded : a.queue.length ≤ a.capacity → r.1.queue.length ≤ a.capacity
  closed : r.1.receiverClosed = true → a.receiverClosed = true ∨ r.1.sendWakers = []
  wakers : r.1.sendWakers = a.sendWakers.drop n
  woken : ∀ w ∈ a.sendWakers.take n, w ∈ r.2

private theorem exists_entry {t : Parking Nat W}
    (h : Forall₂ (fun f w => t.waker f = some w) fs ws) (hf : f ∈ fs) :
    ∃ w ∈ ws, t.waker f = some w := by
  induction h with
  | nil => cases hf
  | @cons g w fs ws hw _ ih =>
    rcases mem_cons.mp hf with rfl | hf
    · exact ⟨w, mem_cons_self, hw⟩
    · obtain ⟨v, hv, he⟩ := ih hf
      exact ⟨v, mem_cons_of_mem _ hv, he⟩

private theorem entries_congr {t t' : Parking Nat W}
    (h : Forall₂ (fun f w => t.waker f = some w) fs ws)
    (heq : ∀ f ∈ fs, t'.waker f = t.waker f) : Forall₂ (fun f w => t'.waker f = some w) fs ws := by
  induction h with
  | nil => exact .nil
  | cons hw _ ih =>
    rw [← heq _ mem_cons_self] at hw
    exact .cons hw (ih fun f hf => heq f (mem_cons_of_mem _ hf))

private theorem covered_finish {e : Nat} (h : Covered e s) (hf : f ∉ s.owners) (hde : d ≤ e)
    (hcost : s.parked.waker f ≠ none → d < e) (slot : Option (Option M)) :
    Covered d (s.finish f slot) := by
  have hwaker : ∀ g, g ≠ f → (s.parked.leave f).waker g = s.parked.waker g := by
    intro g hg
    rw [waker_leave, if_neg hg]
  have hother : ∀ g, (s.parked.leave f).waker g ≠ none → g ≠ f ∧ s.parked.waker g ≠ none := by
    intro g hg
    rw [waker_leave] at hg
    split at hg
    · exact absurd rfl hg
    · exact ⟨by assumption, hg⟩
  refine ⟨h.bounded, h.closed, ?_, h.nodup, ?_, ?_, ?_⟩
  · exact entries_congr h.entries fun g hg => hwaker g fun he => hf (he ▸ hg)
  · intro g hg hnot
    obtain ⟨hne, hg⟩ := hother g hg
    exact (h.unowned g hg hnot).leave hne
  · intro hne
    obtain ⟨u, hu, hmem⟩ := h.slots hne
    refine ⟨u.erase f, ?_, ?_⟩
    · have hqueue : (s.finish f slot).mailbox = s.mailbox := rfl
      rw [hqueue]
      by_cases hfu : f ∈ u
      · have hlt := hcost (hmem f hfu).1
        have hcard := card_erase_add_one hfu
        omega
      · rw [erase_eq_of_notMem hfu]
        omega
    · intro g hg
      obtain ⟨hgf, hg⟩ := mem_erase.mp hg
      have hsame : (s.finish f slot).parked.waker g = s.parked.waker g := hwaker g hgf
      rw [hsame]
      exact hmem g hg
  · intro g hg
    obtain ⟨hne, hg⟩ := hother g hg
    obtain ⟨m, hm⟩ := h.holding g hg
    exact ⟨m, (update_of_ne hne _ _).trans hm⟩

private theorem covered_park (h : Covered d s) (hf : f ∉ s.owners)
    (hopen : s.mailbox.receiverClosed = false)
    (hfull : ¬ s.mailbox.queue.length < s.mailbox.capacity) (m : M) (w : W) :
    Covered 0 (s.suspend { s.mailbox with sendWakers := s.mailbox.sendWakers ++ [w] } f w
      (some m)) := by
  have hwaker : ∀ g, g ≠ f → (s.parked.park f w).waker g = s.parked.waker g := by
    intro g hg
    rw [waker_park, if_neg hg]
  refine ⟨h.bounded, ?_, ?_, ?_, ?_, ?_, ?_⟩
  · intro hc
    rw [show s.mailbox.receiverClosed = true from hc] at hopen
    cases hopen
  · have hnew : (s.parked.park f w).waker f = some w := by
      rw [waker_park, if_pos rfl]
    exact rel_append (entries_congr h.entries fun g hg => hwaker g fun he => hf (he ▸ hg))
      (.cons hnew .nil)
  · exact nodup_append.mpr ⟨h.nodup, nodup_singleton f, fun a ha b hb hab =>
      hf (List.mem_singleton.mp hb ▸ hab ▸ ha)⟩
  · intro g hg hnot
    have hne : g ≠ f := fun he => hnot (List.mem_append_right _ (List.mem_singleton.mpr he))
    have hold : g ∉ s.owners := fun ho => hnot (mem_append_left _ ho)
    exact (h.unowned g (hwaker g hne ▸ hg) hold).park hne w
  · intro _
    exact ⟨∅, Nat.le_of_not_lt hfull, fun g hg => absurd hg (notMem_empty g)⟩
  · intro g hg
    by_cases hgf : g = f
    · exact ⟨m, hgf ▸ update_self f _ _⟩
    · obtain ⟨m', hm⟩ := h.holding g (hwaker g hgf ▸ hg)
      exact ⟨m', (update_of_ne hgf _ _).trans hm⟩

private theorem mem_head_toList {w : W} (h : w ∈ ws.take 1) : w ∈ ws.head?.toList := by
  cases ws with
  | nil => cases h
  | cons v ws => simpa using h

private theorem pops_tail (a : SharedMailbox M W) (queue : List M) (received : UInt64)
    (hq : queue.length ≤ a.queue.length) :
    Pops 1 a ({ a with queue := queue, received := received, sendWakers := a.sendWakers.tail },
      a.sendWakers.head?.toList) where
  capacity := rfl
  bounded h := Nat.le_trans hq h
  closed h := .inl h
  wakers := drop_one.symm
  woken _ := mem_head_toList

private theorem pops_none {a b : SharedMailbox M W} (ws : List W)
    (hcap : b.capacity = a.capacity) (hq : b.queue = a.queue)
    (hclosed : b.receiverClosed = a.receiverClosed) (hw : b.sendWakers = a.sendWakers) :
    Pops 0 a (b, ws) where
  capacity := hcap
  bounded h := hq ▸ h
  closed h := .inl (hclosed ▸ h)
  wakers := hw
  woken _ h := nomatch h

private theorem pops_push (a : SharedMailbox M W) (m : M) (hlt : a.queue.length < a.capacity)
    (sent : UInt64) (ws : List W) :
    Pops 0 a ({ a with queue := a.queue ++ [m], sent := sent, recvWaker := none }, ws) where
  capacity := rfl
  bounded _ := by
    rw [length_append]
    exact hlt
  closed h := .inl h
  wakers := rfl
  woken _ h := nomatch h

/-- Each removed entry was the only one of a pending future, which then covers one more
free slot. -/
private theorem slots_drop {n : Nat} (h : Covered d s) (hne : s.owners.drop n ≠ []) :
    ∃ u : Finset Nat,
      s.mailbox.capacity + d + n ≤ s.mailbox.queue.length + u.card ∧
        ∀ f ∈ u, s.parked.waker f ≠ none ∧ f ∉ s.owners.drop n := by
  have hn : n < s.owners.length := by
    by_contra hle
    exact hne (drop_eq_nil_of_le (by omega))
  obtain ⟨u, hu, hmem⟩ := h.slots (fun h0 => by simp [h0] at hn)
  have htake : ∀ f ∈ s.owners.take n, f ∈ s.owners := fun f => mem_of_mem_take
  refine ⟨u ∪ (s.owners.take n).toFinset, ?_, ?_⟩
  · have hdis : Disjoint u (s.owners.take n).toFinset := by
      rw [Finset.disjoint_left]
      intro f hf ht
      exact (hmem f hf).2 (htake f (mem_toFinset.mp ht))
    have hcard : (s.owners.take n).toFinset.card = n := by
      rw [toFinset_card_of_nodup (h.nodup.sublist (take_sublist n _)),
        length_take_of_le (Nat.le_of_lt hn)]
    rw [card_union_of_disjoint hdis, hcard]
    omega
  · intro f hf
    rcases mem_union.mp hf with hf | hf
    · exact ⟨(hmem f hf).1, fun hd => (hmem f hf).2 (mem_of_mem_drop hd)⟩
    · have hf := mem_toFinset.mp hf
      obtain ⟨w, _, he⟩ := exists_entry h.entries (htake f hf)
      refine ⟨by simp [he], ?_⟩
      exact disjoint_take_drop h.nodup (Nat.le_refl n) hf

section Steps
variable [DecidableEq W]

variable {n : Nat} {r : SharedMailbox M W × List W} {t : Senders M W}

private theorem owners_after (h : Covered d s) (hp : Pops n s.mailbox r) :
    (s.after r).owners = s.owners.drop n := by
  have hlen := h.entries.length_eq
  rw [after, hp.wakers, length_drop, ← hlen]
  rcases Nat.le_total n s.owners.length with hn | hn
  · rw [Nat.sub_sub_self hn]
  · rw [drop_eq_nil_of_le hn, drop_eq_nil_of_le (by omega)]

private theorem unowned_after (h : Covered d s) (hp : Pops n s.mailbox r)
    (hf : s.parked.waker f ≠ none) (hnot : f ∉ s.owners.drop n) : (s.parked.wake r.2).Woken f := by
  by_cases hmem : f ∈ s.owners
  · have htake : f ∈ s.owners.take n := by
      rw [← take_append_drop n s.owners] at hmem
      exact (mem_append.mp hmem).resolve_right hnot
    obtain ⟨w, hw, he⟩ := exists_entry (forall₂_take n h.entries) htake
    exact woken_of_mem he (hp.woken w hw)
  · exact (h.unowned f hf hmem).wake r.2

/-- The step lemma of the waiter queue, for a step that frees no more slots than it
removes entries. -/
private theorem covered_after {e : Nat} (h : Covered d s) (hp : Pops n s.mailbox r)
    (hq : s.mailbox.queue.length + e ≤ r.1.queue.length + d + n) : Covered e (s.after r) := by
  have hown := owners_after h hp
  have hwaker : ∀ f, (s.after r).parked.waker f = s.parked.waker f := fun f => by simp [after]
  refine ⟨?_, ?_, ?_, ?_, ?_, ?_, ?_⟩
  · exact hp.capacity ▸ hp.bounded h.bounded
  · intro hc
    rw [hown]
    rcases hp.closed hc with hc | hnil
    · rw [h.closed hc, drop_nil]
    · have hlen := h.entries.length_eq
      have hcut := congrArg length (hp.wakers.symm.trans hnil)
      rw [length_drop, length_nil] at hcut
      exact drop_eq_nil_of_le (by omega)
  · rw [hown]
    simp only [hwaker]
    exact hp.wakers ▸ forall₂_drop n h.entries
  · rw [hown]
    exact h.nodup.sublist (drop_sublist n _)
  · intro f hf hnot
    exact unowned_after h hp (hwaker f ▸ hf) (hown ▸ hnot)
  · intro hne
    rw [hown] at hne
    obtain ⟨u, hu, hmem⟩ := slots_drop h hne
    refine ⟨u, ?_, ?_⟩
    · have hcap : (s.after r).mailbox.capacity = s.mailbox.capacity := hp.capacity
      have hqueue : (s.after r).mailbox.queue = r.1.queue := rfl
      rw [hcap, hqueue]
      omega
    · intro f hf
      rw [hwaker, hown]
      exact hmem f hf
  · intro f hf
    rw [hwaker] at hf
    exact h.holding f hf

section
variable (h : Covered 0 s)
include h

private theorem covered_trySend (m : M) :
    Covered 0 (s.after ((s.mailbox.trySend m).1, (s.mailbox.trySend m).2.2)) := by
  rw [trySend]
  split
  · exact covered_after h (pops_none _ rfl rfl rfl rfl) le_rfl
  · split
    · exact covered_after h (pops_none _ rfl rfl rfl rfl) le_rfl
    · have hlt := Nat.lt_of_le_of_ne h.bounded (by assumption)
      exact covered_after h (pops_push _ m hlt _ _) (by simp)

private theorem covered_tryRecv :
    Covered 0 (s.after (s.mailbox.tryRecv.1, s.mailbox.tryRecv.2.2)) := by
  rw [tryRecv]
  split
  next m queue hq =>
    exact covered_after h (pops_tail _ queue _ (by simp [hq])) (by simp [hq])
  · exact covered_after h (pops_none _ rfl rfl rfl rfl) le_rfl

private theorem covered_pollRecv (w : W) :
    Covered 0 (s.after ((s.mailbox.pollRecv w).1, (s.mailbox.pollRecv w).2.2)) := by
  rw [pollRecv]
  split
  next m queue hq =>
    exact covered_after h (pops_tail _ queue _ (by simp [hq])) (by simp [hq])
  · split <;> exact covered_after h (pops_none _ rfl rfl rfl rfl) le_rfl

private theorem covered_closeReceiver : Covered 0 (s.after s.mailbox.closeReceiver) := by
  rw [closeReceiver]
  split
  · exact covered_after h (pops_none _ rfl rfl rfl rfl) le_rfl
  · have hp : Pops s.mailbox.sendWakers.length s.mailbox
        ({ s.mailbox with receiverClosed := true, recvWaker := none, sendWakers := [] },
          s.mailbox.recvWaker.toList ++ s.mailbox.sendWakers) :=
      ⟨rfl, id, fun _ => .inr rfl, drop_length.symm,
        fun w hw => mem_append_right _ (mem_of_mem_take hw)⟩
    exact covered_after h hp (by simp)

private theorem covered_dropSender : Covered 0 (s.after s.mailbox.dropSender) := by
  simp only [dropSender]
  split <;> exact covered_after h (pops_none _ rfl rfl rfl rfl) le_rfl

private theorem covered_closeSenderFactory : Covered 0 (s.after s.mailbox.closeSenderFactory) := by
  simp only [closeSenderFactory]
  split
  · exact covered_after h (pops_none _ rfl rfl rfl rfl) le_rfl
  · split <;> exact covered_after h (pops_none _ rfl rfl rfl rfl) le_rfl

private theorem covered_pollSend {w : W} (hf : f ∉ s.owners)
    (hst : s.step (.pollSend f w) = some t) : Covered 0 t := by
  obtain ⟨slot, hslot, hst⟩ := Option.bind_eq_some_iff.mp hst
  cases slot with
  | none => simp [pollSend] at hst
  | some m =>
    by_cases hc : s.mailbox.receiverClosed = true
    · rw [pollSend_of_closed hc] at hst
      cases hst
      have hsurplus : Covered 1 s := { h with slots := fun hne => absurd (h.closed hc) hne }
      have hp := pops_none (a := s.mailbox)
        (b := { s.mailbox with closedRejections := s.mailbox.closedRejections + 1 }) []
        rfl rfl rfl rfl
      exact covered_finish (covered_after hsurplus hp le_rfl)
        (owners_after hsurplus hp ▸ hf) (Nat.zero_le 1) (fun _ => Nat.zero_lt_one) _
    · by_cases hlt : s.mailbox.queue.length < s.mailbox.capacity
      · rw [pollSend_of_room hc hlt] at hst
        cases hst
        have hp := pops_push s.mailbox m hlt (s.mailbox.sent + 1) s.mailbox.recvWaker.toList
        exact covered_finish (covered_after (e := 1) h hp (by simp)) (owners_after h hp ▸ hf)
          (Nat.zero_le 1) (fun _ => Nat.zero_lt_one) _
      · rw [pollSend_of_full hc hlt] at hst
        cases hst
        exact covered_park h hf (Bool.eq_false_iff.mpr hc) hlt m w

end

private theorem notMem_drop_one (hnodup : fs.Nodup) (hf : f ∈ fs → fs.head? = some f) :
    f ∉ fs.drop 1 := by
  intro hmem
  have hhead := hf (mem_of_mem_drop hmem)
  cases fs with
  | nil => cases hmem
  | cons g fs =>
    cases hhead
    exact (nodup_cons.mp hnodup).1 hmem

private theorem covered_dropSend (h : Covered 0 s) (hf : f ∈ s.owners → s.owners.head? = some f)
    (hst : s.step (.dropSend f) = some t) : Covered 0 t := by
  obtain ⟨slot, hslot, rfl⟩ := Option.map_eq_some_iff.mp hst
  cases slot with
  | some m =>
    have hp : Pops 1 s.mailbox (s.mailbox.dropSend (some m)) :=
      ⟨rfl, id, .inl, drop_one.symm, fun _ => mem_head_toList⟩
    exact covered_finish (covered_after (e := 1) h hp le_rfl)
      (owners_after h hp ▸ notMem_drop_one h.nodup hf) (Nat.zero_le 1)
      (fun _ => Nat.zero_lt_one) _
  | none =>
    have hidle : s.parked.waker f = none := by
      by_contra hne
      obtain ⟨m, hm⟩ := h.holding f hne
      cases hslot.symm.trans hm
    have hp : Pops 0 s.mailbox (s.mailbox.dropSend none) := pops_none _ rfl rfl rfl rfl
    have hout : f ∉ s.owners := by
      intro hmem
      obtain ⟨w, _, hw⟩ := exists_entry h.entries hmem
      cases hidle.symm.trans hw
    refine covered_finish (covered_after (e := 0) h hp le_rfl)
      (owners_after h hp ▸ hout) (Nat.le_refl 0) (fun hne => ?_) _
    exact absurd ((waker_wake s.parked _ f).trans hidle) hne

private theorem covered_send {m : M} (h : Covered 0 s) (hst : s.step (.send f m) = some t) :
    Covered 0 t := by
  obtain ⟨_, rfl⟩ := guarded hst
  refine { h with holding := fun g hg => ?_ }
  by_cases hgf : g = f
  · subst hgf
    exact ⟨m, update_self g _ _⟩
  · obtain ⟨m', hm⟩ := h.holding g hg
    exact ⟨m', (update_of_ne hgf _ _).trans hm⟩

private theorem covered_step {a : Event M W} (h : Covered 0 s) (hok : s.OwnEntry a)
    (hst : s.step a = some t) : Covered 0 t := by
  cases a with
  | send f m => exact covered_send h hst
  | pollSend f w => exact covered_pollSend h hok hst
  | dropSend f => exact covered_dropSend h hok hst
  | trySend m => cases hst; exact covered_trySend h m
  | tryRecv => cases hst; exact covered_tryRecv h
  | pollRecv w => cases hst; exact covered_pollRecv h w
  | closeReceiver => cases hst; exact covered_closeReceiver h
  | addSender =>
    cases hst
    exact covered_after h (pops_none _ rfl rfl rfl rfl) le_rfl
  | dropSender => cases hst; exact covered_dropSender h
  | closeSenderFactory => cases hst; exact covered_closeSenderFactory h

/-- When no future is polled or dropped past its own queued entry, no pending
sender is left asleep beside a free slot. -/
theorem pending_send_woken (shardId capacity : Nat) {s : Senders M W}
    (h : Reach step OwnEntry (new shardId capacity) s) : s.NoStranded :=
  (h.invariant (covered_new shardId capacity) fun _ _ _ => covered_step).noStranded

/-- A send future polled once is woken by the receive that frees its slot. -/
theorem freed_slot_wakes : ∃ s : Senders Nat Nat,
    run step (new 0 1) [.send 0 7, .trySend 8, .pollSend 0 1, .tryRecv] = some s ∧
      s.mailbox.queue = [] ∧ s.parked.waker 0 = some 1 ∧ ∃ f, s.parked.Woken f := by
  refine ⟨_, rfl, rfl, rfl, ?_⟩
  have hreach : Reach step OwnEntry (new 0 1 : Senders Nat Nat) _ :=
    reach_of_run [.send 0 7, .trySend 8, .pollSend 0 1, .tryRecv] (by decide) rfl
  exact pending_send_woken 0 1 hreach rfl (by decide) ⟨0, by decide⟩

/-- Polled twice while the queue is full, future 0 owns two entries, and the second one absorbs the
wake-up of future 1. -/
theorem repolled_sender_strands : ∃ s : Senders Nat Nat,
    run step (new 0 1) [.send 0 7, .send 1 8, .trySend 9, .pollSend 0 1, .pollSend 0 1,
      .pollSend 1 2, .tryRecv, .pollSend 0 1, .tryRecv] = some s ∧ ¬ s.NoStranded := by
  refine ⟨_, rfl, fun h => ?_⟩
  obtain ⟨f, w, hw⟩ := h rfl (by decide) ⟨1, by decide⟩
  change ((((((((empty.wake []).park 0 1).park 0 1).park 1 2).wake [1]).wake []).leave
    0).wake [1]) f = some ⟨w, true⟩ at hw
  match f with
  | 0 => cases hw
  | 1 => cases hw
  | n + 2 => simp [wake, park, leave, empty] at hw

end Steps
end Senders
end Sitas.Mailbox
