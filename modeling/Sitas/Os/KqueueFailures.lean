import Sitas.Os.KqueueRounds

/-! Failures in a kqueue reconciliation: which ones leave the registry describing exactly the
filters that the kernel holds. -/
namespace Sitas.Os.Kqueue
open Epoll (RawFd Errno EpollRegistry)
open List

/-- The two maps are inverse, and the kernel holds the filters that they describe, with their
tokens, and that of the wake descriptor. -/
structure Consistent (wakeFd : RawFd) (b : KqueueBackend) : Prop where
  paired : b.registry.Paired wakeFd
  wakeRead : b.kernel.filters wakeFd .read = some 0
  wakeWrite : b.kernel.filters wakeFd .write = none
  described : ∀ fd, fd ≠ wakeFd → DescribedAt b fd

variable {wakeFd fd : RawFd} {b : KqueueBackend} {outcome : Outcomes} {readFds writeFds : List RawFd}
  {i : KqueueInterest}

theorem consistent_new (wakeFd : RawFd) : Consistent wakeFd (KqueueBackend.new wakeFd) where
  paired := EpollRegistry.paired_new wakeFd
  wakeRead := if_pos ⟨rfl, rfl⟩
  wakeWrite := if_neg (by simp)
  described := fun fd hne f => by
    rw [tokenOf, interestOf_none rfl]
    cases f <;> simp [KqueueBackend.new, hne, unregistered, Epoll.EpollInterest.has]

def requested (readFds writeFds : List RawFd) (fd : RawFd) : KqueueInterest :=
  ⟨fd, decide (fd ∈ readFds), decide (fd ∈ writeFds)⟩

private theorem eq_requested (hi : i ∈ kqueueInterests readFds writeFds) :
    requested readFds writeFds i.fd = i := by
  obtain ⟨-, hread, hwrite⟩ := (Epoll.mem_epollInterests readFds writeFds i).mp hi
  rw [requested, ← hread, ← hwrite]

private theorem requested_of_notMem (hfd : fd ∉ (kqueueInterests readFds writeFds).map (·.fd)) :
    requested readFds writeFds fd = unregistered fd := by
  have hnone : ¬ (fd ∈ readFds ∨ fd ∈ writeFds) := fun hor => by
    have hmem := (Epoll.mem_epollInterests readFds writeFds (requested readFds writeFds fd)).mpr
      ⟨hor, rfl, rfl⟩
    exact hfd (mem_map.mpr ⟨_, hmem, rfl⟩)
  rw [not_or] at hnone
  simp [requested, unregistered, hnone]

theorem nodup_targets (b : KqueueBackend) (readFds writeFds : List RawFd) :
    ((b.targets (kqueueInterests readFds writeFds)).map (·.fd)).Nodup := by
  rw [KqueueBackend.targets, map_append, map_map, nodup_append]
  refine ⟨?_, Epoll.nodup_epollInterests readFds writeFds, fun fd hfd d hd heq => ?_⟩
  · have hkeys : b.registry.interestFds.Nodup := b.registry.byFd.nodupKeys
    exact (map_id _).symm ▸ hkeys.filter _
  · have hfd := (map_id _) ▸ hfd
    exact (Epoll.mem_stale.mp hfd).2 (heq ▸ hd)

/-- A reconciliation leaves the backend consistent exactly if its changes are exact for each
descriptor, and if it succeeds the requested interests are registered. -/
theorem Consistent.reconcile {result : Option Errno} {b' : KqueueBackend} (h : Consistent wakeFd b)
    (hread : wakeFd ∉ readFds) (hwrite : wakeFd ∉ writeFds)
    (hreconcile : b.reconcileKqueueInterests outcome (kqueueInterests readFds writeFds) =
      (result, b')) :
    b'.registry.Paired wakeFd ∧
    (Consistent wakeFd b' ↔ ∀ fd, Exact outcome fd (submitted outcome
      (changesOf b.registry (b.targets (kqueueInterests readFds writeFds))))) ∧
    ((∀ c, outcome c = none) → result = none) ∧
    (result = none → ∀ fd, interestOf b'.registry fd = requested readFds writeFds fd) := by
  have hne : ∀ i ∈ kqueueInterests readFds writeFds, i.fd ≠ wakeFd := fun i hi hfd => by
    rcases ((Epoll.mem_epollInterests readFds writeFds i).mp hi).1 with hmem | hmem
    · exact hread (hfd ▸ hmem)
    · exact hwrite (hfd ▸ hmem)
  have hrounds := rounds_reconcile h.paired hne hreconcile
  have hnodup := nodup_targets b readFds writeFds
  have hwake : wakeFd ∉ (b.targets (kqueueInterests readFds writeFds)).map (·.fd) := fun hmem => by
    rcases mem_targets.mp hmem with hmem | hmem
    · obtain ⟨t, ht⟩ := Option.isSome_iff_exists.mp (AList.lookup_isSome.mpr hmem)
      exact (h.paired.registered wakeFd t ht).2 rfl
    · obtain ⟨i, hi, hfd⟩ := mem_map.mp hmem
      exact hne i hi hfd
  have hpaired := hrounds.paired h.paired
  refine ⟨hpaired, ⟨fun h' fd => ?_, fun hexact => ?_⟩, hrounds.returns, fun hok fd => ?_⟩
  · by_cases hfd : fd = wakeFd
    · refine .inl fun c hc hcfd => absurd ?_ hwake
      rw [← hfd, ← hcfd]
      exact fd_mem_of_mem_changesOf h.paired.keyed (submitted_subset hc)
    · exact (hrounds.exact h.paired.keyed hnodup (h.described fd hfd)).mp (h'.described fd hfd)
  · have hfilters := (hrounds.others hwake).filters
    exact ⟨hpaired, (hfilters .read).trans h.wakeRead, (hfilters .write).trans h.wakeWrite,
      fun fd hfd =>
        (hrounds.exact h.paired.keyed hnodup (h.described fd hfd)).mpr (hexact fd)⟩
  · have hregistered := hrounds.registered hnodup hok
    by_cases hfd : fd ∈ (kqueueInterests readFds writeFds).map (·.fd)
    · obtain ⟨i, hi, rfl⟩ := mem_map.mp hfd
      rw [hregistered i (mem_append_right _ hi), eq_requested hi]
    · rw [requested_of_notMem hfd]
      by_cases hkey : fd ∈ b.registry.byFd
      · exact hregistered (unregistered fd)
          (mem_append_left _ (mem_map_of_mem (Epoll.mem_stale.mpr ⟨hkey, hfd⟩)))
      · rw [interestOf_congr (hrounds.others fun hmem => (mem_targets.mp hmem).elim hkey hfd).registry]
        exact interestOf_none (AList.lookup_eq_none.mpr hkey)

/-- The registry describes exactly the filters that the kernel holds. -/
def Describes (b : KqueueBackend) : Prop :=
  ∀ fd f t, b.kernel.filters fd f = some t ↔
    ∃ i, b.registry.get t = some i ∧ i.fd = fd ∧ i.has f = true

theorem tokenOf_eq_some {r : KqueueRegistry} (h : r.Paired wakeFd) (hfd : fd ≠ wakeFd) (f : Filter)
    (t : Nat) : tokenOf r fd f = some t ↔ ∃ i, r.get t = some i ∧ i.fd = fd ∧ i.has f = true := by
  rw [tokenOf]
  constructor
  · intro htoken
    split at htoken
    next hhas =>
      obtain ⟨i, hi, hifd⟩ := h.keyed.named fd t htoken
      rw [interestOf_eq htoken hi] at hhas
      exact ⟨i, hi, hifd, hhas⟩
    · cases htoken
  · rintro ⟨i, hi, rfl, hhas⟩
    have ht : t ≠ 0 := by
      rintro rfl
      cases h.wake.symm.trans hi
      exact hfd rfl
    have hlookup := h.tokens t i ht hi
    rw [interestOf_eq hlookup hi, if_pos hhas, hlookup]

theorem wake_token_iff {r : KqueueRegistry} (h : r.Paired wakeFd) (f : Filter) (t : Nat) :
    (∃ i, r.get t = some i ∧ i.fd = wakeFd ∧ i.has f = true) ↔ f = .read ∧ t = 0 := by
  constructor
  · rintro ⟨i, hi, hifd, hhas⟩
    by_cases ht : t = 0
    · subst ht
      cases h.wake.symm.trans hi
      cases f with
      | read => exact ⟨rfl, rfl⟩
      | write => cases hhas
    · exact absurd hifd (h.registered i.fd t (h.tokens t i ht hi)).2
  · rintro ⟨rfl, rfl⟩
    exact ⟨_, h.wake, rfl, rfl⟩

theorem consistent_iff (h : b.registry.Paired wakeFd) : Consistent wakeFd b ↔ Describes b := by
  constructor
  · intro hb fd f t
    by_cases hfd : fd = wakeFd
    · subst hfd
      rw [wake_token_iff h]
      cases f with
      | read => simp [hb.wakeRead, eq_comm]
      | write => simp [hb.wakeWrite]
    · rw [hb.described fd hfd f, tokenOf_eq_some h hfd]
  · intro hb
    refine ⟨h, (hb ..).mpr ((wake_token_iff h ..).mpr ⟨rfl, rfl⟩), ?_, fun fd hfd f => ?_⟩
    · rw [Option.eq_none_iff_forall_ne_some]
      intro t ht
      cases ((wake_token_iff h ..).mp ((hb ..).mp ht)).1
    · ext t
      rw [hb fd f t, tokenOf_eq_some h hfd]

theorem Consistent.holds_requested (h : Consistent wakeFd b) (hread : wakeFd ∉ readFds)
    (hwrite : wakeFd ∉ writeFds)
    (hheld : ∀ fd, interestOf b.registry fd = requested readFds writeFds fd) (fd : RawFd)
    (f : Filter) :
    (b.kernel.filters fd f).isSome = true ↔
      (requested readFds writeFds fd).has f = true ∨ fd = wakeFd ∧ f = .read := by
  by_cases hfd : fd = wakeFd
  · subst hfd
    cases f with
    | read => simp [h.wakeRead]
    | write => simp [h.wakeWrite, requested, Epoll.EpollInterest.has, hwrite]
  · rw [h.described fd hfd f, tokenOf, hheld fd]
    by_cases hhas : (requested readFds writeFds fd).has f = true
    · have hsome : (b.registry.byFd.lookup fd).isSome = true := by
        cases hlookup : b.registry.byFd.lookup fd with
        | some t => rfl
        | none =>
          rw [← hheld fd, interestOf_none hlookup] at hhas
          cases f <;> cases hhas
      simp [hhas, hsome]
    · simp [hhas, hfd]

theorem Consistent.handleKevents (h : Consistent wakeFd b) (drainWakes : Nat → Except Errno Bool)
    (events : List Kevent) (hevents : ∀ e ∈ events, ∃ fd, b.kernel.filters fd e.filter = some e.udata)
    (acc : Epoll.OsEvent × Nat) :
    handleKevents b.registry drainWakes acc events ≠ .error .unknownInterest := by
  induction events generalizing acc with
  | nil => exact fun heq => by cases heq
  | cons event events ih =>
    have hrest := ih fun e he => hevents e (mem_cons_of_mem event he)
    obtain ⟨fd, hfilter⟩ := hevents event mem_cons_self
    obtain ⟨i, hi, -, -⟩ := ((consistent_iff h.paired).mp h fd event.filter event.udata).mp hfilter
    rw [Kqueue.handleKevents, handleKevent]
    by_cases hzero : event.udata = 0
    · rw [if_pos hzero]
      cases drainWakes acc.2 with
      | ok woke => exact hrest _
      | error e => exact fun heq => by cases heq
    · rw [if_neg hzero, hi]
      exact hrest _

/-- The registry describes exactly the filters that the kernel holds after a reconciliation,
whatever it returns, exactly if the changes submitted for each descriptor all succeed, or all fail
and one of them is a registration. -/
theorem registry_exact_iff (h : Consistent wakeFd b) (hread : wakeFd ∉ readFds)
    (hwrite : wakeFd ∉ writeFds) {result : Option Errno} {b' : KqueueBackend}
    (hreconcile : b.reconcileKqueueInterests outcome (kqueueInterests readFds writeFds) =
      (result, b')) :
    (Describes b' ∧
    (result = none → ∀ fd f, (b'.kernel.filters fd f).isSome = true ↔
      (requested readFds writeFds fd).has f = true ∨ fd = wakeFd ∧ f = .read) ∧
    (∀ readFds' writeFds', wakeFd ∉ readFds' → wakeFd ∉ writeFds' →
      ∃ b'', b'.reconcileKqueueInterests (fun _ => none) (kqueueInterests readFds' writeFds') =
          (none, b'') ∧
        ∀ fd f, (b''.kernel.filters fd f).isSome = true ↔
          (requested readFds' writeFds' fd).has f = true ∨ fd = wakeFd ∧ f = .read) ∧
    ∀ drainWakes acc events, (∀ e ∈ events, ∃ fd, b'.kernel.filters fd e.filter = some e.udata) →
      handleKevents b'.registry drainWakes acc events ≠ .error .unknownInterest) ↔
    ∀ fd, Exact outcome fd (submitted outcome
      (changesOf b.registry (b.targets (kqueueInterests readFds writeFds)))) := by
  obtain ⟨hpaired, hexact, -, hheld⟩ := h.reconcile hread hwrite hreconcile
  rw [← hexact]
  refine ⟨fun hall => (consistent_iff hpaired).mpr hall.1, fun hb => ?_⟩
  refine ⟨(consistent_iff hpaired).mp hb, fun hok => hb.holds_requested hread hwrite (hheld hok),
    fun readFds' writeFds' hr hw => ?_, fun drainWakes acc events hevents =>
      hb.handleKevents drainWakes events hevents acc⟩
  have hclean : b'.reconcileKqueueInterests (fun _ => none) (kqueueInterests readFds' writeFds') = _ := rfl
  obtain ⟨-, hexact', hreturns, hheld'⟩ := hb.reconcile hr hw hclean
  have hok := hreturns fun _ => rfl
  have hb'' := hexact'.mpr fun fd => .inl fun _ _ _ => rfl
  exact ⟨_, Prod.ext hok rfl, hb''.holds_requested hr hw (hheld' hok)⟩

private def busyPort : Errno := .other 23

private def refusing (fd : RawFd) (f : Filter) : Outcomes := fun change =>
  if change = .add fd f then some busyPort else none

/-- Descriptor 5 is registered for reading. -/
private def readOnFive : KqueueBackend :=
  ((KqueueBackend.new 3).reconcileKqueueInterests (fun _ => none) (kqueueInterests [5] [])).2

private def busyFive : Outcomes := fun change => if change.fd = 5 then some busyPort else none

private def refused : Option Errno × KqueueBackend :=
  readOnFive.reconcileKqueueInterests busyFive (kqueueInterests [4] [5])

theorem consistent_readOnFive : Consistent 3 readOnFive := by
  have hclean : (KqueueBackend.new 3).reconcileKqueueInterests (fun _ => none)
    (kqueueInterests [5] []) = _ := rfl
  obtain ⟨-, hexact, -, -⟩ := (consistent_new 3).reconcile (by decide) (by decide) hclean
  exact hexact.mpr fun fd => .inl fun _ _ _ => rfl

/-- The error is returned, and the registry describes what is registered for both. -/
theorem refused_write_stays_described :
    refused.1 = some busyPort ∧ refused.2.kernel.filters 4 .read = some 2 ∧
    refused.2.registry.get 1 = some ⟨5, true, false⟩ ∧
    refused.2.kernel.filters 5 .read = some 1 ∧ Describes refused.2 := by
  refine ⟨by decide +kernel, by decide +kernel, by decide +kernel, by decide +kernel,
    ((registry_exact_iff consistent_readOnFive (by decide) (by decide) rfl).mpr fun fd => ?_).1⟩
  have hsubmitted : submitted busyFive (changesOf readOnFive.registry
      (readOnFive.targets (kqueueInterests [4] [5]))) =
      [.add 4 .read, .delete 5 .read, .add 5 .write] := by decide +kernel
  rw [hsubmitted]
  by_cases hfd : fd = 5
  · subst hfd
    exact .inr ⟨⟨.write, by decide⟩, by decide⟩
  · exact .inl fun c hc hcfd => if_neg (hcfd ▸ hfd)

/-- The write filter is refused: the kernel keeps the read filter, the registry knows neither
descriptor nor token, and the event of the filter makes the next wait panic. -/
theorem refused_write_leaks_read_filter :
    let (result, b) := (KqueueBackend.new 3).reconcileKqueueInterests
      (refusing 5 .write) (kqueueInterests [5] [5])
    Consistent 3 (KqueueBackend.new 3) ∧ result = some busyPort ∧
    b.kernel.filters 5 .read = some 1 ∧ b.registry.tokenForFd 5 = none ∧
    b.registry.get 1 = none ∧
    handleKevents b.registry (fun _ => .ok true) (.empty, 0) [⟨1, .read, false, false⟩] =
      .error .unknownInterest :=
  ⟨consistent_new 3, by decide +kernel, by decide +kernel, by decide +kernel, by decide +kernel,
    by decide +kernel⟩

end Sitas.Os.Kqueue
