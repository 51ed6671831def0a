import Sitas.Os.EpollCalls

namespace Sitas.Os.Epoll
open Sitas.Lib List AList EpollBackend Kernel Option

/-- The backend of one process with the interests of its last wait. -/
structure Session where
  backend : EpollBackend
  requested : List EpollInterest

def HostEvent.requests (requested : List EpollInterest) : HostEvent → List EpollInterest
  | .waitIo readFds writeFds => epollInterests readFds writeFds
  | .openFile _ | .dup _ _ | .close _ => requested

namespace Session

def new (wakeFd : RawFd) : Session := ⟨EpollBackend.new wakeFd, []⟩

def step (s : Session) (e : HostEvent) : Option Session :=
  (hostStep s.backend e).map fun b => ⟨b, e.requests s.requested⟩

/-- Neither the wake descriptor nor a registered one is closed, and a wait asks for open
descriptors other than the wake descriptor. -/
def KeepsOpen (wakeFd : RawFd) (s : Session) : HostEvent → Prop
  | .openFile _ | .dup _ _ => True
  | .close fd => fd ≠ wakeFd ∧ s.backend.registry.tokenForFd fd = none
  | .waitIo readFds writeFds =>
    wakeFd ∉ readFds ++ writeFds ∧ ∀ fd ∈ readFds ++ writeFds, fd ∈ s.backend.kernel.files

/-- The kernel watches the wake descriptor under token 0 and each requested interest under its
own token, and nothing else; and the two maps of the registry say the same. -/
structure Exact (wakeFd : RawFd) (s : Session) : Prop where
  opened : wakeFd ∈ s.backend.kernel.files ∧ ∀ i ∈ s.requested, i.fd ∈ s.backend.kernel.files
  registrations : ∀ fd file reg, s.backend.kernel.watched fd file = some reg ↔
    s.backend.kernel.files.lookup fd = some file ∧
      ((fd = wakeFd ∧ reg = ⟨epollIn, 0⟩) ∨
        ∃ i ∈ s.requested, ∃ token, i.fd = fd ∧ s.backend.registry.tokenForFd fd = some token ∧
          reg = ⟨i.events, token⟩)
  inverse : ∀ fd token, s.backend.registry.tokenForFd fd = some token ↔
    token ≠ 0 ∧ ∃ i, s.backend.registry.get token = some i ∧ i.fd = fd
  described : ∀ i, i ∈ s.requested ↔ ∃ token, token ≠ 0 ∧ s.backend.registry.get token = some i
  wake : s.backend.registry.get 0 = some ⟨wakeFd, true, false⟩
  distinct : ∀ fd fd' token, s.backend.registry.tokenForFd fd = some token →
    s.backend.registry.tokenForFd fd' = some token → fd = fd'
  below : ∀ fd token, s.backend.registry.tokenForFd fd = some token →
    token < s.backend.registry.nextToken

/-- The registry holds the requested interests and no others. -/
structure Settled (wakeFd : RawFd) (s : Session) : Prop where
  tied : Tied wakeFd s.backend
  held : ∀ i ∈ s.requested, ∃ t,
    s.backend.registry.byFd.lookup i.fd = some t ∧ s.backend.registry.byToken.lookup t = some i
  only : ∀ d t, s.backend.registry.byFd.lookup d = some t → d ∈ s.requested.map (·.fd)

section Runs
variable {wakeFd : RawFd} {s t : Session} {e : HostEvent} {readFds writeFds : List RawFd}

private theorem Settled.mem_requested (h : Settled wakeFd s) {fd : RawFd} {token : Nat}
    {i : EpollInterest} (ht : s.backend.registry.byFd.lookup fd = some token)
    (hi : s.backend.registry.byToken.lookup token = some i) : i ∈ s.requested := by
  obtain ⟨j, hj, hfd⟩ := mem_map.mp (h.only fd token ht)
  obtain ⟨u, hu, hjheld⟩ := h.held j hj
  rw [hfd, ht] at hu
  cases hu
  cases hi.symm.trans hjheld
  exact hj

theorem Settled.exact (h : Settled wakeFd s) : Exact wakeFd s where
  opened := by
    refine ⟨h.tied.opened wakeFd _ (.inl ⟨rfl, rfl⟩), fun i hi => ?_⟩
    obtain ⟨token, ht, hheld⟩ := h.held i hi
    exact h.tied.opened i.fd _ (.inr ⟨token, i, ht, hheld, rfl⟩)
  registrations fd file reg := by
    rw [h.tied.watched]
    refine and_congr_right fun _ => or_congr Iff.rfl ⟨?_, ?_⟩
    · rintro ⟨token, i, ht, hi, rfl⟩
      obtain ⟨j, hj, hfd⟩ := h.tied.keyed.named fd token ht
      cases hi.symm.trans hj
      exact ⟨i, h.mem_requested ht hi, token, hfd, ht, rfl⟩
    · rintro ⟨i, hi, token, rfl, ht, rfl⟩
      obtain ⟨u, hu, hheld⟩ := h.held i hi
      cases hu.symm.trans ht
      exact ⟨token, i, ht, hheld, rfl⟩
  inverse fd token := by
    refine ⟨fun ht => ⟨(h.tied.registered fd token ht).1, h.tied.keyed.named fd token ht⟩, ?_⟩
    rintro ⟨hne, i, hi, rfl⟩
    exact h.tied.tokens token i hne hi
  described i := by
    refine ⟨fun hi => ?_, ?_⟩
    · obtain ⟨token, ht, hheld⟩ := h.held i hi
      exact ⟨token, (h.tied.registered i.fd token ht).1, hheld⟩
    · rintro ⟨token, hne, hi⟩
      exact h.mem_requested (h.tied.tokens token i hne hi) hi
  wake := h.tied.wake
  distinct fd fd' token ht ht' := h.tied.keyed.token_inj ht ht'
  below fd token ht := by
    obtain ⟨i, hi, _⟩ := h.tied.keyed.named fd token ht
    exact h.tied.keyed.below token i hi

theorem settled_new (wakeFd : RawFd) : Settled wakeFd (new wakeFd) :=
  ⟨tied_new wakeFd, nofun, nofun⟩

private theorem requested_open (hok : KeepsOpen wakeFd s (.waitIo readFds writeFds)) :
    ∀ i ∈ epollInterests readFds writeFds, i.fd ≠ wakeFd ∧ i.fd ∈ s.backend.kernel.files := by
  intro i hi
  have hmem : i.fd ∈ readFds ++ writeFds :=
    mem_append.mpr ((mem_epollInterests readFds writeFds i).mp hi).1
  exact ⟨fun hwake => hok.1 (hwake ▸ hmem), hok.2 i.fd hmem⟩

theorem Settled.wait (h : Settled wakeFd s) (hok : KeepsOpen wakeFd s (.waitIo readFds writeFds)) :
    ∃ b, step s (.waitIo readFds writeFds) = some ⟨b, epollInterests readFds writeFds⟩ ∧
      Reconciled wakeFd s.backend b (epollInterests readFds writeFds) := by
  obtain ⟨b, hres, hrec⟩ := h.tied.reconcile (nodup_epollInterests readFds writeFds)
    (requested_open hok)
  refine ⟨b, ?_, hrec⟩
  rw [step, hostStep, if_pos hok.2, hres]
  rfl

theorem step_cases (hst : step s e = some t) :
    (∃ readFds writeFds, e = .waitIo readFds writeFds) ∨
      t.backend.registry = s.backend.registry ∧ t.requested = s.requested := by
  obtain ⟨b, hb, rfl⟩ := map_eq_some_iff.mp hst
  cases e with
  | waitIo readFds writeFds => exact .inl ⟨readFds, writeFds, rfl⟩
  | openFile fd =>
    obtain ⟨_, ⟨⟩⟩ := ite_none_left_eq_some.mp hb
    exact .inr ⟨rfl, rfl⟩
  | dup fd src =>
    obtain ⟨_, hk⟩ := ite_none_left_eq_some.mp hb
    obtain ⟨k, _, rfl⟩ := map_eq_some_iff.mp hk
    exact .inr ⟨rfl, rfl⟩
  | close fd =>
    obtain ⟨_, rfl⟩ := guarded hb
    exact .inr ⟨rfl, rfl⟩

theorem Settled.step (h : Settled wakeFd s) (hok : KeepsOpen wakeFd s e)
    (hst : Session.step s e = some t) : Settled wakeFd t := by
  cases e with
  | waitIo readFds writeFds =>
    obtain ⟨b, hb, hrec⟩ := h.wait hok
    cases hb.symm.trans hst
    exact ⟨hrec.tied, hrec.held, hrec.only⟩
  | openFile fd =>
    obtain ⟨b, hb, rfl⟩ := map_eq_some_iff.mp hst
    obtain ⟨hfree, ⟨⟩⟩ := ite_none_left_eq_some.mp hb
    exact ⟨h.tied.insert hfree _ _, h.held, h.only⟩
  | dup fd src =>
    obtain ⟨b, hb, rfl⟩ := map_eq_some_iff.mp hst
    obtain ⟨hfree, hk⟩ := ite_none_left_eq_some.mp hb
    obtain ⟨k, hdup, rfl⟩ := map_eq_some_iff.mp hk
    obtain ⟨file, _, rfl⟩ := map_eq_some_iff.mp hdup
    exact ⟨h.tied.insert hfree _ _, h.held, h.only⟩
  | close fd =>
    obtain ⟨b, hb, rfl⟩ := map_eq_some_iff.mp hst
    obtain ⟨_, rfl⟩ := guarded hb
    refine ⟨h.tied.close fun reg hexp => ?_, h.held, h.only⟩
    obtain ⟨hwake, _⟩ | ⟨token, _, ht, _⟩ := hexp
    · exact hok.1 hwake
    · cases hok.2.symm.trans ht

theorem settled_of_reach (h : Reach step (KeepsOpen wakeFd) (new wakeFd) s) : Settled wakeFd s :=
  h.invariant (settled_new wakeFd) fun _ _ _ hs hok hst => hs.step hok hst

/-- A token that was handed out before a run and is held after it was held for the same
descriptor all along. -/
private theorem Settled.tokens_kept (h : Settled wakeFd s) (hr : Reach Session.step (KeepsOpen wakeFd) s t) :
    Settled wakeFd t ∧ s.backend.registry.nextToken ≤ t.backend.registry.nextToken ∧
      ∀ fd token, t.backend.registry.byFd.lookup fd = some token →
        token < s.backend.registry.nextToken → s.backend.registry.byFd.lookup fd = some token := by
  induction hr with
  | start => exact ⟨h, le_rfl, fun _ _ ht _ => ht⟩
  | @next u v e _ hok hst ih =>
    obtain ⟨hu, hnext, hkept⟩ := ih
    refine ⟨hu.step hok hst, ?_⟩
    obtain ⟨readFds, writeFds, rfl⟩ | ⟨hreg, _⟩ := step_cases hst
    · obtain ⟨b, hb, hrec⟩ := hu.wait hok
      cases hb.symm.trans hst
      exact ⟨Nat.le_trans hnext hrec.next, fun fd token ht hlt =>
        hkept fd token (hrec.fresh fd token ht (Nat.lt_of_lt_of_le hlt hnext)) hlt⟩
    · rw [hreg]
      exact ⟨hnext, hkept⟩

end Runs

/-- As long as requested and registered descriptors stay open, kernel and registry hold exactly what
the last wait asked for, no call is made for an unchanged interest, and no token is held a second
time. -/
theorem reconcile_exact {wakeFd : RawFd} {s : Session}
    (h : Reach step (KeepsOpen wakeFd) (new wakeFd) s) :
    Exact wakeFd s ∧
    (∀ readFds writeFds, KeepsOpen wakeFd s (.waitIo readFds writeFds) →
      ∃ t, step s (.waitIo readFds writeFds) = some t ∧
        t.backend.kernel = (s.backend.reconcileCalls (epollInterests readFds writeFds)).foldl
          perform s.backend.kernel ∧ Exact wakeFd t ∧
        (t.requested.map (·.fd)).Nodup ∧
        (∀ i, i ∈ t.requested ↔ (i.fd ∈ readFds ∨ i.fd ∈ writeFds) ∧
          i.read = decide (i.fd ∈ readFds) ∧ i.write = decide (i.fd ∈ writeFds)) ∧
        ∀ i ∈ s.requested, i ∈ t.requested →
          ∀ call ∈ s.backend.reconcileCalls (epollInterests readFds writeFds), call.fd ≠ i.fd) ∧
    (∀ t, Reach step (KeepsOpen wakeFd) s t → ∀ fd token,
      t.backend.registry.tokenForFd fd = some token → token < s.backend.registry.nextToken →
      s.backend.registry.tokenForFd fd = some token) := by
  have hs := settled_of_reach h
  refine ⟨hs.exact, fun readFds writeFds hok => ?_, fun t ht => (hs.tokens_kept ht).2.2⟩
  obtain ⟨b, hb, hrec⟩ := hs.wait hok
  obtain ⟨b', hwait, heq⟩ := map_eq_some_iff.mp hb
  cases heq
  have hkernel := reconcile_kernel s.backend (epollInterests readFds writeFds)
  rw [(hostStep_wait hwait).2] at hkernel
  refine ⟨_, hb, hkernel, (hs.step hok hb).exact, nodup_epollInterests readFds writeFds,
    mem_epollInterests readFds writeFds, fun i hold hi call hcall => ?_⟩
  obtain ⟨token, ht, hheld⟩ := hs.held i hold
  exact hs.tied.reconcileCalls_unchanged (nodup_epollInterests readFds writeFds)
    (requested_open hok) hi ht hheld hcall

private def firstWait : Session :=
  (run step (new 3) [.openFile 5, .waitIo [5] []]).get (by decide +kernel)

theorem repeated_interest_makes_no_call :
    firstWait.requested = [⟨5, true, false⟩] ∧ Exact 3 firstWait ∧
      ∀ call ∈ firstWait.backend.reconcileCalls (epollInterests [5, 5] []), call.fd ≠ 5 := by
  have hreach : Reach step (KeepsOpen 3) (new 3) firstWait := by
    refine reach_of_run [.openFile 5, .waitIo [5] []] ?_ (some_get _).symm
    exact ⟨trivial, ⟨by decide, by decide +kernel⟩, trivial⟩
  have hrequested : firstWait.requested = [⟨5, true, false⟩] := by decide +kernel
  obtain ⟨hexact, hwait, _⟩ := reconcile_exact hreach
  obtain ⟨t, ht, _, _, _, hmem, hcalls⟩ := hwait [5, 5] [] ⟨by decide, by decide +kernel⟩
  have hold : (⟨5, true, false⟩ : EpollInterest) ∈ firstWait.requested := by
    rw [hrequested]
    exact mem_singleton.mpr rfl
  exact ⟨hrequested, hexact, hcalls _ hold ((hmem _).mpr (by decide))⟩

end Session

end Sitas.Os.Epoll
