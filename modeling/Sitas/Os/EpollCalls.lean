import Sitas.Os.EpollTied

namespace Sitas.Os.Epoll
open Sitas.Lib List AList EpollBackend Kernel Option

variable {wakeFd : RawFd} {b : EpollBackend} {i : EpollInterest} {t : Nat}
  {interests : List EpollInterest}

private theorem Tied.applyInterests (is : List EpollInterest) (hn : (is.map (·.fd)).Nodup)
    (h : Tied wakeFd b) (hreq : ∀ i ∈ is, i.fd ≠ wakeFd ∧ i.fd ∈ b.kernel.files) :
    ∃ b', applyInterests is b = (none, b') ∧ Applied wakeFd b b' is := by
  induction is generalizing b with
  | nil =>
    exact ⟨b, rfl, ⟨h, rfl, fun i hi => absurd hi not_mem_nil, fun d u hu _ => hu, le_rfl⟩,
      fun d _ => .refl _ d⟩
  | cons i is ih =>
    obtain ⟨hfresh, hrest⟩ := nodup_cons.mp hn
    obtain ⟨b', hfirst, happlied⟩ := h.applyInterest (hreq i mem_cons_self)
    obtain ⟨b'', hloop, hlater⟩ := ih hrest happlied.tied
      fun j hj => happlied.files ▸ hreq j (mem_cons_of_mem i hj)
    refine ⟨b'', by rw [applyInterests, hfirst]; exact hloop, ⟨hlater.tied,
      hlater.files.trans happlied.files, fun j hj => ?_, fun d u hu hlt => ?_,
      Nat.le_trans happlied.next hlater.next⟩, fun d hd => ?_⟩
    · obtain rfl | hj := mem_cons.mp hj
      · obtain ⟨t, ht, hi⟩ := happlied.held j mem_cons_self
        have hkept := hlater.same j.fd hfresh
        exact ⟨t, hkept.token.trans ht, (hkept.interest t ht).trans hi⟩
      · exact hlater.held j hj
    · exact happlied.fresh d u (hlater.fresh d u hu (Nat.lt_of_lt_of_le hlt happlied.next)) hlt
    · obtain ⟨hdi, hdis⟩ := not_or.mp (mt mem_cons.mpr hd)
      exact (happlied.same d fun hd' => hdi (mem_singleton.mp hd')).trans (hlater.same d hdis)

private theorem Tied.removeStaleFds (fds : List RawFd) (h : Tied wakeFd b) :
    Tied wakeFd (fds.foldl EpollBackend.removeStaleFd b) ∧
      (∀ d, d ∉ fds → EpollRegistry.SameFor b.registry
        (fds.foldl EpollBackend.removeStaleFd b).registry d) ∧
      (∀ d ∈ fds, (fds.foldl EpollBackend.removeStaleFd b).registry.byFd.lookup d = none) ∧
      (fds.foldl EpollBackend.removeStaleFd b).kernel.files = b.kernel.files ∧
      (fds.foldl EpollBackend.removeStaleFd b).registry.nextToken = b.registry.nextToken := by
  induction fds generalizing b with
  | nil => exact ⟨h, fun d _ => .refl _ d, fun d hd => absurd hd not_mem_nil, rfl, rfl⟩
  | cons fd fds ih =>
    obtain ⟨htied, hgone⟩ := h.removeStaleFd fd
    have hsame : ∀ d, d ≠ fd → EpollRegistry.SameFor b.registry (b.removeStaleFd fd).registry d := by
      intro d hd
      rw [removeStaleFd_registry]
      exact h.keyed.sameFor_removeFd hd
    have hnext : (b.removeStaleFd fd).registry.nextToken = b.registry.nextToken := by
      rw [removeStaleFd_registry, EpollRegistry.removeFd]
      cases b.registry.byFd.lookup fd <;> rfl
    obtain ⟨hlater, hkept, hnone, hfiles, hlast⟩ := ih htied
    refine ⟨hlater, fun d hd => ?_, fun d hd => ?_, hfiles.trans (removeStaleFd_frame b fd).1,
      hlast.trans hnext⟩
    · obtain ⟨hdf, hdfs⟩ := not_or.mp (mt mem_cons.mpr hd)
      exact (hsame d hdf).trans (hkept d hdfs)
    · by_cases hdfs : d ∈ fds
      · exact hnone d hdfs
      · cases (mem_cons.mp hd).resolve_right hdfs
        exact (hkept fd hdfs).token.trans hgone

/-- A reconciliation succeeds, and what it leaves registered are the requested interests. -/
structure Reconciled (wakeFd : RawFd) (b b' : EpollBackend) (interests : List EpollInterest) :
    Prop extends Holds wakeFd b b' interests where
  only : ∀ d t, b'.registry.byFd.lookup d = some t → d ∈ interests.map (·.fd)

theorem Tied.reconcile (h : Tied wakeFd b) (hn : (interests.map (·.fd)).Nodup)
    (hreq : ∀ i ∈ interests, i.fd ≠ wakeFd ∧ i.fd ∈ b.kernel.files) :
    ∃ b', b.reconcileEpollInterests interests = (none, b') ∧ Reconciled wakeFd b b' interests := by
  obtain ⟨htied, hsame, hgone, hfiles, hnext⟩ := h.removeStaleFds (b.staleFds interests)
  obtain ⟨b', hloop, happlied⟩ := htied.applyInterests interests hn (hfiles ▸ hreq)
  have hclean : ∀ d t, ((b.staleFds interests).foldl EpollBackend.removeStaleFd b).registry.byFd.lookup
      d = some t → b.registry.byFd.lookup d = some t ∧ d ∉ b.staleFds interests := by
    intro d t ht
    have hd : d ∉ b.staleFds interests := fun hd => by cases (hgone d hd).symm.trans ht
    exact ⟨(hsame d hd).token.symm.trans ht, hd⟩
  refine ⟨b', hloop, ⟨happlied.tied, happlied.files.trans hfiles, happlied.held, fun d t ht hlt =>
    (hclean d t (happlied.fresh d t ht (hnext ▸ hlt))).1, hnext ▸ happlied.next⟩, fun d t ht => ?_⟩
  by_contra hd
  obtain ⟨hold, hstale⟩ := hclean d t ((happlied.same d hd).token.symm.trans ht)
  exact hstale (mem_stale.mpr ⟨lookup_isSome.mp (hold ▸ rfl), hd⟩)

structure ControlCall where
  op : CtlOp
  fd : RawFd
  registration : Registration
  deriving DecidableEq, Repr

namespace EpollBackend

def staleCall (b : EpollBackend) (fd : RawFd) : Option ControlCall :=
  if (b.registry.removeFd fd).1.isSome then some ⟨.del, fd, ⟨0, 0⟩⟩ else none

def interestCall (b : EpollBackend) (i : EpollInterest) : Option ControlCall :=
  match b.registry.tokenForFd i.fd with
  | some token =>
    if b.registry.get token ≠ some i then some ⟨.mod, i.fd, ⟨i.events, token⟩⟩ else none
  | none => some ⟨.add, i.fd, ⟨i.events, b.registry.allocateToken.1⟩⟩

def staleCalls : List RawFd → EpollBackend → List ControlCall
  | [], _ => []
  | fd :: fds, b => (b.staleCall fd).toList ++ staleCalls fds (b.removeStaleFd fd)

def interestCalls : List EpollInterest → EpollBackend → List ControlCall
  | [], _ => []
  | i :: is, b =>
    (b.interestCall i).toList ++
      match b.applyInterest i with
      | (none, b') => interestCalls is b'
      | (some _, _) => []

def reconcileCalls (b : EpollBackend) (interests : List EpollInterest) : List ControlCall :=
  staleCalls (b.staleFds interests) b ++
    interestCalls interests ((b.staleFds interests).foldl removeStaleFd b)

end EpollBackend

/-- The kernel after a call, which changes nothing if it fails. -/
def Kernel.perform (k : Kernel) (call : ControlCall) : Kernel :=
  match k.epollCtl call.op call.fd call.registration with
  | .ok k' => k'
  | .error _ => k

section Calls
variable (b : EpollBackend)

private theorem removeStaleFd_kernel (fd : RawFd) :
    (b.removeStaleFd fd).kernel = (b.staleCall fd).toList.foldl perform b.kernel := by
  rw [removeStaleFd, staleCall]
  rcases b.registry.removeFd fd with ⟨_ | i, r⟩
  · rfl
  · simp only [isSome_some, if_true, toList_some, foldl_cons, foldl_nil, perform, deleteEpollFd]
    cases b.kernel.epollCtl .del fd ⟨0, 0⟩ <;> rfl

private theorem applyInterest_kernel (i : EpollInterest) :
    (b.applyInterest i).2.kernel = (b.interestCall i).toList.foldl perform b.kernel := by
  rw [applyInterest, interestCall]
  cases b.registry.tokenForFd i.fd with
  | some token =>
    dsimp only
    split
    · cases hk : b.kernel.epollCtl .mod i.fd ⟨i.events, token⟩ <;> simp [perform, modifyEpollFd, hk]
    · rfl
  | none =>
    cases hk : b.kernel.epollCtl .add i.fd ⟨i.events, b.registry.nextToken⟩ <;>
      simp [perform, registerEpollFd, EpollRegistry.allocateToken, hk]

private theorem staleCalls_kernel (fds : List RawFd) :
    (fds.foldl removeStaleFd b).kernel = (staleCalls fds b).foldl perform b.kernel := by
  induction fds generalizing b with
  | nil => rfl
  | cons fd fds ih =>
    rw [foldl_cons, ih, staleCalls, foldl_append, removeStaleFd_kernel]

private theorem interestCalls_kernel (is : List EpollInterest) :
    (applyInterests is b).2.kernel = (interestCalls is b).foldl perform b.kernel := by
  induction is generalizing b with
  | nil => rfl
  | cons i is ih =>
    rw [applyInterests, interestCalls, foldl_append, ← applyInterest_kernel]
    rcases b.applyInterest i with ⟨_ | e, b'⟩
    · exact ih b'
    · rfl

/-- The calls are all that a reconciliation does to the kernel. -/
theorem reconcile_kernel (interests : List EpollInterest) :
    (b.reconcileEpollInterests interests).2.kernel =
      (b.reconcileCalls interests).foldl perform b.kernel := by
  rw [reconcileEpollInterests, interestCalls_kernel, staleCalls_kernel, reconcileCalls, foldl_append]

end Calls

section Unchanged
variable {call : ControlCall}

private theorem mem_staleCalls {fds : List RawFd} (h : call ∈ staleCalls fds b) :
    call.fd ∈ fds := by
  induction fds generalizing b with
  | nil => cases h
  | cons fd fds ih =>
    obtain hcall | hcall := mem_append.mp h
    · unfold staleCall at hcall
      split at hcall
      · rw [mem_singleton.mp hcall]
        exact mem_cons_self
      · cases hcall
    · exact mem_cons_of_mem fd (ih hcall)

private theorem interestCall_fd (h : call ∈ (b.interestCall i).toList) : call.fd = i.fd := by
  unfold interestCall at h
  split at h
  · split at h
    · rw [mem_singleton.mp h]
    · cases h
  · rw [mem_singleton.mp h]

private theorem mem_interestCalls {is : List EpollInterest}
    (h : call ∈ interestCalls is b) : call.fd ∈ is.map (·.fd) := by
  induction is generalizing b with
  | nil => cases h
  | cons i is ih =>
    rw [interestCalls] at h
    obtain hcall | hcall := mem_append.mp h
    · rw [interestCall_fd hcall]
      exact mem_cons_self
    · rcases hres : b.applyInterest i with ⟨_ | e, b'⟩
      · rw [hres] at hcall
        exact mem_cons_of_mem _ (ih hcall)
      · rw [hres] at hcall
        cases hcall

private theorem Tied.interestCalls_unchanged {is : List EpollInterest} (hn : (is.map (·.fd)).Nodup)
    (h : Tied wakeFd b) (hreq : ∀ i ∈ is, i.fd ≠ wakeFd ∧ i.fd ∈ b.kernel.files)
    (hi : i ∈ is) (ht : b.registry.byFd.lookup i.fd = some t)
    (hheld : b.registry.byToken.lookup t = some i) (hcall : call ∈ interestCalls is b) :
    call.fd ≠ i.fd := by
  induction is generalizing b with
  | nil => cases hi
  | cons j is ih =>
    obtain ⟨hfresh, hrest⟩ := nodup_cons.mp hn
    obtain ⟨b', hfirst, happlied⟩ := h.applyInterest (hreq j mem_cons_self)
    rw [interestCalls, hfirst] at hcall
    obtain rfl | hi := mem_cons.mp hi
    · have hnone : b.interestCall i = none := by
        simp [interestCall, EpollRegistry.tokenForFd, ht, EpollRegistry.get, hheld]
      rw [hnone] at hcall
      intro hfd
      have hmem := mem_interestCalls hcall
      rw [hfd] at hmem
      exact hfresh hmem
    · have hfd : i.fd ≠ j.fd := fun hfd => hfresh (mem_map.mpr ⟨i, hi, hfd⟩)
      obtain hcall | hcall := mem_append.mp hcall
      · rw [interestCall_fd hcall]
        exact hfd.symm
      · have hkept := happlied.same i.fd fun hmem => hfd (mem_singleton.mp hmem)
        exact ih hrest happlied.tied (fun k hk => happlied.files ▸ hreq k (mem_cons_of_mem j hk)) hi
          (hkept.token.trans ht) ((hkept.interest t ht).trans hheld) hcall

theorem Tied.reconcileCalls_unchanged (h : Tied wakeFd b) (hn : (interests.map (·.fd)).Nodup)
    (hreq : ∀ i ∈ interests, i.fd ≠ wakeFd ∧ i.fd ∈ b.kernel.files) (hi : i ∈ interests) (ht : b.registry.byFd.lookup i.fd = some t)
    (hheld : b.registry.byToken.lookup t = some i) (hcall : call ∈ b.reconcileCalls interests) :
    call.fd ≠ i.fd := by
  have hstale : i.fd ∉ b.staleFds interests := fun hmem =>
    (mem_stale.mp hmem).2 (mem_map.mpr ⟨i, hi, rfl⟩)
  obtain ⟨htied, hsame, _, hfiles, _⟩ := h.removeStaleFds (b.staleFds interests)
  obtain hcall | hcall := mem_append.mp hcall
  · exact fun hfd => hstale (hfd ▸ mem_staleCalls hcall)
  · exact htied.interestCalls_unchanged hn (hfiles ▸ hreq) hi
      ((hsame i.fd hstale).token.trans ht) (((hsame i.fd hstale).interest t ht).trans hheld) hcall

end Unchanged

end Sitas.Os.Epoll
