import Sitas.Lib.Runs
import Sitas.Os.EpollRegistry

/-! The epoll registry while descriptors are closed and their numbers reused.
The registry is only told about interests, so it can miss a change of file. -/
namespace Sitas.Os.Epoll
open Sitas.Lib List AList EpollBackend EpollRegistry Kernel

inductive HostEvent where
  | openFile (fd : RawFd)
  | dup (fd src : RawFd)
  | close (fd : RawFd)
  | waitIo (readFds writeFds : List RawFd)
  deriving DecidableEq, Repr

/-- `wait_io` is followed up to its `epoll_wait`, with every requested
descriptor open and every control call on the way successful. -/
def hostStep (b : EpollBackend) : HostEvent → Option EpollBackend
  | .openFile fd =>
    if fd ∈ b.kernel.files then none else some { b with kernel := b.kernel.openFile fd }
  | .dup fd src =>
    if fd ∈ b.kernel.files then none
    else (b.kernel.dup fd src).map fun k => { b with kernel := k }
  | .close fd =>
    if fd ∈ b.kernel.files then some { b with kernel := b.kernel.close fd } else none
  | .waitIo readFds writeFds =>
    if ∀ fd ∈ readFds ++ writeFds, fd ∈ b.kernel.files then
      match b.reconcileEpollInterests (epollInterests readFds writeFds) with
      | (none, b') => some b'
      | (some _, _) => none
    else none

/-- The kernel watches, for every requested descriptor, the file it refers to
now, with the requested events and the token the registry holds for it. -/
def Watches (b : EpollBackend) (readFds writeFds : List RawFd) : Prop :=
  ∀ fd, fd ∈ readFds ∨ fd ∈ writeFds → ∃ file token,
    b.kernel.files.lookup fd = some file ∧ b.registry.tokenForFd fd = some token ∧
    b.kernel.watched fd file =
      some ⟨EpollInterest.events ⟨fd, decide (fd ∈ readFds), decide (fd ∈ writeFds)⟩, token⟩

/-- No requested descriptor whose registered interest is unchanged refers to
another file than the one its registration was made for. -/
def SameFile (b : EpollBackend) : HostEvent → Prop
  | .waitIo readFds writeFds => ∀ i ∈ epollInterests readFds writeFds, ∀ token,
      b.registry.tokenForFd i.fd = some token → b.registry.get token = some i →
      b.kernel.reached i.fd = b.kernel.files.lookup i.fd
  | _ => True

instance (b : EpollBackend) (e : HostEvent) : Decidable (SameFile b e) :=
  match e with
  | .waitIo readFds writeFds => inferInstanceAs (Decidable (∀ i ∈ epollInterests readFds writeFds,
      ∀ token ∈ b.registry.tokenForFd i.fd, b.registry.get token = some i →
        b.kernel.reached i.fd = b.kernel.files.lookup i.fd))
  | .openFile _ | .dup _ _ | .close _ => .isTrue trivial

/-- The joint invariant: while the file a descriptor was registered for is
open, the kernel watches it exactly as the registry says. -/
structure Consistent (b : EpollBackend) : Prop where
  named : ∀ fd t, b.registry.byFd.lookup fd = some t →
    ∃ i, b.registry.byToken.lookup t = some i ∧ i.fd = fd
  below : ∀ t i, b.registry.byToken.lookup t = some i → t < b.registry.nextToken
  files : ∀ fd file, b.kernel.files.lookup fd = some file → file < b.kernel.nextFile
  held : ∀ fd t i, b.registry.byFd.lookup fd = some t → b.registry.byToken.lookup t = some i →
    ∃ file, b.kernel.reached fd = some file ∧ file < b.kernel.nextFile ∧
      (b.kernel.open? file = true → b.kernel.watched fd file = some ⟨i.events, t⟩)

theorem Kernel.open_iff (k : Kernel) (file : Nat) :
    k.open? file = true ↔ ∃ fd, k.files.lookup fd = some file := by
  simp only [open?, any_eq_true, decide_eq_true_eq]
  constructor
  · rintro ⟨⟨fd, f⟩, hm, rfl⟩
    exact ⟨fd, mem_lookup_iff.mpr hm⟩
  · rintro ⟨fd, h⟩
    exact ⟨⟨fd, file⟩, mem_lookup_iff.mp h, rfl⟩

variable {b b' : EpollBackend} {k k' : Kernel} {fd d : RawFd} {t : Nat} {i : EpollInterest}

theorem Consistent.keyed (h : Consistent b) : b.registry.Keyed :=
  ⟨h.named, h.below⟩

private theorem consistent_new (wakeFd : RawFd) : Consistent (new wakeFd) := by
  refine ⟨?_, ?_, ?_, ?_⟩
  · intro fd t h
    simp [EpollBackend.new, EpollRegistry.new, EpollRegistry.insertWake] at h
  · intro t i h
    have hm : t ∈ (new.insertWake wakeFd).byToken := lookup_isSome.mp (h ▸ rfl)
    rw [insertWake, mem_insert] at hm
    rcases hm with rfl | hm
    · exact Nat.zero_lt_one
    · exact absurd hm (notMem_empty t)
  · intro fd file h
    have hm := mem_lookup_iff.mp (Option.mem_def.mpr h)
    simp only [EpollBackend.new, singleton_entries, mem_singleton, Sigma.mk.injEq] at hm
    have hz : file = 0 := eq_of_heq hm.2
    subst hz
    exact Nat.zero_lt_one
  · intro fd t i h
    simp [EpollBackend.new, EpollRegistry.new, EpollRegistry.insertWake] at h

private theorem consistent_table (h : Consistent b) (k : Kernel)
    (hnext : b.kernel.nextFile ≤ k.nextFile) (hreached : k.reached = b.kernel.reached)
    (hfiles : ∀ fd file, k.files.lookup fd = some file → file < k.nextFile)
    (hkept : ∀ file, file < b.kernel.nextFile → k.open? file = true →
      b.kernel.open? file = true ∧ ∀ fd, k.watched fd file = b.kernel.watched fd file) :
    Consistent { b with kernel := k } := by
  refine ⟨h.named, h.below, hfiles, ?_⟩
  intro fd t i hfd hi
  obtain ⟨file, hr, hlt, hw⟩ := h.held fd t i hfd hi
  refine ⟨file, hreached ▸ hr, Nat.lt_of_lt_of_le hlt hnext, fun hop => ?_⟩
  obtain ⟨hop', hsame⟩ := hkept file hlt hop
  exact (hsame fd).trans (hw hop')

private theorem consistent_openFile (h : Consistent b) (fd : RawFd) :
    Consistent { b with kernel := b.kernel.openFile fd } := by
  apply consistent_table h
  · exact Nat.le_succ _
  · rfl
  · intro d file hd
    obtain ⟨_, rfl⟩ | ⟨_, hd⟩ := lookup_insert_eq_some.mp hd
    · exact Nat.lt_succ_self _
    · exact Nat.lt_succ_of_lt (h.files d file hd)
  · intro file hlt hop
    refine ⟨?_, fun _ => rfl⟩
    obtain ⟨d, hd⟩ := (open_iff _ _).mp hop
    obtain ⟨_, rfl⟩ | ⟨_, hd⟩ := lookup_insert_eq_some.mp hd
    · exact absurd hlt (Nat.lt_irrefl _)
    · exact (open_iff _ _).mpr ⟨d, hd⟩

private theorem consistent_dup (h : Consistent b) (fd src : RawFd)
    (hk : b.kernel.dup fd src = some k) : Consistent { b with kernel := k } := by
  obtain ⟨f, hf, rfl⟩ := Option.map_eq_some_iff.mp hk
  have hback : ∀ d file, (b.kernel.files.insert fd f).lookup d = some file →
      ∃ d', b.kernel.files.lookup d' = some file := by
    intro d file hd
    obtain ⟨_, rfl⟩ | ⟨_, hd⟩ := lookup_insert_eq_some.mp hd
    · exact ⟨src, hf⟩
    · exact ⟨d, hd⟩
  apply consistent_table h
  · exact le_rfl
  · rfl
  · intro d file hd
    obtain ⟨d', hd'⟩ := hback d file hd
    exact h.files d' file hd'
  · intro file _ hop
    refine ⟨?_, fun _ => rfl⟩
    obtain ⟨d, hd⟩ := (open_iff _ _).mp hop
    exact (open_iff _ _).mpr (hback d file hd)

private theorem consistent_close (h : Consistent b) (fd : RawFd) :
    Consistent { b with kernel := b.kernel.close fd } := by
  unfold close
  split
  · exact h
  next f hf =>
    have hfiles : ∀ d file, (b.kernel.files.erase fd).lookup d = some file →
        file < b.kernel.nextFile := fun d file hd => h.files d file (lookup_erase_eq_some.mp hd).2
    have hopen : ∀ file, open? { b.kernel with files := b.kernel.files.erase fd } file = true →
        b.kernel.open? file = true := by
      intro file hop
      obtain ⟨d, hd⟩ := (open_iff _ _).mp hop
      exact (open_iff _ _).mpr ⟨d, (lookup_erase_eq_some.mp hd).2⟩
    dsimp only
    split
    · exact consistent_table h _ le_rfl rfl hfiles
        fun file _ hop => ⟨hopen file hop, fun _ => rfl⟩
    next hlast =>
      refine consistent_table h _ le_rfl rfl hfiles
        fun file _ hop => ⟨hopen file hop, fun d => ?_⟩
      have hne : file ≠ f := by
        rintro rfl
        exact hlast hop
      simp [hne]

theorem epollCtl_frame {op : CtlOp} {r : Registration} (h : k.epollCtl op fd r = .ok k') :
    k'.files = k.files ∧ k'.nextFile = k.nextFile ∧
      ∀ d, d ≠ fd → k'.watched d = k.watched d ∧ k'.reached d = k.reached d := by
  unfold epollCtl at h
  split at h
  · cases h
  · split at h <;> cases h
    all_goals
      refine ⟨rfl, rfl, fun d hd => ⟨?_, ?_⟩⟩
      · funext g
        simp [setWatched, setReached, hd]
      · simp [setWatched, setReached, hd]

private theorem epollCtl_watches {op : CtlOp} {r : Registration} (hop : op ≠ .del)
    (h : k.epollCtl op fd r = .ok k') :
    ∃ file, k.files.lookup fd = some file ∧ k'.watched fd file = some r ∧
      k'.reached fd = some file := by
  unfold epollCtl at h
  split at h
  · cases h
  next file hf =>
    split at h <;> cases h
    · exact ⟨file, hf, by simp [setWatched, setReached], by simp [setReached]⟩
    · exact ⟨file, hf, by simp [setWatched, setReached], by simp [setReached]⟩
    · exact absurd rfl hop

private theorem open_congr (h : k'.files = k.files) (file : Nat) :
    k'.open? file = k.open? file := by
  simp only [open?, h]

theorem removeStaleFd_frame (b : EpollBackend) (fd : RawFd) :
    (b.removeStaleFd fd).kernel.files = b.kernel.files ∧
    (b.removeStaleFd fd).kernel.nextFile = b.kernel.nextFile ∧
    ∀ d, d ≠ fd → (b.removeStaleFd fd).kernel.watched d = b.kernel.watched d ∧
      (b.removeStaleFd fd).kernel.reached d = b.kernel.reached d := by
  unfold removeStaleFd
  split
  · exact ⟨rfl, rfl, fun _ _ => ⟨rfl, rfl⟩⟩
  · split
    next hd =>
      exact epollCtl_frame hd
    · exact ⟨rfl, rfl, fun _ _ => ⟨rfl, rfl⟩⟩

theorem removeStaleFd_registry (b : EpollBackend) (fd : RawFd) :
    (b.removeStaleFd fd).registry = (b.registry.removeFd fd).2 := by
  unfold removeStaleFd
  split
  next h =>
    rw [h]
  next h =>
    split <;> rw [h]

/-- Facts about a backend that the loops of one reconciliation leave alone,
for a descriptor other than the one being processed. -/
structure SameAt (b b' : EpollBackend) (d : RawFd) : Prop where
  token : b'.registry.byFd.lookup d = b.registry.byFd.lookup d
  interest : ∀ t, b.registry.byFd.lookup d = some t →
    b'.registry.byToken.lookup t = b.registry.byToken.lookup t
  watched : b'.kernel.watched d = b.kernel.watched d
  reached : b'.kernel.reached d = b.kernel.reached d

private theorem SameAt.trans {a c : EpollBackend} (h : SameAt a b d) (h' : SameAt b c d) :
    SameAt a c d where
  token := h'.token.trans h.token
  interest t ht := (h'.interest t (h.token.trans ht)).trans (h.interest t ht)
  watched := h'.watched.trans h.watched
  reached := h'.reached.trans h.reached

private theorem sameAt_removeStaleFd (h : Consistent b) (hd : d ≠ fd) :
    SameAt b (b.removeStaleFd fd) d where
  token := by
    rw [removeStaleFd_registry]
    exact (h.keyed.sameFor_removeFd hd).token
  interest := by
    rw [removeStaleFd_registry]
    exact (h.keyed.sameFor_removeFd hd).interest
  watched := ((removeStaleFd_frame b fd).2.2 d hd).1
  reached := ((removeStaleFd_frame b fd).2.2 d hd).2

private theorem SameAt.named (hs : SameAt b b' d) (h : Consistent b)
    (ht : b'.registry.byFd.lookup d = some t) :
    ∃ i, b'.registry.byToken.lookup t = some i ∧ i.fd = d := by
  rw [hs.token] at ht
  rw [hs.interest t ht]
  exact h.named d t ht

private theorem SameAt.held (hs : SameAt b b' d) (h : Consistent b)
    (hfiles : b'.kernel.files = b.kernel.files) (hnext : b'.kernel.nextFile = b.kernel.nextFile)
    (ht : b'.registry.byFd.lookup d = some t) (hi : b'.registry.byToken.lookup t = some i) :
    ∃ file, b'.kernel.reached d = some file ∧ file < b'.kernel.nextFile ∧
      (b'.kernel.open? file = true → b'.kernel.watched d file = some ⟨i.events, t⟩) := by
  rw [hs.token] at ht
  rw [hs.interest t ht] at hi
  obtain ⟨file, hr, hlt, hw⟩ := h.held d t i ht hi
  refine ⟨file, hs.reached.trans hr, hnext ▸ hlt, fun hop => ?_⟩
  rw [hs.watched]
  exact hw (open_congr hfiles file ▸ hop)

private theorem consistent_removeStaleFd (h : Consistent b) (fd : RawFd) :
    Consistent (b.removeStaleFd fd) := by
  obtain ⟨hfiles, hnext, _⟩ := removeStaleFd_frame b fd
  have hreg := removeStaleFd_registry b fd
  have hsame : ∀ d t, (b.removeStaleFd fd).registry.byFd.lookup d = some t →
      SameAt b (b.removeStaleFd fd) d := by
    intro d t hd
    rw [hreg] at hd
    exact sameAt_removeStaleFd h (removeFd_byFd hd).1
  refine ⟨?_, ?_, ?_, ?_⟩
  · intro d t hd
    exact (hsame d t hd).named h hd
  · rw [hreg]
    exact (h.keyed.removeFd fd).below
  · intro d file hd
    rw [hnext]
    exact h.files d file (hfiles ▸ hd)
  · intro d t i hd hi
    exact (hsame d t hd).held h hfiles hnext hd hi

private theorem removeStale_spec (fds : List RawFd) (h : Consistent b) :
    Consistent (fds.foldl removeStaleFd b) ∧
    (fds.foldl removeStaleFd b).kernel.files = b.kernel.files ∧
    ∀ d, d ∉ fds → SameAt b (fds.foldl removeStaleFd b) d := by
  induction fds generalizing b with
  | nil => exact ⟨h, rfl, fun _ _ => ⟨rfl, fun _ _ => rfl, rfl, rfl⟩⟩
  | cons fd fds ih =>
    obtain ⟨hc, hf, hs⟩ := ih (consistent_removeStaleFd h fd)
    refine ⟨hc, hf.trans (removeStaleFd_frame b fd).1, fun d hd => ?_⟩
    rw [mem_cons, not_or] at hd
    exact (sameAt_removeStaleFd h hd.1).trans (hs d hd.2)

/-- The kernel watches the present file of the interest's descriptor as asked. -/
def WatchedAt (b : EpollBackend) (i : EpollInterest) : Prop :=
  ∃ file token, b.kernel.files.lookup i.fd = some file ∧ b.registry.byFd.lookup i.fd = some token ∧
    b.kernel.watched i.fd file = some ⟨i.events, token⟩

private theorem consistent_set (h : Consistent b) {file : Nat}
    (hfiles : b'.kernel.files = b.kernel.files) (hnext : b'.kernel.nextFile = b.kernel.nextFile)
    (hsame : ∀ d, d ≠ i.fd → SameAt b b' d)
    (hbelow : ∀ t j, b'.registry.byToken.lookup t = some j → t < b'.registry.nextToken)
    (hf : b.kernel.files.lookup i.fd = some file) (ht : b'.registry.byFd.lookup i.fd = some t)
    (hi : b'.registry.byToken.lookup t = some i)
    (hw : b'.kernel.watched i.fd file = some ⟨i.events, t⟩)
    (hr : b'.kernel.reached i.fd = some file) : Consistent b' := by
  refine ⟨?_, hbelow, ?_, ?_⟩
  · intro d u hu
    by_cases hd : d = i.fd
    · subst hd
      rw [ht] at hu
      cases hu
      exact ⟨i, hi, rfl⟩
    · exact (hsame d hd).named h hu
  · intro d g hg
    rw [hnext]
    exact h.files d g (hfiles ▸ hg)
  · intro d u j hu hj
    by_cases hd : d = i.fd
    · subst hd
      rw [ht] at hu
      cases hu
      rw [hi] at hj
      cases hj
      exact ⟨file, hr, hnext ▸ h.files _ file hf, fun _ => hw⟩
    · exact (hsame d hd).held h hfiles hnext hu hj

private theorem control_spec (h : Consistent b) {op : CtlOp} {r : EpollRegistry} (hop : op ≠ .del)
    (hk : b.kernel.epollCtl op i.fd ⟨i.events, t⟩ = .ok k)
    (hr : r.Keyed ∧ ∀ d, d ≠ i.fd → SameFor b.registry r d)
    (ht : r.byFd.lookup i.fd = some t) (hi : r.byToken.lookup t = some i) :
    Consistent ⟨k, r⟩ ∧ k.files = b.kernel.files ∧ (∀ d, d ≠ i.fd → SameAt b ⟨k, r⟩ d) ∧
      WatchedAt ⟨k, r⟩ i := by
  obtain ⟨hfiles, hnext, hframe⟩ := epollCtl_frame hk
  obtain ⟨file, hf, hw, hreached⟩ := epollCtl_watches hop hk
  obtain ⟨hkeyed, hfor⟩ := hr
  have hsame : ∀ d, d ≠ i.fd → SameAt b ⟨k, r⟩ d := fun d hd =>
    ⟨(hfor d hd).token, (hfor d hd).interest, (hframe d hd).1, (hframe d hd).2⟩
  exact ⟨consistent_set h hfiles hnext hsame hkeyed.below hf ht hi hw hreached, hfiles, hsame,
    ⟨file, t, hfiles ▸ hf, ht, hw⟩⟩

/-- One round of the interest loop: it keeps the invariant and the other
descriptors, and it leaves its own watched unless it skips a changed file. -/
private theorem applyInterest_spec (h : Consistent b) (hres : b.applyInterest i = (none, b')) :
    Consistent b' ∧ b'.kernel.files = b.kernel.files ∧ (∀ d, d ≠ i.fd → SameAt b b' d) ∧
    ((∀ t, b.registry.byFd.lookup i.fd = some t → b.registry.byToken.lookup t = some i →
      b.kernel.reached i.fd = b.kernel.files.lookup i.fd) → i.fd ∈ b.kernel.files →
      WatchedAt b' i) := by
  unfold applyInterest at hres
  split at hres
  next t ht =>
    split at hres
    · split at hres
      next k hk =>
        cases hres
        obtain ⟨hc, hf, hs, hw⟩ :=
          control_spec h (by decide) hk (h.keyed.update ht) ht (lookup_insert _)
        exact ⟨hc, hf, hs, fun _ _ => hw⟩
      · cases hres
    next hsame =>
      cases hres
      refine ⟨h, rfl, fun _ _ => ⟨rfl, fun _ _ => rfl, rfl, rfl⟩, fun hcond hmem => ?_⟩
      have hi : b.registry.byToken.lookup t = some i := Classical.not_not.mp hsame
      obtain ⟨file, hr, _, hw⟩ := h.held i.fd t i ht hi
      have hf : b.kernel.files.lookup i.fd = some file := (hcond t ht hi).symm.trans hr
      exact ⟨file, t, hf, ht, hw ((open_iff _ _).mpr ⟨i.fd, hf⟩)⟩
  · simp only [allocateToken] at hres
    split at hres
    next k hk =>
      cases hres
      obtain ⟨hc, hf, hs, hw⟩ := control_spec h (by decide) hk (h.keyed.register i)
        (lookup_insert _) (lookup_insert _)
      exact ⟨hc, hf, hs, fun _ _ => hw⟩
    · cases hres

private theorem WatchedAt.of_same (h : WatchedAt b i) (hs : SameAt b b' i.fd)
    (hf : b'.kernel.files = b.kernel.files) : WatchedAt b' i := by
  obtain ⟨file, t, hfile, ht, hw⟩ := h
  exact ⟨file, t, hf ▸ hfile, hs.token.trans ht, by rw [hs.watched]; exact hw⟩

private theorem applyInterests_spec (is : List EpollInterest) (hn : (is.map (·.fd)).Nodup)
    (h : Consistent b) (hres : applyInterests is b = (none, b')) :
    Consistent b' ∧ b'.kernel.files = b.kernel.files ∧
    (∀ d, d ∉ is.map (·.fd) → SameAt b b' d) ∧
    ((∀ i ∈ is, ∀ t, b.registry.byFd.lookup i.fd = some t → b.registry.byToken.lookup t = some i →
      b.kernel.reached i.fd = b.kernel.files.lookup i.fd) → (∀ i ∈ is, i.fd ∈ b.kernel.files) →
      ∀ i ∈ is, WatchedAt b' i) := by
  induction is generalizing b with
  | nil =>
    cases hres
    exact ⟨h, rfl, fun _ _ => ⟨rfl, fun _ _ => rfl, rfl, rfl⟩, fun _ _ i hi => by cases hi⟩
  | cons i is ih =>
    rw [map_cons, nodup_cons] at hn
    unfold applyInterests at hres
    split at hres
    next b1 hb1 =>
      obtain ⟨hc1, hf1, hs1, hw1⟩ := applyInterest_spec h hb1
      obtain ⟨hc, hf, hs, hw⟩ := ih hn.2 hc1 hres
      refine ⟨hc, hf.trans hf1, fun d hd => ?_, fun hcond hmem j hj => ?_⟩
      · rw [map_cons, mem_cons, not_or] at hd
        exact (hs1 d hd.1).trans (hs d hd.2)
      · rcases mem_cons.mp hj with rfl | hj
        · have hself := hw1 (hcond _ (mem_cons_self ..)) (hmem _ (mem_cons_self ..))
          exact hself.of_same (hs _ hn.1) hf
        · refine hw (fun l hl t ht hi => ?_) (fun l hl => ?_) j hj
          · have hne : l.fd ≠ i.fd := fun he => hn.1 (he ▸ mem_map.mpr ⟨l, hl, rfl⟩)
            have hsl := hs1 l.fd hne
            have ht' := hsl.token ▸ ht
            rw [hsl.interest t ht'] at hi
            rw [hsl.reached, hf1]
            exact hcond l (mem_cons_of_mem _ hl) t ht' hi
          · rw [hf1]
            exact hmem l (mem_cons_of_mem _ hl)
    · cases hres

private theorem reconcile_spec (h : Consistent b) (readFds writeFds : List RawFd)
    (hres : b.reconcileEpollInterests (epollInterests readFds writeFds) = (none, b')) :
    Consistent b' ∧ (SameFile b (.waitIo readFds writeFds) →
      (∀ fd ∈ readFds ++ writeFds, fd ∈ b.kernel.files) → Watches b' readFds writeFds) := by
  obtain ⟨hc0, hf0, hs0⟩ := removeStale_spec (b.staleFds (epollInterests readFds writeFds)) h
  obtain ⟨hc, hf, _, hw⟩ := applyInterests_spec _ (nodup_epollInterests readFds writeFds) hc0 hres
  have hrequested : ∀ i ∈ epollInterests readFds writeFds,
      i.fd ∉ b.staleFds (epollInterests readFds writeFds) :=
    fun i hi hstale => (mem_stale.mp hstale).2 (mem_map.mpr ⟨i, hi, rfl⟩)
  refine ⟨hc, fun hsame hopen fd hfd => ?_⟩
  have hmem := (mem_epollInterests readFds writeFds
    ⟨fd, decide (fd ∈ readFds), decide (fd ∈ writeFds)⟩).mpr ⟨hfd, rfl, rfl⟩
  refine hw (fun i hi t ht hi' => ?_) (fun i hi => ?_) _ hmem
  · have hsi := hs0 i.fd (hrequested i hi)
    have ht' := hsi.token ▸ ht
    rw [hsi.interest t ht'] at hi'
    rw [hsi.reached, hf0]
    exact hsame i hi t ht' hi'
  · rw [hf0]
    exact hopen i.fd (mem_append.mpr ((mem_epollInterests readFds writeFds i).mp hi).1)

theorem hostStep_wait {readFds writeFds : List RawFd}
    (h : hostStep b (.waitIo readFds writeFds) = some b') :
    (∀ fd ∈ readFds ++ writeFds, fd ∈ b.kernel.files) ∧
      b.reconcileEpollInterests (epollInterests readFds writeFds) = (none, b') := by
  simp only [hostStep] at h
  split at h
  next hopen =>
    split at h
    next he =>
      cases h
      exact ⟨hopen, he⟩
    · cases h
  · cases h

/-- Every history of opening, duplicating, closing and waiting keeps the
registry and the kernel in agreement about files that are still open. -/
theorem consistent_reachable {wakeFd : RawFd} (h : Reachable hostStep (new wakeFd) b) :
    Consistent b := by
  refine h.invariant (consistent_new wakeFd) ?_
  intro s e t hs _ hst
  cases e with
  | openFile fd =>
    simp only [hostStep] at hst
    split at hst
    · cases hst
    · cases hst
      exact consistent_openFile hs fd
  | dup fd src =>
    simp only [hostStep] at hst
    split at hst
    · cases hst
    · obtain ⟨k, hk, rfl⟩ := Option.map_eq_some_iff.mp hst
      exact consistent_dup hs fd src hk
  | close fd =>
    obtain ⟨_, rfl⟩ := guarded hst
    exact consistent_close hs fd
  | waitIo readFds writeFds => exact (reconcile_spec hs readFds writeFds (hostStep_wait hst).2).1

/-- In every history whose waits find unchanged interests only on unchanged
files, each `epoll_wait` is entered with every requested descriptor watched. -/
theorem waits_watch_current_files (wakeFd : RawFd) (b b' : EpollBackend)
    (readFds writeFds : List RawFd) (h : Reach hostStep SameFile (EpollBackend.new wakeFd) b)
    (hsame : SameFile b (.waitIo readFds writeFds))
    (hwait : hostStep b (.waitIo readFds writeFds) = some b') : Watches b' readFds writeFds := by
  have hc := consistent_reachable (h.mono fun _ _ _ => trivial)
  obtain ⟨hopen, hres⟩ := hostStep_wait hwait
  exact (reconcile_spec hc readFds writeFds hres).2 hsame hopen

private def reuseAfterWait : List HostEvent :=
  [.openFile 5, .openFile 6, .waitIo [5] [6], .close 5, .waitIo [] [6], .openFile 5]

private def reusedAfterWait : EpollBackend :=
  (run hostStep (new 3) reuseAfterWait).get (by decide +kernel)

theorem forgotten_descriptor_watched : reusedAfterWait.registry.tokenForFd 5 = none ∧
    (∃ token, reusedAfterWait.registry.tokenForFd 6 = some token ∧
      reusedAfterWait.registry.get token = some ⟨6, false, true⟩) ∧
    ∃ b, hostStep reusedAfterWait (.waitIo [5] [6]) = some b ∧ Watches b [5] [6] := by
  have hreach : Reach hostStep SameFile (new 3) reusedAfterWait :=
    reach_of_run reuseAfterWait (by decide +kernel) (Option.some_get _).symm
  have hwaits : (hostStep reusedAfterWait (.waitIo [5] [6])).isSome := by decide +kernel
  obtain ⟨b, hb⟩ := Option.isSome_iff_exists.mp hwaits
  exact ⟨by decide +kernel, ⟨_, rfl, by decide +kernel⟩, b, hb,
    waits_watch_current_files 3 _ b [5] [6] hreach (by decide +kernel) hb⟩

/-- Descriptor 5 is closed and reused. The second wait is entered without watching the new file. -/
theorem reused_descriptor_unwatched : ∃ b b', Reachable hostStep (EpollBackend.new 3) b ∧
    hostStep b (.waitIo [5] []) = some b' ∧ ¬ Watches b' [5] [] := by
  have hreach : Reachable hostStep (new 3) _ :=
    reachable_of_run [.openFile 5, .waitIo [5] [], .close 5, .openFile 5] rfl
  refine ⟨_, _, hreach, rfl, fun hw => ?_⟩
  obtain ⟨file, token, hf, _, hk⟩ := hw 5 (.inl (mem_singleton.mpr rfl))
  cases hf
  cases hk

end Sitas.Os.Epoll
