import Sitas.Os.EpollReuse

namespace Sitas.Os.Epoll
open Sitas.Lib List AList EpollBackend Kernel Option

/-- What the registry says the kernel keeps for a descriptor. -/
def Expects (wakeFd : RawFd) (b : EpollBackend) (fd : RawFd) (reg : Registration) : Prop :=
  (fd = wakeFd ∧ reg = ⟨epollIn, 0⟩) ∨
    ∃ t i, b.registry.byFd.lookup fd = some t ∧ b.registry.byToken.lookup t = some i ∧
      reg = ⟨i.events, t⟩

/-- The two maps belong together, and the kernel watches what they say and nothing else. -/
structure Tied (wakeFd : RawFd) (b : EpollBackend) : Prop extends b.registry.Paired wakeFd where
  opened : ∀ fd reg, Expects wakeFd b fd reg → fd ∈ b.kernel.files
  watched : ∀ fd file reg, b.kernel.watched fd file = some reg ↔
    b.kernel.files.lookup fd = some file ∧ Expects wakeFd b fd reg

section Table
variable {wakeFd : RawFd} {b : EpollBackend}

theorem tied_new (wakeFd : RawFd) : Tied wakeFd (new wakeFd) := by
  have hfiles : ∀ fd file, (new wakeFd).kernel.files.lookup fd = some file ↔
      fd = wakeFd ∧ file = 0 := by
    intro fd file
    rw [← mem_def, mem_lookup_iff]
    simp [new]
  have hexpects : ∀ fd reg, Expects wakeFd (new wakeFd) fd reg ↔
      fd = wakeFd ∧ reg = ⟨epollIn, 0⟩ := by
    intro fd reg
    refine ⟨?_, .inl⟩
    rintro (hwake | ⟨t, i, ht, _⟩)
    · exact hwake
    · cases ht
  refine ⟨EpollRegistry.paired_new wakeFd, fun fd reg h => ?_, fun fd file reg => ?_⟩
  · rw [← lookup_isSome, (hfiles fd 0).mpr ⟨((hexpects fd reg).mp h).1, rfl⟩]
    rfl
  · rw [hfiles, hexpects]
    simp only [new]
    by_cases hat : fd = wakeFd ∧ file = 0
    · simp [hat, eq_comm]
    · simp [hat]

private theorem Tied.table (h : Tied wakeFd b) (k : Kernel)
    (hfiles : ∀ fd reg, Expects wakeFd b fd reg → k.files.lookup fd = b.kernel.files.lookup fd)
    (hkept : ∀ fd file reg, Expects wakeFd b fd reg → k.files.lookup fd = some file →
      k.watched fd file = b.kernel.watched fd file)
    (hold : ∀ fd file reg, k.watched fd file = some reg → b.kernel.watched fd file = some reg) :
    Tied wakeFd { b with kernel := k } := by
  refine ⟨h.toPaired, fun fd reg hexp => ?_,
    fun fd file reg => ⟨fun hw => ?_, fun ⟨hf, hexp⟩ => ?_⟩⟩
  · have hmem := lookup_isSome.mpr (h.opened fd reg hexp)
    rw [← hfiles fd reg hexp] at hmem
    exact lookup_isSome.mp hmem
  · obtain ⟨hf, hexp⟩ := (h.watched fd file reg).mp (hold fd file reg hw)
    exact ⟨(hfiles fd reg hexp).trans hf, hexp⟩
  · have hf' := (hfiles fd reg hexp).symm.trans hf
    exact (hkept fd file reg hexp hf).trans ((h.watched fd file reg).mpr ⟨hf', hexp⟩)

theorem Tied.insert (h : Tied wakeFd b) {fd : RawFd} (hfree : fd ∉ b.kernel.files)
    (file next : Nat) :
    Tied wakeFd { b with
      kernel := { b.kernel with files := b.kernel.files.insert fd file, nextFile := next } } := by
  refine h.table _ (fun d reg hexp => lookup_insert_ne ?_) (fun _ _ _ _ _ => rfl)
    fun _ _ _ hw => hw
  rintro rfl
  exact hfree (h.opened d reg hexp)

theorem Tied.close (h : Tied wakeFd b) {fd : RawFd}
    (hfree : ∀ reg, ¬ Expects wakeFd b fd reg) :
    Tied wakeFd { b with kernel := b.kernel.close fd } := by
  have hne : ∀ d reg, Expects wakeFd b d reg → d ≠ fd := by
    rintro d reg hexp rfl
    exact hfree reg hexp
  unfold Kernel.close
  cases hf : b.kernel.files.lookup fd with
  | none => exact h
  | some file =>
    dsimp only
    by_cases hopen : open? { b.kernel with files := b.kernel.files.erase fd } file = true
    · rw [if_pos hopen]
      exact h.table _ (fun d reg hexp => lookup_erase_ne (hne d reg hexp))
        (fun _ _ _ _ _ => rfl) fun _ _ _ hw => hw
    · rw [if_neg hopen]
      refine h.table _ (fun d reg hexp => lookup_erase_ne (hne d reg hexp))
        (fun d g reg hexp hg => ?_) fun d g reg hw => ?_
      · have hgf : g ≠ file := by
          rintro rfl
          exact hopen ((open_iff _ _).mpr ⟨d, hg⟩)
        simp only [if_neg hgf]
      · by_cases hgf : g = file
        · simp only [if_pos hgf] at hw
          cases hw
        · simpa only [if_neg hgf] using hw

end Table

section Steps
variable {wakeFd : RawFd} {b : EpollBackend} {i : EpollInterest} {fd : RawFd} {t file : Nat}

private theorem expects_congr {b' : EpollBackend}
    (hsame : EpollRegistry.SameFor b.registry b'.registry fd) (reg : Registration) :
    Expects wakeFd b' fd reg ↔ Expects wakeFd b fd reg := by
  refine or_congr Iff.rfl (exists_congr fun t => exists_congr fun i => ?_)
  rw [hsame.token]
  refine and_congr_right fun ht => ?_
  rw [hsame.interest t ht]

private theorem Tied.watched_set (h : Tied wakeFd b) {b' : EpollBackend} {reg : Option Registration}
    (hf : b.kernel.files.lookup fd = some file) (hfiles : b'.kernel.files = b.kernel.files)
    (hset : b'.kernel.watched = (b.kernel.setWatched fd file reg).watched)
    (hsame : ∀ d, d ≠ fd → EpollRegistry.SameFor b.registry b'.registry d)
    (hself : ∀ r, Expects wakeFd b' fd r ↔ reg = some r) (d : RawFd) (g : Nat) (r : Registration) :
    b'.kernel.watched d g = some r ↔ b'.kernel.files.lookup d = some g ∧ Expects wakeFd b' d r := by
  rw [hset, hfiles]
  by_cases hd : d = fd
  · subst hd
    rw [hself r, hf]
    by_cases hg : g = file
    · simp [setWatched, hg]
    · have hold : b.kernel.watched d g ≠ some r := fun hw => by
        have hdg := ((h.watched d g r).mp hw).1
        rw [hf] at hdg
        exact hg (some.inj hdg).symm
      have hne : ¬ (some file = some g) := fun he => hg (some.inj he).symm
      simp [setWatched, hg, hold, hne]
  · rw [expects_congr (hsame d hd) r]
    simp only [setWatched, hd, false_and, if_false]
    exact h.watched d g r

theorem Tied.removeStaleFd (h : Tied wakeFd b) (fd : RawFd) :
    Tied wakeFd (b.removeStaleFd fd) ∧ (b.removeStaleFd fd).registry.byFd.lookup fd = none := by
  have hreg := removeStaleFd_registry b fd
  cases ht : b.registry.byFd.lookup fd with
  | none =>
    have hsame : b.removeStaleFd fd = b := by
      simp [EpollBackend.removeStaleFd, EpollRegistry.removeFd, ht]
    rw [hsame]
    exact ⟨h, ht⟩
  | some t =>
    obtain ⟨i, hi, hifd⟩ := h.keyed.named fd t ht
    have hexp : Expects wakeFd b fd ⟨i.events, t⟩ := .inr ⟨t, i, ht, hi, rfl⟩
    obtain ⟨file, hf⟩ := isSome_iff_exists.mp
      (lookup_isSome.mpr (h.opened fd _ hexp))
    have hw := (h.watched fd file _).mpr ⟨hf, hexp⟩
    have hremove : b.removeStaleFd fd = ⟨b.kernel.setWatched fd file none, { b.registry with
          byFd := b.registry.byFd.erase fd, byToken := b.registry.byToken.erase t }⟩ := by
      simp [EpollBackend.removeStaleFd, EpollRegistry.removeFd, ht, hi,
        EpollBackend.deleteEpollFd, Kernel.epollCtl, hf, hw]
    have hsame : ∀ d, d ≠ fd → EpollRegistry.SameFor b.registry (b.removeStaleFd fd).registry d := by
      intro d hd
      rw [hreg]
      exact h.keyed.sameFor_removeFd hd
    have hgone : (b.removeStaleFd fd).registry.byFd.lookup fd = none := by
      rw [hremove]
      exact lookup_erase fd b.registry.byFd
    have hself : ∀ r, Expects wakeFd (b.removeStaleFd fd) fd r ↔ (none : Option Registration) = some r := by
      refine fun r => ⟨fun hr => ?_, fun hr => ?_⟩
      · obtain ⟨hwake, _⟩ | ⟨u, _, hu, _⟩ := hr
        · exact absurd hwake (h.registered fd t ht).2
        · rw [hgone] at hu
          cases hu
      · cases hr
    refine ⟨⟨hreg ▸ h.toPaired.removeFd fd, fun d r hr => ?_, h.watched_set hf ?_ ?_ hsame hself⟩,
      hgone⟩
    · have hd : d ≠ fd := by
        rintro rfl
        cases (hself r).mp hr
      rw [(removeStaleFd_frame b fd).1]
      exact h.opened d r ((expects_congr (hsame d hd) r).mp hr)
    · rw [hremove]
      rfl
    · rw [hremove]

/-- The requested interests are held. A token that is held in the end is a new one or was held
for the descriptor before. -/
structure Holds (wakeFd : RawFd) (b b' : EpollBackend) (is : List EpollInterest) : Prop where
  tied : Tied wakeFd b'
  files : b'.kernel.files = b.kernel.files
  held : ∀ i ∈ is, ∃ t, b'.registry.byFd.lookup i.fd = some t ∧ b'.registry.byToken.lookup t = some i
  fresh : ∀ d t, b'.registry.byFd.lookup d = some t → t < b.registry.nextToken →
    b.registry.byFd.lookup d = some t
  next : b.registry.nextToken ≤ b'.registry.nextToken

structure Applied (wakeFd : RawFd) (b b' : EpollBackend) (is : List EpollInterest) : Prop
    extends Holds wakeFd b b' is where
  same : ∀ d, d ∉ is.map (·.fd) → EpollRegistry.SameFor b.registry b'.registry d

private theorem Tied.hold (h : Tied wakeFd b) (hf : b.kernel.files.lookup i.fd = some file)
    {r : EpollRegistry} (hpaired : r.Paired wakeFd)
    (hsame : ∀ d, d ≠ i.fd → EpollRegistry.SameFor b.registry r d)
    (hself : r.byFd.lookup i.fd = some t) (hheld : r.byToken.lookup t = some i)
    (hnext : b.registry.nextToken ≤ r.nextToken)
    (hfresh : t < b.registry.nextToken → b.registry.byFd.lookup i.fd = some t) :
    Applied wakeFd b
      ⟨(b.kernel.setWatched i.fd file (some ⟨i.events, t⟩)).setReached i.fd file, r⟩ [i] := by
  have hexpects : ∀ reg, Expects wakeFd
      ⟨(b.kernel.setWatched i.fd file (some ⟨i.events, t⟩)).setReached i.fd file, r⟩ i.fd reg ↔
      some (⟨i.events, t⟩ : Registration) = some reg := by
    refine fun reg => ⟨?_, fun hr => .inr ⟨t, i, hself, hheld, (some.inj hr).symm⟩⟩
    rintro (⟨hwake, _⟩ | ⟨u, j, hu, hj, rfl⟩)
    · exact absurd hwake (hpaired.registered i.fd t hself).2
    · cases hself.symm.trans hu
      cases hheld.symm.trans hj
      rfl
  refine ⟨⟨⟨hpaired, fun d reg hr => ?_, h.watched_set hf rfl rfl hsame hexpects⟩, rfl,
    fun j hj => ?_, fun d u hu hlt => ?_, hnext⟩, fun d hd => ?_⟩
  · by_cases hd : d = i.fd
    · subst hd
      exact lookup_isSome.mp (isSome_iff_exists.mpr ⟨file, hf⟩)
    · exact h.opened d reg ((expects_congr (hsame d hd) reg).mp hr)
  · cases mem_singleton.mp hj
    exact ⟨t, hself, hheld⟩
  · by_cases hd : d = i.fd
    · subst hd
      cases hself.symm.trans hu
      exact hfresh hlt
    · exact (hsame d hd).token.symm.trans hu
  · exact hsame d fun hd' => hd (mem_singleton.mpr hd')

/-- Each control call of the interest loop succeeds on an open descriptor. -/
theorem Tied.applyInterest (h : Tied wakeFd b)
    (hi : i.fd ≠ wakeFd ∧ i.fd ∈ b.kernel.files) :
    ∃ b', b.applyInterest i = (none, b') ∧ Applied wakeFd b b' [i] := by
  obtain ⟨file, hf⟩ := isSome_iff_exists.mp (lookup_isSome.mpr hi.2)
  cases ht : b.registry.byFd.lookup i.fd with
  | some t =>
    obtain ⟨j, hj, _⟩ := h.keyed.named i.fd t ht
    by_cases hsame : b.registry.byToken.lookup t = some i
    · refine ⟨b, ?_, ⟨h, rfl, fun k hk => ?_, fun d u hu _ => hu, le_rfl⟩, fun d _ => .refl _ d⟩
      · simp [EpollBackend.applyInterest, EpollRegistry.tokenForFd, ht, EpollRegistry.get, hsame]
      · cases mem_singleton.mp hk
        exact ⟨t, ht, hsame⟩
    · have hw := (h.watched i.fd file _).mpr ⟨hf, .inr ⟨t, j, ht, hj, rfl⟩⟩
      refine ⟨_, ?_, h.hold hf (h.toPaired.update ht) (h.keyed.update ht).2 ht (lookup_insert _) le_rfl
        fun _ => ht⟩
      simp [EpollBackend.applyInterest, EpollRegistry.tokenForFd, ht, EpollRegistry.get, hsame,
        modifyEpollFd, epollCtl, hf, hw]
  | none =>
    have hw : b.kernel.watched i.fd file = none := by
      cases hw : b.kernel.watched i.fd file with
      | none => rfl
      | some reg =>
        obtain ⟨hwake, _⟩ | ⟨u, _, hu, _⟩ := ((h.watched i.fd file reg).mp hw).2
        · exact absurd hwake hi.1
        · cases ht.symm.trans hu
    refine ⟨_, ?_, h.hold hf (h.toPaired.register hi.1 ht) (h.keyed.register i).2 (lookup_insert _)
      (lookup_insert _) (Nat.le_succ _) fun hlt => absurd hlt (Nat.lt_irrefl _)⟩
    simp [EpollBackend.applyInterest, EpollRegistry.tokenForFd, ht, EpollRegistry.allocateToken,
      registerEpollFd, epollCtl, hf, hw]

end Steps

end Sitas.Os.Epoll
