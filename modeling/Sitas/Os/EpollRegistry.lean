import Sitas.Lib.Entries
import Sitas.Os.Epoll

namespace Sitas.Os.Epoll.EpollRegistry
open AList Sitas.Lib

/-- The control call that the interest loop makes for an interest. -/
def controlFor (r : EpollRegistry) (i : EpollInterest) : Option CtlOp :=
  match r.tokenForFd i.fd with
  | some token => if r.get token ≠ some i then some .mod else none
  | none => some .add

/-- Each registered descriptor has its own token, and tokens are handed out in order. -/
structure Keyed (r : EpollRegistry) : Prop where
  named : ∀ fd t, r.byFd.lookup fd = some t → ∃ i, r.byToken.lookup t = some i ∧ i.fd = fd
  below : ∀ t i, r.byToken.lookup t = some i → t < r.nextToken

structure SameFor (r r' : EpollRegistry) (fd : RawFd) : Prop where
  token : r'.byFd.lookup fd = r.byFd.lookup fd
  interest : ∀ t, r.byFd.lookup fd = some t → r'.byToken.lookup t = r.byToken.lookup t

section Maps
variable {r r' : EpollRegistry} {i : EpollInterest} {fd d : RawFd}

theorem SameFor.refl (r : EpollRegistry) (fd : RawFd) : SameFor r r fd := ⟨rfl, fun _ _ => rfl⟩

theorem SameFor.trans {r'' : EpollRegistry} (h : SameFor r r' fd) (h' : SameFor r' r'' fd) :
    SameFor r r'' fd :=
  ⟨h'.token.trans h.token, fun t ht =>
    (h'.interest t (h.token.trans ht)).trans (h.interest t ht)⟩

theorem SameFor.controlFor_eq (h : SameFor r r' i.fd) : r'.controlFor i = r.controlFor i := by
  rw [controlFor, controlFor, tokenForFd, h.token, tokenForFd]
  cases ht : r.byFd.lookup i.fd with
  | none => rfl
  | some t =>
    dsimp only
    rw [get, h.interest t ht, get]

theorem Keyed.token_inj {t : Nat} (h : Keyed r) (hfd : r.byFd.lookup fd = some t)
    (hd : r.byFd.lookup d = some t) : fd = d := by
  obtain ⟨i, hi, rfl⟩ := h.named fd t hfd
  obtain ⟨j, hj, rfl⟩ := h.named d t hd
  cases hi.symm.trans hj
  rfl

theorem keyed_new (wakeFd : RawFd) : Keyed (EpollRegistry.new.insertWake wakeFd) := by
  refine ⟨nofun, fun t i ht => ?_⟩
  by_cases h0 : t = 0
  · subst h0
    exact Nat.zero_lt_one
  · rw [insertWake, lookup_insert_ne h0] at ht
    cases ht

theorem Keyed.sameFor_removeFd (h : Keyed r) (hd : d ≠ fd) : SameFor r (r.removeFd fd).2 d := by
  rw [removeFd]
  cases hfd : r.byFd.lookup fd with
  | none => exact .refl r d
  | some t =>
    refine ⟨lookup_erase_ne hd, fun u hu => lookup_erase_ne ?_⟩
    rintro rfl
    exact hd (h.token_inj hu hfd)

theorem removeFd_byFd {t : Nat} (ht : (r.removeFd fd).2.byFd.lookup d = some t) :
    d ≠ fd ∧ r.byFd.lookup d = some t := by
  rw [removeFd] at ht
  cases hfd : r.byFd.lookup fd with
  | none =>
    rw [hfd] at ht
    refine ⟨?_, ht⟩
    rintro rfl
    cases hfd.symm.trans ht
  | some u =>
    rw [hfd] at ht
    exact lookup_erase_eq_some.mp ht

theorem Keyed.removeFd (h : Keyed r) (fd : RawFd) : Keyed (r.removeFd fd).2 := by
  refine ⟨fun d t ht => ?_, fun t i ht => ?_⟩
  · obtain ⟨hd, hold⟩ := removeFd_byFd ht
    rw [(h.sameFor_removeFd hd).interest t hold]
    exact h.named d t hold
  · rw [EpollRegistry.removeFd] at ht ⊢
    cases hfd : r.byFd.lookup fd with
    | none =>
      rw [hfd] at ht
      exact h.below t i ht
    | some u =>
      rw [hfd] at ht
      exact h.below t i (lookup_erase_eq_some.mp ht).2

private theorem Keyed.hold {t n : Nat} (h : Keyed r) (hn : r.nextToken ≤ n) (ht : t < n)
    (hown : ∀ d, r.byFd.lookup d = some t → d = i.fd)
    (hlookup : ∀ d, d ≠ i.fd → r'.byFd.lookup d = r.byFd.lookup d)
    (hself : r'.byFd.lookup i.fd = some t) (htoken : r'.byToken = r.byToken.insert t i)
    (hnext : r'.nextToken = n) : Keyed r' ∧ ∀ d, d ≠ i.fd → SameFor r r' d := by
  have hsame : ∀ d, d ≠ i.fd → SameFor r r' d := by
    refine fun d hd => ⟨hlookup d hd, fun u hu => ?_⟩
    rw [htoken]
    refine lookup_insert_ne ?_
    rintro rfl
    exact hd (hown d hu)
  refine ⟨⟨fun d u hu => ?_, fun u j hu => ?_⟩, hsame⟩
  · by_cases hd : d = i.fd
    · subst hd
      cases hself.symm.trans hu
      exact ⟨i, by rw [htoken, lookup_insert], rfl⟩
    · rw [hlookup d hd] at hu
      rw [(hsame d hd).interest u hu]
      exact h.named d u hu
  · rw [hnext]
    obtain ⟨rfl, _⟩ | ⟨_, hu⟩ := lookup_insert_eq_some.mp (htoken ▸ hu)
    · exact ht
    · exact Nat.lt_of_lt_of_le (h.below u j hu) hn

theorem Keyed.update {t : Nat} (h : Keyed r) (ht : r.byFd.lookup i.fd = some t) :
    Keyed (r.update t i) ∧ ∀ d, d ≠ i.fd → SameFor r (r.update t i) d := by
  obtain ⟨j, hj, _⟩ := h.named i.fd t ht
  exact h.hold le_rfl (h.below t j hj) (fun d hd => h.token_inj hd ht)
    (fun _ _ => rfl) ht rfl rfl

theorem Keyed.register (h : Keyed r) (i : EpollInterest) :
    Keyed (r.allocateToken.2.insert r.nextToken i) ∧
      ∀ d, d ≠ i.fd → SameFor r (r.allocateToken.2.insert r.nextToken i) d := by
  refine h.hold (Nat.le_succ _) (Nat.lt_succ_self _) (fun d hd => ?_)
    (fun d hd => lookup_insert_ne hd) (lookup_insert _) rfl rfl
  obtain ⟨j, hj, _⟩ := h.named d _ hd
  exact absurd (h.below _ j hj) (Nat.lt_irrefl _)

/-- The two maps are inverse, but for the token of the wake descriptor. -/
structure Paired (wakeFd : RawFd) (r : EpollRegistry) : Prop where
  keyed : r.Keyed
  positive : 0 < r.nextToken
  wake : r.byToken.lookup 0 = some ⟨wakeFd, true, false⟩
  tokens : ∀ t i, t ≠ 0 → r.byToken.lookup t = some i → r.byFd.lookup i.fd = some t
  registered : ∀ fd t, r.byFd.lookup fd = some t → t ≠ 0 ∧ fd ≠ wakeFd

variable {wakeFd : RawFd}

theorem paired_new (wakeFd : RawFd) : Paired wakeFd (EpollRegistry.new.insertWake wakeFd) := by
  refine ⟨keyed_new wakeFd, Nat.zero_lt_one, lookup_insert _, fun t i ht hi => ?_, nofun⟩
  rw [insertWake, lookup_insert_ne ht] at hi
  cases hi

section
variable (h : Paired wakeFd r)
include h

theorem Paired.removeFd (fd : RawFd) : Paired wakeFd (r.removeFd fd).2 := by
  have hregistered := fun d u (hu : (r.removeFd fd).2.byFd.lookup d = some u) =>
    h.registered d u (removeFd_byFd hu).2
  have hkeyed := h.keyed.removeFd fd
  rw [EpollRegistry.removeFd] at hregistered hkeyed ⊢
  cases ht : r.byFd.lookup fd with
  | none => exact h
  | some t =>
    rw [ht] at hregistered hkeyed
    refine ⟨hkeyed, h.positive, ?_, fun u j hu hj => ?_, hregistered⟩
    · exact (lookup_erase_ne (h.registered fd t ht).1.symm).trans h.wake
    · obtain ⟨hut, hj⟩ := lookup_erase_eq_some.mp hj
      have hold := h.tokens u j hu hj
      refine (lookup_erase_ne ?_).trans hold
      intro hjfd
      rw [hjfd, ht] at hold
      exact hut (Option.some.inj hold).symm

theorem Paired.hold {t : Nat} (hne : i.fd ≠ wakeFd) (hkeyed : r'.Keyed)
    (hsame : ∀ d, d ≠ i.fd → SameFor r r' d) (ht : t ≠ 0) (hself : r'.byFd.lookup i.fd = some t)
    (htoken : r'.byToken = r.byToken.insert t i) (hold : ∀ u, r.byFd.lookup i.fd = some u → u = t)
    (hnext : r.nextToken ≤ r'.nextToken) : Paired wakeFd r' := by
  refine ⟨hkeyed, Nat.lt_of_lt_of_le h.positive hnext, ?_, fun u j hu hj => ?_, fun d u hu => ?_⟩
  · rw [htoken]
    exact (lookup_insert_ne ht.symm).trans h.wake
  · rw [htoken] at hj
    obtain ⟨rfl, rfl⟩ | ⟨hut, hj⟩ := lookup_insert_eq_some.mp hj
    · exact hself
    · have hkept := h.tokens u j hu hj
      refine (hsame j.fd ?_).token.trans hkept
      intro hjfd
      rw [hjfd] at hkept
      exact hut (hold u hkept)
  · by_cases hd : d = i.fd
    · subst hd
      cases hself.symm.trans hu
      exact ⟨ht, hne⟩
    · exact h.registered d u ((hsame d hd).token.symm.trans hu)

theorem Paired.allocateToken : Paired wakeFd r.allocateToken.2 :=
  ⟨⟨h.keyed.named, fun t i ht => Nat.lt_succ_of_lt (h.keyed.below t i ht)⟩,
    Nat.succ_pos _, h.wake, h.tokens, h.registered⟩

theorem Paired.update {t : Nat} (ht : r.byFd.lookup i.fd = some t) :
    Paired wakeFd (r.update t i) := by
  obtain ⟨hkeyed, hsame⟩ := h.keyed.update ht
  obtain ⟨ht0, hne⟩ := h.registered i.fd t ht
  exact h.hold hne hkeyed hsame ht0 ht rfl
    (fun u hu => (Option.some.inj (ht.symm.trans hu)).symm) le_rfl

theorem Paired.register (hne : i.fd ≠ wakeFd) (hfree : r.byFd.lookup i.fd = none) :
    Paired wakeFd (r.allocateToken.2.insert r.nextToken i) := by
  obtain ⟨hkeyed, hsame⟩ := h.keyed.register i
  refine h.hold hne hkeyed hsame (Nat.ne_of_gt h.positive) (lookup_insert _) rfl
    (fun u hu => ?_) (Nat.le_succ _)
  cases hfree.symm.trans hu

end

end Maps

end Sitas.Os.Epoll.EpollRegistry
