import Sitas.Os.KqueueChanges

/-! The rounds of a kqueue reconciliation: each submits the changes of one descriptor, and its
result depends on the changes of that descriptor only. -/
namespace Sitas.Os.Kqueue
open Epoll (RawFd Errno EpollRegistry)
open List

def interestOf (r : KqueueRegistry) (fd : RawFd) : KqueueInterest :=
  ((r.byFd.lookup fd).bind fun t => r.byToken.lookup t).getD (unregistered fd)

abbrev changesTo (r : KqueueRegistry) (next : KqueueInterest) : List Change :=
  changesFor (interestOf r next.fd) next

/-- The token that the registry gives for a filter of a descriptor. -/
def tokenOf (r : KqueueRegistry) (fd : RawFd) (f : Filter) : Option Nat :=
  if (interestOf r fd).has f then r.byFd.lookup fd else none

/-- The kernel holds the filters of a descriptor that the registry describes. -/
def DescribedAt (b : KqueueBackend) (fd : RawFd) : Prop :=
  ∀ f, b.kernel.filters fd f = tokenOf b.registry fd f

structure Untouched (b b' : KqueueBackend) (fd : RawFd) : Prop where
  registry : EpollRegistry.SameFor b.registry b'.registry fd
  filters : ∀ f, b'.kernel.filters fd f = b.kernel.filters fd f

section Registry
variable {r r' : KqueueRegistry} {fd : RawFd} {i : KqueueInterest} {t : Nat} {b b' : KqueueBackend}

theorem interestOf_eq (hfd : r.byFd.lookup fd = some t) (ht : r.byToken.lookup t = some i) :
    interestOf r fd = i := by
  rw [interestOf, hfd, Option.bind_some, ht, Option.getD_some]

theorem interestOf_none (hfd : r.byFd.lookup fd = none) : interestOf r fd = unregistered fd := by
  rw [interestOf, hfd, Option.bind_none, Option.getD_none]

theorem interestOf_congr (h : EpollRegistry.SameFor r r' fd) :
    interestOf r' fd = interestOf r fd := by
  rw [interestOf, h.token, interestOf]
  cases hfd : r.byFd.lookup fd with
  | none => rfl
  | some t => rw [Option.bind_some, h.interest t hfd, Option.bind_some]

theorem tokenOf_congr (h : EpollRegistry.SameFor r r' fd) (f : Filter) :
    tokenOf r' fd f = tokenOf r fd f := by
  rw [tokenOf, interestOf_congr h, h.token, tokenOf]

theorem interestOf_fd (h : r.Keyed) (fd : RawFd) : (interestOf r fd).fd = fd := by
  cases hfd : r.byFd.lookup fd with
  | none => rw [interestOf_none hfd]; rfl
  | some t =>
    obtain ⟨i, hi, hifd⟩ := h.named fd t hfd
    rw [interestOf_eq hfd hi]
    exact hifd

theorem fd_of_mem_changesTo {next : KqueueInterest} (h : r.Keyed) {c : Change}
    (hc : c ∈ changesTo r next) : c.fd = next.fd :=
  fd_of_mem_changesFor (interestOf_fd h _) hc

theorem Untouched.refl (b : KqueueBackend) (fd : RawFd) : Untouched b b fd :=
  ⟨.refl _ fd, fun _ => rfl⟩

theorem Untouched.trans {b'' : KqueueBackend} (h : Untouched b b' fd) (h' : Untouched b' b'' fd) :
    Untouched b b'' fd :=
  ⟨h.registry.trans h'.registry, fun f => (h'.filters f).trans (h.filters f)⟩

theorem Untouched.describedAt_iff (h : Untouched b b' fd) : DescribedAt b' fd ↔ DescribedAt b fd :=
  forall_congr' fun f => by rw [h.filters f, tokenOf_congr h.registry f]

theorem DescribedAt.free {f : Filter} (h : DescribedAt b fd)
    (hhas : (interestOf b.registry fd).has f = false) : b.kernel.filters fd f = none := by
  rw [h f, tokenOf, hhas, if_neg Bool.false_ne_true]

theorem DescribedAt.held {f : Filter} (h : DescribedAt b fd)
    (hhas : (interestOf b.registry fd).has f = true) :
    ∃ u, b.registry.byFd.lookup fd = some u ∧ b.kernel.filters fd f = some u := by
  rw [h f, tokenOf, if_pos hhas]
  cases hu : b.registry.byFd.lookup fd with
  | some u => exact ⟨u, rfl, rfl⟩
  | none =>
    rw [interestOf_none hu] at hhas
    cases f <;> cases hhas

end Registry

variable {wakeFd fd : RawFd} {b b' : KqueueBackend} {outcome : Outcomes} {i : KqueueInterest}

/-- What a round does for the descriptor of an interest: the changes to the requested interest
are submitted, and the registry records it if no registration fails. -/
structure Round (wakeFd : RawFd) (outcome : Outcomes) (b : KqueueBackend) (next : KqueueInterest)
    (result : Option Errno) (b' : KqueueBackend) : Prop where
  paired : b'.registry.Paired wakeFd
  others : ∀ d, d ≠ next.fd → Untouched b b' d
  returns : result = none ↔ Registers outcome (changesTo b.registry next)
  registered : result = none → interestOf b'.registry next.fd = next
  exact : DescribedAt b next.fd →
    (DescribedAt b' next.fd ↔ Exact outcome next.fd (submitted outcome (changesTo b.registry next)))

section Round
variable {next : KqueueInterest} {t : Nat} {r : KqueueRegistry} {k : Kernel}

private theorem describedAt_recorded (hkeyed : b.registry.Keyed) (h : DescribedAt b next.fd)
    (hregisters : Registers outcome (changesTo b.registry next))
    (hself : interestOf r next.fd = next)
    (hnew : ∀ f, next.has f = true → r.byFd.lookup next.fd = some t)
    (hold : ∀ u, b.registry.byFd.lookup next.fd = some u → u = t) :
    DescribedAt ⟨(submitAll outcome t (changesTo b.registry next) b.kernel).2, r⟩ next.fd ↔
      Exact outcome next.fd (changesTo b.registry next) := by
  rw [exact_iff_of_registers hregisters]
  refine forall_congr' fun f => ?_
  dsimp only
  rw [tokenOf, hself, filters_submitAll, submitted_eq hregisters]
  have hadd : .add next.fd f ∈ changesTo b.registry next ↔ _ := add_mem_changesFor
  have hdelete : .delete next.fd f ∈ changesTo b.registry next ↔ _ := delete_mem_changesFor
  rw [interestOf_fd hkeyed] at hdelete
  cases hp : (interestOf b.registry next.fd).has f with
  | false =>
    cases hn : next.has f with
    | false => simp [hadd, hdelete, hp, hn, h.free hp]
    | true => simp [hadd, hdelete, hp, hn, hregisters _ _ (hadd.mpr ⟨rfl, hp, hn⟩), hnew f hn]
  | true =>
    obtain ⟨u, hu, hfilter⟩ := h.held hp
    cases hn : next.has f with
    | false => cases hout : outcome (.delete next.fd f) <;> simp [hadd, hdelete, hp, hn, hfilter]
    | true => simp [hadd, hdelete, hp, hn, hfilter, hnew f hn, hold u hu]

private theorem describedAt_failed (h : DescribedAt b next.fd)
    (hfails : ¬ Registers outcome (changesTo b.registry next))
    (hsame : EpollRegistry.SameFor b.registry r next.fd) :
    DescribedAt ⟨(submitAll outcome t (changesTo b.registry next) b.kernel).2, r⟩ next.fd ↔
      Exact outcome next.fd (submitted outcome (changesTo b.registry next)) := by
  obtain ⟨-, d, g, hmem, hfail⟩ := submitted_of_fails [] hfails
  cases (add_mem_changesFor.mp (submitted_subset hmem)).1
  constructor
  · intro hafter
    have hfilter := fun f => (hafter f).trans ((tokenOf_congr hsame f).trans (h f).symm)
    refine .inr ⟨⟨g, hmem⟩, fun c hc hfd hok => ?_⟩
    cases c with
    | add d f =>
      cases hfd
      have hadded := hfilter f
      rw [filters_submitAll, if_pos ⟨hc, hok⟩,
        h.free (add_mem_changesFor.mp (submitted_subset hc)).2.1] at hadded
      cases hadded
    | delete d f =>
      cases hfd
      have hdeleted := hfilter f
      have hheld := (delete_mem_changesFor.mp (submitted_subset hc)).2.1
      obtain ⟨u, -, hu⟩ := h.held hheld
      rw [filters_submitAll, if_neg, if_pos ⟨hc, hok⟩, hu] at hdeleted
      · cases hdeleted
      · exact fun hadd => Bool.false_ne_true
          ((add_mem_changesFor.mp (submitted_subset hadd.1)).2.1.symm.trans hheld)
  · rintro (hall | ⟨-, hall⟩) f
    · exact absurd (hall _ hmem rfl) hfail
    · rw [tokenOf_congr hsame, ← h f]
      dsimp only
      rw [filters_submitAll, if_neg fun hadd => hall _ hadd.1 rfl hadd.2,
        if_neg fun hdelete => hall _ hdelete.1 rfl hdelete.2]

private theorem round_submitAll {result : Option Errno} (hkeyed : b.registry.Keyed)
    (hresult : submitAll outcome t (changesTo b.registry next) b.kernel = (result, k))
    (hpaired : r.Paired wakeFd) (hsame : ∀ d, d ≠ next.fd → EpollRegistry.SameFor b.registry r d)
    (hself : result = none → interestOf r next.fd = next ∧
      (∀ f, next.has f = true → r.byFd.lookup next.fd = some t) ∧
      ∀ u, b.registry.byFd.lookup next.fd = some u → u = t)
    (hfailed : result ≠ none → EpollRegistry.SameFor b.registry r next.fd) :
    Round wakeFd outcome b next result ⟨k, r⟩ := by
  obtain ⟨rfl, rfl⟩ := Prod.mk.inj hresult
  have hreturns : (submitAll outcome t (changesTo b.registry next) b.kernel).1 = none ↔ _ :=
    fst_submitAll _
  refine ⟨hpaired, fun d hd => ⟨hsame d hd, fun f => ?_⟩, hreturns, fun hnone => (hself hnone).1,
    fun h => ?_⟩
  · have hnot : ∀ c ∈ submitted outcome (changesTo b.registry next), c.fd ≠ d :=
      fun c hc heq => hd (heq.symm.trans (fd_of_mem_changesTo hkeyed (submitted_subset hc)))
    dsimp only
    rw [filters_submitAll, if_neg fun hadd => hnot _ hadd.1 rfl,
      if_neg fun hdelete => hnot _ hdelete.1 rfl]
  · by_cases hok : (submitAll outcome t (changesTo b.registry next) b.kernel).1 = none
    · obtain ⟨hinterest, hnew, hold⟩ := hself hok
      rw [submitted_eq (hreturns.mp hok)]
      exact describedAt_recorded hkeyed h (hreturns.mp hok) hinterest hnew hold
    · exact describedAt_failed h (mt hreturns.mpr hok) (hfailed hok)

private theorem round_same (hpaired : b.registry.Paired wakeFd)
    (hself : interestOf b.registry next.fd = next) : Round wakeFd outcome b next none b := by
  have hchanges : changesTo b.registry next = [] := by
    rw [changesTo, hself, changesFor_self]
  refine ⟨hpaired, fun d _ => .refl b d, ?_, fun _ => hself, fun h => ?_⟩
  · simp [hchanges]
  · rw [hchanges]
    exact iff_of_true h (.inl fun _ hc => absurd hc not_mem_nil)

theorem round_applyInterest (hpaired : b.registry.Paired wakeFd) (hne : i.fd ≠ wakeFd) :
    Round wakeFd outcome b i (b.applyInterest outcome i).1 (b.applyInterest outcome i).2 := by
  rw [KqueueBackend.applyInterest]
  cases hfd : b.registry.byFd.lookup i.fd with
  | some t =>
    obtain ⟨previous, hprevious, -⟩ := hpaired.keyed.named i.fd t hfd
    have hold : interestOf b.registry i.fd = previous := interestOf_eq hfd hprevious
    have htoken : ∀ u, b.registry.byFd.lookup i.fd = some u → u = t :=
      fun u hu => (Option.some.inj (hfd.symm.trans hu)).symm
    simp only [EpollRegistry.tokenForFd, hfd, EpollRegistry.get, hprevious]
    by_cases hchanged : previous ≠ i
    · rw [if_pos hchanged, updateKqueueInterest_eq, ← hold]
      rcases hresult : submitAll outcome t (changesTo b.registry i) b.kernel with ⟨_ | e, k⟩
      · refine round_submitAll hpaired.keyed hresult (hpaired.update hfd)
          (hpaired.keyed.update hfd).2 (fun _ => ⟨?_, fun _ _ => hfd, htoken⟩) fun h => absurd rfl h
        exact interestOf_eq hfd (AList.lookup_insert _)
      · exact round_submitAll hpaired.keyed hresult hpaired (fun d _ => .refl _ d)
          (fun h => by cases h) fun _ => .refl _ _
    · rw [if_neg hchanged]
      exact round_same hpaired (hold.trans (not_not.mp hchanged))
  | none =>
    simp only [EpollRegistry.tokenForFd, hfd, EpollRegistry.allocateToken,
      registerKqueueInterest_eq, updateKqueueInterest_eq]
    rw [← interestOf_none hfd]
    rcases hresult : submitAll outcome b.registry.nextToken (changesTo b.registry i) b.kernel with
      ⟨_ | e, k⟩
    · refine round_submitAll hpaired.keyed hresult (hpaired.register hne hfd)
        (hpaired.keyed.register i).2 (fun _ => ⟨?_, fun _ _ => AList.lookup_insert _, fun u hu => ?_⟩)
        fun h => absurd rfl h
      · exact interestOf_eq (AList.lookup_insert _) (AList.lookup_insert _)
      · cases hfd.symm.trans hu
    · exact round_submitAll hpaired.keyed hresult hpaired.allocateToken (fun d _ => ⟨rfl, fun _ _ => rfl⟩)
        (fun h => by cases h) fun _ => ⟨rfl, fun _ _ => rfl⟩

theorem round_removeStaleFd (hpaired : b.registry.Paired wakeFd) (fd : RawFd) :
    Round wakeFd outcome b (unregistered fd) none (b.removeStaleFd outcome fd) := by
  rw [KqueueBackend.removeStaleFd]
  cases hfd : b.registry.byFd.lookup fd with
  | none =>
    have hremove : b.registry.removeFd fd = (none, b.registry) := by
      rw [EpollRegistry.removeFd, hfd]
    rw [hremove]
    exact round_same hpaired (interestOf_none hfd)
  | some t =>
    obtain ⟨i, hi, rfl⟩ := hpaired.keyed.named fd t hfd
    have hremove : b.registry.removeFd i.fd = (some i, (b.registry.removeFd i.fd).2) := by
      rw [EpollRegistry.removeFd, hfd]
      exact congrArg (·, _) hi
    have hresult : submitAll outcome t (changesTo b.registry (unregistered i.fd)) b.kernel =
        (none, unregisterKqueueInterest outcome b.kernel i) := by
      rw [unregisterKqueueInterest_eq t, updateKqueueInterest_eq]
      exact congrArg (submitAll outcome t · b.kernel)
        (congrArg (changesFor · _) (interestOf_eq hfd hi))
    rw [hremove]
    refine round_submitAll hpaired.keyed hresult (hpaired.removeFd i.fd)
      (fun d hd => hpaired.keyed.sameFor_removeFd hd) (fun _ => ⟨interestOf_none ?_, fun f hf => ?_, ?_⟩)
      fun h => absurd rfl h
    · exact Option.eq_none_iff_forall_ne_some.mpr fun u hu =>
        (EpollRegistry.removeFd_byFd hu).1 rfl
    · cases f <;> cases hf
    · exact fun u hu => (Option.some.inj (hfd.symm.trans hu)).symm

end Round

/-- Rounds for the descriptors of a list of interests, until one fails. -/
inductive Rounds (wakeFd : RawFd) (outcome : Outcomes) :
    List KqueueInterest → KqueueBackend → Option Errno → KqueueBackend → Prop
  | done (b : KqueueBackend) : Rounds wakeFd outcome [] b none b
  | next {n : KqueueInterest} {ns : List KqueueInterest} {b b₁ b' : KqueueBackend}
      {result : Option Errno} : Round wakeFd outcome b n none b₁ →
      Rounds wakeFd outcome ns b₁ result b' → Rounds wakeFd outcome (n :: ns) b result b'
  | failed {n : KqueueInterest} {ns : List KqueueInterest} {b b' : KqueueBackend} {e : Errno} :
      Round wakeFd outcome b n (some e) b' → Rounds wakeFd outcome (n :: ns) b (some e) b'

theorem rounds_applyInterests (is : List KqueueInterest) (hpaired : b.registry.Paired wakeFd)
    (hne : ∀ i ∈ is, i.fd ≠ wakeFd) :
    Rounds wakeFd outcome is b (b.applyInterests outcome is).1 (b.applyInterests outcome is).2 := by
  induction is generalizing b with
  | nil => exact .done b
  | cons i is ih =>
    have hround : Round wakeFd outcome b i _ _ := round_applyInterest hpaired (hne i mem_cons_self)
    rw [KqueueBackend.applyInterests]
    rcases happly : b.applyInterest outcome i with ⟨_ | e, b₁⟩
    · rw [happly] at hround
      exact .next hround (ih hround.paired fun j hj => hne j (mem_cons_of_mem i hj))
    · rw [happly] at hround
      exact .failed hround

/-- The interests of the two loops, in the order of their rounds. -/
def KqueueBackend.targets (b : KqueueBackend) (interests : List KqueueInterest) :
    List KqueueInterest :=
  (b.staleFds interests).map unregistered ++ interests

theorem mem_targets {interests : List KqueueInterest} :
    fd ∈ (b.targets interests).map (·.fd) ↔ fd ∈ b.registry.byFd ∨ fd ∈ interests.map (·.fd) := by
  have hstale : fd ∈ (b.staleFds interests).map ((·.fd) ∘ unregistered) ↔
      fd ∈ b.registry.byFd ∧ fd ∉ interests.map (·.fd) :=
    (map_id (b.staleFds interests)).symm ▸ Epoll.mem_stale
  rw [KqueueBackend.targets, map_append, mem_append, map_map, hstale]
  tauto

variable {ns : List KqueueInterest} {result : Option Errno}

theorem rounds_reconcile {interests : List KqueueInterest} (hpaired : b.registry.Paired wakeFd)
    (hne : ∀ i ∈ interests, i.fd ≠ wakeFd)
    (hresult : b.reconcileKqueueInterests outcome interests = (result, b')) :
    Rounds wakeFd outcome (b.targets interests) b result b' := by
  rw [KqueueBackend.reconcileKqueueInterests] at hresult
  rw [KqueueBackend.targets]
  generalize b.staleFds interests = fds at hresult ⊢
  induction fds generalizing b with
  | nil =>
    have hrounds : Rounds wakeFd outcome interests b _ _ := rounds_applyInterests interests hpaired hne
    rw [foldl_nil] at hresult
    rwa [hresult] at hrounds
  | cons fd fds ih =>
    have hround : Round wakeFd outcome b _ _ _ := round_removeStaleFd hpaired fd
    exact .next hround (ih hround.paired hresult)

section Rounds
variable (h : Rounds wakeFd outcome ns b result b')
include h

theorem Rounds.paired (hb : b.registry.Paired wakeFd) : b'.registry.Paired wakeFd := by
  induction h with
  | done => exact hb
  | next hround _ ih => exact ih hround.paired
  | failed hround => exact hround.paired

theorem Rounds.others (hfd : fd ∉ ns.map (·.fd)) : Untouched b b' fd := by
  induction h with
  | done b => exact .refl b fd
  | next hround _ ih =>
    rw [map_cons, mem_cons, not_or] at hfd
    exact (hround.others fd hfd.1).trans (ih hfd.2)
  | failed hround =>
    rw [map_cons, mem_cons, not_or] at hfd
    exact hround.others fd hfd.1

theorem Rounds.registered (hnodup : (ns.map (·.fd)).Nodup) (hok : result = none) :
    ∀ n ∈ ns, interestOf b'.registry n.fd = n := by
  induction h with
  | done => exact fun n hn => absurd hn not_mem_nil
  | next hround hrest ih =>
    obtain ⟨hnot, hnodup⟩ := nodup_cons.mp hnodup
    intro n hn
    rcases mem_cons.mp hn with rfl | hn
    · rw [interestOf_congr (hrest.others hnot).registry]
      exact hround.registered rfl
    · exact ih hnodup hok n hn
  | failed => cases hok

theorem Rounds.returns (hok : ∀ c, outcome c = none) : result = none := by
  induction h with
  | done => rfl
  | next _ _ ih => exact ih
  | failed hround => exact hround.returns.mpr fun _ _ _ => hok _

end Rounds

def changesOf (r : KqueueRegistry) (ns : List KqueueInterest) : List Change := ns.flatMap (changesTo r)

theorem changesOf_congr {r r' : KqueueRegistry}
    (h : ∀ n ∈ ns, EpollRegistry.SameFor r r' n.fd) : changesOf r' ns = changesOf r ns := by
  rw [changesOf, changesOf, flatMap_def, flatMap_def, map_congr_left fun n hn => ?_]
  rw [changesTo, interestOf_congr (h n hn)]

theorem fd_mem_of_mem_changesOf {r : KqueueRegistry} (hkeyed : r.Keyed) {c : Change}
    (hc : c ∈ changesOf r ns) : c.fd ∈ ns.map (·.fd) := by
  obtain ⟨n, hn, hc⟩ := mem_flatMap.mp hc
  rw [fd_of_mem_changesTo hkeyed hc]
  exact mem_map_of_mem hn

/-- Whether a descriptor is described afterwards depends on its own changes, as far as they were
submitted. -/
theorem Rounds.exact (h : Rounds wakeFd outcome ns b result b') (hb : b.registry.Keyed)
    (hnodup : (ns.map (·.fd)).Nodup) (hfd : DescribedAt b fd) :
    DescribedAt b' fd ↔ Exact outcome fd (submitted outcome (changesOf b.registry ns)) := by
  induction h with
  | done b => exact iff_of_true hfd (.inl fun _ hc => absurd hc not_mem_nil)
  | @next n ns b b₁ b' result hround hrest ih =>
    obtain ⟨hnot, hnodup⟩ : n.fd ∉ ns.map (·.fd) ∧ (ns.map (·.fd)).Nodup := nodup_cons.mp hnodup
    have hregisters := hround.returns.mp rfl
    have hchanges : changesOf b₁.registry ns = changesOf b.registry ns := changesOf_congr fun m hm =>
      (hround.others m.fd fun heq => hnot (heq ▸ mem_map_of_mem hm)).registry
    rw [changesOf, flatMap_cons, ← changesOf, submitted_append _ hregisters]
    by_cases heq : n.fd = fd
    · subst heq
      rw [(hrest.others hnot).describedAt_iff, hround.exact hfd, submitted_eq hregisters,
        exact_append_right fun c hc hc' => hnot ?_]
      exact hc' ▸ fd_mem_of_mem_changesOf hb (submitted_subset hc)
    · have hsame := (hround.others fd (Ne.symm heq)).describedAt_iff
      rw [ih hround.paired.keyed hnodup (hsame.mpr hfd), hchanges,
        exact_append_left fun c hc hc' => heq ((fd_of_mem_changesTo hb hc).symm.trans hc')]
  | @failed n ns b b' e hround =>
    have hfails : ¬ Registers outcome (changesTo b.registry n) := mt hround.returns.mpr nofun
    rw [changesOf, flatMap_cons, (submitted_of_fails _ hfails).1]
    by_cases heq : n.fd = fd
    · subst heq
      exact hround.exact hfd
    · refine iff_of_true ((hround.others fd (Ne.symm heq)).describedAt_iff.mpr hfd)
        (.inl fun c hc hc' => absurd ?_ heq)
      exact (fd_of_mem_changesTo hb (submitted_subset hc)).symm.trans hc'

end Sitas.Os.Kqueue
