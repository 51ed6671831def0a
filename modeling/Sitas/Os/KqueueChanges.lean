import Sitas.Os.Kqueue

/-! The changes of a kqueue interest as a list: what is submitted of it, and what the kernel
holds afterwards. -/
namespace Sitas.Os.Kqueue
open Epoll (RawFd Errno)
open List

variable {outcome : Outcomes} {k : Kernel} {previous next i : KqueueInterest} {token : Nat}

/-- The changes that turn one interest into another, in the order in which they are
submitted. -/
def changesFor (previous next : KqueueInterest) : List Change :=
  (if previous.read && !next.read then [.delete previous.fd .read] else []) ++
  (if previous.write && !next.write then [.delete previous.fd .write] else []) ++
  (if !previous.read && next.read then [.add next.fd .read] else []) ++
  if !previous.write && next.write then [.add next.fd .write] else []

def unregistered (fd : RawFd) : KqueueInterest := ⟨fd, false, false⟩

theorem registerKqueueInterest_eq :
    registerKqueueInterest outcome k i token =
      updateKqueueInterest outcome k (unregistered i.fd) i token := by
  simp [registerKqueueInterest, updateKqueueInterest, unregistered, deleteIf]

theorem unregisterKqueueInterest_eq (token : Nat) : (none, unregisterKqueueInterest outcome k i) =
    updateKqueueInterest outcome k i (unregistered i.fd) token := by
  simp [unregisterKqueueInterest, updateKqueueInterest, unregistered, registerIf]

/-- Submits changes in order: errors of deletions are ignored, the first error of a
registration ends the sequence. -/
def submitAll (outcome : Outcomes) (token : Nat) : List Change → Kernel → Option Errno × Kernel
  | [], k => (none, k)
  | .delete fd filter :: changes, k =>
    submitAll outcome token changes (deleteKqueueFd outcome k fd filter).2
  | .add fd filter :: changes, k =>
    match registerKqueueFd outcome k fd filter token with
    | (some e, k) => (some e, k)
    | (none, k) => submitAll outcome token changes k

theorem updateKqueueInterest_eq : updateKqueueInterest outcome k previous next token =
    submitAll outcome token (changesFor previous next) k := by
  obtain ⟨d, pr, pw⟩ := previous
  obtain ⟨d', nr, nw⟩ := next
  cases pr <;> cases pw <;> cases nr <;> cases nw <;>
    simp [updateKqueueInterest, changesFor, submitAll, deleteIf, registerIf] <;> grind

def Kernel.apply (token : Nat) (k : Kernel) : Change → Kernel
  | .add fd filter => k.setFilter fd filter (some token)
  | .delete fd filter => k.setFilter fd filter none

def Change.fd : Change → RawFd
  | .add fd _ | .delete fd _ => fd

/-- The changes that are really submitted: all up to the first registration that fails. -/
def submitted (outcome : Outcomes) : List Change → List Change
  | [] => []
  | .delete fd filter :: changes => .delete fd filter :: submitted outcome changes
  | .add fd filter :: changes =>
    .add fd filter :: if outcome (.add fd filter) = none then submitted outcome changes else []

def Registers (outcome : Outcomes) (changes : List Change) : Prop :=
  ∀ fd f, .add fd f ∈ changes → outcome (.add fd f) = none

/-- The changes submitted for a descriptor all succeed, or they all fail and one of them is a
registration. -/
def Exact (outcome : Outcomes) (fd : RawFd) (changes : List Change) : Prop :=
  (∀ c ∈ changes, c.fd = fd → outcome c = none) ∨
    (∃ f, .add fd f ∈ changes) ∧ ∀ c ∈ changes, c.fd = fd → outcome c ≠ none

variable {fd : RawFd} {f : Filter}

section Submitted
variable {changes : List Change} (rest : List Change)

@[simp] theorem registers_nil : Registers outcome [] := fun _ _ hmem => absurd hmem not_mem_nil

@[simp] theorem registers_delete :
    Registers outcome (.delete fd f :: changes) ↔ Registers outcome changes := by
  simp [Registers]

@[simp] theorem registers_add : Registers outcome (.add fd f :: changes) ↔
    outcome (.add fd f) = none ∧ Registers outcome changes := by
  simp only [Registers, mem_cons, Change.add.injEq, or_imp, forall_and, and_imp, forall_eq_apply_imp_iff]
  simp

theorem submitted_subset : submitted outcome changes ⊆ changes := by
  induction changes with
  | nil => exact Subset.refl _
  | cons change changes ih =>
    cases change with
    | delete fd f => exact cons_subset_cons _ ih
    | add fd f =>
      rw [submitted]
      split
      · exact cons_subset_cons _ ih
      · exact cons_subset_cons _ (nil_subset _)

theorem submitted_append (h : Registers outcome changes) :
    submitted outcome (changes ++ rest) = changes ++ submitted outcome rest := by
  induction changes with
  | nil => rfl
  | cons change changes ih => cases change <;> simp_all [submitted]

theorem submitted_eq (h : Registers outcome changes) : submitted outcome changes = changes := by
  simpa [submitted] using submitted_append [] h

theorem submitted_of_fails (h : ¬ Registers outcome changes) :
    submitted outcome (changes ++ rest) = submitted outcome changes ∧
      ∃ fd f, .add fd f ∈ submitted outcome changes ∧ outcome (.add fd f) ≠ none := by
  induction changes with
  | nil => exact absurd registers_nil h
  | cons change changes ih =>
    cases change with
    | delete fd f =>
      obtain ⟨heq, d, g, hmem, hfails⟩ := ih (mt registers_delete.mpr h)
      exact ⟨by rw [cons_append, submitted, heq, submitted], d, g, mem_cons_of_mem _ hmem, hfails⟩
    | add fd f =>
      rw [cons_append, submitted, submitted]
      by_cases hok : outcome (.add fd f) = none
      · obtain ⟨heq, d, g, hmem, hfails⟩ := ih fun hall => h (registers_add.mpr ⟨hok, hall⟩)
        rw [if_pos hok, if_pos hok, heq]
        exact ⟨rfl, d, g, mem_cons_of_mem _ hmem, hfails⟩
      · rw [if_neg hok, if_neg hok]
        exact ⟨rfl, fd, f, mem_cons_self, hok⟩

variable {rest}

theorem exact_congr {changes' : List Change}
    (h : ∀ c, c.fd = fd → (c ∈ changes ↔ c ∈ changes')) :
    Exact outcome fd changes ↔ Exact outcome fd changes' := by
  have hall : ∀ p : Change → Prop,
      (∀ c ∈ changes, c.fd = fd → p c) ↔ ∀ c ∈ changes', c.fd = fd → p c := fun p =>
    forall_congr' fun c => ⟨fun hp hc hfd => hp ((h c hfd).mpr hc) hfd,
      fun hp hc hfd => hp ((h c hfd).mp hc) hfd⟩
  rw [Exact, hall, hall, exists_congr fun f => h (.add fd f) rfl, Exact]

theorem exact_append_left (h : ∀ c ∈ changes, c.fd ≠ fd) :
    Exact outcome fd (changes ++ rest) ↔ Exact outcome fd rest :=
  exact_congr fun c hfd => mem_append.trans (or_iff_right fun hc => h c hc hfd)

theorem exact_append_right (h : ∀ c ∈ rest, c.fd ≠ fd) :
    Exact outcome fd (changes ++ rest) ↔ Exact outcome fd changes :=
  exact_congr fun c hfd => mem_append.trans (or_iff_left fun hc => h c hc hfd)

theorem exact_iff_of_registers (h : Registers outcome changes) :
    Exact outcome fd changes ↔ ∀ f, .delete fd f ∈ changes → outcome (.delete fd f) = none := by
  constructor
  · rintro (hall | ⟨⟨g, hadd⟩, hfails⟩) f hmem
    · exact hall _ hmem rfl
    · exact absurd (h fd g hadd) (hfails _ hadd rfl)
  · rintro hdeletes
    refine .inl fun c hc hfd => ?_
    cases c with
    | add d f => exact h d f hc
    | delete d f =>
      cases hfd
      exact hdeletes f hc

end Submitted

theorem fst_submitAll (changes : List Change) :
    (submitAll outcome token changes k).1 = none ↔ Registers outcome changes := by
  induction changes generalizing k with
  | nil => simp [submitAll]
  | cons change changes ih =>
    cases change with
    | delete fd f => simp [submitAll, ih]
    | add fd f =>
      cases hout : outcome (.add fd f) <;>
        simp [submitAll, registerKqueueFd, submitKqueueChange, hout, ih]

theorem snd_submitAll (changes : List Change) : (submitAll outcome token changes k).2 =
    ((submitted outcome changes).filter fun c => outcome c = none).foldl (Kernel.apply token) k := by
  induction changes generalizing k with
  | nil => rfl
  | cons change changes ih =>
    cases change with
    | delete fd f =>
      cases hout : outcome (.delete fd f) <;>
        simp [submitAll, deleteKqueueFd, submitKqueueChange, submitted, hout, ih, Kernel.apply]
    | add fd f =>
      cases hout : outcome (.add fd f) <;>
        simp [submitAll, registerKqueueFd, submitKqueueChange, submitted, hout, ih, Kernel.apply]

theorem filters_foldl_apply {changes : List Change}
    (honce : ∀ fd f, .add fd f ∈ changes → .delete fd f ∉ changes) (fd : RawFd) (f : Filter) :
    (changes.foldl (Kernel.apply token) k).filters fd f =
      if .add fd f ∈ changes then some token
      else if .delete fd f ∈ changes then none else k.filters fd f := by
  induction changes generalizing k with
  | nil => simp
  | cons change changes ih =>
    have hlast := honce fd f
    rw [foldl_cons, ih fun d g hadd hdelete =>
      honce d g (mem_cons_of_mem _ hadd) (mem_cons_of_mem _ hdelete)]
    cases change with
    | add d g | delete d g =>
      by_cases heq : fd = d ∧ f = g
      · obtain ⟨rfl, rfl⟩ := heq
        simp_all [Kernel.apply, Kernel.setFilter]
      · simp [Kernel.apply, Kernel.setFilter, heq]

theorem add_mem_changesFor : .add fd f ∈ changesFor previous next ↔
    fd = next.fd ∧ previous.has f = false ∧ next.has f = true := by
  cases f <;> simp [changesFor, Epoll.EpollInterest.has] <;> tauto

theorem delete_mem_changesFor : .delete fd f ∈ changesFor previous next ↔
    fd = previous.fd ∧ previous.has f = true ∧ next.has f = false := by
  cases f <;> simp [changesFor, Epoll.EpollInterest.has] <;> tauto

theorem fd_of_mem_changesFor (hfd : previous.fd = next.fd) {c : Change}
    (hc : c ∈ changesFor previous next) : c.fd = next.fd := by
  cases c with
  | add fd f => exact (add_mem_changesFor.mp hc).1
  | delete fd f => exact (delete_mem_changesFor.mp hc).1.trans hfd

theorem changesFor_self (i : KqueueInterest) : changesFor i i = [] := by
  simp [changesFor]

theorem filters_submitAll (previous next : KqueueInterest) (fd : RawFd) (f : Filter) :
    (submitAll outcome token (changesFor previous next) k).2.filters fd f =
      if .add fd f ∈ submitted outcome (changesFor previous next) ∧ outcome (.add fd f) = none then
        some token
      else if .delete fd f ∈ submitted outcome (changesFor previous next) ∧
          outcome (.delete fd f) = none then none else k.filters fd f := by
  rw [snd_submitAll, filters_foldl_apply]
  · simp only [mem_filter, decide_eq_true_eq]
  · intro d g hadd hdelete
    have hnot := add_mem_changesFor.mp (submitted_subset (mem_filter.mp hadd).1)
    have hheld := delete_mem_changesFor.mp (submitted_subset (mem_filter.mp hdelete).1)
    exact Bool.false_ne_true (hnot.2.1.symm.trans hheld.2.1)

end Sitas.Os.Kqueue
