import Mathlib.Data.List.Perm.Basic

/-! Threads that run critical sections. Sections that call nothing while their lock is held
make a call a list of them. Where they may call others inside, what is left of a thread's
work is a stack, and the locks it holds can be read off it. -/
namespace Sitas.Lib.Calls
open List
variable {α : Type}

def due (calls : List (List α)) : List α := calls.flatten

def next (calls : List (List α)) (i : Nat) : Option (α × List α) :=
  match calls[i]? with
  | some (a :: rest) => some (a, rest)
  | _ => none

variable {calls : List (List α)} {i : Nat}

theorem next_eq_some {a : α} {rest : List α} :
    next calls i = some (a, rest) ↔ calls[i]? = some (a :: rest) := by
  rw [next]
  split <;> simp_all

private theorem due_set_append {c : List α} (h : calls[i]? = some c) (new rest : List α) :
    (due (calls.set i (new ++ rest))).Perm (new ++ due (calls.set i rest)) := by
  induction calls generalizing i with
  | nil => cases h
  | cons d calls ih =>
    cases i with
    | zero => simp [due]
    | succ i =>
      have hi : calls[i]? = some c := h
      simp only [due, set_cons_succ, flatten_cons]
      refine ((ih hi).append_left d).trans ?_
      simpa only [append_assoc, due] using
        perm_append_comm.append_right (calls.set i rest).flatten

theorem due_perform {a : α} {rest : List α} (h : next calls i = some (a, rest)) :
    (due calls).Perm (a :: due (calls.set i rest)) ∧
      ∀ new, (due (calls.set i (new ++ rest))).Perm (new ++ due (calls.set i rest)) := by
  have hi := next_eq_some.mp h
  refine ⟨?_, fun new => due_set_append hi new rest⟩
  obtain ⟨hlt, hget⟩ := List.getElem?_eq_some_iff.mp hi
  have hself : calls.set i ([a] ++ rest) = calls := by
    rw [singleton_append, ← hget, set_getElem_self]
  have hperm := due_set_append hi [a] rest
  rwa [hself] at hperm

end Sitas.Lib.Calls

namespace Sitas.Lib.Locks
open List Function
variable {L A σ : Type}

/-- What an action does to the shared data, and the actions it calls before and after
its lock is released. -/
structure Effect (A σ : Type) where
  data : σ
  inside : List A
  after : List A

structure Program (L A σ : Type) where
  lock : A → Option L
  exec : σ → A → Effect A σ

inductive Frame (L A : Type) where
  | call (action : A)
  | body (action : A)
  | unlock (lock : L)

structure Threads (L A σ : Type) where
  data : σ
  owner : L → Option Nat
  work : Nat → List (Frame L A)

def Frame.action? : Frame L A → Option A
  | .call a | .body a => some a
  | .unlock _ => none

def Frame.call? : Frame L A → Option A
  | .call a => some a
  | _ => none

def Frame.body? : Frame L A → Option A
  | .body a => some a
  | _ => none

def push (calls : List A) (stack : List (Frame L A)) : List (Frame L A) :=
  calls.map .call ++ stack

def begin (s : Threads L A σ) (i : Nat) (data : σ) (calls : List A) : Option (Threads L A σ) :=
  match s.work i with
  | [] => some { s with data := data, work := Function.update s.work i (push calls []) }
  | _ :: _ => none

theorem begin_work {s t : Threads L A σ} {i : Nat} {data : σ} {calls : List A}
    (h : begin s i data calls = some t) :
    s.work i = [] ∧ t.work = update s.work i (push calls []) ∧
      t.owner = s.owner := by
  rw [begin] at h
  split at h
  next hidle =>
    cases h
    exact ⟨hidle, rfl, rfl⟩
  · cases h

theorem forall_work {s t : Threads L A σ} {i : Nat} {P : List (Frame L A) → Prop}
    (h : ∀ j, P (s.work j)) {stack : List (Frame L A)} (hstack : P stack)
    (ht : t.work = update s.work i stack) (j : Nat) : P (t.work j) := by
  rw [ht]
  by_cases hj : j = i
  · rw [hj, update_self]
    exact hstack
  · rw [update_of_ne hj]
    exact h j

namespace Program
variable (p : Program L A σ)

def frameLock : Frame L A → Option L
  | .call _ => none
  | .body a => p.lock a
  | .unlock l => some l

def held (stack : List (Frame L A)) : List L := stack.filterMap p.frameLock

def wants : List (Frame L A) → Option L
  | .call a :: _ => p.lock a
  | _ => none

/-- A thread goes on with its next frame. It is stuck while another thread, or itself,
holds the lock it wants. -/
def advance [DecidableEq L] (s : Threads L A σ) (i : Nat) :
    List (Frame L A) → Option (Threads L A σ)
  | [] => none
  | .call a :: rest =>
    match p.lock a with
    | none =>
      let e := p.exec s.data a
      some { s with
        data := e.data
        work := Function.update s.work i (push (e.inside ++ e.after) rest) }
    | some l =>
      if s.owner l = none then
        some { s with
          owner := Function.update s.owner l (some i)
          work := Function.update s.work i (.body a :: rest) }
      else none
  | .body a :: rest =>
    (p.lock a).map fun l =>
      let e := p.exec s.data a
      { s with
        data := e.data
        work := Function.update s.work i (push e.inside (.unlock l :: push e.after rest)) }
  | .unlock l :: rest =>
    some { s with
      owner := Function.update s.owner l none
      work := Function.update s.work i rest }

/-- Locks are owned by the threads that will release them, once. -/
structure Owned (owner : L → Option Nat) (work : Nat → List (Frame L A)) : Prop where
  held : ∀ l i, owner l = some i ↔ l ∈ p.held (work i)
  once : ∀ i, (p.held (work i)).Nodup

/-- A lock under which nothing but its own sections is called is held below the top frame
only by a thread that waits for it. -/
def SelfOnly (l : L) (stack : List (Frame L A)) : Prop :=
  l ∈ p.held stack.tail → p.wants stack = some l

/-- Every action that is still to be run may be run with the locks below it held. -/
def Nests (ok : A → L → Prop) : List (Frame L A) → Prop
  | [] => True
  | f :: rest => (∀ a, f.action? = some a → ∀ l ∈ p.held rest, ok a l) ∧ Nests ok rest

inductive Moves (data : σ) : List (Frame L A) → List (Frame L A) → Prop
  | lock (l : L) (a : A) (rest : List (Frame L A)) : p.lock a = some l →
      Moves data (.call a :: rest) (.body a :: rest)
  | free (a : A) (rest : List (Frame L A)) : p.lock a = none →
      Moves data (.call a :: rest)
        (push ((p.exec data a).inside ++ (p.exec data a).after) rest)
  | body (l : L) (a : A) (rest : List (Frame L A)) : p.lock a = some l →
      Moves data (.body a :: rest)
        (push (p.exec data a).inside (.unlock l :: push (p.exec data a).after rest))
  | unlock (l : L) (rest : List (Frame L A)) : Moves data (.unlock l :: rest) rest

variable {p}

variable {l : L} {stack : List (Frame L A)} {data : σ}

theorem held_body {a : A} (h : p.lock a = some l) (stack : List (Frame L A)) :
    p.held (.body a :: stack) = l :: p.held stack :=
  filterMap_cons_some h

@[simp] theorem held_unlock (l : L) (stack : List (Frame L A)) :
    p.held (.unlock l :: stack) = l :: p.held stack := rfl

@[simp] theorem held_push (calls : List A) (stack : List (Frame L A)) :
    p.held (push calls stack) = p.held stack := by
  induction calls with
  | nil => rfl
  | cons c calls ih => exact ih

theorem held_tail_subset (stack : List (Frame L A)) : p.held stack.tail ⊆ p.held stack := by
  intro l hl
  obtain ⟨f, hf, hlock⟩ := mem_filterMap.mp hl
  exact mem_filterMap.mpr ⟨f, mem_of_mem_tail hf, hlock⟩

theorem nests_push {ok : A → L → Prop} {calls : List A}
    (hcalls : ∀ a ∈ calls, ∀ l ∈ p.held stack, ok a l) (h : p.Nests ok stack) :
    p.Nests ok (push calls stack) := by
  induction calls with
  | nil => exact h
  | cons a calls ih =>
    refine ⟨?_, ih fun a ha => hcalls a (mem_cons_of_mem _ ha)⟩
    rintro _ ⟨⟩ l hl
    change l ∈ p.held (push calls stack) at hl
    rw [held_push] at hl
    exact hcalls a (mem_cons_self ..) l hl

theorem wants_of_selfOnly {k : L} (h : p.SelfOnly l stack) (hl : l ∈ p.held stack)
    (hk : p.wants stack = some k) : k = l := by
  cases stack with
  | nil => cases hk
  | cons f rest =>
    cases f with
    | call a => exact Option.some.inj (hk.symm.trans (h hl))
    | body a | unlock l' => cases hk

/-- This is kept as long as the sections of the lock call no others inside. The thread that
waits for a lock that it holds does not move. -/
theorem selfOnly_move {stack' : List (Frame L A)} (h : p.SelfOnly l stack)
    (hfree : p.wants stack = some l → l ∉ p.held stack)
    (hinside : ∀ a rest, stack = .body a :: rest → p.lock a = some l →
      ∀ b ∈ (p.exec data a).inside, p.lock b = some l) (hm : p.Moves data stack stack') :
    p.SelfOnly l stack' := by
  have hbelow : l ∉ p.held stack.tail := fun hl =>
    hfree (h hl) (held_tail_subset stack hl)
  cases hm with
  | lock k a rest hk => exact fun hl => absurd hl hbelow
  | free a rest _ =>
    intro hl
    have hmem := held_tail_subset _ hl
    rw [held_push] at hmem
    exact absurd hmem hbelow
  | body k a rest hk =>
    intro hl
    cases hcalls : (p.exec data a).inside with
    | nil =>
      rw [hcalls] at hl
      change l ∈ p.held (push (p.exec data a).after rest) at hl
      rw [held_push] at hl
      exact absurd hl hbelow
    | cons b calls =>
      have hmem := held_tail_subset _ hl
      rw [held_push, held_unlock, held_push] at hmem
      have hlk : l = k := (mem_cons.mp hmem).resolve_right hbelow
      exact hinside a rest rfl (hk.trans (congrArg some hlk.symm)) b (hcalls ▸ mem_cons_self ..)
  | unlock k rest => exact fun hl => absurd (held_tail_subset _ hl) hbelow

/-- Nesting is kept if the executed action calls only what may be nested where it is. -/
theorem nests_move {ok : A → L → Prop} {stack' : List (Frame L A)} (h : p.Nests ok stack)
    (hfree : ∀ a rest, stack = .call a :: rest → p.lock a = none → (∀ l ∈ p.held rest, ok a l) →
      ∀ b ∈ (p.exec data a).inside ++ (p.exec data a).after, ∀ l ∈ p.held rest, ok b l)
    (hbody : ∀ k a rest, stack = .body a :: rest → p.lock a = some k →
      (∀ l ∈ p.held rest, ok a l) →
      (∀ b ∈ (p.exec data a).inside, ∀ l ∈ k :: p.held rest, ok b l) ∧
        ∀ b ∈ (p.exec data a).after, ∀ l ∈ p.held rest, ok b l) (hm : p.Moves data stack stack') :
    p.Nests ok stack' := by
  cases hm with
  | lock k a rest _ => exact ⟨h.1, h.2⟩
  | free a rest hk => exact nests_push (hfree a rest rfl hk (h.1 a rfl)) h.2
  | body k a rest hk =>
    obtain ⟨hinside, hafter⟩ := hbody k a rest rfl hk (h.1 a rfl)
    refine nests_push ?_ ⟨nofun, nests_push hafter h.2⟩
    rwa [held_unlock, held_push]
  | unlock k rest => exact h.2

section Ownership
variable {s t : Threads L A σ} {i : Nat} {owner : L → Option Nat}
  {work : Nat → List (Frame L A)} {rest : List (Frame L A)}

private theorem Owned.keep (h : p.Owned owner work) (hstack : p.held stack = p.held (work i)) :
    p.Owned owner (update work i stack) := by
  have hheld : ∀ j, p.held (update work i stack j) = p.held (work j) := by
    intro j
    by_cases hj : j = i
    · rw [hj, update_self, hstack]
    · rw [update_of_ne hj]
  exact ⟨fun l j => by rw [hheld, h.held], fun j => hheld j ▸ h.once j⟩

theorem Owned.begin {calls : List A} (h : p.Owned s.owner s.work)
    (hst : begin s i data calls = some t) : p.Owned t.owner t.work := by
  obtain ⟨hidle, hwork, howner⟩ := begin_work hst
  rw [hwork, howner]
  apply h.keep
  rw [hidle, held_push]

variable [DecidableEq L]

private theorem Owned.lock (h : p.Owned owner work) {a : A} (hstack : work i = .call a :: rest)
    (hl : p.lock a = some l) (hnone : owner l = none) :
    p.Owned (update owner l (some i)) (update work i (.body a :: rest)) := by
  have hrest : p.held (work i) = p.held rest := by rw [hstack]; rfl
  have hnew : ∀ j, l ∉ p.held (work j) := fun j hj => by
    cases hnone.symm.trans ((h.held l j).mpr hj)
  refine ⟨fun k j => ?_, fun j => ?_⟩
  · by_cases hj : j = i
    · rw [hj, update_self, held_body hl, mem_cons, ← hrest, ← h.held]
      by_cases hk : k = l
      · simp [hk]
      · simp [hk]
    · rw [update_of_ne hj, ← h.held]
      by_cases hk : k = l
      · simp [hk, hnone, Ne.symm hj]
      · simp [hk]
  · by_cases hj : j = i
    · rw [hj, update_self, held_body hl, nodup_cons, ← hrest]
      exact ⟨hnew i, h.once i⟩
    · rw [update_of_ne hj]
      exact h.once j

private theorem Owned.unlock (h : p.Owned owner work) (hstack : work i = .unlock l :: rest) :
    p.Owned (update owner l none) (update work i rest) := by
  have hheld : p.held (work i) = l :: p.held rest := by rw [hstack, held_unlock]
  obtain ⟨hnot, honce⟩ := nodup_cons.mp (hheld ▸ h.once i)
  have howner : owner l = some i := (h.held l i).mpr (hheld ▸ mem_cons_self ..)
  refine ⟨fun k j => ?_, fun j => ?_⟩
  · by_cases hk : k = l
    · subst hk
      rw [update_self]
      refine ⟨nofun, fun hmem => ?_⟩
      by_cases hj : j = i
      · rw [hj, update_self] at hmem
        exact absurd hmem hnot
      · rw [update_of_ne hj, ← h.held, howner] at hmem
        exact absurd (Option.some.inj hmem).symm hj
    · rw [update_of_ne hk, h.held]
      by_cases hj : j = i
      · rw [hj, update_self, hheld, mem_cons, or_iff_right hk]
      · rw [update_of_ne hj]
  · by_cases hj : j = i
    · rw [hj, update_self]
      exact honce
    · rw [update_of_ne hj]
      exact h.once j

/-- A step keeps the account of who holds which lock, and moves one stack, whose thread does
not hold the lock that it takes. -/
theorem Owned.advance (h : p.Owned s.owner s.work)
    (hst : p.advance s i (s.work i) = some t) :
    p.Owned t.owner t.work ∧ (∀ l, p.wants (s.work i) = some l → l ∉ p.held (s.work i)) ∧
      ∃ stack, p.Moves s.data (s.work i) stack ∧ t.work = update s.work i stack := by
  cases hstack : s.work i with
  | nil =>
    rw [hstack] at hst
    cases hst
  | cons f rest =>
    rw [hstack] at hst
    cases f with
    | call a =>
      rw [Program.advance] at hst
      split at hst
      next hfree =>
        cases hst
        refine ⟨h.keep ?_, fun l hl => ?_, _, .free a rest hfree, rfl⟩
        · rw [hstack, held_push]
          rfl
        · cases hfree.symm.trans hl
      next l hl =>
        obtain ⟨hnone, hst⟩ := Option.ite_none_right_eq_some.mp hst
        cases hst
        refine ⟨h.lock hstack hl hnone, fun k hk => ?_, _, .lock l a rest hl, rfl⟩
        cases hl.symm.trans hk
        rw [← hstack, ← h.held, hnone]
        exact nofun
    | body a =>
      obtain ⟨l, hl, rfl⟩ := Option.map_eq_some_iff.mp hst
      refine ⟨h.keep ?_, nofun, _, .body l a rest hl, rfl⟩
      rw [hstack, held_push, held_unlock, held_push, held_body hl]
    | unlock l =>
      cases hst
      exact ⟨h.unlock hstack, nofun, _, .unlock l rest, rfl⟩

end Ownership

end Program
end Sitas.Lib.Locks
