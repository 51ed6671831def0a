import Sitas.Executor.ScopeChildren

namespace Sitas.Executor
open Sitas.Lib List TaskScope Option
variable {F P W : Type}

def HandleOp.dropped : HandleOp → Option Nat
  | .drop child => some child
  | _ => none

def ScopeNext.held : ScopeNext P → List Nat
  | .drain rest => rest
  | _ => []

def ScopePhase.held : ScopePhase P → List Nat
  | .draining rest => rest
  | .joining current rest => current :: rest
  | .checking current _ | .racing current _ _ => [current]
  | .unwinding ops next => ops.filterMap HandleOp.dropped ++ next.held
  | _ => []

namespace TaskScope

/-- All handles. Once the scope is being dropped they are in its destructor. -/
def held (s : TaskScope F P W) : List Nat :=
  match s.phase with
  | .ended _ => []
  | .unwinding ops (.finish _) => ops.filterMap HandleOp.dropped
  | phase => s.handles ++ phase.held

/-- The children that an ending with `Ok` still has to join, unless it cannot end so. -/
def unjoined (s : TaskScope F P W) : Option (List Nat) :=
  match s.phase with
  | .owned | .created _ | .popping _ | .unwinding _ (.pop _) => some s.handles
  | .draining rest | .unwinding _ (.drain rest) => some rest
  | .joining current rest => some (current :: rest)
  | .checking current _ | .racing current _ _ => some (current :: s.handles)
  | .unwinding _ (.finish .ok) | .ended .ok => some []
  | .unwinding _ (.finish _) | .ended _ => none

end TaskScope

/-- Every child whose handle exists is held by the owner, and every child that an ending
with `Ok` does not wait for any more has returned. -/
structure Owned (children : List (Child F P W)) (held : List Nat) (unjoined : Option (List Nat)) :
    Prop where
  tracked : ∀ (i : Nat) (c : Child F P W), children[i]? = some c → c.Tracked
  held : ∀ (i : Nat) (c : Child F P W), children[i]? = some c → c.joined.handle = true → i ∈ held
  joined : ∀ waiting, unjoined = some waiting → ∀ (i : Nat) (c : Child F P W), children[i]? = some c →
    i ∈ waiting ∨ c.fate = some .returned

namespace Owned
variable {children : List (Child F P W)} {held held' : List Nat}
  {unjoined unjoined' : Option (List Nat)} {i : Nat} {c d : Child F P W}
  {e : JoinEvent Unit P W}

theorem mono (h : Owned children held unjoined) (hheld : held ⊆ held')
    (hunjoined : ∀ waiting', unjoined' = some waiting' →
      ∃ waiting, unjoined = some waiting ∧ waiting ⊆ waiting') :
    Owned children held' unjoined' := by
  refine ⟨h.tracked, fun j c hc hhandle => hheld (h.held j c hc hhandle), ?_⟩
  intro waiting' hwaiting' j c hc
  obtain ⟨waiting, hwaiting, hsub⟩ := hunjoined waiting' hwaiting'
  exact (h.joined waiting hwaiting j c hc).imp (fun hmem => hsub hmem) id

theorem join {waiting : List Nat} (h : Owned children held (some (i :: waiting)))
    (hc : children[i]? = some c) (hfate : c.fate = some .returned) :
    Owned children held (some waiting) := by
  refine ⟨h.tracked, h.held, fun waiting' hwaiting' j d hd => ?_⟩
  cases hwaiting'
  rcases h.joined _ rfl j d hd with hmem | hreturned
  · rcases mem_cons.mp hmem with rfl | hmem
    · cases hc.symm.trans hd
      exact .inr hfate
    · exact .inl hmem
  · exact .inr hreturned

theorem spawn (h : Owned children held (some held)) (hd : d.Tracked) :
    Owned (children ++ [d]) (held ++ [children.length]) (some (held ++ [children.length])) := by
  have hcases : ∀ {j c}, (children ++ [d])[j]? = some c →
      children[j]? = some c ∨ j = children.length ∧ c = d := fun {j c} hc => by
    rcases Nat.lt_trichotomy j children.length with hlt | rfl | hgt
    · exact .inl (getElem?_append_left hlt ▸ hc)
    · rw [getElem?_concat_length] at hc
      exact .inr ⟨rfl, (some.inj hc).symm⟩
    · rw [getElem?_eq_none (by simp; omega)] at hc
      cases hc
  refine ⟨fun j c hc => ?_, fun j c hc hhandle => ?_, fun waiting hwaiting j c hc => ?_⟩
  · rcases hcases hc with hc | ⟨rfl, rfl⟩
    · exact h.tracked j c hc
    · exact hd
  · rcases hcases hc with hc | ⟨rfl, rfl⟩
    · exact mem_append_left _ (h.held j c hc hhandle)
    · exact mem_append_right _ mem_cons_self
  · cases hwaiting
    rcases hcases hc with hc | ⟨rfl, rfl⟩
    · exact (h.joined _ rfl j c hc).imp (mem_append_left _) id
    · exact .inl (mem_append_right _ mem_cons_self)

theorem get_set {j : Nat} {b : Child F P W} (hc : children[i]? = some c)
    (hb : (children.set i d)[j]? = some b) : j = i ∧ b = d ∨ j ≠ i ∧ children[j]? = some b := by
  by_cases hij : j = i
  · subst hij
    rw [List.getElem?_set_self (List.getElem?_eq_some_iff.mp hc).1] at hb
    exact .inl ⟨rfl, (some.inj hb).symm⟩
  · rw [getElem?_set_ne (Ne.symm hij)] at hb
    exact .inr ⟨hij, hb⟩

variable [DecidableEq W]

theorem set (h : Owned children held unjoined) (hc : children[i]? = some c)
    (hst : c.step e = some d) (hhandle : d.joined.handle = true → i ∈ held')
    (hheld : ∀ j ∈ held, j ≠ i → j ∈ held') : Owned (children.set i d) held' unjoined := by
  refine ⟨fun j b hb => ?_, fun j b hb hb' => ?_, fun waiting hwaiting j b hb => ?_⟩
  · rcases get_set hc hb with ⟨rfl, rfl⟩ | ⟨-, hb⟩
    · exact (h.tracked _ _ hc).step hst
    · exact h.tracked j b hb
  · rcases get_set hc hb with ⟨rfl, rfl⟩ | ⟨hne, hb⟩
    · exact hhandle hb'
    · exact hheld j (h.held j b hb hb') hne
  · rcases get_set hc hb with ⟨rfl, rfl⟩ | ⟨-, hb⟩
    · exact (h.joined waiting hwaiting j c hc).imp id (Child.fate_step hst)
    · exact h.joined waiting hwaiting j b hb

theorem step (h : Owned children held unjoined) (hc : children[i]? = some c)
    (hst : c.step e = some d) : Owned (children.set i d) held unjoined := by
  refine h.set hc hst (fun hhandle => ?_) fun j hj _ => hj
  rcases (JoinedTask.frame_step (Child.step_cases hst).1).handle with hsame | ⟨-, hfalse, -⟩
  · exact h.held i c hc (hsame ▸ hhandle)
  · rw [hfalse] at hhandle
    cases hhandle

theorem drop (h : Owned children (i :: held) unjoined) (hc : children[i]? = some c)
    (hst : c.step .dropHandle = some d) : Owned (children.set i d) held unjoined := by
  refine h.set hc hst (fun hhandle => ?_) fun j hj hne => (mem_cons.mp hj).resolve_left hne
  have hjoined := (Child.step_cases hst).1
  obtain ⟨-, hjoined⟩ := ite_none_right_eq_some.mp hjoined
  rw [← some.inj hjoined] at hhandle
  cases hhandle

end Owned

namespace TaskScope
variable {s t : TaskScope F P W}

def Keeps (s : TaskScope F P W) : Prop := Owned s.children s.held s.unjoined

theorem keeps_new : (new : TaskScope F P W).Keeps := by
  refine ⟨fun i c hc => ?_, fun i c hc => ?_, fun _ _ i c hc => ?_⟩ <;> cases hc

theorem dropped_cons (op : HandleOp) (ops : List HandleOp) :
    (op :: ops).filterMap HandleOp.dropped =
      op.dropped.toList ++ ops.filterMap HandleOp.dropped := by
  cases op <;> rfl

theorem dropped_map_drop (handles : List Nat) :
    (handles.map HandleOp.drop).filterMap HandleOp.dropped = handles := by
  rw [filterMap_map]
  exact filterMap_some

theorem dropped_map_abort (handles : List Nat) :
    (handles.map HandleOp.abort).filterMap HandleOp.dropped = [] := by
  rw [filterMap_map]
  exact filterMap_eq_nil_iff.mpr fun _ _ => rfl

theorem dropped_scopeDrop (handles : List Nat) :
    (scopeDrop handles).filterMap HandleOp.dropped = handles := by
  rw [scopeDrop, filterMap_append, dropped_map_drop, dropped_cons, dropped_map_abort]
  rfl

theorem dropped_timedOutOps (current : Nat) (handles : List Nat) :
    (timedOutOps current handles).filterMap HandleOp.dropped = [current] := by
  rw [timedOutOps, filterMap_append, dropped_cons, dropped_map_abort]
  rfl

theorem held_subset (s : TaskScope F P W) : s.held ⊆ s.handles ++ s.phase.held := by
  unfold held
  split
  next => exact nil_subset _
  next ops _ hphase =>
    rw [hphase, ScopePhase.held]
    exact subset_append_of_subset_right _ (subset_append_left _ _)
  next => exact Subset.refl _

variable {ops : List HandleOp} {now index : Nat} {op : HandleOp} {next : ScopeNext P} {waker : W}

theorem Keeps.unwind {result : ScopeResult P} (h : s.Keeps)
    (hops : s.phase.held ⊆ ops.filterMap HandleOp.dropped)
    (hresult : result = .ok → s.unjoined = some []) : (s.unwind ops result).Keeps := by
  refine Owned.mono h (fun i hi => ?_) fun waiting hwaiting => ?_
  · have hheld : (s.unwind ops result).held = ops.filterMap HandleOp.dropped ++ s.handles := by
      simp [TaskScope.held, TaskScope.unwind, dropped_scopeDrop]
    rw [hheld]
    rcases mem_append.mp (s.held_subset hi) with hmem | hmem
    · exact mem_append_right _ hmem
    · exact mem_append_left _ (hops hmem)
  · cases result with
    | ok =>
      cases hwaiting
      exact ⟨[], hresult rfl, List.Subset.refl _⟩
    | join _ | timedOut | dropped => cases hwaiting

theorem Keeps.moves (h : s.Keeps) (hchildren : t.children = s.children) (hheld : s.held ⊆ t.held)
    (hunjoined : t.unjoined = s.unjoined) : t.Keeps := by
  refine (show Owned t.children t.held t.unjoined from ?_)
  rw [hchildren]
  exact Owned.mono h hheld fun waiting hwaiting => ⟨waiting, hunjoined ▸ hwaiting, Subset.refl _⟩

theorem Keeps.start {consumer : Consumer} (h : s.Keeps) (hphase : s.phase = .created consumer) :
    (s.start now consumer).Keeps := by
  have hheld : s.held = s.handles := by simp [TaskScope.held, hphase, ScopePhase.held]
  cases consumer <;> refine h.moves rfl ?_ (by simp [TaskScope.unjoined, TaskScope.start, hphase]) <;>
    rw [hheld] <;> simp [TaskScope.held, TaskScope.start, ScopePhase.held]

theorem held_unwinding (hphase : s.phase = .unwinding (op :: ops) next) :
    s.held ⊆ op.dropped.toList ++ { s with phase := .unwinding ops next }.held := by
  intro i hi
  cases next <;> simp only [held, hphase, ScopePhase.held, dropped_cons, mem_append]
    at hi ⊢ <;> tauto

theorem unjoined_unwinding (hphase : s.phase = .unwinding (op :: ops) next) :
    { s with phase := .unwinding ops next }.unjoined = s.unjoined := by
  cases next with
  | drain _ | pop _ => simp [unjoined, hphase]
  | finish result => cases result <;> simp [unjoined, hphase]

theorem Keeps.dropFuture (h : s.Keeps) (hst : s.dropFuture = some t) : t.Keeps := by
  unfold TaskScope.dropFuture at hst
  split at hst
  next hphase =>
    cases hst
    refine h.unwind ?_ (fun hok => by cases hok)
    simp [hphase, ScopePhase.held]
  next current rest hphase =>
    cases hst
    refine h.unwind ?_ (fun hok => by cases hok)
    rw [hphase, dropped_cons, dropped_map_drop]
    exact Subset.refl _
  next current _ _ hphase =>
    cases hst
    refine h.unwind ?_ (fun hok => by cases hok)
    rw [hphase]
    exact Subset.refl _
  next => cases hst

variable [DecidableEq W]

theorem onChild_cases {e : JoinEvent Unit P W} (hst : s.onChild index e = some t) :
    ∃ c d, s.children[index]? = some c ∧ c.step e = some d ∧
      t = { s with children := s.children.set index d } := by
  obtain ⟨c, hc, hst⟩ := bind_eq_some_iff.mp hst
  obtain ⟨d, hd, rfl⟩ := map_eq_some_iff.mp hst
  exact ⟨c, d, hc, hd, rfl⟩

theorem Keeps.onChild {e : JoinEvent Unit P W} (h : s.Keeps) (hst : s.onChild index e = some t) :
    t.Keeps := by
  obtain ⟨c, d, hc, hd, rfl⟩ := onChild_cases hst
  exact Owned.step h hc hd

theorem Keeps.perform (h : s.Keeps) (hphase : s.phase = .unwinding (op :: ops) next)
    (hst : { s with phase := .unwinding ops next }.perform op = some t) : t.Keeps := by
  have hheld := held_unwinding hphase
  have hunjoined := unjoined_unwinding hphase
  cases op with
  | stop =>
    cases hst
    exact h.moves rfl hheld hunjoined
  | abort child =>
    have hmoved : { s with phase := .unwinding ops next }.Keeps := h.moves rfl hheld hunjoined
    exact hmoved.onChild hst
  | drop child =>
    obtain ⟨c, d, hc, hd, rfl⟩ := onChild_cases hst
    exact Owned.drop (Owned.mono h hheld fun waiting hwaiting =>
      ⟨waiting, hunjoined ▸ hwaiting, Subset.refl _⟩) hc hd

theorem Keeps.advance (h : s.Keeps) (hst : s.advance now = some t) : t.Keeps := by
  unfold TaskScope.advance at hst
  split at hst
  next hphase =>
    cases hst
    refine h.unwind ?_ fun _ => by rw [unjoined, hphase]
    rw [hphase]
    exact Subset.refl _
  next current rest hphase =>
    cases hst
    exact h.moves rfl (by simp [held, hphase, ScopePhase.held])
      (by simp [unjoined, hphase])
  next deadline hphase =>
    split at hst
    next hnone =>
      cases hst
      have hnil : s.handles = [] := getLast?_eq_none_iff.mp hnone
      refine h.unwind ?_ fun _ => by rw [unjoined, hphase, hnil]
      rw [hphase]
      exact Subset.refl _
    next current hlast =>
      cases hst
      have hsplit : s.handles = s.handles.dropLast ++ [current] :=
        (dropLast_append_getLast? current hlast).symm
      have hcover : s.handles ⊆ current :: s.handles.dropLast := by
        intro i hi
        rw [hsplit] at hi
        simpa [or_comm] using hi
      refine Owned.mono h ?_ fun waiting hwaiting => ?_
      · intro i hi
        simp only [held, hphase, ScopePhase.held, append_nil] at hi ⊢
        rwa [hsplit] at hi
      · cases hwaiting
        exact ⟨s.handles, by rw [unjoined, hphase], hcover⟩
  next current deadline hphase =>
    split at hst
    · cases hst
      refine h.unwind ?_ (fun hok => by cases hok)
      rw [hphase, dropped_timedOutOps]
      exact Subset.refl _
    · cases hst
      exact h.moves rfl (by simp [held, hphase, ScopePhase.held])
        (by simp [unjoined, hphase])
  next rest hphase =>
    cases hst
    exact h.moves rfl (by simp [held, hphase, ScopePhase.held, ScopeNext.held])
      (by simp [unjoined, hphase])
  next deadline hphase =>
    cases hst
    exact h.moves rfl (by simp [held, hphase, ScopePhase.held, ScopeNext.held])
      (by simp [unjoined, hphase])
  next result hphase =>
    cases hst
    refine h.moves rfl (by simp [held, hphase]) ?_
    cases result <;> simp [unjoined, hphase]
  next op ops next hphase =>
    obtain ⟨_, hst⟩ := ite_none_right_eq_some.mp hst
    exact h.perform hphase hst
  next => cases hst

theorem pollHandle_cases {r : Poll (Except (JoinError P) Unit)}
    (hst : s.pollHandle index waker = some (t, r)) :
    ∃ c d, s.children[index]? = some c ∧ c.step (.pollHandle waker) = some d ∧
      t = { s with children := s.children.set index d } ∧ r = (c.joined.join.poll waker).2 := by
  obtain ⟨c, hc, hst⟩ := bind_eq_some_iff.mp hst
  obtain ⟨u, hu, heq⟩ := map_eq_some_iff.mp hst
  obtain ⟨c', d, hc', hd, rfl⟩ := onChild_cases hu
  cases hc.symm.trans hc'
  cases heq
  exact ⟨c, d, hc, hd, rfl, rfl⟩

theorem Keeps.awaited {waiting : List Nat} (h : s.Keeps)
    (hunjoined : s.unjoined = some (index :: waiting))
    (hst : s.pollHandle index waker = some (t, .ready (.ok ()))) :
    Owned t.children s.held (some waiting) := by
  obtain ⟨c, d, hc, hd, rfl, hready⟩ := pollHandle_cases hst
  have hresult := (JoinState.poll_ready_iff _ _ _).mp hready.symm
  have hstep : Owned (s.children.set index d) s.held (some (index :: waiting)) :=
    hunjoined ▸ Owned.step h hc hd
  have hd' : (s.children.set index d)[index]? = some d :=
    List.getElem?_set_self (List.getElem?_eq_some_iff.mp hc).1
  exact hstep.join hd' (Child.fate_step hd ((h.tracked _ _ hc).result hresult))

theorem Keeps.pollHandle {r : Poll (Except (JoinError P) Unit)} (h : s.Keeps)
    (hst : s.pollHandle index waker = some (t, r)) :
    t.Keeps ∧ t.phase = s.phase ∧ t.handles = s.handles := by
  obtain ⟨c, d, hc, hd, rfl, -⟩ := pollHandle_cases hst
  exact ⟨Owned.step h hc hd, rfl, rfl⟩

theorem Keeps.resume (h : s.Keeps) (hst : s.resume waker now = some t) : t.Keeps := by
  unfold TaskScope.resume at hst
  split at hst
  next consumer hphase =>
    cases hst
    exact h.start hphase
  next current rest hphase =>
    obtain ⟨⟨u, r⟩, hpoll, rfl⟩ := map_eq_some_iff.mp hst
    obtain ⟨hu, huphase, huhandles⟩ := h.pollHandle hpoll
    rw [hphase] at huphase
    match r with
    | .pending => exact hu
    | .ready (.ok ()) =>
      have hjoined : Owned u.children s.held (some rest) :=
        h.awaited (by rw [unjoined, hphase]) hpoll
      refine hjoined.mono ?_ fun waiting hwaiting => ⟨waiting, hwaiting, Subset.refl _⟩
      simp [held, hphase, huhandles, ScopePhase.held, ScopeNext.held, HandleOp.dropped]
    | .ready (.error error) =>
      refine hu.unwind ?_ (fun hok => by cases hok)
      rw [huphase, dropped_cons, dropped_map_drop]
      exact Subset.refl _
  next current deadline wakeAt hphase =>
    obtain ⟨⟨u, r⟩, hpoll, rfl⟩ := map_eq_some_iff.mp hst
    obtain ⟨hu, huphase, huhandles⟩ := h.pollHandle hpoll
    rw [hphase] at huphase
    match r with
    | .pending =>
      dsimp only
      split
      · refine hu.unwind ?_ (fun hok => by cases hok)
        rw [huphase, dropped_timedOutOps]
        exact Subset.refl _
      · exact hu
    | .ready (.ok ()) =>
      have hjoined : Owned u.children s.held (some s.handles) :=
        h.awaited (by rw [unjoined, hphase]) hpoll
      refine hjoined.mono ?_ fun waiting hwaiting => ⟨waiting, ?_, Subset.refl _⟩
      · simp [held, hphase, huhandles, ScopePhase.held, ScopeNext.held, HandleOp.dropped]
      · rw [← huhandles]
        exact hwaiting
    | .ready (.error error) =>
      refine hu.unwind ?_ (fun hok => by cases hok)
      rw [huphase]
      exact Subset.refl _
  next => cases hst

theorem Keeps.step {e : ScopeEvent F P W} (h : s.Keeps) (hst : s.step e = some t) : t.Keeps := by
  have howned : s.phase.isOwned = true → s.phase = .owned := fun hphase => by
    cases hp : s.phase <;> rw [hp] at hphase <;> first | rfl | cases hphase
  cases e with
  | spawn future =>
    obtain ⟨⟨hphase, _⟩, ⟨⟩⟩ := ite_none_right_eq_some.mp hst
    have hphase := howned hphase
    have hall : Owned s.children s.handles (some s.handles) := by
      simpa [Keeps, held, unjoined, hphase, ScopePhase.held] using h
    have hspawned := hall.spawn (Child.tracked_spawned future)
    simpa [Keeps, held, unjoined, hphase, ScopePhase.held] using hspawned
  | stop =>
    obtain ⟨_, rfl⟩ := guarded hst
    exact h
  | abort child =>
    obtain ⟨_, hst⟩ := ite_none_right_eq_some.mp hst
    exact h.onChild hst
  | consume consumer =>
    obtain ⟨⟨hphase, _⟩, ⟨⟩⟩ := ite_none_right_eq_some.mp hst
    have hphase := howned hphase
    exact h.moves rfl (by simp [held, hphase, ScopePhase.held])
      (by simp [unjoined, hphase])
  | dropScope =>
    obtain ⟨⟨hphase, _⟩, ⟨⟩⟩ := ite_none_right_eq_some.mp hst
    refine h.unwind ?_ (fun hok => by cases hok)
    rw [howned hphase]
    exact Subset.refl _
  | poll waker now => exact h.resume hst
  | dropFuture => exact h.dropFuture hst
  | advance now => exact h.advance hst
  | child index event =>
    obtain ⟨_, hst⟩ := ite_none_left_eq_some.mp hst
    exact h.onChild hst

/-- Once the scope and the future that consumed it are gone, every child has completed or been asked
to cancel, and an ending with `Ok` has joined children whose futures all returned. -/
theorem no_child_outlives_scope (h : Reachable step (new : TaskScope F P W) s) :
    (∀ result, s.phase = .ended result → ∀ c ∈ s.children,
      c.joined.task.completed = true ∨ c.joined.task.cancelRequested = true) ∧
    (s.phase = .ended .ok → ∀ c ∈ s.children, c.fate = some .returned) := by
  have hkeeps : s.Keeps := h.invariant keeps_new fun _ _ _ hs _ hst => hs.step hst
  refine ⟨fun result hphase c hmem => ?_, fun hphase c hmem => ?_⟩
  · obtain ⟨i, hc⟩ := getElem?_of_mem hmem
    refine (hkeeps.tracked i c hc).released (Bool.eq_false_iff.mpr fun hhandle => ?_)
    have hheld := hkeeps.held i c hc hhandle
    rw [held, hphase] at hheld
    cases hheld
  · obtain ⟨i, hc⟩ := getElem?_of_mem hmem
    exact (hkeeps.joined [] (by rw [unjoined, hphase]) i c hc).resolve_left not_mem_nil

private def cleanRun : List (ScopeEvent Unit Nat Nat) :=
  [.spawn (), .spawn (), .consume (.shutdownTimeout 9), .poll 5 0, .advance 0, .advance 0,
    .child 0 (.pollTask 1), .child 0 (.output ()), .child 0 (.executor 2), .child 0 (.executor 2),
    .child 0 (.executor 2), .child 1 (.pollTask 3), .child 1 (.output ()), .child 1 (.executor 4),
    .child 1 (.executor 4), .child 1 (.executor 4), .poll 5 5, .advance 5, .advance 5, .advance 5,
    .advance 5, .poll 5 6, .advance 6, .advance 6, .advance 6, .advance 6, .advance 6]

private def cleanEnd : TaskScope Unit Nat Nat := (run step new cleanRun).get (by decide +kernel)

theorem shut_down_children_returned :
    (∀ c ∈ cleanEnd.children, c.joined.task.completed = true ∨ c.joined.task.cancelRequested = true) ∧
    ∀ c ∈ cleanEnd.children, c.fate = some .returned := by
  have hreach : Reachable step (new : TaskScope Unit Nat Nat) cleanEnd :=
    reachable_of_run cleanRun (some_get _).symm
  obtain ⟨hover, hreturned⟩ := no_child_outlives_scope hreach
  exact ⟨hover .ok rfl, hreturned rfl⟩

/-- The handle of a child is dropped while its executor has not marked the task: the shutdown
returns `Ok`. -/
theorem ok_with_cancelled_child : ∃ s : TaskScope Unit Nat Nat, Reachable step new s ∧
    s.phase = .ended .ok ∧ ∃ c ∈ s.children, c.joined.task.status = .cancelled := by
  refine ⟨_, reachable_of_run [.spawn (), .consume (.shutdownTimeout 9), .poll 5 0, .advance 0,
    .advance 0, .child 0 (.pollTask 1), .child 0 (.output ()), .child 0 (.executor 2), .poll 5 3,
    .advance 3, .child 0 .complete, .advance 3, .advance 3, .advance 3, .advance 3,
    .child 0 (.executor 4), .child 0 (.executor 5)] rfl, rfl, _, mem_cons_self, rfl⟩

end TaskScope

end Sitas.Executor
