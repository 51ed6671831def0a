import Sitas.Lib.Entries
import Sitas.Runtime.ShardLocal

namespace Sitas.Runtime.Ownership
open Sitas.Lib List Option
variable {T : Type}

namespace Process

/-- The access is on the thread of the shard with the cell's index in the
runtime whose submitter created the handle. -/
def OnOwner (s : Process T) (a : Access) : Prop :=
  (s.submitter a.loc).elim False fun runtime => s.home a.thread = some (runtime, a.cell)

instance (s : Process T) (a : Access) : Decidable (s.OnOwner a) :=
  match h : s.submitter a.loc with
  | none => .isFalse fun ho => by simp [OnOwner, h] at ho
  | some runtime => decidable_of_iff (s.home a.thread = some (runtime, a.cell)) (by simp [OnOwner, h])

/-- A call on the current shard is not made by a shard thread of another runtime. -/
def OwnRuntime (s : Process T) : Event T → Prop
  | .withCurrent thread loc => (s.home thread).elim True fun h => s.submitter loc = some h.1
  | _ => True

/-- The handle of a call on the current shard has no free cell with the index that is current
on the thread. -/
def NoFreeCell (s : Process T) : Event T → Prop
  | .withCurrent thread loc => ∀ (th : Thread) (l : ShardLocal T) (shard : ShardId) c,
      s.threads[thread]? = some th → th.current = some shard → s.locals[loc]? = some l →
      l.shards[shard]? = some c → c.borrowed = true
  | _ => False

/-- What the runtime sets up: a thread's current shard is its own until it
exits, a cell's owner is its index, and a submitted task waits at the shard of
its cell in the runtime of its handle's submitter. -/
structure Sound (s : Process T) : Prop where
  current : ∀ (thread : Nat) (t : Thread), s.threads[thread]? = some t →
    t.current = none ∨ t.current = t.home.map Prod.snd
  owner : ∀ (loc : Nat) (l : ShardLocal T) (i : ShardId) c, s.locals[loc]? = some l →
    l.shards[i]? = some c → c.owner = i
  submitted : ∀ (runtime : Nat) (shards : List Shard) (shard : ShardId) sh loc cell,
    s.runtimes[runtime]? = some shards → shards[shard]? = some sh → (loc, cell) ∈ sh.tasks →
    cell = shard ∧ s.submitter loc = some runtime

theorem mem_or_of_getElem?_append {α : Type} {xs ys : List α} {i : Nat} {x : α}
    (h : (xs ++ ys)[i]? = some x) : xs[i]? = some x ∨ x ∈ ys := by
  by_cases hlt : i < xs.length
  · exact .inl (getElem?_append_left hlt ▸ h)
  · exact .inr (mem_of_getElem? (getElem?_append_right (Nat.le_of_not_lt hlt) ▸ h))

theorem sound_new : Sound (new : Process T) :=
  ⟨fun _ _ h => by simp [new] at h, fun _ _ _ _ h => by simp [new] at h,
    fun _ _ _ _ _ _ h => by simp [new] at h⟩

section Updates
variable (s : Process T) (thread loc runtime : Nat) (shard : ShardId)

theorem submitter_updateCell (f : ShardLocalCell T → ShardLocalCell T) (k : Nat) :
    (s.updateCell loc shard f).submitter k = s.submitter k := by
  cases hk : s.locals[k]? <;> by_cases h : loc = k <;>
    simp [submitter, updateCell, hk, h]

theorem home_updateThread (f : Thread → Thread) (hf : ∀ t, (f t).home = t.home) (k : Nat) :
    (s.updateThread thread f).home k = s.home k := by
  cases hk : s.threads[k]? <;> by_cases h : thread = k <;>
    simp [home, updateThread, hk, h, hf]

variable {s}

theorem Sound.updateThread (h : Sound s) (f : Thread → Thread) (hf : ∀ t, (f t).home = t.home)
    (hc : ∀ t, (f t).current = none ∨ (f t).current = t.current) :
    Sound (s.updateThread thread f) := by
  refine { h with current := ?_ }
  intro k t hk
  rcases getElem?_modify_cases hk with ⟨_, ht⟩ | ⟨_, t, ht, rfl⟩
  · exact h.current k t ht
  · rw [hf]
    rcases hc t with hnone | hsame
    · exact .inl hnone
    · rw [hsame]
      exact h.current k t ht

theorem Sound.updateCell (h : Sound s) (f : ShardLocalCell T → ShardLocalCell T)
    (hf : ∀ c l, s.locals[loc]? = some l → l.shards[shard]? = some c → (f c).owner = c.owner) :
    Sound (s.updateCell loc shard f) := by
  refine ⟨h.current, ?_, ?_⟩
  · intro k l i c hk hc
    rcases getElem?_modify_cases hk with ⟨_, hl⟩ | ⟨rfl, l, hl, rfl⟩
    · exact h.owner k l i c hl hc
    · rcases getElem?_modify_cases hc with ⟨_, hc⟩ | ⟨rfl, c, hold, rfl⟩
      · exact h.owner loc l i c hl hc
      · exact (hf c l hl hold).trans (h.owner loc l shard c hl hold)
  · intro r shards i sh k cell hr hi hk
    rw [submitter_updateCell]
    exact h.submitted r shards i sh k cell hr hi hk

theorem Sound.updateShard (h : Sound s) (f : Shard → Shard)
    (hf : ∀ sh loc cell, (loc, cell) ∈ (f sh).tasks →
      (loc, cell) ∈ sh.tasks ∨ cell = shard ∧ s.submitter loc = some runtime) :
    Sound (s.updateShard runtime shard f) := by
  refine { h with submitted := ?_ }
  intro r shards i sh k cell hr hi hk
  rcases getElem?_modify_cases hr with ⟨_, hr⟩ | ⟨rfl, shards, hrun, rfl⟩
  · exact h.submitted r shards i sh k cell hr hi hk
  · rcases getElem?_modify_cases hi with ⟨_, hi⟩ | ⟨rfl, sh, hsh, rfl⟩
    · exact h.submitted runtime shards i sh k cell hrun hi hk
    · rcases hf sh k cell hk with hold | hnew
      · exact h.submitted runtime shards shard sh k cell hrun hsh hold
      · exact hnew

theorem Sound.dropTask (h : Sound s) (pos : Nat) :
    Sound (s.updateShard runtime shard fun sh => { sh with tasks := sh.tasks.eraseIdx pos }) :=
  h.updateShard runtime shard _ fun _ _ _ hk => .inl (mem_of_mem_eraseIdx hk)

theorem Sound.spawn (h : Sound s) (ts : List Thread) (fresh : List Shard)
    (hts : ∀ t ∈ ts, t.current = t.home.map Prod.snd) (hfresh : ∀ sh ∈ fresh, sh.tasks = []) :
    Sound { s with threads := s.threads ++ ts, runtimes := s.runtimes ++ [fresh] } := by
  refine ⟨?_, h.owner, ?_⟩
  · intro k t hk
    rcases mem_or_of_getElem?_append hk with hold | hnew
    · exact h.current k t hold
    · exact .inr (hts t hnew)
  · intro r shards i sh k cell hr hi hk
    rcases mem_or_of_getElem?_append hr with hold | hnew
    · exact h.submitted r shards i sh k cell hold hi hk
    · rw [mem_singleton.mp hnew] at hi
      rw [hfresh sh (mem_of_getElem? hi)] at hk
      exact absurd hk not_mem_nil

theorem Sound.newLocal (h : Sound s) (shardCount : Nat) (makeValue : ShardId → T) :
    Sound { s with locals := s.locals ++ [.new runtime shardCount makeValue] } := by
  refine ⟨h.current, ?_, ?_⟩
  · intro k l i c hk hc
    rcases mem_or_of_getElem?_append hk with hold | hnew
    · exact h.owner k l i c hold hc
    · rw [mem_singleton.mp hnew] at hc
      obtain ⟨j, hj, rfl⟩ := map_eq_some_iff.mp (getElem?_map.symm.trans hc)
      obtain ⟨hlt, hj⟩ := List.getElem?_eq_some_iff.mp hj
      exact hj.symm.trans (getElem_range _)
  · intro r shards i sh k cell hr hi hk
    obtain ⟨hcell, hsub⟩ := h.submitted r shards i sh k cell hr hi hk
    obtain ⟨l, hl, hlr⟩ := map_eq_some_iff.mp hsub
    refine ⟨hcell, ?_⟩
    have hlt : k < s.locals.length := (List.getElem?_eq_some_iff.mp hl).1
    simp [submitter, getElem?_append_left hlt, hl, hlr]

end Updates

theorem currentCell_eq_ok {l : ShardLocal T} {current : Option ShardId}
    {p : ShardId × ShardLocalCell T} (h : l.currentCell current = .ok p) :
    current = some p.1 ∧ l.shards[p.1]? = some p.2 := by
  cases current with
  | none => cases h
  | some shard =>
    cases hc : l.shards[shard]? with
    | none => simp [ShardLocal.currentCell, ShardLocal.cellForCurrent, hc, Except.map] at h
    | some c =>
      simp only [ShardLocal.currentCell, ShardLocal.cellForCurrent, hc, elim_some,
        Except.map, Except.ok.injEq] at h
      subst h
      exact ⟨rfl, hc⟩

theorem pollTask_eq_some {s : Process T} {thread pos : Nat} {r : Process T × Outcome}
    (h : s.respond (.pollTask thread pos) = some r) :
    ∃ th runtime shard shards sh loc cell l c, s.threads[thread]? = some th ∧
      th.home = some (runtime, shard) ∧ s.runtimes[runtime]? = some shards ∧
      shards[shard]? = some sh ∧ (loc, cell) ∈ sh.tasks ∧ s.locals[loc]? = some l ∧
      l.shards[cell]? = some c ∧
      (s.updateShard runtime shard fun sh => { sh with tasks := sh.tasks.eraseIdx pos }).enter
        ⟨thread, loc, cell⟩ th.current c = r := by
  obtain ⟨th, hth, h⟩ := bind_eq_some_iff.mp h
  obtain ⟨⟨runtime, shard⟩, hhome, h⟩ := bind_eq_some_iff.mp h
  obtain ⟨sh, hsh, h⟩ := bind_eq_some_iff.mp h
  obtain ⟨shards, hshards, hsh⟩ := bind_eq_some_iff.mp hsh
  obtain ⟨⟨loc, cell⟩, htask, h⟩ := bind_eq_some_iff.mp h
  obtain ⟨l, hl, h⟩ := bind_eq_some_iff.mp h
  obtain ⟨c, hc, h⟩ := bind_eq_some_iff.mp h
  obtain ⟨_, h⟩ := ite_none_right_eq_some.mp h
  exact ⟨th, runtime, shard, shards, sh, loc, cell, l, c, hth, hhome, hshards, hsh,
    mem_of_getElem? htask, hl, hc, some.inj h⟩

section Enter
variable {s t : Process T} {a b : Access} {current : Option ShardId} {c : ShardLocalCell T}

theorem withMut_eq_ok {c' : ShardLocalCell T} (h : c.withMut current = .ok c') :
    current = some c.owner ∧ c'.owner = c.owner ∧ c.borrowed = false := by
  rw [ShardLocalCell.withMut] at h
  split at h
  next hcurrent =>
    split at h <;> cases h
    next hfree => exact ⟨hcurrent, rfl, eq_false_of_ne_true hfree⟩
  · cases h

theorem enter_running (h : s.enter a current c = (t, .running b)) :
    b = a ∧ current = some c.owner ∧ t.home = s.home ∧ t.submitter = s.submitter := by
  rw [enter] at h
  split at h <;> cases h
  next hc =>
    refine ⟨rfl, (withMut_eq_ok hc).1, ?_, ?_⟩
    · funext k
      apply home_updateThread
      intro _
      rfl
    · funext k
      exact submitter_updateCell _ _ _ _ k

theorem Sound.enter {l : ShardLocal T} {o : Outcome} (h : Sound s)
    (hl : s.locals[a.loc]? = some l) (hc : l.shards[a.cell]? = some c)
    (he : s.enter a current c = (t, o)) : Sound t := by
  rw [Process.enter] at he
  split at he <;> cases he
  · exact h
  next hmut =>
    refine (h.updateCell a.loc a.cell _ ?_).updateThread a.thread _ (fun _ => rfl) fun _ => .inr rfl
    intro c' l' hl' hc'
    rw [some.inj (hl'.symm.trans hl)] at hc'
    rw [some.inj (hc'.symm.trans hc)]
    exact (withMut_eq_ok hmut).2.1

end Enter

theorem Sound.respond {s t : Process T} {e : Event T} {o : Outcome} (h : Sound s)
    (hst : s.respond e = some (t, o)) : Sound t := by
  cases e with
  | spawnThread =>
    cases hst
    refine { h with current := ?_ }
    intro k t hk
    rcases mem_or_of_getElem?_append hk with hold | hnew
    · exact h.current k t hold
    · rw [mem_singleton.mp hnew]
      exact .inl rfl
  | start shardCount =>
    simp only [Process.respond] at hst
    split at hst
    · cases hst
      exact h
    · cases hst
      refine h.spawn _ _ ?_ ?_
      · intro t ht
        obtain ⟨shard, _, rfl⟩ := mem_map.mp ht
        rfl
      · intro sh hsh
        rw [eq_of_mem_replicate hsh]
  | newLocal runtime makeValue =>
    obtain ⟨shards, _, hst⟩ := bind_eq_some_iff.mp hst
    cases hst
    exact h.newLocal runtime _ _
  | withCurrent thread loc =>
    obtain ⟨th, _, hst⟩ := bind_eq_some_iff.mp hst
    obtain ⟨l, hl, hst⟩ := bind_eq_some_iff.mp hst
    split at hst
    · cases hst
      exact h
    next hcell => exact h.enter hl (currentCell_eq_ok hcell).2 (some.inj hst)
  | withOn loc shard =>
    obtain ⟨l, hl, hst⟩ := bind_eq_some_iff.mp hst
    split at hst
    · cases hst
      exact h
    · obtain ⟨sh, _, hst⟩ := bind_eq_some_iff.mp hst
      split at hst
      · cases hst
        exact h
      · cases hst
        refine h.updateShard _ _ _ fun sh k cell hk => ?_
        rcases mem_append.mp hk with hold | hnew
        · exact .inl hold
        · obtain ⟨rfl, rfl⟩ := Prod.mk.inj (mem_singleton.mp hnew)
          exact .inr ⟨rfl, by simp [submitter, hl]⟩
  | pollTask thread pos =>
    obtain ⟨th, runtime, shard, _, _, loc, cell, l, c, _, _, _, _, _, hl, hc, henter⟩ :=
      pollTask_eq_some hst
    exact (h.dropTask runtime shard pos).enter (a := ⟨thread, loc, cell⟩) hl hc henter
  | dropTask runtime shard pos =>
    cases hst
    exact h.dropTask runtime shard pos
  | endOperation thread value =>
    obtain ⟨th, _, hst⟩ := bind_eq_some_iff.mp hst
    obtain ⟨held, _, hst⟩ := bind_eq_some_iff.mp hst
    cases hst
    refine (h.updateCell held.1 held.2 _ ?_).updateThread thread _ ?_ ?_
    · exact fun _ _ _ _ => rfl
    · exact fun _ => rfl
    · exact fun _ => .inr rfl
  | stop runtime shard =>
    cases hst
    exact h.updateShard runtime shard _ fun _ _ _ hk => .inl hk
  | exit thread =>
    obtain ⟨th, _, hst⟩ := bind_eq_some_iff.mp hst
    obtain ⟨_, ⟨⟩⟩ := guarded hst
    exact h.updateThread thread _ (fun _ => rfl) fun _ => .inl rfl

theorem sound_of_reachable {s : Process T} (h : Reachable step new s) : Sound s := by
  refine h.invariant sound_new fun s e t hs _ hst => ?_
  obtain ⟨r, hr, rfl⟩ := map_eq_some_iff.mp hst
  exact hs.respond hr

theorem Sound.home_of_currentCell {s : Process T} (h : Sound s) {thread : Nat} {th : Thread}
    {l : ShardLocal T} {shard : ShardId} {c : ShardLocalCell T}
    (hth : s.threads[thread]? = some th) (hcell : l.currentCell th.current = .ok (shard, c)) :
    ∃ runtime, s.home thread = some (runtime, shard) := by
  obtain ⟨hcurrent, _⟩ := currentCell_eq_ok hcell
  have hshard : th.home.map Prod.snd = some shard := by
    rcases h.current thread th hth with hnone | hown
    · exact absurd (hcurrent.symm.trans hnone) (some_ne_none _)
    · exact hown.symm.trans hcurrent
  obtain ⟨⟨runtime, shard⟩, hrun, rfl⟩ := map_eq_some_iff.mp hshard
  exact ⟨runtime, by simp [home, hth, hrun]⟩

/-- An operation entered on a shard's thread is on the owner's thread exactly if
the thread belongs to the runtime of the handle's submitter. -/
theorem onOwner_iff_of_home {s : Process T} {a : Access} {runtime : Nat}
    (hhome : s.home a.thread = some (runtime, a.cell)) :
    s.OnOwner a ↔ s.submitter a.loc = some runtime := by
  unfold OnOwner
  cases s.submitter a.loc with
  | none => simp
  | some r => simp [hhome, eq_comm]

theorem enter_of_respond {s t : Process T} {e : Event T} {o : Outcome}
    (hst : s.respond e = some (t, o)) (ho : o.reachesCell = true) :
    (∃ thread loc th l shard c, e = .withCurrent thread loc ∧ s.threads[thread]? = some th ∧
      s.locals[loc]? = some l ∧ l.currentCell th.current = .ok (shard, c) ∧
      s.enter ⟨thread, loc, shard⟩ th.current c = (t, o)) ∨
    ∃ thread pos, e = .pollTask thread pos := by
  cases e with
  | withCurrent thread loc =>
    obtain ⟨th, hth, hst⟩ := bind_eq_some_iff.mp hst
    obtain ⟨l, hl, hst⟩ := bind_eq_some_iff.mp hst
    split at hst
    · cases hst
      cases ho
    next shard c hcell =>
      exact .inl ⟨thread, loc, th, l, shard, c, rfl, hth, hl, hcell, some.inj hst⟩
  | pollTask thread pos => exact .inr ⟨thread, pos, rfl⟩
  | _ =>
    simp only [respond, bind_eq_bind, bind_eq_some_iff] at hst
    grind [Outcome.reachesCell]

theorem Sound.onOwner_iff {s t : Process T} {e : Event T} {a : Access} (h : Sound s)
    (hst : s.respond e = some (t, .running a)) : t.OnOwner a ↔ s.OwnRuntime e := by
  rcases enter_of_respond hst rfl with
    ⟨thread, loc, th, l, shard, c, rfl, hth, hl, hcell, henter⟩ | ⟨thread, pos, rfl⟩
  · obtain ⟨rfl, _, hhome, hsub⟩ := enter_running henter
    obtain ⟨runtime, hs⟩ := h.home_of_currentCell hth hcell
    rw [onOwner_iff_of_home ((congrFun hhome thread).trans hs), hsub]
    simp [OwnRuntime, hs]
  · obtain ⟨th, runtime, shard, shards, sh, loc, cell, l, c, hth, hrun, hshards, hsh, htask, hl, hc,
      henter⟩ := pollTask_eq_some hst
    obtain ⟨rfl, _, hhome, hsub⟩ := enter_running henter
    obtain ⟨rfl, hr⟩ := h.submitted runtime shards shard sh loc cell hshards hsh htask
    have hs : s.home thread = some (runtime, cell) := by simp [home, hth, hrun]
    rw [onOwner_iff_of_home ((congrFun hhome thread).trans hs), hsub]
    exact iff_of_true hr trivial

/-- A call on the current shard runs its operation exactly if the handle has a free cell with
the index that is current on the thread. -/
theorem Sound.withCurrent_running_iff {s : Process T} {thread loc : Nat} (h : Sound s) :
    (∃ t a, s.respond (.withCurrent thread loc) = some (t, .running a)) ↔
      ¬ s.NoFreeCell (.withCurrent thread loc) := by
  simp only [NoFreeCell, not_forall, Bool.not_eq_true]
  constructor
  · rintro ⟨t, a, hst⟩
    rcases enter_of_respond hst rfl with
      ⟨thread', loc', th, l, shard, c, he, hth, hl, hcell, henter⟩ | ⟨_, _, he⟩ <;> cases he
    obtain ⟨hcurrent, hc⟩ := currentCell_eq_ok hcell
    refine ⟨th, l, shard, c, hth, hcurrent, hl, hc, ?_⟩
    rw [Process.enter] at henter
    split at henter <;> cases henter
    next hmut => exact (withMut_eq_ok hmut).2.2
  · rintro ⟨th, l, shard, c, hth, hcurrent, hl, hc, hfree⟩
    have howner := h.owner loc l shard c hl hc
    simp [Process.respond, hth, hl, ShardLocal.currentCell, ShardLocal.cellForCurrent, hcurrent, hc,
      Except.map, Process.enter, ShardLocalCell.withMut, howner, hfree]

/-- An operation gets a cell on the thread of the cell's own shard only, except exactly if the call
is made on the current shard by a shard thread of another runtime and finds a free cell there. -/
theorem access_on_owner_iff {s : Process T} (h : Reachable step new s) (e : Event T) :
    (∀ t a, s.respond e = some (t, .running a) → t.OnOwner a) ↔
      s.OwnRuntime e ∨ s.NoFreeCell e := by
  have hsound := sound_of_reachable h
  constructor
  · intro howner
    by_contra hforeign
    obtain ⟨hforeign, hfree⟩ := not_or.mp hforeign
    cases e with
    | withCurrent thread loc =>
      obtain ⟨t, a, hst⟩ := hsound.withCurrent_running_iff.mpr hfree
      exact hforeign ((hsound.onOwner_iff hst).mp (howner t a hst))
    | _ => exact hforeign trivial
  · rintro (hown | hfree) t a hst
    · exact (hsound.onOwner_iff hst).mpr hown
    · cases e with
      | withCurrent thread loc =>
        exact absurd hfree (hsound.withCurrent_running_iff.mp ⟨t, a, hst⟩)
      | _ => exact hfree.elim

/-- Threads 0 and 1 run the shards of the first runtime, thread 2 the shard of the second; the
handle is made with the first runtime's submitter. -/
private def twoRuntimes : Process Nat :=
  (run step new [.start 2, .start 1, .newLocal 0 id]).get (by decide +kernel)

private theorem twoRuntimes_reachable : Reachable step new twoRuntimes :=
  reachable_of_run [.start 2, .start 1, .newLocal 0 id] (some_get _).symm

theorem own_shard_enters_own_cell :
    ∃ t : Process Nat, twoRuntimes.respond (.withCurrent 1 0) = some (t, .running ⟨1, 0, 1⟩) ∧
      t.OnOwner ⟨1, 0, 1⟩ := by
  have hrun : (twoRuntimes.respond (.withCurrent 1 0)).map Prod.snd =
      some (.running ⟨1, 0, 1⟩) := by decide +kernel
  obtain ⟨⟨t, o⟩, hst, rfl⟩ := map_eq_some_iff.mp hrun
  have hown : twoRuntimes.submitter 0 = some 0 := by decide +kernel
  exact ⟨t, hst, (access_on_owner_iff twoRuntimes_reachable (.withCurrent 1 0)).mpr (.inl hown) t _ hst⟩

/-- The shard thread of the second runtime enters the first runtime's cell. -/
theorem foreign_shard_enters_cell :
    Reachable step new twoRuntimes ∧ ∃ t : Process Nat,
      twoRuntimes.respond (.withCurrent 2 0) = some (t, .running ⟨2, 0, 0⟩) ∧
      t.home 2 = some (1, 0) ∧ t.submitter 0 = some 0 ∧ ¬ t.OnOwner ⟨2, 0, 0⟩ := by
  have hrun : (twoRuntimes.respond (.withCurrent 2 0)).map (fun r =>
      (r.2, r.1.home 2, r.1.submitter 0, decide (r.1.OnOwner ⟨2, 0, 0⟩))) =
      some (.running ⟨2, 0, 0⟩, some (1, 0), some 0, false) := by decide +kernel
  obtain ⟨⟨t, o⟩, hst, hfacts⟩ := map_eq_some_iff.mp hrun
  simp only [Prod.mk.injEq, decide_eq_false_iff_not] at hfacts
  obtain ⟨rfl, hhome, hsub, hforeign⟩ := hfacts
  exact ⟨twoRuntimes_reachable, t, hst, hhome, hsub, hforeign⟩

end Process
end Sitas.Runtime.Ownership
