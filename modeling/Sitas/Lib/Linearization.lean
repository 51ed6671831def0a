import Mathlib.Data.List.Nodup

/-! Linearizability of a concurrent object. Clients invoke operations and receive answers;
the operations take effect one after the other in between. -/
namespace Sitas.Lib
open List

inductive HistoryEvent (Op Ret : Type) where
  | invoke (id : Nat) (op : Op)
  | respond (id : Nat) (ret : Ret)
  deriving DecidableEq, Repr

structure Executed (Op Ret : Type) where
  id : Nat
  op : Op
  ret : Ret
  deriving DecidableEq, Repr

variable {σ Op Ret : Type}

def HistoryEvent.invoked : HistoryEvent Op Ret → Option Nat
  | .invoke id _ => some id
  | .respond _ _ => none

section Sequential
variable (apply : σ → Op → Ret × σ)

def outcome : σ → List (Executed Op Ret) → σ
  | s, [] => s
  | s, e :: es => outcome (apply s e.op).2 es

def Legal : σ → List (Executed Op Ret) → Prop
  | _, [] => True
  | s, e :: es => (apply s e.op).1 = e.ret ∧ Legal (apply s e.op).2 es

theorem outcome_append (s : σ) (es fs : List (Executed Op Ret)) :
    outcome apply s (es ++ fs) = outcome apply (outcome apply s es) fs := by
  induction es generalizing s with
  | nil => rfl
  | cons e es ih => exact ih _

theorem legal_append (s : σ) (es fs : List (Executed Op Ret)) :
    Legal apply s (es ++ fs) ↔ Legal apply s es ∧ Legal apply (outcome apply s es) fs := by
  induction es generalizing s with
  | nil => simp [Legal, outcome]
  | cons e es ih => simp only [cons_append, Legal, outcome, ih, and_assoc]

theorem Legal.answer {s : σ} {es : List (Executed Op Ret)} (h : Legal apply s es)
    {e : Executed Op Ret} (he : e ∈ es) : ∃ t, (apply t e.op).1 = e.ret := by
  induction es generalizing s with
  | nil => cases he
  | cons f es ih =>
    rcases mem_cons.mp he with rfl | hrest
    · exact ⟨s, h.1⟩
    · exact ih h.2 hrest

/-- A total order of operations explains a history: each operation takes effect at most
once and only if it was invoked, the answers given are those of a sequential object, and an
operation that was answered before another was invoked stands before it. -/
structure Linearization (init : σ) (history : List (HistoryEvent Op Ret))
    (order : List (Executed Op Ret)) : Prop where
  distinct : (history.filterMap HistoryEvent.invoked).Nodup
  once : (order.map (·.id)).Nodup
  legal : Legal apply init order
  invoked : ∀ e ∈ order, .invoke e.id e.op ∈ history
  answered : ∀ id ret, .respond id ret ∈ history → ∃ op, ⟨id, op, ret⟩ ∈ order
  respects : ∀ a ret b op, [.respond a ret, .invoke b op].Sublist history →
    b ∈ order.map (·.id) → [a, b].Sublist (order.map (·.id))

end Sequential

namespace Linearization
variable {apply : σ → Op → Ret × σ} {init : σ} {history : List (HistoryEvent Op Ret)}
  {order : List (Executed Op Ret)}

theorem empty : Linearization apply init [] [] :=
  ⟨nodup_nil, nodup_nil, trivial, fun _ h => absurd h not_mem_nil,
    fun _ _ h => absurd h not_mem_nil, fun _ _ _ _ _ h => absurd h not_mem_nil⟩

private theorem sublist_concat {x y e : HistoryEvent Op Ret}
    (h : [x, y].Sublist (history ++ [e])) : [x, y].Sublist history ∨ y = e := by
  obtain ⟨l, r, hlr, hl, hr⟩ := sublist_append_iff.mp h
  rcases sublist_singleton.mp hr with rfl | rfl
  · left
    rw [append_nil] at hlr
    exact hlr ▸ hl
  · right
    have hlast := congrArg getLast? hlr
    simpa using hlast

theorem mem_invoked {id : Nat} (h : id ∈ order.map (·.id))
    (hl : Linearization apply init history order) :
    id ∈ history.filterMap HistoryEvent.invoked := by
  obtain ⟨e, he, rfl⟩ := mem_map.mp h
  exact mem_filterMap.mpr ⟨_, hl.invoked e he, rfl⟩

section
variable (h : Linearization apply init history order)
include h

theorem invoke {id : Nat} (op : Op) (hfresh : id ∉ history.filterMap HistoryEvent.invoked) :
    Linearization apply init (history ++ [.invoke id op]) order := by
  refine ⟨?_, h.once, h.legal, fun e he => ?_, fun a ret ha => ?_, fun a ret b op' hab hb => ?_⟩
  · rw [filterMap_append]
    exact h.distinct.append (nodup_singleton _) (by simpa [HistoryEvent.invoked] using hfresh)
  · exact mem_append_left _ (h.invoked e he)
  · simp only [mem_append, mem_singleton, reduceCtorEq, or_false] at ha
    exact h.answered a ret ha
  · rcases sublist_concat hab with hold | hnew
    · exact h.respects a ret b op' hold hb
    · cases hnew
      exact absurd (h.mem_invoked hb) hfresh

theorem commit {e : Executed Op Ret} (hinvoked : .invoke e.id e.op ∈ history)
    (hnew : e.id ∉ order.map (·.id)) (hret : (apply (outcome apply init order) e.op).1 = e.ret) :
    Linearization apply init history (order ++ [e]) := by
  have hids : (order ++ [e]).map (·.id) = order.map (·.id) ++ [e.id] := by simp
  refine ⟨h.distinct, ?_, ?_, fun f hf => ?_, fun a ret ha => ?_, fun a ret b op hab hb => ?_⟩
  · rw [hids]
    exact h.once.append (nodup_singleton _) (by simpa using hnew)
  · exact (legal_append apply init order [e]).mpr ⟨h.legal, hret, trivial⟩
  · rcases mem_append.mp hf with hold | hlast
    · exact h.invoked f hold
    · rw [mem_singleton.mp hlast]
      exact hinvoked
  · obtain ⟨op, hop⟩ := h.answered a ret ha
    exact ⟨op, mem_append_left _ hop⟩
  · rw [hids] at hb ⊢
    rcases mem_append.mp hb with hold | hlast
    · exact (h.respects a ret b op hab hold).trans (sublist_append_left _ _)
    · rw [mem_singleton.mp hlast]
      obtain ⟨op', hop⟩ := h.answered a ret (hab.subset mem_cons_self)
      have ha : a ∈ order.map (·.id) := mem_map.mpr ⟨_, hop, rfl⟩
      exact (singleton_sublist.mpr ha).append (Sublist.refl [e.id])

theorem respond {id : Nat} {op : Op} {ret : Ret} (heffect : ⟨id, op, ret⟩ ∈ order) :
    Linearization apply init (history ++ [.respond id ret]) order := by
  refine ⟨?_, h.once, h.legal, fun e he => ?_, fun a r ha => ?_, fun a r b op' hab hb => ?_⟩
  · rw [filterMap_append, filterMap_cons_none rfl, filterMap_nil, append_nil]
    exact h.distinct
  · exact mem_append_left _ (h.invoked e he)
  · rcases mem_append.mp ha with hold | hlast
    · exact h.answered a r hold
    · cases mem_singleton.mp hlast
      exact ⟨op, heffect⟩
  · rcases sublist_concat hab with hold | hnew
    · exact h.respects a r b op' hold hb
    · cases hnew

end

end Linearization
end Sitas.Lib
