import Mathlib.Data.Finmap
import Mathlib.Data.Finset.Sort

/-! The state of one shard of the key-value store and the commands it serves. Keys and
values are strings in the source; only their order and equality are used. -/
namespace Sitas.Kv

inductive KeyCommand (K V : Type) where
  | get (key : K)
  | put (key : K) (value : V)
  | compareAndPut (key : K) (expected : Option V) (value : V)
  | getOrPut (key : K) (value : V)
  | delete (key : K)
  deriving DecidableEq, Repr

def KeyCommand.key {K V : Type} : KeyCommand K V → K
  | .get key | .put key _ | .compareAndPut key _ _ | .getOrPut key _ | .delete key => key

inductive KvCommand (K V : Type) where
  | keyed (command : KeyCommand K V)
  | len
  | keys
  | stop
  deriving DecidableEq, Repr

inductive Answer (V : Type) where
  | found (value : Option V)
  | done
  | replaced (replaced : Bool)
  | value (value : V)
  deriving DecidableEq, Repr

inductive KvValue (K V : Type) where
  | answer (answer : Answer V)
  | len (len : Nat)
  | keys (keys : List K)
  deriving DecidableEq, Repr

/-- What a command does at its key: the answer, and what stands there afterwards. -/
def KeyCommand.effect {K V : Type} [DecidableEq V] : KeyCommand K V → Option V → Answer V × Option V
  | .get _, found => (.found found, found)
  | .put _ value, _ => (.done, some value)
  | .compareAndPut _ expected value, found =>
    if found = expected then (.replaced true, some value) else (.replaced false, found)
  | .getOrPut _ value, found => (.value (found.getD value), some (found.getD value))
  | .delete _, found => (.found found, none)

structure KvService (K V : Type) where
  map : Finmap fun _ : K => V

namespace KvService
variable {K V : Type} [LinearOrder K]

def new : KvService K V := ⟨∅⟩

def get (s : KvService K V) (key : K) : Option V := s.map.lookup key

def put (s : KvService K V) (key : K) (value : V) : KvService K V := ⟨s.map.insert key value⟩

def getOrPut (s : KvService K V) (key : K) (value : V) : V × KvService K V :=
  match s.map.lookup key with
  | some present => (present, s)
  | none => (value, ⟨s.map.insert key value⟩)

def delete (s : KvService K V) (key : K) : Option V × KvService K V :=
  (s.map.lookup key, ⟨s.map.erase key⟩)

def len (s : KvService K V) : Nat := s.map.keys.card

def keys (s : KvService K V) : List K := s.map.keys.sort

theorem mem_keys_iff (s : KvService K V) (key : K) : key ∈ s.keys ↔ (s.get key).isSome = true := by
  rw [keys, Finset.mem_sort, Finmap.mem_keys, get, Finmap.lookup_isSome]

variable [DecidableEq V]

def compareAndPut (s : KvService K V) (key : K) (expected : Option V) (value : V) :
    Bool × KvService K V :=
  if s.map.lookup key = expected then (true, ⟨s.map.insert key value⟩) else (false, s)

def execute (s : KvService K V) : KeyCommand K V → Answer V × KvService K V
  | .get key => (.found (s.get key), s)
  | .put key value => (.done, s.put key value)
  | .compareAndPut key expected value =>
    let r := s.compareAndPut key expected value
    (.replaced r.1, r.2)
  | .getOrPut key value =>
    let r := s.getOrPut key value
    (.value r.1, r.2)
  | .delete key =>
    let r := s.delete key
    (.found r.1, r.2)

/-- The branches of the shard loop. -/
def handle (s : KvService K V) : KvCommand K V → KvValue K V × KvService K V
  | .keyed command =>
    let r := s.execute command
    (.answer r.1, r.2)
  | .len => (.len s.len, s)
  | .keys => (.keys s.keys, s)
  | .stop => (.answer .done, s)

theorem execute_get_of_ne (s : KvService K V) (c : KeyCommand K V) {key : K} (h : key ≠ c.key) :
    (s.execute c).2.get key = s.get key := by
  cases c with
  | get k => rfl
  | put k v => exact Finmap.lookup_insert_of_ne _ h
  | compareAndPut k expected v =>
    simp only [execute, compareAndPut]
    split
    · exact Finmap.lookup_insert_of_ne _ h
    · rfl
  | getOrPut k v =>
    simp only [execute, getOrPut]
    split
    · rfl
    · exact Finmap.lookup_insert_of_ne _ h
  | delete k => exact Finmap.lookup_erase_ne h

/-- The answer to a command and what it leaves at its key, from what stands there. A compare and
put stores its value exactly if the expected one stands there. -/
theorem execute_at_key (s : KvService K V) (c : KeyCommand K V) :
    ((s.execute c).1, (s.execute c).2.get c.key) = c.effect (s.get c.key) := by
  cases c with
  | get k => rfl
  | put k v => exact congrArg (Prod.mk _) (Finmap.lookup_insert _)
  | compareAndPut k expected v =>
    by_cases hmatch : s.map.lookup k = expected <;>
      simp [execute, compareAndPut, KeyCommand.effect, KeyCommand.key, get, hmatch]
  | getOrPut k v =>
    simp only [execute, getOrPut, KeyCommand.effect, KeyCommand.key, get]
    split
    next present hpresent => rw [hpresent]; rfl
    next habsent => rw [Finmap.lookup_insert, habsent]; rfl
  | delete k => exact congrArg (Prod.mk _) (Finmap.lookup_erase _ _)

theorem execute_congr {s t : KvService K V} (c : KeyCommand K V) (h : s.get c.key = t.get c.key) :
    (s.execute c).1 = (t.execute c).1 ∧
      (s.execute c).2.get c.key = (t.execute c).2.get c.key := by
  have heq := (s.execute_at_key c).trans ((congrArg c.effect h).trans (t.execute_at_key c).symm)
  exact Prod.mk.inj heq

end KvService
end Sitas.Kv
