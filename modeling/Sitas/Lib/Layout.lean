import Mathlib.Algebra.BigOperators.Fin

/-! Values in the memory of a little- or big-endian host, and the network order of words. -/
namespace Sitas.Lib

abbrev Byte := Fin 256

/-- A word of `n` bytes, by its value. -/
abbrev Word (n : Nat) := Fin (256 ^ n)

/-- How the values of a type fill `n` bytes. -/
abbrev Layout (α : Type) (n : Nat) := α ≃ (Fin n → Byte)

inductive Endian where
  | little
  | big

/-- The second field follows the first one without padding. -/
def Layout.pair {α β : Type} {m n : Nat} (f : Layout α m) (g : Layout β n) :
    Layout (α × β) (m + n) :=
  (f.prodCongr g).trans (Fin.appendEquiv m n)

theorem Layout.prefix_pair {α β : Type} {m n : Nat} (f : Layout α m) (g : Layout β n) (x : α × β) :
    List.ofFn (f x.1) <+: List.ofFn (f.pair g x) :=
  ⟨_, (List.ofFn_fin_append _ (g x.2)).symm⟩

namespace Word
variable {n : Nat}

def leBytes : Layout (Word n) n := finFunctionFinEquiv.symm

def beBytes : Layout (Word n) n := leBytes.trans (Fin.revPerm.arrowCongr (.refl _))

def neBytes : Endian → Layout (Word n) n
  | .little => leBytes
  | .big => beBytes

def swapBytes (w : Word n) : Word n := leBytes.symm (beBytes w)

def toBe : Endian → Word n → Word n
  | .little, w => swapBytes w
  | .big, w => w

def fromBe : Endian → Word n → Word n
  | .little, w => swapBytes w
  | .big, w => w

variable (e : Endian) (w : Word n)

theorem neBytes_toBe : neBytes e (toBe e w) = beBytes w := by
  cases e with
  | little => exact leBytes.apply_symm_apply _
  | big => rfl

theorem beBytes_fromBe : beBytes (fromBe e w) = neBytes e w := by
  cases e with
  | little =>
    funext i
    simp [fromBe, swapBytes, neBytes, beBytes]
  | big => rfl

theorem fromBe_toBe : fromBe e (toBe e w) = w := by
  apply beBytes.injective
  rw [beBytes_fromBe, neBytes_toBe]

theorem beBytes_val (i : Fin n) : (beBytes w i : Nat) = w / 256 ^ (i.rev : Nat) % 256 := rfl

end Word
end Sitas.Lib
