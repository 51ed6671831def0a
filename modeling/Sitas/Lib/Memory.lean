import Mathlib.Tactic.Ring

/-! Byte-addressed memory with little-endian fields of any width. -/
namespace Sitas.Lib

abbrev Memory := Nat → BitVec 8

/-- The value of the `n` bytes from `off` on, least significant byte first. -/
def readLe (m : Memory) (off : Nat) : Nat → Nat
  | 0 => 0
  | n + 1 => (m off).toNat + 256 * readLe m (off + 1) n

/-- Store the low `n` bytes of a value from `off` on. -/
def writeLe (m : Memory) (off n v : Nat) : Memory :=
  fun a => if off ≤ a ∧ a < off + n then BitVec.ofNat 8 (v / 256 ^ (a - off)) else m a

theorem readLe_congr {m m' : Memory} (off n : Nat)
    (h : ∀ a, off ≤ a → a < off + n → m a = m' a) : readLe m off n = readLe m' off n := by
  induction n generalizing off with
  | zero => rfl
  | succ n ih =>
    simp only [readLe]
    rw [h off le_rfl (by omega), ih (off + 1) fun a h1 h2 => h a (by omega) (by omega)]

theorem readLe_lt (m : Memory) (off n : Nat) : readLe m off n < 256 ^ n := by
  induction n generalizing off with
  | zero => simp [readLe]
  | succ n ih =>
    have := ih (off + 1)
    have := (m off).isLt
    rw [readLe, Nat.pow_succ]
    omega

theorem readLe_add (m : Memory) (off a b : Nat) :
    readLe m off (a + b) = readLe m off a + 256 ^ a * readLe m (off + a) b := by
  induction a generalizing off with
  | zero => simp [readLe]
  | succ a ih =>
    rw [Nat.succ_add, readLe, readLe, ih (off + 1), show off + 1 + a = off + (a + 1) by omega,
      Nat.pow_succ]
    ring

theorem readLe_of_digits {m : Memory} (off n v : Nat)
    (h : ∀ i, i < n → (m (off + i)).toNat = v / 256 ^ i % 256) : readLe m off n = v % 256 ^ n := by
  induction n generalizing off v with
  | zero => simp [readLe, Nat.mod_one]
  | succ n ih =>
    have h0 : (m off).toNat = v % 256 := by simpa using h 0 (by omega)
    have hrest := ih (off + 1) (v / 256) fun i hi => by
      rw [show off + 1 + i = off + (i + 1) by omega, h (i + 1) (by omega), Nat.div_div_eq_div_mul,
        Nat.pow_succ, Nat.mul_comm]
    rw [readLe, h0, hrest, Nat.pow_succ, Nat.mul_comm (256 ^ n), Nat.mod_mul]

/-- Reading inside a written field gives the corresponding part of its value. -/
theorem readLe_writeLe_inside (m : Memory) (off n v k w : Nat) (h : k + w ≤ n) :
    readLe (writeLe m off n v) (off + k) w = v / 256 ^ k % 256 ^ w := by
  apply readLe_of_digits
  intro i hi
  have hin : off ≤ off + k + i ∧ off + k + i < off + n := by omega
  rw [writeLe, if_pos hin, BitVec.toNat_ofNat, show off + k + i - off = k + i by omega,
    Nat.pow_add, Nat.div_div_eq_div_mul]

theorem readLe_writeLe_disjoint (m : Memory) (off n v off' w : Nat)
    (h : off' + w ≤ off ∨ off + n ≤ off') :
    readLe (writeLe m off n v) off' w = readLe m off' w := by
  apply readLe_congr
  intro a h1 h2
  rw [writeLe, if_neg (by omega)]

theorem readLe_writeLe (m : Memory) (off n v : Nat) :
    readLe (writeLe m off n v) off n = v % 256 ^ n := by
  simpa using readLe_writeLe_inside m off n v 0 n (by omega)

end Sitas.Lib
