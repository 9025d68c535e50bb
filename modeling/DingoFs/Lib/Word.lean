import Mathlib.Tactic.Ring
import Mathlib.Tactic.Linarith

/-!
# Fixed-width integers over `Nat`

Values are kept as `Nat`. The few operations below reduce modulo `2^64` (or `2^32`) exactly
where `uint64_t` (or `uint32_t`) arithmetic does, and `toInt32` and `ofInt64` are the two implicit conversions
between `uint64_t` and `int` that C++ performs at a call boundary. A model applies them
only where a value can really leave the range; everywhere else plain `Nat` arithmetic
is the machine's.
-/

namespace DingoFs.Lib

/-- `uint64_t` addition. -/
def add64 (a b : Nat) : Nat := (a + b) % 2 ^ 64

/-- `uint64_t` multiplication. -/
def mul64 (a b : Nat) : Nat := a * b % 2 ^ 64

/-- `uint64_t` subtraction: it wraps below zero. -/
def sub64 (a b : Nat) : Nat := (a + (2 ^ 64 - b % 2 ^ 64)) % 2 ^ 64

/-- `uint32_t` subtraction: it wraps below zero. -/
def sub32 (a b : Nat) : Nat := (a + (2 ^ 32 - b % 2 ^ 32)) % 2 ^ 32

/-- A `uint64_t` passed where an `int` is expected: its low 32 bits, read in two's
complement. -/
def toInt32 (a : Nat) : Int :=
  if a % 2 ^ 32 < 2 ^ 31 then (a % 2 ^ 32 : Nat) else ((a % 2 ^ 32 : Nat) : Int) - 2 ^ 32

/-- An `int` converted to `uint64_t`, as in `uint64_t + int`. -/
def ofInt64 (i : Int) : Nat := (i % 2 ^ 64).toNat

theorem add64_of_lt {a b : Nat} (h : a + b < 2 ^ 64) : add64 a b = a + b :=
  Nat.mod_eq_of_lt h

theorem mul64_of_lt {a b : Nat} (h : a * b < 2 ^ 64) : mul64 a b = a * b :=
  Nat.mod_eq_of_lt h

/-- Wrap-around subtraction of a smaller value is plain subtraction, at any width. -/
theorem sub_mod_two_pow_of_le (n : Nat) {a b : Nat} (hb : b ≤ a) (ha : a < 2 ^ n) :
    (a + (2 ^ n - b % 2 ^ n)) % 2 ^ n = a - b := by
  have hb' : b % 2 ^ n = b := Nat.mod_eq_of_lt (Nat.lt_of_le_of_lt hb ha)
  rw [hb']
  have : a + (2 ^ n - b) = (a - b) + 2 ^ n := by omega
  rw [this, Nat.add_mod_right, Nat.mod_eq_of_lt (by omega)]

theorem sub64_of_le {a b : Nat} (hb : b ≤ a) (ha : a < 2 ^ 64) : sub64 a b = a - b :=
  sub_mod_two_pow_of_le 64 hb ha

theorem sub32_of_le {a b : Nat} (hb : b ≤ a) (ha : a < 2 ^ 32) : sub32 a b = a - b :=
  sub_mod_two_pow_of_le 32 hb ha

/-- Subtracting from zero wraps to the largest value. -/
theorem sub64_zero_one : sub64 0 1 = 2 ^ 64 - 1 := by decide

theorem toInt32_of_lt {a : Nat} (h : a < 2 ^ 31) : toInt32 a = a := by
  have ha : a % 2 ^ 32 = a := Nat.mod_eq_of_lt (by omega)
  unfold toInt32
  rw [ha, if_pos h]

theorem ofInt64_natCast {n : Nat} (h : n < 2 ^ 64) : ofInt64 n = n := by
  unfold ofInt64
  have : ((n : Int) % 2 ^ 64) = n := Int.emod_eq_of_lt (by omega) (by omega)
  rw [this, Int.toNat_natCast]

end DingoFs.Lib
