import Mathlib.Algebra.Order.Group.Nat

/-!
# Fixed-width little-endian fields

A C++ program that `memcpy`s an integer into a byte buffer writes it least significant byte
first on the little-endian machines it runs on, and a `reinterpret_cast` of the buffer reads
it back the same way. `ofBytesLE_toBytesLE` is that round trip: the `w` bytes written for `n`
spell `n mod 256 ^ w`.
-/

namespace DingoFs.Lib

/-- The `w` bytes of `n mod 256 ^ w`, least significant first. -/
def toBytesLE : Nat → Nat → List UInt8
  | 0, _ => []
  | w + 1, n => UInt8.ofNat n :: toBytesLE w (n / 256)

/-- The number a byte string spells, least significant byte first. -/
def ofBytesLE : List UInt8 → Nat
  | [] => 0
  | b :: bs => b.toNat + 256 * ofBytesLE bs

@[simp] theorem length_toBytesLE (w n : Nat) : (toBytesLE w n).length = w := by
  induction w generalizing n with
  | zero => rfl
  | succ w ih => simp [toBytesLE, ih]

theorem ofBytesLE_toBytesLE (w n : Nat) : ofBytesLE (toBytesLE w n) = n % 256 ^ w := by
  induction w generalizing n with
  | zero => simp [toBytesLE, ofBytesLE, Nat.mod_one]
  | succ w ih =>
    -- the low byte, then the rest of `n / 256` one byte narrower
    have byte : (UInt8.ofNat n).toNat = n % 256 := UInt8.toNat_ofNat'
    rw [toBytesLE, ofBytesLE, ih, byte, pow_succ', Nat.mod_mul]

theorem ofBytesLE_toBytesLE_of_lt {w n : Nat} (h : n < 256 ^ w) :
    ofBytesLE (toBytesLE w n) = n := by
  rw [ofBytesLE_toBytesLE, Nat.mod_eq_of_lt h]

end DingoFs.Lib
