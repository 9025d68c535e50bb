import Mathlib.Tactic.Linarith

/-!
# Fixed-width big-endian fields in a byte stream

A writer appends a 32-bit field as its four bytes, most significant first; a reader cuts
a prefix of known length off the stream. `readBE32_toBytesBE32` is the round trip a
framing format built from such fields rests on: reading back what was appended gives the
value and leaves the rest of the stream untouched.
-/

namespace DingoFs.Lib

/-- The four bytes of `n mod 2^32`, most significant first. -/
def toBytesBE32 (n : Nat) : List UInt8 :=
  [UInt8.ofNat (n / 2 ^ 24), UInt8.ofNat (n / 2 ^ 16), UInt8.ofNat (n / 2 ^ 8), UInt8.ofNat n]

/-- The first `n` bytes of a stream and the rest, when the stream holds `n` bytes. -/
def cutn (n : Nat) (bs : List UInt8) : Option (List UInt8 × List UInt8) :=
  if n ≤ bs.length then some (bs.take n, bs.drop n) else none

/-- A 32-bit big-endian field cut off the front of a stream. -/
def readBE32 (bs : List UInt8) : Option (Nat × List UInt8) :=
  match cutn 4 bs with
  | some ([a, b, c, d], rest) =>
    some (a.toNat * 2 ^ 24 + b.toNat * 2 ^ 16 + c.toNat * 2 ^ 8 + d.toNat, rest)
  | _ => none

@[simp] theorem toBytesBE32_length (n : Nat) : (toBytesBE32 n).length = 4 := rfl

theorem cutn_append {bs rest : List UInt8} :
    cutn bs.length (bs ++ rest) = some (bs, rest) := by
  simp [cutn]

theorem readBE32_toBytesBE32 {n : Nat} (h : n < 2 ^ 32) (rest : List UInt8) :
    readBE32 (toBytesBE32 n ++ rest) = some (n, rest) := by
  have hcut : cutn 4 (toBytesBE32 n ++ rest) = some (toBytesBE32 n, rest) :=
    @cutn_append (toBytesBE32 n) rest
  rw [readBE32, hcut]
  simp only [toBytesBE32, UInt8.toNat_ofNat', Option.some.injEq, Prod.mk.injEq, and_true]
  omega

end DingoFs.Lib
