set_option autoImplicit false

/-! # Base-128 numbers

A 64-bit number is written in groups of seven bits, the lowest group first, one byte a group;
every byte but the last has its high bit set. Ten groups hold 64 bits, so no number takes more
than ten bytes, and the tenth byte can only be 0 or 1. A reader takes longer spellings of a number
too, as long as they keep to ten bytes.
-/

namespace AliasErasure.Wire.Varint

/-- The groups of `n`, at most `more + 1` of them. -/
def groups : (more : Nat) → Nat → List UInt8
  | 0, n => [n.toUInt8]
  | more + 1, n =>
      if n < 128 then [n.toUInt8] else (n % 128 + 128).toUInt8 :: groups more (n / 128)

/-- The bytes of a number. -/
def encode (n : UInt64) : List UInt8 := groups 9 n.toNat

/-- Reads a number of at most `left` groups, and gives what follows it. The last group that may
stand there must leave the number below 2^64. -/
def readGroups : (left : Nat) → List UInt8 → Option (Nat × List UInt8)
  | 0, _ => none
  | _ + 1, [] => none
  | left + 1, b :: rest =>
      if b < 128 then
        if left = 0 ∧ 2 ≤ b then none else some (b.toNat, rest)
      else
        match readGroups left rest with
        | some (high, rest) => some (b.toNat - 128 + 128 * high, rest)
        | none => none

/-- The number at the start of `bytes` and what follows it; `none` when there is no number. -/
def decode (bytes : List UInt8) : Option (UInt64 × List UInt8) :=
  match readGroups 10 bytes with
  | some (n, rest) => some (n.toUInt64, rest)
  | none => none

end AliasErasure.Wire.Varint
