import AliasErasure.Text.Quoted

set_option autoImplicit false

/-! # Byte string literals

A byte string literal holds printable ASCII as it is and escapes everything else: tab, carriage
return, line feed, both quotes and the backslash by a letter or by themselves, all other bytes by
`\xHH`. The space is escaped as well: a backslash at the end of a line makes the reader skip all
blanks that follow, so a literal spread over several lines may not have a bare space where a
line starts.
-/

namespace AliasErasure.Text.Bytes

/-- How one byte is written inside a literal. -/
def escapeByte (b : UInt8) : List Char :=
  if b = 0x09 then ['\\', 't']
  else if b = 0x0d then ['\\', 'r']
  else if b = 0x0a then ['\\', 'n']
  else if b = 0x27 then ['\\', '\'']
  else if b = 0x22 then ['\\', '"']
  else if b = 0x5c then ['\\', '\\']
  else if 0x20 < b ∧ b < 0x7f then [Char.ofNat b.toNat]
  else '\\' :: 'x' :: Quoted.hexPair b.toNat

/-- Consecutive pieces of `width` elements each, the last one possibly shorter. The first
argument bounds the number of pieces. -/
def pieces {α : Type} (width : Nat) : Nat → List α → List (List α)
  | 0, _ => []
  | _ + 1, [] => []
  | bound + 1, a :: rest => (a :: rest).take width :: pieces width bound ((a :: rest).drop width)

/-- What separates two lines of a literal: a backslash that joins them, and the indentation of
the second. -/
def continuation : List Char := "\\\n    ".toList

/-- The text of a literal between its quotes, `width` bytes a line. -/
def literalBody (width : Nat) (bytes : List UInt8) : List Char :=
  continuation.intercalate ((pieces width bytes.length bytes).map (·.flatMap escapeByte))

end AliasErasure.Text.Bytes
