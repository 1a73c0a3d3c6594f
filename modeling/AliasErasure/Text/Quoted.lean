set_option autoImplicit false

/-! # Double-quoted literals of the schema language

A string stands in schema source between double quotes. Inside, a backslash starts an escape:
`\\` and `\"` for the two characters that would end or open something, `\n`, `\r` and `\t` for
the usual line and column breaks, and `\xHH` for every other control character of ASCII. All
other characters stand for themselves, so the text of a literal never holds a control character.
-/

namespace AliasErasure.Text.Quoted

/-- The control characters of ASCII: everything below the space, and DEL. -/
def isControl (c : Char) : Bool := c.toNat < 0x20 || c.toNat == 0x7f

/-- The two lower-case hexadecimal digits of a number below 256. -/
def hexPair (n : Nat) : List Char := [Nat.digitChar (n / 16), Nat.digitChar (n % 16)]

/-- How one character is written inside a literal. -/
def escapeChar (c : Char) : List Char :=
  if c = '\\' then ['\\', '\\']
  else if c = '"' then ['\\', '"']
  else if c = '\n' then ['\\', 'n']
  else if c = '\r' then ['\\', 'r']
  else if c = '\t' then ['\\', 't']
  else if isControl c then '\\' :: 'x' :: hexPair c.toNat
  else [c]

/-- The text of a literal between its quotes. -/
def escape (s : String) : String := String.ofList (s.toList.flatMap escapeChar)

/-- The whole literal, quotes included. -/
def literal (s : String) : String := "\"" ++ escape s ++ "\""

end AliasErasure.Text.Quoted
