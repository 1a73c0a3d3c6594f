set_option autoImplicit false

/-! # Default values in schema source

Which texts are values of a scalar type: integers in a range, floating-point numbers, truth values
and byte strings in the C notation.
-/

namespace AliasErasure.Text

/-! ## Integers -/

/-- The value of a text that consists of decimal digits, at least one. -/
def digits? (cs : List Char) : Option Nat :=
  if cs ≠ [] ∧ cs.all Char.isDigit then
    some (cs.foldl (fun n c => n * 10 + (c.toNat - '0'.toNat)) 0)
  else none

/-- The value of an integer with an optional sign; a minus sign is only allowed if `signed`. -/
def integer? (signed : Bool) : List Char → Option Int
  | '-' :: cs => if signed then (digits? cs).map fun n => -(n : Int) else none
  | '+' :: cs => (digits? cs).map Int.ofNat
  | cs => (digits? cs).map Int.ofNat

/-- Whether a text is an integer from `low` to `high`. -/
def isIntegerWithin (low high : Int) (cs : List Char) : Bool :=
  match integer? (low < 0) cs with
  | some n => low ≤ n && n ≤ high
  | none => false

/-! ## Floating-point numbers -/

/-- The text without a sign at its start. -/
def dropSign : List Char → List Char
  | '-' :: cs => cs
  | '+' :: cs => cs
  | cs => cs

/-- Whether a text is empty or an exponent. -/
def isExponentPart : List Char → Bool
  | [] => true
  | c :: cs => (c = 'e' || c = 'E') && (digits? (dropSign cs)).isSome

/-- Whether a text without a sign is a decimal number: digits around an optional point, at least
one of them, and an optional exponent. -/
def isDecimal (cs : List Char) : Bool :=
  let whole := cs.takeWhile Char.isDigit
  match cs.dropWhile Char.isDigit with
  | '.' :: rest =>
      let fraction := rest.takeWhile Char.isDigit
      (whole ≠ [] || fraction ≠ []) && isExponentPart (rest.dropWhile Char.isDigit)
  | rest => whole ≠ [] && isExponentPart rest

/-- Whether a text is a floating-point number. Names of the special values are read in any case
of letters. -/
def isFloat (cs : List Char) : Bool :=
  let body := dropSign cs
  isDecimal body ||
    ["inf", "infinity", "nan"].contains (String.ofList (body.map Char.toLower))

/-! ## Truth values -/

/-- Whether a text is a truth value. -/
def isTruthValue (s : String) : Bool := s == "true" || s == "false"

/-! ## Byte strings -/

/-- Whether a character is an octal digit. -/
def isOctal (c : Char) : Bool := '0' ≤ c && c ≤ '7'

/-- Whether a character is a hexadecimal digit. -/
def isHex (c : Char) : Bool :=
  c.isDigit || ('a' ≤ c && c ≤ 'f') || ('A' ≤ c && c ≤ 'F')

/-- Whether two characters are a byte in hexadecimal digits; a plus sign may stand in place of the
first digit. -/
def isHexByte (a b : Char) : Bool := (isHex a || a == '+') && isHex b

/-- Whether a text is a byte string in the C notation: a backslash starts an escape by a letter, by
up to three octal digits, or by `x` and a hexadecimal byte. -/
def isCEscaped : List Char → Bool
  | [] => true
  | '\\' :: 'x' :: a :: b :: cs => isHexByte a b && isCEscaped cs
  | '\\' :: 'X' :: a :: b :: cs => isHexByte a b && isCEscaped cs
  | '\\' :: c :: cs => ("abfnrtv\\?'\"".toList.contains c || isOctal c) && isCEscaped cs
  | ['\\'] => false
  | _ :: cs => isCEscaped cs

end AliasErasure.Text
