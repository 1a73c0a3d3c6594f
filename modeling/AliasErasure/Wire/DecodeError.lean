import AliasErasure.Wire.Layout

set_option autoImplicit false

/-! # Why bytes are no message

A decoding error has a cause and a trail: the fields that enclose the place of the error, from the
innermost to the outermost, each with the name of its message type.
-/

namespace AliasErasure.Wire

/-- What is wrong with the bytes. -/
inductive DecodeCause where
  | invalidVarint
  | invalidKey (key : UInt64)
  | invalidWireType (code : Nat)
  | invalidTag
  | wireTypeMismatch (found expected : WireType)
  | bufferUnderflow
  | lengthExceeded
  | invalidText
  | strayEndGroup
  | recursionLimit
  deriving DecidableEq, Repr

/-- The text of a cause. -/
def DecodeCause.message : DecodeCause → String
  | .invalidVarint => "invalid varint"
  | .invalidKey key => s!"invalid key value: {key}"
  | .invalidWireType code => s!"invalid wire type value: {code}"
  | .invalidTag => "invalid tag value: 0"
  | .wireTypeMismatch found expected =>
      s!"invalid wire type: {found.name} (expected {expected.name})"
  | .bufferUnderflow => "buffer underflow"
  | .lengthExceeded => "delimited length exceeded"
  | .invalidText => "invalid string value: data is not UTF-8 encoded"
  | .strayEndGroup => "unexpected end group tag"
  | .recursionLimit => "recursion limit reached"

/-- A cause with the fields that enclose it, innermost first. -/
structure DecodeError where
  cause : DecodeCause
  trail : List (String × String) := []
  deriving DecidableEq, Repr

namespace DecodeError

/-- The error as it is seen from outside one more field. -/
def within (title field : String) (e : DecodeError) : DecodeError :=
  { e with trail := e.trail ++ [(title, field)] }

/-- How a field is called in a trail: a name that the language of the messages reserves is marked
as a raw one. -/
def fieldLabel (field : String) : String := if field = "type" then "r#type" else field

/-- The text of an error. -/
def message (e : DecodeError) : String :=
  "failed to decode Protobuf message: " ++
    String.join (e.trail.map fun (title, field) => s!"{title}.{fieldLabel field}: ") ++
    e.cause.message

end DecodeError

end AliasErasure.Wire
