set_option autoImplicit false

/-! # Layouts

A layout says which fields the messages of a format have: number, name and type of each. Message
types are the elements of a type `M`, so that a field can refer to another message type and the
references can be cyclic.
-/

namespace AliasErasure.Wire

/-- How a value is framed on the wire. -/
inductive WireType where
  | varint
  | fixed64
  | lengthDelimited
  | startGroup
  | endGroup
  | fixed32
  deriving DecidableEq, Repr

namespace WireType

/-- The wire type with the given code; 6 and 7 stand for none. -/
def ofCode? : Nat → Option WireType
  | 0 => some .varint
  | 1 => some .fixed64
  | 2 => some .lengthDelimited
  | 3 => some .startGroup
  | 4 => some .endGroup
  | 5 => some .fixed32
  | _ => none

/-- The code of a wire type in a field's key. -/
def code : WireType → Nat
  | .varint => 0
  | .fixed64 => 1
  | .lengthDelimited => 2
  | .startGroup => 3
  | .endGroup => 4
  | .fixed32 => 5

/-- The name of a wire type in error texts. -/
def name : WireType → String
  | .varint => "Varint"
  | .fixed64 => "SixtyFourBit"
  | .lengthDelimited => "LengthDelimited"
  | .startGroup => "StartGroup"
  | .endGroup => "EndGroup"
  | .fixed32 => "ThirtyTwoBit"

end WireType

/-- The types of values that hold no message. -/
inductive ScalarType where
  | int32
  | int64
  | uint64
  | bool
  | double
  | text
  | bytes
  deriving DecidableEq, Repr

/-- The wire type that the values of a scalar type have. -/
def ScalarType.wireType : ScalarType → WireType
  | .int32 | .int64 | .uint64 | .bool => .varint
  | .double => .fixed64
  | .text | .bytes => .lengthDelimited

/-- The type of a field's values. -/
inductive FieldType (M : Type) where
  | scalar (s : ScalarType)
  | message (m : M)
  deriving DecidableEq

/-- One field of a message type. -/
structure FieldLayout (M : Type) where
  number : Nat
  name : String
  type : FieldType M
  repeated : Bool

namespace FieldLayout

variable {M : Type}

/-- A scalar field that stands at most once. -/
def one (number : Nat) (name : String) (s : ScalarType) : FieldLayout M :=
  ⟨number, name, .scalar s, false⟩

/-- A repeated scalar field. -/
def many (number : Nat) (name : String) (s : ScalarType) : FieldLayout M :=
  ⟨number, name, .scalar s, true⟩

/-- A sub-message. -/
def sub (number : Nat) (name : String) (m : M) : FieldLayout M :=
  ⟨number, name, .message m, false⟩

/-- A list of sub-messages. -/
def subs (number : Nat) (name : String) (m : M) : FieldLayout M :=
  ⟨number, name, .message m, true⟩

end FieldLayout

/-- The message types of a format. -/
structure Layout (M : Type) where
  /-- The name of a message type. -/
  title : M → String
  /-- The fields of a message type, by ascending number. -/
  fields : M → List (FieldLayout M)

/-- The field of a message type with the given number. -/
def Layout.field? {M : Type} (L : Layout M) (m : M) (number : Nat) : Option (FieldLayout M) :=
  (L.fields m).find? fun f => f.number == number

end AliasErasure.Wire
