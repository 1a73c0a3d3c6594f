import AliasErasure.Error

set_option autoImplicit false

/-! # Kinds, cardinalities and dialects

The closed vocabularies of the schema language, with their numbers in descriptors and their
spellings in source text.
-/

namespace AliasErasure

/-! ## Kinds -/

/-- The declared type of a field. -/
inductive Kind where
  | double
  | float
  | int64
  | uint64
  | int32
  | fixed64
  | fixed32
  | bool
  | string
  | group
  | message
  | bytes
  | uint32
  | enum
  | sfixed32
  | sfixed64
  | sint32
  | sint64
  deriving DecidableEq, Repr

namespace Kind

/-- The number of a kind in a descriptor. -/
def toNumber : Kind → Int32
  | .double => 1
  | .float => 2
  | .int64 => 3
  | .uint64 => 4
  | .int32 => 5
  | .fixed64 => 6
  | .fixed32 => 7
  | .bool => 8
  | .string => 9
  | .group => 10
  | .message => 11
  | .bytes => 12
  | .uint32 => 13
  | .enum => 14
  | .sfixed32 => 15
  | .sfixed64 => 16
  | .sint32 => 17
  | .sint64 => 18

/-- All kinds, by number. -/
def all : List Kind :=
  [.double, .float, .int64, .uint64, .int32, .fixed64, .fixed32, .bool, .string, .group,
   .message, .bytes, .uint32, .enum, .sfixed32, .sfixed64, .sint32, .sint64]

/-- The kind with the given number, if there is one. -/
def ofNumber? (n : Int32) : Option Kind := all.find? fun k => k.toNumber == n

/-- The kind that a descriptor's number stands for: an unset or unknown one stands for the first
kind. -/
def ofProto (n : Option Int32) : Kind := (n.bind ofNumber?).getD .double

/-- Whether a kind refers to another declaration by name. -/
def isNamed : Kind → Bool
  | .message | .group | .enum => true
  | _ => false

/-- Whether a repeated field of this kind may be packed. -/
def isPackable : Kind → Bool
  | .string | .bytes | .message | .group => false
  | _ => true

/-- The keyword of a kind in source text; kinds that refer to a declaration have none. -/
def keyword? : Kind → Option String
  | .double => some "double"
  | .float => some "float"
  | .int64 => some "int64"
  | .uint64 => some "uint64"
  | .int32 => some "int32"
  | .fixed64 => some "fixed64"
  | .fixed32 => some "fixed32"
  | .bool => some "bool"
  | .string => some "string"
  | .bytes => some "bytes"
  | .uint32 => some "uint32"
  | .sfixed32 => some "sfixed32"
  | .sfixed64 => some "sfixed64"
  | .sint32 => some "sint32"
  | .sint64 => some "sint64"
  | .group | .message | .enum => none

/-- The name of a kind: its keyword, or what it refers to. -/
def name (k : Kind) : String :=
  k.keyword?.getD <| match k with
    | .group => "group"
    | .enum => "enum"
    | _ => "message"

/-- The name of a kind in reports, with a capital letter. -/
def title (k : Kind) : String := k.name.capitalize

end Kind

/-! ## Cardinalities -/

/-- How often a field may stand in a message. -/
inductive Cardinality where
  | optional
  | required
  | repeated
  deriving DecidableEq, Repr

namespace Cardinality

/-- The number of a cardinality in a descriptor. -/
def toNumber : Cardinality → Int32
  | .optional => 1
  | .required => 2
  | .repeated => 3

/-- The cardinality that a descriptor's number stands for; unset and unknown ones stand for
`optional`. -/
def ofProto : Option Int32 → Cardinality
  | some 2 => .required
  | some 3 => .repeated
  | _ => .optional

end Cardinality

/-! ## Dialects -/

/-- The dialect of the schema language that a file is written in. -/
inductive Dialect where
  | proto2
  | proto3
  | editions
  deriving DecidableEq, Repr

namespace Dialect

/-- The name of a dialect. -/
def name : Dialect → String
  | .proto2 => "proto2"
  | .proto3 => "proto3"
  | .editions => "editions"

/-- The dialect with a name; the empty name stands for the oldest one. -/
def ofName (name : String) : Except Error Dialect :=
  if name = "" ∨ name = "proto2" then .ok .proto2
  else if name = "proto3" then .ok .proto3
  else if name = "editions" then .ok .editions
  else .error (.unsupportedDialect name)

/-- The dialect of a file that declares `name`: a name of no dialect is taken for the oldest
one. -/
def assumed (name : String) : Dialect :=
  match ofName name with
  | .ok d => d
  | .error _ => .proto2

end Dialect

end AliasErasure
