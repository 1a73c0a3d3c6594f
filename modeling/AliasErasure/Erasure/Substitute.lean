import AliasErasure.Schema.Types

set_option autoImplicit false

/-! # Fields that take the place of a reference to an alias

When a field refers to an alias, everything that belongs to its type is taken from the payload,
and everything that makes it this field of this message stays. The descriptor of the field is
then brought in line with the new field.
-/

namespace AliasErasure

open Descriptor (FieldOptions FieldProto)

/-- The field `f` with the type of `payload`, which it takes over from the alias `erased`.
It stands outside every oneof. -/
def Field.substitute (f payload : Field) (erased : Ident) : Field where
  name := f.name
  number := f.number
  jsonName := f.jsonName
  comments := f.comments
  kind := payload.kind
  cardinality := payload.cardinality
  options := payload.options
  proto3Optional := payload.proto3Optional
  defaultValue := payload.defaultValue
  features := payload.features
  message := payload.message
  enumeration := payload.enumeration
  oneof := none
  viaAlias := some erased

/-- Options of a field, empty ones read as none. -/
def nonEmptyOptions (options : Option FieldOptions) : Option FieldOptions :=
  options.filter fun o => o != {}

/-- The descriptor index of a oneof position, which keeps the lowest 32 bits. -/
def oneofIndexOf (position : Nat) : Int32 := Int32.ofNat position

/-- The descriptor of a field, brought in line with the field. A `optional` of proto3 is only
kept inside a oneof, since outside of one it makes a descriptor invalid. -/
def Field.synchronize (f : Field) (raw : FieldProto) : FieldProto :=
  { raw with
    type := some f.kind.toNumber
    label := some f.cardinality.toNumber
    typeName := f.typeName?
    defaultValue := f.defaultValue
    options := nonEmptyOptions f.options
    oneofIndex := f.oneof.map oneofIndexOf
    proto3Optional := if f.proto3Optional && f.oneof.isSome then some true else none }

end AliasErasure
