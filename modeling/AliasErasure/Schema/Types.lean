import AliasErasure.Descriptor.Types
import AliasErasure.Schema.Kind

set_option autoImplicit false

/-! # The schema model

What generators work on: files, messages, fields and enums with qualified names, comments and
resolved features. A file keeps its descriptor beside the model; message by message and field by
field the two correspond by position.
-/

namespace AliasErasure

open Descriptor (FieldOptions FileProto)

/-- Features of a field that follow from its declaration and the dialect of its file. -/
structure Features where
  /-- Whether the field is set can be told apart from its value. -/
  explicitPresence : Bool := false
  /-- A repeated field is packed. -/
  packed : Bool := false
  /-- Strings must be valid UTF-8. -/
  utf8Validated : Bool := false
  /-- The field must be set. -/
  legacyRequired : Bool := false
  /-- A message is framed as a group. -/
  delimited : Bool := false
  deriving DecidableEq, Repr

/-- The comments above a declaration and after it. -/
structure Comments where
  leading : String := ""
  trailing : String := ""
  deriving DecidableEq, Repr

/-- A simple name with the qualified one, which starts with a dot. -/
structure Ident where
  name : String
  fullName : String
  deriving DecidableEq, Repr

/-- A field of a message. -/
structure Field where
  name : String := ""
  number : Int32 := 0
  kind : Kind := .int32
  cardinality : Cardinality := .optional
  options : Option FieldOptions := none
  /-- The field was declared with the keyword `optional` of proto3. -/
  proto3Optional : Bool := false
  defaultValue : Option String := none
  jsonName : Option String := none
  features : Features := {}
  /-- The qualified name of the message a field of message or group kind refers to. -/
  message : Option String := none
  /-- The qualified name of the enum a field refers to. -/
  enumeration : Option String := none
  /-- The position of the field's oneof among the oneofs of the message. -/
  oneof : Option Nat := none
  /-- The alias the field was declared with, once that has been erased. -/
  viaAlias : Option Ident := none
  comments : Comments := {}
  deriving DecidableEq

/-- The qualified name of the declaration a field refers to. -/
def Field.typeName? (f : Field) : Option String :=
  match f.kind with
  | .message | .group => f.message
  | .enum => f.enumeration
  | _ => none

/-- A oneof; it is synthetic when it only serves an `optional` field of proto3. -/
structure Oneof where
  name : String := ""
  synthetic : Bool := false
  deriving DecidableEq, Repr

/-- A value of an enum. -/
structure EnumValue where
  name : String := ""
  number : Int32 := 0
  deriving DecidableEq, Repr

/-- An enum. -/
structure EnumType where
  name : String := ""
  fullName : String := ""
  comments : Comments := {}
  values : List EnumValue := []
  deriving DecidableEq, Repr

/-- A message. -/
structure Message where
  name : String := ""
  fullName : String := ""
  comments : Comments := {}
  /-- The comment above the message holds the alias marker. -/
  marked : Bool := false
  /-- The message stands for the entries of a map. -/
  mapEntry : Bool := false
  fields : List Field := []
  oneofs : List Oneof := []
  nested : List Message := []
  enums : List EnumType := []

instance : Inhabited Message := ⟨{}⟩

/-- The identifier of a message. -/
def Message.ident (m : Message) : Ident := ⟨m.name, m.fullName⟩

/-- A schema file with its descriptor. -/
structure File where
  name : String := ""
  package : String := ""
  dialect : Dialect := .proto2
  /-- Output was asked for this file. -/
  generate : Bool := false
  /-- The top-level messages, position by position those of the descriptor. -/
  messages : List Message := []
  enums : List EnumType := []
  /-- The aliases that have been erased from the file. -/
  aliases : List Message := []
  proto : FileProto := {}

end AliasErasure
