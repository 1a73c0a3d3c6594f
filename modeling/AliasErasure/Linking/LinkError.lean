set_option autoImplicit false

/-! # Why descriptors do not link

The rules that a set of descriptors can break, each with its text. Ranges are given with both ends
included.
-/

namespace AliasErasure

inductive LinkError where
  | unreadable
  | duplicateFile (name : String)
  | definedTwice (name : String)
  | definedElsewhere (name file : String)
  | camelCaseConflict (first second : String)
  | emptyEnum
  | nonzeroFirstValue
  | importMissing (name : String)
  | importIndex
  | fieldNumber (n : Int32)
  | reservedNumber (n first last : Int32)
  | extensionNumber (n first last : Int32)
  | noExtensionNumber (message : String) (n : Int32)
  | missingTypeName (path : List Int32)
  | undefinedName (name : String)
  | shadowedName (name resolved : String)
  | notAType (name : String)
  | notAMessage (name : String)
  | invalidDefault (value type : String)
  | oneofIndex
  | numberTaken (n : Int32)
  | jsonNameTaken (name : String)
  | reservedEnumNumber (n first last : Int32)
  | enumNumberTaken (n : Int32)
  deriving DecidableEq, Repr

/-- The steps of a path, between brackets. -/
def pathText (path : List Int32) : String :=
  "[" ++ ", ".intercalate (path.map toString) ++ "]"

namespace LinkError

/-- The text of a broken rule. -/
def message : LinkError → String
  | .unreadable => "failed to decode file descriptor set"
  | .duplicateFile name => s!"a different file named '{name}' has already been added"
  | .definedTwice name => s!"name '{name}' is defined twice"
  | .definedElsewhere name file => s!"name '{name}' is already defined in file '{file}'"
  | .camelCaseConflict first second =>
      s!"camel-case name of field '{first}' conflicts with field '{second}'"
  | .emptyEnum => "enums must have at least one value"
  | .nonzeroFirstValue => "the first value for proto3 enums must be 0"
  | .importMissing name => s!"imported file '{name}' has not been added"
  | .importIndex => "invalid import index"
  | .fieldNumber n => s!"invalid field number '{n}'"
  | .reservedNumber n first last =>
      s!"field number '{n}' conflicts with reserved range '{first} to {last}'"
  | .extensionNumber n first last =>
      s!"field number '{n}' conflicts with extension range '{first} to {last}'"
  | .noExtensionNumber message n =>
      s!"message '{message}' does not define '{n}' as an extension number"
  | .missingTypeName path => s!"missing required field at {pathText path}"
  | .undefinedName name => s!"name '{name}' is not defined"
  | .shadowedName name resolved => s!"'{name}' resolves to '{resolved}', which is not defined"
  | .notAType name => s!"'{name}' is not a message or enum type"
  | .notAMessage name => s!"'{name}' is not a message type"
  | .invalidDefault value type => s!"invalid default value '{value}' for type '{type}'"
  | .oneofIndex => "invalid oneof index"
  | .numberTaken n => s!"field number '{n}' is already used"
  | .jsonNameTaken name => s!"a field with JSON name '{name}' is already defined"
  | .reservedEnumNumber n first last =>
      s!"enum number '{n}' conflicts with reserved range '{first} to {last}'"
  | .enumNumberTaken n => s!"enum number '{n}' has already been used"

end LinkError

end AliasErasure
