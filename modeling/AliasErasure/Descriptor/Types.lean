import AliasErasure.Wire.Record

set_option autoImplicit false

/-! # Descriptors

A schema compiler describes schemas by messages of a fixed format, the descriptors, and hands
them to generators. The types below are these messages. An `Option` field may be unset, which is
not the same as set to the empty value; enum-valued fields hold the raw number, known or not.
-/

namespace AliasErasure.Descriptor

open Wire (Double)

/-! ## Options -/

/-- A part of the name of an option, which is in parentheses when it names an extension. -/
structure NamePart where
  namePart : String := ""
  isExtension : Bool := false
  deriving DecidableEq

/-- An option whose name has not been resolved yet. -/
structure UninterpretedOption where
  name : List NamePart := []
  identifierValue : Option String := none
  positiveIntValue : Option UInt64 := none
  negativeIntValue : Option Int64 := none
  doubleValue : Option Double := none
  stringValue : Option (List UInt8) := none
  aggregateValue : Option String := none
  deriving DecidableEq

/-- Options of a file. -/
structure FileOptions where
  javaPackage : Option String := none
  javaOuterClassname : Option String := none
  optimizeFor : Option Int32 := none
  javaMultipleFiles : Option Bool := none
  goPackage : Option String := none
  ccGenericServices : Option Bool := none
  javaGenericServices : Option Bool := none
  pyGenericServices : Option Bool := none
  javaGenerateEqualsAndHash : Option Bool := none
  deprecated : Option Bool := none
  javaStringCheckUtf8 : Option Bool := none
  ccEnableArenas : Option Bool := none
  objcClassPrefix : Option String := none
  csharpNamespace : Option String := none
  swiftPrefix : Option String := none
  phpClassPrefix : Option String := none
  phpNamespace : Option String := none
  phpGenericServices : Option Bool := none
  phpMetadataNamespace : Option String := none
  rubyPackage : Option String := none
  uninterpretedOption : List UninterpretedOption := []
  deriving DecidableEq

/-- Options of a message. -/
structure MessageOptions where
  messageSetWireFormat : Option Bool := none
  noStandardDescriptorAccessor : Option Bool := none
  deprecated : Option Bool := none
  mapEntry : Option Bool := none
  uninterpretedOption : List UninterpretedOption := []
  deriving DecidableEq

/-- Options of a field. -/
structure FieldOptions where
  ctype : Option Int32 := none
  packed : Option Bool := none
  deprecated : Option Bool := none
  lazy : Option Bool := none
  jstype : Option Int32 := none
  weak : Option Bool := none
  uninterpretedOption : List UninterpretedOption := []
  deriving DecidableEq

/-- Options of a oneof. -/
structure OneofOptions where
  uninterpretedOption : List UninterpretedOption := []
  deriving DecidableEq

/-- Options of an enum. -/
structure EnumOptions where
  allowAlias : Option Bool := none
  deprecated : Option Bool := none
  uninterpretedOption : List UninterpretedOption := []
  deriving DecidableEq

/-- Options of an enum value. -/
structure EnumValueOptions where
  deprecated : Option Bool := none
  uninterpretedOption : List UninterpretedOption := []
  deriving DecidableEq

/-- Options of a service. -/
structure ServiceOptions where
  deprecated : Option Bool := none
  uninterpretedOption : List UninterpretedOption := []
  deriving DecidableEq

/-- Options of a method. -/
structure MethodOptions where
  deprecated : Option Bool := none
  idempotencyLevel : Option Int32 := none
  uninterpretedOption : List UninterpretedOption := []
  deriving DecidableEq

/-- Options of an extension range. -/
structure ExtensionRangeOptions where
  uninterpretedOption : List UninterpretedOption := []
  deriving DecidableEq

/-! ## Declarations -/

/-- A field, or an extension when `extendee` is set. -/
structure FieldProto where
  name : Option String := none
  extendee : Option String := none
  number : Option Int32 := none
  label : Option Int32 := none
  type : Option Int32 := none
  typeName : Option String := none
  defaultValue : Option String := none
  options : Option FieldOptions := none
  oneofIndex : Option Int32 := none
  jsonName : Option String := none
  proto3Optional : Option Bool := none
  deriving DecidableEq

/-- A oneof. -/
structure OneofProto where
  name : Option String := none
  options : Option OneofOptions := none
  deriving DecidableEq

/-- A value of an enum. -/
structure EnumValueProto where
  name : Option String := none
  number : Option Int32 := none
  options : Option EnumValueOptions := none
  deriving DecidableEq

/-- Reserved numbers of an enum, both ends included. -/
structure EnumReservedRange where
  start : Option Int32 := none
  stop : Option Int32 := none
  deriving DecidableEq

/-- An enum. -/
structure EnumProto where
  name : Option String := none
  value : List EnumValueProto := []
  options : Option EnumOptions := none
  reservedRange : List EnumReservedRange := []
  reservedName : List String := []
  deriving DecidableEq

/-- Field numbers of a message that extensions may take, `stop` excluded. -/
structure ExtensionRange where
  start : Option Int32 := none
  stop : Option Int32 := none
  options : Option ExtensionRangeOptions := none
  deriving DecidableEq

/-- Reserved field numbers of a message, `stop` excluded. -/
structure ReservedRange where
  start : Option Int32 := none
  stop : Option Int32 := none
  deriving DecidableEq

/-- A message. -/
structure MessageProto where
  name : Option String := none
  field : List FieldProto := []
  nestedType : List MessageProto := []
  enumType : List EnumProto := []
  extensionRange : List ExtensionRange := []
  extension : List FieldProto := []
  options : Option MessageOptions := none
  oneofDecl : List OneofProto := []
  reservedRange : List ReservedRange := []
  reservedName : List String := []

/-- A method of a service. -/
structure MethodProto where
  name : Option String := none
  inputType : Option String := none
  outputType : Option String := none
  options : Option MethodOptions := none
  clientStreaming : Option Bool := none
  serverStreaming : Option Bool := none
  deriving DecidableEq

/-- A service. -/
structure ServiceProto where
  name : Option String := none
  method : List MethodProto := []
  options : Option ServiceOptions := none
  deriving DecidableEq

/-! ## Files -/

/-- The place of a declaration in the source, with the comments around it. `path` leads to the
declaration: field numbers alternate with list positions. -/
structure Location where
  path : List Int32 := []
  span : List Int32 := []
  leadingComments : Option String := none
  trailingComments : Option String := none
  leadingDetachedComments : List String := []
  deriving DecidableEq

/-- The places of the declarations of a file. -/
structure SourceInfo where
  location : List Location := []
  deriving DecidableEq

/-- A schema file. -/
structure FileProto where
  name : Option String := none
  package : Option String := none
  dependency : List String := []
  messageType : List MessageProto := []
  enumType : List EnumProto := []
  service : List ServiceProto := []
  extension : List FieldProto := []
  options : Option FileOptions := none
  sourceCodeInfo : Option SourceInfo := none
  publicDependency : List Int32 := []
  weakDependency : List Int32 := []
  syntaxName : Option String := none

/-! ## Requests and responses -/

/-- The version of the compiler that sends a request. -/
structure Version where
  major : Option Int32 := none
  minor : Option Int32 := none
  patch : Option Int32 := none
  suffix : Option String := none
  deriving DecidableEq

/-- What the compiler asks of a generator. -/
structure Request where
  fileToGenerate : List String := []
  parameter : Option String := none
  compilerVersion : Option Version := none
  protoFile : List FileProto := []

/-- A generated file. -/
structure ResponseFile where
  name : Option String := none
  insertionPoint : Option String := none
  content : Option String := none
  deriving DecidableEq

/-- What a generator answers. -/
structure Response where
  error : Option String := none
  supportedFeatures : Option UInt64 := none
  file : List ResponseFile := []
  deriving DecidableEq

/-- The editions a generator accepts, two further fields of a response. -/
structure EditionRange where
  minimumEdition : Option Int32 := none
  maximumEdition : Option Int32 := none
  deriving DecidableEq

end AliasErasure.Descriptor
