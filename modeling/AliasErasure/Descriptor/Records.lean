import AliasErasure.Descriptor.Layout
import AliasErasure.Descriptor.Types
import AliasErasure.Wire.Form

set_option autoImplicit false

/-! # Descriptors as records

Every descriptor type has a form, which lists its fields by ascending number. Descriptors are
written to records and read from them by their forms. Messages are nested in one another, which
takes a recursion of its own.
-/

namespace AliasErasure.Descriptor

open Wire

/-! ## Options -/

def NamePart.form : Form layout .namePart NamePart where
  fields := Fields.make (S := NamePart) NamePart.mk
    |>.field 1 (.required .text "") (·.namePart)
    |>.field 2 (.required .bool false) (·.isExtension)

def UninterpretedOption.form : Form layout .uninterpretedOption UninterpretedOption where
  fields := Fields.make (S := UninterpretedOption) UninterpretedOption.mk
    |>.field 2 (.subs NamePart.form) (·.name)
    |>.field 3 (.one .text) (·.identifierValue)
    |>.field 4 (.one .uint64) (·.positiveIntValue)
    |>.field 5 (.one .int64) (·.negativeIntValue)
    |>.field 6 (.one .double) (·.doubleValue)
    |>.field 7 (.one .bytes) (·.stringValue)
    |>.field 8 (.one .text) (·.aggregateValue)

def FileOptions.form : Form layout .fileOptions FileOptions where
  fields := Fields.make (S := FileOptions) FileOptions.mk
    |>.field 1 (.one .text) (·.javaPackage)
    |>.field 8 (.one .text) (·.javaOuterClassname)
    |>.field 9 (.one .int32) (·.optimizeFor)
    |>.field 10 (.one .bool) (·.javaMultipleFiles)
    |>.field 11 (.one .text) (·.goPackage)
    |>.field 16 (.one .bool) (·.ccGenericServices)
    |>.field 17 (.one .bool) (·.javaGenericServices)
    |>.field 18 (.one .bool) (·.pyGenericServices)
    |>.field 20 (.one .bool) (·.javaGenerateEqualsAndHash)
    |>.field 23 (.one .bool) (·.deprecated)
    |>.field 27 (.one .bool) (·.javaStringCheckUtf8)
    |>.field 31 (.one .bool) (·.ccEnableArenas)
    |>.field 36 (.one .text) (·.objcClassPrefix)
    |>.field 37 (.one .text) (·.csharpNamespace)
    |>.field 39 (.one .text) (·.swiftPrefix)
    |>.field 40 (.one .text) (·.phpClassPrefix)
    |>.field 41 (.one .text) (·.phpNamespace)
    |>.field 42 (.one .bool) (·.phpGenericServices)
    |>.field 44 (.one .text) (·.phpMetadataNamespace)
    |>.field 45 (.one .text) (·.rubyPackage)
    |>.field 999 (.subs UninterpretedOption.form) (·.uninterpretedOption)

abbrev FileOptions.toRecord (m : FileOptions) : Record := form.write m

def MessageOptions.form : Form layout .messageOptions MessageOptions where
  fields := Fields.make (S := MessageOptions) MessageOptions.mk
    |>.field 1 (.one .bool) (·.messageSetWireFormat)
    |>.field 2 (.one .bool) (·.noStandardDescriptorAccessor)
    |>.field 3 (.one .bool) (·.deprecated)
    |>.field 7 (.one .bool) (·.mapEntry)
    |>.field 999 (.subs UninterpretedOption.form) (·.uninterpretedOption)

abbrev MessageOptions.toRecord (m : MessageOptions) : Record := form.write m

def FieldOptions.form : Form layout .fieldOptions FieldOptions where
  fields := Fields.make (S := FieldOptions) FieldOptions.mk
    |>.field 1 (.one .int32) (·.ctype)
    |>.field 2 (.one .bool) (·.packed)
    |>.field 3 (.one .bool) (·.deprecated)
    |>.field 5 (.one .bool) (·.lazy)
    |>.field 6 (.one .int32) (·.jstype)
    |>.field 10 (.one .bool) (·.weak)
    |>.field 999 (.subs UninterpretedOption.form) (·.uninterpretedOption)

abbrev FieldOptions.toRecord (m : FieldOptions) : Record := form.write m

abbrev FieldOptions.ofRecord (r : Record) : FieldOptions := form.read r

def OneofOptions.form : Form layout .oneofOptions OneofOptions where
  fields := Fields.make (S := OneofOptions) OneofOptions.mk
    |>.field 999 (.subs UninterpretedOption.form) (·.uninterpretedOption)

def EnumOptions.form : Form layout .enumOptions EnumOptions where
  fields := Fields.make (S := EnumOptions) EnumOptions.mk
    |>.field 2 (.one .bool) (·.allowAlias)
    |>.field 3 (.one .bool) (·.deprecated)
    |>.field 999 (.subs UninterpretedOption.form) (·.uninterpretedOption)

abbrev EnumOptions.toRecord (m : EnumOptions) : Record := form.write m

def EnumValueOptions.form : Form layout .enumValueOptions EnumValueOptions where
  fields := Fields.make (S := EnumValueOptions) EnumValueOptions.mk
    |>.field 1 (.one .bool) (·.deprecated)
    |>.field 999 (.subs UninterpretedOption.form) (·.uninterpretedOption)

abbrev EnumValueOptions.toRecord (m : EnumValueOptions) : Record := form.write m

def ServiceOptions.form : Form layout .serviceOptions ServiceOptions where
  fields := Fields.make (S := ServiceOptions) ServiceOptions.mk
    |>.field 33 (.one .bool) (·.deprecated)
    |>.field 999 (.subs UninterpretedOption.form) (·.uninterpretedOption)

abbrev ServiceOptions.toRecord (m : ServiceOptions) : Record := form.write m

def MethodOptions.form : Form layout .methodOptions MethodOptions where
  fields := Fields.make (S := MethodOptions) MethodOptions.mk
    |>.field 33 (.one .bool) (·.deprecated)
    |>.field 34 (.one .int32) (·.idempotencyLevel)
    |>.field 999 (.subs UninterpretedOption.form) (·.uninterpretedOption)

abbrev MethodOptions.toRecord (m : MethodOptions) : Record := form.write m

def ExtensionRangeOptions.form : Form layout .extensionRangeOptions ExtensionRangeOptions where
  fields := Fields.make (S := ExtensionRangeOptions) ExtensionRangeOptions.mk
    |>.field 999 (.subs UninterpretedOption.form) (·.uninterpretedOption)

/-! ## Declarations -/

def FieldProto.form : Form layout .fieldProto FieldProto where
  fields := Fields.make (S := FieldProto) FieldProto.mk
    |>.field 1 (.one .text) (·.name)
    |>.field 2 (.one .text) (·.extendee)
    |>.field 3 (.one .int32) (·.number)
    |>.field 4 (.one .int32) (·.label)
    |>.field 5 (.one .int32) (·.type)
    |>.field 6 (.one .text) (·.typeName)
    |>.field 7 (.one .text) (·.defaultValue)
    |>.field 8 (.sub FieldOptions.form) (·.options)
    |>.field 9 (.one .int32) (·.oneofIndex)
    |>.field 10 (.one .text) (·.jsonName)
    |>.field 17 (.one .bool) (·.proto3Optional)

abbrev FieldProto.toRecord (m : FieldProto) : Record := form.write m

abbrev FieldProto.ofRecord (r : Record) : FieldProto := form.read r

def OneofProto.form : Form layout .oneofProto OneofProto where
  fields := Fields.make (S := OneofProto) OneofProto.mk
    |>.field 1 (.one .text) (·.name)
    |>.field 2 (.sub OneofOptions.form) (·.options)

def EnumValueProto.form : Form layout .enumValueProto EnumValueProto where
  fields := Fields.make (S := EnumValueProto) EnumValueProto.mk
    |>.field 1 (.one .text) (·.name)
    |>.field 2 (.one .int32) (·.number)
    |>.field 3 (.sub EnumValueOptions.form) (·.options)

def EnumReservedRange.form : Form layout .enumReservedRange EnumReservedRange where
  fields := Fields.make (S := EnumReservedRange) EnumReservedRange.mk
    |>.field 1 (.one .int32) (·.start)
    |>.field 2 (.one .int32) (·.stop)

def EnumProto.form : Form layout .enumProto EnumProto where
  fields := Fields.make (S := EnumProto) EnumProto.mk
    |>.field 1 (.one .text) (·.name)
    |>.field 2 (.subs EnumValueProto.form) (·.value)
    |>.field 3 (.sub EnumOptions.form) (·.options)
    |>.field 4 (.subs EnumReservedRange.form) (·.reservedRange)
    |>.field 5 (.many .text) (·.reservedName)

def ExtensionRange.form : Form layout .extensionRange ExtensionRange where
  fields := Fields.make (S := ExtensionRange) ExtensionRange.mk
    |>.field 1 (.one .int32) (·.start)
    |>.field 2 (.one .int32) (·.stop)
    |>.field 3 (.sub ExtensionRangeOptions.form) (·.options)

def ReservedRange.form : Form layout .reservedRange ReservedRange where
  fields := Fields.make (S := ReservedRange) ReservedRange.mk
    |>.field 1 (.one .int32) (·.start)
    |>.field 2 (.one .int32) (·.stop)

/-! ## Messages -/

/-- The fields of a message, with the part that its nested messages are left to. -/
def MessageProto.fields (nested : Part MessageType (List MessageProto)) :
    Fields MessageType MessageProto MessageProto :=
  Fields.make (S := MessageProto) MessageProto.mk
    |>.field 1 (.one .text) (·.name)
    |>.field 2 (.subs FieldProto.form) (·.field)
    |>.field 3 nested (·.nestedType)
    |>.field 4 (.subs EnumProto.form) (·.enumType)
    |>.field 5 (.subs ExtensionRange.form) (·.extensionRange)
    |>.field 6 (.subs FieldProto.form) (·.extension)
    |>.field 7 (.sub MessageOptions.form) (·.options)
    |>.field 8 (.subs OneofProto.form) (·.oneofDecl)
    |>.field 9 (.subs ReservedRange.form) (·.reservedRange)
    |>.field 10 (.many .text) (·.reservedName)

/-- The part of nested messages that have been written or read already: it is written as `written`
and read as `messages`. -/
def MessageProto.settled (written : List Value) (messages : List MessageProto) :
    Part MessageType (List MessageProto) where
  type := .message .messageProto
  isRepeated := true
  write _ := written
  read _ _ := messages
  read_congr _ := rfl

mutual

def MessageProto.toRecord : MessageProto → Record
  | m@{ nestedType := nested, .. } =>
      (MessageProto.fields (MessageProto.settled (nestedValues nested) [])).write m

/-- What nested messages are written as. -/
def nestedValues : List MessageProto → List Value
  | [] => []
  | m :: rest => .record m.toRecord :: nestedValues rest

end

/-- The message of a record whose nested messages are known already. -/
def MessageProto.ofRecordWith (nested : List MessageProto) (r : Record) : MessageProto :=
  (fields (settled [] nested)).read r

/-- The nested messages of a record. -/
def nestedOfRecord : List (Nat × Value) → List MessageProto
  | [] => []
  | (3, .record r) :: rest =>
      MessageProto.ofRecordWith (nestedOfRecord r) r :: nestedOfRecord rest
  | _ :: rest => nestedOfRecord rest

def MessageProto.ofRecord (r : Record) : MessageProto :=
  MessageProto.ofRecordWith (nestedOfRecord r) r

/-- The form of messages, with the nested ones as any other sub-messages. -/
def MessageProto.form : Form layout .messageProto MessageProto where
  fields := fields (.subsOf .messageProto toRecord ofRecord)
  remake_eq s := by cases s; rfl

/-! ## Files -/

def MethodProto.form : Form layout .methodProto MethodProto where
  fields := Fields.make (S := MethodProto) MethodProto.mk
    |>.field 1 (.one .text) (·.name)
    |>.field 2 (.one .text) (·.inputType)
    |>.field 3 (.one .text) (·.outputType)
    |>.field 4 (.sub MethodOptions.form) (·.options)
    |>.field 5 (.one .bool) (·.clientStreaming)
    |>.field 6 (.one .bool) (·.serverStreaming)

def ServiceProto.form : Form layout .serviceProto ServiceProto where
  fields := Fields.make (S := ServiceProto) ServiceProto.mk
    |>.field 1 (.one .text) (·.name)
    |>.field 2 (.subs MethodProto.form) (·.method)
    |>.field 3 (.sub ServiceOptions.form) (·.options)

def Location.form : Form layout .location Location where
  fields := Fields.make (S := Location) Location.mk
    |>.field 1 .packed (·.path)
    |>.field 2 .packed (·.span)
    |>.field 3 (.one .text) (·.leadingComments)
    |>.field 4 (.one .text) (·.trailingComments)
    |>.field 6 (.many .text) (·.leadingDetachedComments)

def SourceInfo.form : Form layout .sourceInfo SourceInfo where
  fields := Fields.make (S := SourceInfo) SourceInfo.mk
    |>.field 1 (.subs Location.form) (·.location)

def FileProto.form : Form layout .fileProto FileProto where
  fields := Fields.make (S := FileProto) FileProto.mk
    |>.field 1 (.one .text) (·.name)
    |>.field 2 (.one .text) (·.package)
    |>.field 3 (.many .text) (·.dependency)
    |>.field 4 (.subsOf .messageProto MessageProto.toRecord MessageProto.ofRecord) (·.messageType)
    |>.field 5 (.subs EnumProto.form) (·.enumType)
    |>.field 6 (.subs ServiceProto.form) (·.service)
    |>.field 7 (.subs FieldProto.form) (·.extension)
    |>.field 8 (.sub FileOptions.form) (·.options)
    |>.field 9 (.sub SourceInfo.form) (·.sourceCodeInfo)
    |>.field 10 .unpacked (·.publicDependency)
    |>.field 11 .unpacked (·.weakDependency)
    |>.field 12 (.one .text) (·.syntaxName)

abbrev FileProto.toRecord (m : FileProto) : Record := form.write m

abbrev FileProto.ofRecord (r : Record) : FileProto := form.read r

/-! ## Requests and responses -/

def Version.form : Form layout .version Version where
  fields := Fields.make (S := Version) Version.mk
    |>.field 1 (.one .int32) (·.major)
    |>.field 2 (.one .int32) (·.minor)
    |>.field 3 (.one .int32) (·.patch)
    |>.field 4 (.one .text) (·.suffix)

def Request.form : Form layout .request Request where
  fields := Fields.make (S := Request) Request.mk
    |>.field 1 (.many .text) (·.fileToGenerate)
    |>.field 2 (.one .text) (·.parameter)
    |>.field 3 (.sub Version.form) (·.compilerVersion)
    |>.field 15 (.subs FileProto.form) (·.protoFile)

abbrev Request.toRecord (m : Request) : Record := form.write m

abbrev Request.ofRecord (r : Record) : Request := form.read r

def ResponseFile.form : Form layout .responseFile ResponseFile where
  fields := Fields.make (S := ResponseFile) ResponseFile.mk
    |>.field 1 (.one .text) (·.name)
    |>.field 2 (.one .text) (·.insertionPoint)
    |>.field 15 (.one .text) (·.content)

def Response.form : Form layout .response Response where
  fields := Fields.make (S := Response) Response.mk
    |>.field 1 (.one .text) (·.error)
    |>.field 2 (.one .uint64) (·.supportedFeatures)
    |>.field 15 (.subs ResponseFile.form) (·.file)

abbrev Response.toRecord (m : Response) : Record := form.write m

abbrev Response.ofRecord (r : Record) : Response := form.read r

def EditionRange.form : Form layout .editionRange EditionRange where
  fields := Fields.make (S := EditionRange) EditionRange.mk
    |>.field 3 (.one .int32) (·.minimumEdition)
    |>.field 4 (.one .int32) (·.maximumEdition)

abbrev EditionRange.toRecord (m : EditionRange) : Record := form.write m

abbrev EditionRange.ofRecord (r : Record) : EditionRange := form.read r

end AliasErasure.Descriptor
