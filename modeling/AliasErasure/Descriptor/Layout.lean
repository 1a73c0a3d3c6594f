import AliasErasure.Wire.Layout

set_option autoImplicit false

/-! # The layout of descriptors

Numbers, names and types of the fields of all descriptor messages.
-/

namespace AliasErasure.Descriptor

open Wire

/-- The message types. -/
inductive MessageType where
  | namePart
  | uninterpretedOption
  | fileOptions
  | messageOptions
  | fieldOptions
  | oneofOptions
  | enumOptions
  | enumValueOptions
  | serviceOptions
  | methodOptions
  | extensionRangeOptions
  | fieldProto
  | oneofProto
  | enumValueProto
  | enumReservedRange
  | enumProto
  | extensionRange
  | reservedRange
  | messageProto
  | methodProto
  | serviceProto
  | location
  | sourceInfo
  | fileProto
  | fileSet
  | version
  | request
  | responseFile
  | response
  | editionRange
  deriving DecidableEq, Repr

/-- The name of a message type. -/
def MessageType.title : MessageType → String
  | .namePart => "NamePart"
  | .uninterpretedOption => "UninterpretedOption"
  | .fileOptions => "FileOptions"
  | .messageOptions => "MessageOptions"
  | .fieldOptions => "FieldOptions"
  | .oneofOptions => "OneofOptions"
  | .enumOptions => "EnumOptions"
  | .enumValueOptions => "EnumValueOptions"
  | .serviceOptions => "ServiceOptions"
  | .methodOptions => "MethodOptions"
  | .extensionRangeOptions => "ExtensionRangeOptions"
  | .fieldProto => "FieldDescriptorProto"
  | .oneofProto => "OneofDescriptorProto"
  | .enumValueProto => "EnumValueDescriptorProto"
  | .enumReservedRange => "EnumReservedRange"
  | .enumProto => "EnumDescriptorProto"
  | .extensionRange => "ExtensionRange"
  | .reservedRange => "ReservedRange"
  | .messageProto => "DescriptorProto"
  | .methodProto => "MethodDescriptorProto"
  | .serviceProto => "ServiceDescriptorProto"
  | .location => "Location"
  | .sourceInfo => "SourceCodeInfo"
  | .fileProto => "FileDescriptorProto"
  | .fileSet => "FileDescriptorSet"
  | .version => "Version"
  | .request => "CodeGeneratorRequest"
  | .responseFile => "File"
  | .response => "CodeGeneratorResponse"
  | .editionRange => "EditionRange"

/-- The field of unresolved options, which all option messages have. -/
def uninterpreted : FieldLayout MessageType :=
  .subs 999 "uninterpreted_option" .uninterpretedOption

/-- The fields of a message type, by ascending number. -/
def MessageType.fields : MessageType → List (FieldLayout MessageType)
  | .namePart => [.one 1 "name_part" .text, .one 2 "is_extension" .bool]
  | .uninterpretedOption =>
      [.subs 2 "name" .namePart, .one 3 "identifier_value" .text,
       .one 4 "positive_int_value" .uint64, .one 5 "negative_int_value" .int64,
       .one 6 "double_value" .double, .one 7 "string_value" .bytes,
       .one 8 "aggregate_value" .text]
  | .fileOptions =>
      [.one 1 "java_package" .text, .one 8 "java_outer_classname" .text,
       .one 9 "optimize_for" .int32, .one 10 "java_multiple_files" .bool,
       .one 11 "go_package" .text, .one 16 "cc_generic_services" .bool,
       .one 17 "java_generic_services" .bool, .one 18 "py_generic_services" .bool,
       .one 20 "java_generate_equals_and_hash" .bool, .one 23 "deprecated" .bool,
       .one 27 "java_string_check_utf8" .bool, .one 31 "cc_enable_arenas" .bool,
       .one 36 "objc_class_prefix" .text, .one 37 "csharp_namespace" .text,
       .one 39 "swift_prefix" .text, .one 40 "php_class_prefix" .text,
       .one 41 "php_namespace" .text, .one 42 "php_generic_services" .bool,
       .one 44 "php_metadata_namespace" .text, .one 45 "ruby_package" .text, uninterpreted]
  | .messageOptions =>
      [.one 1 "message_set_wire_format" .bool, .one 2 "no_standard_descriptor_accessor" .bool,
       .one 3 "deprecated" .bool, .one 7 "map_entry" .bool, uninterpreted]
  | .fieldOptions =>
      [.one 1 "ctype" .int32, .one 2 "packed" .bool, .one 3 "deprecated" .bool,
       .one 5 "lazy" .bool, .one 6 "jstype" .int32, .one 10 "weak" .bool, uninterpreted]
  | .oneofOptions => [uninterpreted]
  | .enumOptions => [.one 2 "allow_alias" .bool, .one 3 "deprecated" .bool, uninterpreted]
  | .enumValueOptions => [.one 1 "deprecated" .bool, uninterpreted]
  | .serviceOptions => [.one 33 "deprecated" .bool, uninterpreted]
  | .methodOptions =>
      [.one 33 "deprecated" .bool, .one 34 "idempotency_level" .int32, uninterpreted]
  | .extensionRangeOptions => [uninterpreted]
  | .fieldProto =>
      [.one 1 "name" .text, .one 2 "extendee" .text, .one 3 "number" .int32,
       .one 4 "label" .int32, .one 5 "type" .int32, .one 6 "type_name" .text,
       .one 7 "default_value" .text, .sub 8 "options" .fieldOptions, .one 9 "oneof_index" .int32,
       .one 10 "json_name" .text, .one 17 "proto3_optional" .bool]
  | .oneofProto => [.one 1 "name" .text, .sub 2 "options" .oneofOptions]
  | .enumValueProto =>
      [.one 1 "name" .text, .one 2 "number" .int32, .sub 3 "options" .enumValueOptions]
  | .enumReservedRange => [.one 1 "start" .int32, .one 2 "end" .int32]
  | .enumProto =>
      [.one 1 "name" .text, .subs 2 "value" .enumValueProto, .sub 3 "options" .enumOptions,
       .subs 4 "reserved_range" .enumReservedRange, .many 5 "reserved_name" .text]
  | .extensionRange =>
      [.one 1 "start" .int32, .one 2 "end" .int32, .sub 3 "options" .extensionRangeOptions]
  | .reservedRange => [.one 1 "start" .int32, .one 2 "end" .int32]
  | .messageProto =>
      [.one 1 "name" .text, .subs 2 "field" .fieldProto, .subs 3 "nested_type" .messageProto,
       .subs 4 "enum_type" .enumProto, .subs 5 "extension_range" .extensionRange,
       .subs 6 "extension" .fieldProto, .sub 7 "options" .messageOptions,
       .subs 8 "oneof_decl" .oneofProto, .subs 9 "reserved_range" .reservedRange,
       .many 10 "reserved_name" .text]
  | .methodProto =>
      [.one 1 "name" .text, .one 2 "input_type" .text, .one 3 "output_type" .text,
       .sub 4 "options" .methodOptions, .one 5 "client_streaming" .bool,
       .one 6 "server_streaming" .bool]
  | .serviceProto =>
      [.one 1 "name" .text, .subs 2 "method" .methodProto, .sub 3 "options" .serviceOptions]
  | .location =>
      [.many 1 "path" .int32, .many 2 "span" .int32, .one 3 "leading_comments" .text,
       .one 4 "trailing_comments" .text, .many 6 "leading_detached_comments" .text]
  | .sourceInfo => [.subs 1 "location" .location]
  | .fileProto =>
      [.one 1 "name" .text, .one 2 "package" .text, .many 3 "dependency" .text,
       .subs 4 "message_type" .messageProto, .subs 5 "enum_type" .enumProto,
       .subs 6 "service" .serviceProto, .subs 7 "extension" .fieldProto,
       .sub 8 "options" .fileOptions, .sub 9 "source_code_info" .sourceInfo,
       .many 10 "public_dependency" .int32, .many 11 "weak_dependency" .int32,
       .one 12 "syntax" .text]
  | .fileSet => [.subs 1 "file" .fileProto]
  | .version =>
      [.one 1 "major" .int32, .one 2 "minor" .int32, .one 3 "patch" .int32, .one 4 "suffix" .text]
  | .request =>
      [.many 1 "file_to_generate" .text, .one 2 "parameter" .text,
       .sub 3 "compiler_version" .version, .subs 15 "proto_file" .fileProto]
  | .responseFile =>
      [.one 1 "name" .text, .one 2 "insertion_point" .text, .one 15 "content" .text]
  | .response =>
      [.one 1 "error" .text, .one 2 "supported_features" .uint64, .subs 15 "file" .responseFile]
  | .editionRange => [.one 3 "minimum_edition" .int32, .one 4 "maximum_edition" .int32]

/-- Whether a message type is one of options. -/
def MessageType.isOptions : MessageType → Bool
  | .fileOptions | .messageOptions | .fieldOptions | .oneofOptions | .enumOptions
  | .enumValueOptions | .serviceOptions | .methodOptions | .extensionRangeOptions => true
  | _ => false

/-- The layout of descriptors. -/
def layout : Layout MessageType := ⟨MessageType.title, MessageType.fields⟩

end AliasErasure.Descriptor
