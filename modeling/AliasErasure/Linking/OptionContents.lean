import AliasErasure.Linking.References
import AliasErasure.Descriptor.Records
import AliasErasure.Wire.Encode
import AliasErasure.Wire.Readable

set_option autoImplicit false

/-! # The contents of options

Linked files may declare the messages of options themselves, by their well-known names. Options are
then messages of these types, and their wire form must be one that can be read as such. Where a
file set does not declare the type of some options, the usual declaration holds, and options always
agree with it.
-/

namespace AliasErasure

open Wire Descriptor

/-! ## Fields of linked messages -/

/-- The shape of scalars of a kind. -/
def scalarShape : Kind → ScalarShape
  | .double | .fixed64 | .sfixed64 => .fixed64
  | .float | .fixed32 | .sfixed32 => .fixed32
  | .string => .text
  | .bytes => .bytes
  | _ => .varint

/-- Whether a name stands for the entries of a map. -/
def isMapEntry (table : NameTable) (name : String) : Bool :=
  match table[name]? with
  | some ⟨_, .message m⟩ => (m.options.bind (·.mapEntry)).getD false
  | _ => false

/-- The shape of the field or extension that stands in `scope` of the file at position `i`. Its type
must have been checked. A repeated field of map entries is a map, whether it is declared as one of
messages or of groups. -/
def fieldShape? (files : List FileProto) (table : NameTable) (i : Nat) (scope : String)
    (f : FieldProto) : Option (FieldShape String) :=
  let repeated := Cardinality.ofProto f.label == .repeated
  match linkType (contextAt files table i) scope [] f with
  | .ok (.scalar kind) => some ⟨.scalar (scalarShape kind), repeated⟩
  | .ok (.enum ..) => some ⟨.scalar .varint, repeated⟩
  | .ok (.message name) =>
      if repeated ∧ isMapEntry table name then some ⟨.entry name, repeated⟩
      else if Kind.ofProto f.type = .group then some ⟨.group name, repeated⟩
      else some ⟨.message name, repeated⟩
  | .error _ => none

/-- The extensions of a message with their scopes and the positions of their files. -/
def extensionsOf (files : List FileProto) (table : NameTable) (message : String) :
    List (Nat × String × FieldProto) :=
  files.zipIdx.flatMap fun (file, i) =>
    (fileSites file).filterMap fun
      | .extension scope _ f =>
          match refer (contextAt files table i) Subject.isMessage .notAMessage scope
              (f.extendee.getD "") with
          | .ok (full, _) => if full = message then some (i, scope, f) else none
          | .error _ => none
      | _ => none

/-- The shape of the field of a message with the given number: a field of its own, or else an
extension. -/
def shapeAt? (files : List FileProto) (table : NameTable) (message : String) (number : Nat) :
    Option (FieldShape String) :=
  let isNumbered (f : FieldProto) : Bool := (f.number.getD 0).toInt == number
  match table[message]? with
  | some ⟨i, .message m⟩ =>
      match m.field.find? isNumbered with
      | some f => fieldShape? files table i (scopedName message f.name) f
      | none =>
          match (extensionsOf files table message).find? fun e => isNumbered e.2.2 with
          | some (i, scope, f) => fieldShape? files table i scope f
          | none => none
  | _ => none

/-! ## Options of declarations -/

/-- The options that are set on a site of a file, with the name of their type. -/
def Site.options? (file : FileProto) : Site → Option (String × Record)
  | .file => file.options.map fun o => ("google.protobuf.FileOptions", o.toRecord)
  | .message _ m => m.options.map fun o => ("google.protobuf.MessageOptions", o.toRecord)
  | .field _ _ _ _ _ f | .extension _ _ f =>
      f.options.map fun o => ("google.protobuf.FieldOptions", o.toRecord)
  | .enum _ e => e.options.map fun o => ("google.protobuf.EnumOptions", o.toRecord)
  | .enumValue _ _ _ v => v.options.map fun o => ("google.protobuf.EnumValueOptions", o.toRecord)
  | .service _ s => s.options.map fun o => ("google.protobuf.ServiceOptions", o.toRecord)
  | .method _ m => m.options.map fun o => ("google.protobuf.MethodOptions", o.toRecord)
  | .oneof _ => none

/-- Whether options can be read as the type with the given name, if the files declare it. -/
def isReadableAs (files : List FileProto) (table : NameTable) (name : String) (options : Record) :
    Bool :=
  match table[name]? with
  | some ⟨_, .message _⟩ => isReadable (shapeAt? files table) name (encodeRecord options)
  | _ => true

/-- The errors in the options of all sites of some files. -/
def optionErrors (files : List FileProto) (table : NameTable) : List LinkError :=
  files.flatMap fun f =>
    (fileSites f).filterMap fun site =>
      match site.options? f with
      | some (name, options) =>
          if isReadableAs files table name options then none else some .unreadable
      | none => none

end AliasErasure
