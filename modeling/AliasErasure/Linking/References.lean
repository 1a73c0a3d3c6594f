import AliasErasure.Linking.Lookup
import AliasErasure.Schema.Kind
import AliasErasure.Text.Numeral

set_option autoImplicit false

/-! # The rules that look at other declarations

Imports, field numbers, types, default values, oneof indices, JSON names, enum numbers, method
types and extensions. Each rule gives the errors of one site; the first error of a site is the one
of the first rule it breaks.
-/

namespace AliasErasure

open Descriptor

/-! ## References -/

/-- Whether a name stands for a type of fields. -/
def Subject.isType : Subject → Bool
  | .message _ | .enum _ => true
  | _ => false

/-- Whether a name stands for a message. -/
def Subject.isMessage : Subject → Bool
  | .message _ => true
  | _ => false

/-- A reference to a declaration accepted by `accepts`, or why it is none. `wrongSort` words the
error of a declaration of another sort. -/
def refer (ctx : LinkContext) (accepts : Subject → Bool) (wrongSort : String → LinkError)
    (scope name : String) : Except LinkError (String × Subject) :=
  match lookup ctx accepts scope name with
  | .found full subject => .ok (full, subject)
  | .wrongSort full => .error (wrongSort full)
  | .hidden full => .error (.undefinedName full)
  | .shadowed full => .error (.shadowedName name full)
  | .missing => .error (.undefinedName name)

/-- The error of an outcome, as a list. -/
def errorOf {α : Type} : Except LinkError α → List LinkError
  | .ok _ => []
  | .error e => [e]

/-! ## Files -/

/-- Whether an index is that of one of `count` elements. -/
def isPosition (count : Nat) (i : Int32) : Bool := 0 ≤ i.toInt && i.toInt < count

/-- The errors in the imports of a file. -/
def importErrors (files : List FileProto) (f : FileProto) : List LinkError :=
  let missing := f.dependency.filter fun name => (filePosition? files name).isNone
  let wrong := (f.publicDependency ++ f.weakDependency).filter fun i =>
    !isPosition f.dependency.length i
  missing.map .importMissing ++ wrong.map fun _ => .importIndex

/-! ## Fields -/

/-- Whether a number lies in a range that excludes its end. -/
def isWithin (start stop : Option Int32) (n : Int32) : Bool :=
  decide (start.getD 0 ≤ n) && decide (n < stop.getD 0)

/-- Whether a number may be a field number at all. -/
def isFieldNumber (n : Int32) : Bool :=
  decide (1 ≤ n ∧ n ≤ 536870911) && !decide (19000 ≤ n ∧ n ≤ 19999)

/-- The errors in the number of a field of a message, or of an extension of it. -/
def numberErrors (name : String) (m : MessageProto) (f : FieldProto) : List LinkError :=
  let n := f.number.getD 0
  let reserved := m.reservedRange.filter fun r => isWithin r.start r.stop n
  let extensions := m.extensionRange.filter fun r => isWithin r.start r.stop n
  (if isFieldNumber n then [] else [.fieldNumber n]) ++
    (reserved.map fun r => .reservedNumber n (r.start.getD 0) (r.stop.getD 0 - 1)) ++
    if f.extendee.isNone then
      extensions.map fun r => .extensionNumber n (r.start.getD 0) (r.stop.getD 0 - 1)
    else if extensions.isEmpty then [.noExtensionNumber name n]
    else []

/-- The type of a field after its reference has been looked up. -/
inductive LinkedType where
  | scalar (kind : Kind)
  | message (name : String)
  | enum (name : String) (e : EnumProto)

/-- The type of a field. A field with a type name has the type of this name whatever kind it
declares; `path` leads to the descriptor of the field. -/
def linkType (ctx : LinkContext) (scope : String) (path : List Int32) (f : FieldProto) :
    Except LinkError LinkedType :=
  let typeName := f.typeName.getD ""
  let kind := Kind.ofProto f.type
  if typeName = "" then
    if kind.isNamed then .error (.missingTypeName (path ++ [6])) else .ok (.scalar kind)
  else
    match refer ctx Subject.isType .notAType scope typeName with
    | .error e => .error e
    | .ok (full, .enum e) => .ok (.enum full e)
    | .ok (full, _) => .ok (.message full)

/-- Whether a text is a value of a scalar kind. -/
def isDefaultOf (value : String) : Kind → Bool
  | .double | .float => Text.isFloat value.toList
  | .int32 | .sint32 | .sfixed32 => Text.isIntegerWithin (-0x80000000) 0x7fffffff value.toList
  | .int64 | .sint64 | .sfixed64 =>
      Text.isIntegerWithin (-0x8000000000000000) 0x7fffffffffffffff value.toList
  | .uint32 | .fixed32 => Text.isIntegerWithin 0 0xffffffff value.toList
  | .uint64 | .fixed64 => Text.isIntegerWithin 0 0xffffffffffffffff value.toList
  | .bool => Text.isTruthValue value
  | .string => true
  | .bytes => Text.isCEscaped value.toList
  | .group | .message | .enum => false

/-- The errors in a default value. -/
def defaultErrors (value : String) : LinkedType → List LinkError
  | .scalar kind =>
      if isDefaultOf value kind then [] else [.invalidDefault value kind.name]
  | .message _ => [.invalidDefault value "message type"]
  | .enum name e =>
      if e.value.any fun v => v.name.getD "" == value then [] else [.invalidDefault value name]

/-- The errors in the type and the default value of a field. -/
def typeErrors (ctx : LinkContext) (scope : String) (path : List Int32) (f : FieldProto) :
    List LinkError :=
  match linkType ctx scope path f with
  | .error e => [e]
  | .ok type =>
      match f.defaultValue with
      | none => []
      | some value => defaultErrors value type

/-- The name of a field in JSON: the given one, or the one that follows from its name. -/
def jsonNameOf (f : FieldProto) : String := f.jsonName.getD (Text.lowerCamel (f.name.getD ""))

/-- The errors of the field at a position of a message. -/
def fieldErrors (ctx : LinkContext) (name : String) (path : List Int32) (owner : String)
    (m : MessageProto) (position : Nat) (f : FieldProto) : List LinkError :=
  let earlier := m.field.take position
  numberErrors owner m f ++ typeErrors ctx name path f ++
    (match f.oneofIndex with
      | none => []
      | some i => if isPosition m.oneofDecl.length i then [] else [.oneofIndex]) ++
    (if earlier.any fun g => g.number.getD 0 == f.number.getD 0 then
      [.numberTaken (f.number.getD 0)] else []) ++
    if earlier.any fun g => jsonNameOf g == jsonNameOf f then
      [.jsonNameTaken (f.jsonName.getD "")] else []

/-! ## Enums, methods and extensions -/

/-- The errors of the value at a position of an enum. -/
def enumValueErrors (e : EnumProto) (position : Nat) (v : EnumValueProto) : List LinkError :=
  let n := v.number.getD 0
  let reserved := e.reservedRange.filter fun r =>
    decide (r.start.getD 0 ≤ n) && decide (n ≤ r.stop.getD 0)
  let aliased := (e.options.bind (·.allowAlias)).getD false
  (reserved.map fun r => .reservedEnumNumber n (r.start.getD 0) (r.stop.getD 0)) ++
    if !aliased && (e.value.take position).any fun w => w.number.getD 0 == n then
      [.enumNumberTaken n] else []

/-- The errors in the types of a method. -/
def methodErrors (ctx : LinkContext) (name : String) (m : MethodProto) : List LinkError :=
  [m.inputType, m.outputType].flatMap fun type =>
    errorOf (refer ctx Subject.isMessage .notAMessage name (type.getD ""))

/-- The errors of an extension. -/
def extensionErrors (ctx : LinkContext) (name : String) (path : List Int32) (f : FieldProto) :
    List LinkError :=
  (match refer ctx Subject.isMessage .notAMessage name (f.extendee.getD "") with
    | .error e => [e]
    | .ok (full, .message m) => numberErrors full m f
    | .ok _ => []) ++
    typeErrors ctx name path f

/-! ## Sites -/

/-- The errors of a site of a file. -/
def Site.errors (files : List FileProto) (ctx : LinkContext) (file : FileProto) :
    Site → List LinkError
  | .file => importErrors files file
  | .field name path owner m position f => fieldErrors ctx name path owner m position f
  | .enumValue _ e position v => enumValueErrors e position v
  | .method name m => methodErrors ctx name m
  | .extension name path f => extensionErrors ctx name path f
  | .message .. | .oneof _ | .enum .. | .service .. => []

/-- What references in the file at position `i` are checked against. -/
def contextAt (files : List FileProto) (table : NameTable) (i : Nat) : LinkContext :=
  ⟨table, visibleFiles files i⟩

/-- The errors of all sites of some files. -/
def referenceErrors (files : List FileProto) (table : NameTable) : List LinkError :=
  files.zipIdx.flatMap fun (f, i) =>
    (fileSites f).flatMap (Site.errors files (contextAt files table i) f)

end AliasErasure
