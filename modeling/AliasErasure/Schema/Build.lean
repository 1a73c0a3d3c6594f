import AliasErasure.Erasure.Marker
import AliasErasure.Event
import AliasErasure.Schema.Types

set_option autoImplicit false

/-! # From descriptors to the schema model

The model of a file has the shape of its descriptor: messages, nested messages, fields, oneofs and
enums in the same order. Qualified names are the package and the simple names on the way, each
after a dot. Comments come from the source locations of the descriptor, which name a declaration
by a path: field numbers of the descriptor format alternate with positions.
-/

namespace AliasErasure

open Descriptor

/-! ## Comments -/

/-- The comments of the declaration that `path` leads to: those of the last location with this
path. -/
def commentsAt (locations : List Location) (path : List Int32) : Comments :=
  match (locations.filter fun l => l.path == path).getLast? with
  | some l => ⟨l.leadingComments.getD "", l.trailingComments.getD ""⟩
  | none => {}

/-- What all declarations of a file share while its model is built. -/
structure FileContext where
  locations : List Location
  dialect : Dialect
  marker : String

/-! ## Paths

The steps of a path: the field of the descriptor format that holds a list of declarations, and a
position in this list. -/

def messageStep (i : Nat) : List Int32 := [4, Int32.ofNat i]

def enumStep (i : Nat) : List Int32 := [5, Int32.ofNat i]

def fieldStep (i : Nat) : List Int32 := [2, Int32.ofNat i]

def nestedStep (i : Nat) : List Int32 := [3, Int32.ofNat i]

def nestedEnumStep (i : Nat) : List Int32 := [4, Int32.ofNat i]

/-! ## Fields -/

/-- The position that a descriptor's oneof index stands for: the index is sign-extended to 64
bits and read without sign, so a negative one is beyond every list. -/
def oneofPosition (index : Int32) : Nat := index.toInt64.toUInt64.toNat

/-- The features of a field. -/
def featuresOf (dialect : Dialect) (f : FieldProto) (kind : Kind) (cardinality : Cardinality) :
    Features :=
  let repeated := cardinality == .repeated
  let packedOption := f.options.bind (·.packed)
  match dialect with
  | .proto2 =>
      { explicitPresence := !repeated
        packed := repeated && packedOption.getD false
        utf8Validated := false
        legacyRequired := cardinality == .required
        delimited := kind == .group }
  | .proto3 =>
      { explicitPresence := !repeated && (f.proto3Optional.getD false || kind == .message)
        packed := repeated && packedOption.getD kind.isPackable
        utf8Validated := true
        legacyRequired := false
        delimited := false }
  | .editions =>
      { explicitPresence := !repeated
        packed := repeated && packedOption.getD kind.isPackable
        utf8Validated := true
        legacyRequired := cardinality == .required
        delimited := kind == .group }

/-- The model of a field. -/
def buildField (ctx : FileContext) (path : List Int32) (f : FieldProto) : Field :=
  let kind := Kind.ofProto f.type
  let cardinality := Cardinality.ofProto f.label
  let typeName := f.typeName.filter (· != "")
  { name := f.name.getD ""
    number := f.number.getD 0
    kind := kind
    cardinality := cardinality
    options := f.options
    proto3Optional := f.proto3Optional.getD false
    defaultValue := f.defaultValue
    jsonName := f.jsonName
    features := featuresOf ctx.dialect f kind cardinality
    message := if kind = .message ∨ kind = .group then typeName else none
    enumeration := if kind = .enum then typeName else none
    oneof := f.oneofIndex.map oneofPosition
    viaAlias := none
    comments := commentsAt ctx.locations path }

/-! ## Oneofs and enums -/

/-- The model of the oneof at position `i`. -/
def buildOneof (fields : List FieldProto) (i : Nat) (o : OneofProto) : Oneof where
  name := o.name.getD ""
  synthetic := fields.any fun f =>
    f.proto3Optional.getD false && f.oneofIndex == some (Int32.ofNat i)

/-- The model of an enum. -/
def buildEnum (ctx : FileContext) (scope : String) (path : List Int32) (e : EnumProto) :
    EnumType where
  name := e.name.getD ""
  fullName := scope ++ "." ++ e.name.getD ""
  comments := commentsAt ctx.locations path
  values := e.value.map fun v => ⟨v.name.getD "", v.number.getD 0⟩

/-! ## Messages -/

mutual

/-- The model of a message declared in `scope`. -/
def buildMessage (ctx : FileContext) (scope : String) (path : List Int32) :
    MessageProto → Message
  | m@{ nestedType := nested, .. } =>
      let fullName := scope ++ "." ++ m.name.getD ""
      let comments := commentsAt ctx.locations path
      { name := m.name.getD ""
        fullName := fullName
        comments := comments
        marked := hasMarker ctx.marker comments.leading
        mapEntry := (m.options.bind (·.mapEntry)).getD false
        fields := m.field.mapIdx fun i f => buildField ctx (path ++ fieldStep i) f
        oneofs := m.oneofDecl.mapIdx fun i o => buildOneof m.field i o
        nested := buildNested ctx fullName path 0 nested
        enums := m.enumType.mapIdx fun i e => buildEnum ctx fullName (path ++ nestedEnumStep i) e }

/-- The models of nested messages, the first of which has position `i`. -/
def buildNested (ctx : FileContext) (scope : String) (path : List Int32) :
    Nat → List MessageProto → List Message
  | _, [] => []
  | i, m :: rest =>
      buildMessage ctx scope (path ++ nestedStep i) m :: buildNested ctx scope path (i + 1) rest

end

/-! ## Files -/

/-- The scope of the top-level declarations of a package. -/
def packageScope (package : String) : String := if package = "" then "" else "." ++ package

/-- What the declarations of a file share. -/
def contextOf (marker : String) (f : FileProto) : FileContext where
  locations := (f.sourceCodeInfo.map (·.location)).getD []
  dialect := Dialect.assumed (f.syntaxName.getD "")
  marker := marker

/-- The model of a file. -/
def buildFile (marker : String) (generate : Bool) (f : FileProto) : File :=
  let ctx := contextOf marker f
  let scope := packageScope (f.package.getD "")
  { name := f.name.getD ""
    package := f.package.getD ""
    dialect := ctx.dialect
    generate := generate
    messages := f.messageType.mapIdx fun i m => buildMessage ctx scope (messageStep i) m
    enums := f.enumType.mapIdx fun i e => buildEnum ctx scope (enumStep i) e
    aliases := []
    proto := f }

/-- What is reported while the model of a file is built. -/
def buildEvents (f : FileProto) : List Event :=
  let name := f.name.getD ""
  let dialect := f.syntaxName.getD ""
  let unknown := match Dialect.ofName dialect with
    | .ok _ => []
    | .error e => [Event.warn s!"{name}: {e.message}, assuming proto2"]
  unknown ++ [Event.trace s!"Built model for {name} ({(Dialect.assumed dialect).name})"]

end AliasErasure
