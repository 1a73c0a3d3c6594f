import AliasErasure.Descriptor.Types

set_option autoImplicit false

/-! # Declaration sites

The declarations of a file in the order in which they are checked: the file; its messages, enums,
services and extensions; of a message, after itself, its oneofs, fields, nested messages, enums and
extensions; the values of an enum and the methods of a service after it.

Each site bears the qualified name of what it declares, without a leading dot. The values of an
enum are named beside the enum, not inside it.
-/

namespace AliasErasure

open Descriptor

/-- A declaration site. Fields and extensions have the path of their descriptor; fields and enum
values come with the declaration around them and their position in it. -/
inductive Site where
  | file
  | message (name : String) (m : MessageProto)
  | oneof (name : String)
  | field (name : String) (path : List Int32) (owner : String) (m : MessageProto)
      (position : Nat) (f : FieldProto)
  | enum (name : String) (e : EnumProto)
  | enumValue (name : String) (e : EnumProto) (position : Nat) (v : EnumValueProto)
  | service (name : String) (s : ServiceProto)
  | method (name : String) (m : MethodProto)
  | extension (name : String) (path : List Int32) (f : FieldProto)

/-- A simple name in a scope. -/
def scopedName (scope : String) (name : Option String) : String :=
  if scope = "" then name.getD "" else scope ++ "." ++ name.getD ""

/-- An enum and its values. -/
def enumSites (scope : String) (e : EnumProto) : List Site :=
  .enum (scopedName scope e.name) e ::
    e.value.mapIdx fun i v => .enumValue (scopedName scope v.name) e i v

/-- Extensions; `path` leads to their list. -/
def extensionSites (scope : String) (path : List Int32) (fs : List FieldProto) : List Site :=
  fs.mapIdx fun i f => .extension (scopedName scope f.name) (path ++ [Int32.ofNat i]) f

mutual

/-- A message with everything inside it. -/
def messageSites (scope : String) (path : List Int32) : MessageProto → List Site
  | m@{ nestedType := nested, .. } =>
      let name := scopedName scope m.name
      .message name m ::
        (m.oneofDecl.map fun o => .oneof (scopedName name o.name)) ++
        (m.field.mapIdx fun i f =>
          .field (scopedName name f.name) (path ++ [2, Int32.ofNat i]) name m i f) ++
        nestedSites name (path ++ [3]) 0 nested ++
        m.enumType.flatMap (enumSites name) ++
        extensionSites name (path ++ [6]) m.extension

/-- A list of messages, the first of which has position `i`; `path` leads to the list. -/
def nestedSites (scope : String) (path : List Int32) : Nat → List MessageProto → List Site
  | _, [] => []
  | i, m :: rest =>
      messageSites scope (path ++ [Int32.ofNat i]) m ++ nestedSites scope path (i + 1) rest

end

/-- A service and its methods. -/
def serviceSites (scope : String) (s : ServiceProto) : List Site :=
  let name := scopedName scope s.name
  .service name s :: s.method.map fun m => .method (scopedName name m.name) m

/-- All declarations of a file. -/
def fileSites (f : FileProto) : List Site :=
  let scope := f.package.getD ""
  .file :: nestedSites scope [4] 0 f.messageType ++
    f.enumType.flatMap (enumSites scope) ++
    f.service.flatMap (serviceSites scope) ++
    extensionSites scope [7] f.extension

end AliasErasure
