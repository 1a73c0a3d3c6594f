import AliasErasure.Proofs.Schema.Built

set_option autoImplicit false

/-! # Declared types and their uses

The types of a schema are its messages and enums. A message declares, besides itself, all types
inside it at every depth (`Message.types`, `Message.innerTypes`). Fields, extensions and methods
use types by name (`Descriptor.FileProto.fieldUses`, `Descriptor.FileProto.methodUses`); the
leading dot of a name may be left out, here as in `Schema.message?`.
-/

namespace AliasErasure

open Descriptor (FieldProto FileProto MessageProto MethodProto)

/-! ## Declared types -/

/-- The names of a message and of the enums directly in it. -/
def Message.ownTypes (m : Message) : List String := m.fullName :: m.enums.map (·.fullName)

/-- The types declared inside a message, at every depth. -/
def Message.innerTypes (m : Message) : List String :=
  (families m.nested).flatMap (·.ownTypes) ++ m.enums.map (·.fullName)

/-- The types that a message declares: itself and those inside it. -/
def Message.types (m : Message) : List String := m.family.flatMap (·.ownTypes)

/-- The types that a file declares. -/
def File.types (f : File) : List String :=
  f.messages.flatMap (·.types) ++ f.enums.map (·.fullName)

/-- The types of a schema. -/
def Schema.types (s : Schema) : List String := s.files.flatMap (·.types)

/-- The file in which a message is declared declares its name. -/
theorem File.fullName_mem_types {g : File} {m : Message} (hm : m ∈ families g.messages) :
    m.fullName ∈ g.types := by
  obtain ⟨top, htop, hm⟩ := mem_families.mp hm
  refine List.mem_append_left _ (List.mem_flatMap.mpr ⟨top, htop, ?_⟩)
  exact List.mem_flatMap.mpr ⟨m, hm, List.mem_cons_self⟩

theorem Message.mem_innerTypes_iff {m : Message} {n : String} :
    n ∈ m.innerTypes ↔ (∃ x ∈ m.nested, n ∈ x.types) ∨ ∃ e ∈ m.enums, e.fullName = n := by
  simp only [Message.innerTypes, Message.types, List.mem_append, List.mem_flatMap, mem_families,
    List.mem_map]
  constructor
  · rintro (⟨y, ⟨x, hx, hy⟩, hn⟩ | henum)
    · exact Or.inl ⟨x, hx, y, hy, hn⟩
    · exact Or.inr henum
  · rintro (⟨x, hx, y, hy, hn⟩ | henum)
    · exact Or.inl ⟨y, ⟨x, hx, hy⟩, hn⟩
    · exact Or.inr henum

theorem Message.mem_types_iff {m : Message} {n : String} :
    n ∈ m.types ↔ n = m.fullName ∨ n ∈ m.innerTypes := by
  simp only [Message.types, Message.innerTypes, m.family_eq, List.flatMap_append,
    List.flatMap_singleton, Message.ownTypes, List.mem_append, List.mem_cons]
  tauto

/-- What decides on the types that a message declares. -/
theorem Message.types_congr {m m' : Message} (hname : m'.fullName = m.fullName)
    (hnested : m'.nested = m.nested) (henums : m'.enums = m.enums) :
    m'.types = m.types ∧ m'.innerTypes = m.innerTypes := by
  constructor
  · rw [Message.types, Message.types, m'.family_eq, m.family_eq, hnested, List.flatMap_append,
      List.flatMap_append, List.flatMap_singleton, List.flatMap_singleton, Message.ownTypes,
      Message.ownTypes, hname, henums]
  · rw [Message.innerTypes, Message.innerTypes, hnested, henums]

/-! ## Used types -/

/-- The type that a field uses. -/
def Descriptor.FieldProto.typeUses (r : FieldProto) : List String :=
  r.typeName.toList.map Schema.qualified

/-- The types that an extension uses: that of its values, and the message it extends. -/
def Descriptor.FieldProto.extensionUses (r : FieldProto) : List String :=
  (r.typeName.toList ++ r.extendee.toList).map Schema.qualified

/-- The types that the fields of a message and the extensions directly in it use. -/
def Descriptor.MessageProto.ownUses (raw : MessageProto) : List String :=
  raw.field.flatMap (·.typeUses) ++ raw.extension.flatMap (·.extensionUses)

/-- The types that the fields and extensions of a file use, at every depth. -/
def Descriptor.FileProto.fieldUses (proto : FileProto) : List String :=
  (Descriptor.families proto.messageType).flatMap (·.ownUses) ++
    proto.extension.flatMap (·.extensionUses)

/-- The types that a method uses. -/
def Descriptor.MethodProto.uses (r : MethodProto) : List String :=
  (r.inputType.toList ++ r.outputType.toList).map Schema.qualified

/-- The types that the methods of a file use. -/
def Descriptor.FileProto.methodUses (proto : FileProto) : List String :=
  proto.service.flatMap fun service => service.method.flatMap (·.uses)

/-- Every type that is used is declared. -/
def Schema.Linked (s : Schema) : Prop :=
  ∀ f ∈ s.files, ∀ n, n ∈ f.proto.fieldUses ∨ n ∈ f.proto.methodUses → n ∈ s.types

theorem Descriptor.mem_families {raw : MessageProto} {raws : List MessageProto} :
    raw ∈ Descriptor.families raws ↔ ∃ x ∈ raws, raw ∈ x.family := by
  induction raws with
  | nil => simp [Descriptor.families]
  | cons x rest ih =>
      rw [Descriptor.families, List.mem_append, ih]
      simp

end AliasErasure
