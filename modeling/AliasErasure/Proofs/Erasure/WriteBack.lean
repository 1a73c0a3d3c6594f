import AliasErasure.Proofs.Erasure.Synchronize

set_option autoImplicit false

/-! # Reading a field and writing it back

A field is read from its descriptor (`buildField`) and written back to it (`Field.synchronize`).
Each of the two loses something. Reading makes no difference between an unset type or label and
the first one, takes an empty type name for none, and does not look at the type name of a scalar.
Writing drops empty options, the flag `proto3_optional` outside of oneofs, and all but the lowest
32 bits of the position of a oneof.

What is left are the laws of a lens. Writing back what has been read changes nothing exactly for
descriptors that are *regular* (`Field.synchronize_buildField_eq_self_iff`); reading what has been
written gives the field again, as far as a descriptor can express it
(`Field.readsBack_buildField`); and the second of two writings is the one that counts
(`Field.synchronize_synchronize`).
-/

namespace AliasErasure

open Descriptor (FieldProto)

/-! ## Regular descriptors -/

/-- A descriptor of a field in the form in which fields are written. -/
structure Descriptor.FieldProto.Regular (r : FieldProto) : Prop where
  /-- The type is set and known. Only the types message, group and enum come with a type name, and
  it is not empty. -/
  type : ∃ k : Kind, r.type = some k.toNumber ∧
    ∀ n, r.typeName = some n → k.isNamed = true ∧ n ≠ ""
  /-- The label is set and known. -/
  label : ∃ c : Cardinality, r.label = some c.toNumber
  /-- There are no empty options. -/
  options : r.options ≠ some {}
  /-- The flag of proto3 is unset, or else it is true and there is a oneof. -/
  proto3Optional : r.proto3Optional = none ∨
    r.proto3Optional = some true ∧ r.oneofIndex.isSome = true

/-- What a field writes is there already. -/
theorem Field.synchronize_eq_self_iff {f : Field} {r : FieldProto} :
    f.synchronize r = r ↔
      r.type = some f.kind.toNumber ∧ r.label = some f.cardinality.toNumber ∧
        r.typeName = f.typeName? ∧ r.defaultValue = f.defaultValue ∧
        r.options = nonEmptyOptions f.options ∧ r.oneofIndex = f.oneof.map oneofIndexOf ∧
        r.proto3Optional = if f.proto3Optional && f.oneof.isSome then some true else none := by
  constructor
  · intro h
    rw [← h]
    exact ⟨rfl, rfl, rfl, rfl, rfl, rfl, rfl⟩
  · rintro ⟨htype, hlabel, hname, hdefault, hoptions, honeof, hflag⟩
    rw [Field.synchronize, ← htype, ← hlabel, ← hname, ← hdefault, ← hoptions, ← honeof, ← hflag]

/-- **The second of two writings counts.** -/
theorem Field.synchronize_synchronize (f g : Field) (r : FieldProto) :
    f.synchronize (g.synchronize r) = f.synchronize r := rfl

/-! ## Writing what has been read -/

/-- Where reading undoes writing, what is written again after reading is what can be written. -/
theorem eq_write_read_iff {α β : Type} {read : β → α} {write : α → β}
    (h : ∀ a, read (write a) = a) {b : β} : b = write (read b) ↔ ∃ a, b = write a := by
  constructor
  · intro hb
    exact ⟨read b, hb⟩
  · rintro ⟨a, rfl⟩
    rw [h]

theorem eq_some_toNumber_ofProto_iff {t : Option Int32} :
    t = some (Kind.ofProto t).toNumber ↔ ∃ k : Kind, t = some k.toNumber :=
  eq_write_read_iff Kind.ofProto_toNumber

theorem eq_some_toNumber_ofProto_label_iff {t : Option Int32} :
    t = some (Cardinality.ofProto t).toNumber ↔ ∃ c : Cardinality, t = some c.toNumber :=
  eq_write_read_iff Cardinality.ofProto_toNumber

theorem nonEmptyOptions_eq (o : Option Descriptor.FieldOptions) :
    nonEmptyOptions o = if o = some {} then none else o := by
  cases o with
  | none => rfl
  | some options =>
      by_cases h : options = {}
      · simp [nonEmptyOptions, h]
      · simp [nonEmptyOptions, h]

theorem eq_nonEmptyOptions_iff {o : Option Descriptor.FieldOptions} :
    o = nonEmptyOptions o ↔ o ≠ some {} := by
  rw [nonEmptyOptions_eq]
  by_cases h : o = some {}
  · simp [h]
  · simp [h]

theorem eq_flag_iff {flag : Option Bool} {inOneof : Bool} :
    flag = (if flag.getD false && inOneof then some true else none) ↔
      flag = none ∨ flag = some true ∧ inOneof = true := by
  cases flag with
  | none => simp
  | some b => cases b <;> cases inOneof <;> simp

section Read

variable (ctx : FileContext) (path : List Int32) (r : FieldProto)

theorem eq_typeName?_buildField_iff :
    r.typeName = (buildField ctx path r).typeName? ↔
      ∀ n, r.typeName = some n → (Kind.ofProto r.type).isNamed = true ∧ n ≠ "" := by
  rw [buildField_typeName?]
  cases r.typeName with
  | none => simp
  | some n =>
      by_cases hnamed : (Kind.ofProto r.type).isNamed = true
      · by_cases hn : n = ""
        · simp [hnamed, hn, Option.filter]
        · simp [hnamed, hn, Option.filter]
      · simp [hnamed]

/-- **Writing back what has been read** changes nothing exactly in a regular descriptor. -/
theorem Field.synchronize_buildField_eq_self_iff :
    (buildField ctx path r).synchronize r = r ↔ r.Regular := by
  have honeof : r.oneofIndex = (r.oneofIndex.map oneofPosition).map oneofIndexOf := by
    cases r.oneofIndex with
    | none => rfl
    | some i => rw [Option.map_some, Option.map_some, oneofIndexOf_oneofPosition]
  have hflag : (r.proto3Optional = if (r.proto3Optional.getD false &&
        (r.oneofIndex.map oneofPosition).isSome) = true then some true else none) ↔
      r.proto3Optional = none ∨ r.proto3Optional = some true ∧ r.oneofIndex.isSome = true := by
    rw [Option.isSome_map]
    exact eq_flag_iff
  rw [Field.synchronize_eq_self_iff, eq_typeName?_buildField_iff]
  constructor
  · rintro ⟨htype, hlabel, hname, -, hoptions, -, hproto3⟩
    exact ⟨⟨_, htype, hname⟩, ⟨_, hlabel⟩, eq_nonEmptyOptions_iff.mp hoptions, hflag.mp hproto3⟩
  · rintro ⟨⟨k, hk, hname⟩, hlabel, hoptions, hproto3⟩
    have hkind : Kind.ofProto r.type = k := by rw [hk, Kind.ofProto_toNumber]
    refine ⟨eq_some_toNumber_ofProto_iff.mpr ⟨k, hk⟩, eq_some_toNumber_ofProto_label_iff.mpr hlabel,
      ?_, rfl, eq_nonEmptyOptions_iff.mpr hoptions, honeof, hflag.mpr hproto3⟩
    rw [hkind]
    exact hname

/-! ## Reading what has been written -/

/-- The field `g` is what can be said of `f` in a descriptor. -/
structure Field.ReadsBack (f g : Field) : Prop where
  kind : g.kind = f.kind
  cardinality : g.cardinality = f.cardinality
  defaultValue : g.defaultValue = f.defaultValue
  typeName : g.typeName? = f.typeName?
  oneof : g.oneof = f.oneof
  /-- Empty options are read as none. -/
  options : g.options = if f.options = some {} then none else f.options
  /-- The flag of proto3 is kept inside of oneofs only. -/
  proto3Optional : g.proto3Optional = true ↔ f.proto3Optional = true ∧ f.oneof ≠ none

/-- **Reading what has been written** gives the field again, provided that the name it refers to is
not empty, and the position of its oneof fits into 31 bits. -/
theorem Field.readsBack_buildField {f : Field} (named : f.typeName? ≠ some "")
    (bounded : ∀ i, f.oneof = some i → i < 2 ^ 31) :
    f.ReadsBack (buildField ctx path (f.synchronize r)) := by
  have hkind : Kind.ofProto (f.synchronize r).type = f.kind := Kind.ofProto_toNumber f.kind
  constructor
  case kind => exact hkind
  case cardinality => exact Cardinality.ofProto_toNumber f.cardinality
  case defaultValue => rfl
  case typeName =>
    have hname : (f.synchronize r).typeName = f.typeName? := rfl
    rw [buildField_typeName?, hkind, hname]
    cases hf : f.typeName? with
    | none => simp
    | some n =>
        have hne : n ≠ "" := fun h => named (h ▸ hf)
        simp [Field.isNamed_of_typeName? hf, hne]
  case oneof =>
    show (f.oneof.map oneofIndexOf).map oneofPosition = f.oneof
    cases hf : f.oneof with
    | none => rfl
    | some i => rw [Option.map_some, Option.map_some, oneofPosition_oneofIndexOf (bounded i hf)]
  case options => exact nonEmptyOptions_eq f.options
  case proto3Optional =>
    show (if (f.proto3Optional && f.oneof.isSome) = true then some true else none).getD false = true
      ↔ _
    cases f.oneof with
    | none => simp
    | some i => cases f.proto3Optional <;> simp

end Read

/-- **Reading and writing a field are inverse to each other.** Writing back what has been read
leaves exactly the regular descriptors unchanged, whatever index of a oneof they have, negative
ones included. What has been written of a field is read again; and writing it twice is the same as
writing it once. -/
theorem writeBack_inverse (ctx : FileContext) (path : List Int32) (r : FieldProto) :
    ((buildField ctx path r).synchronize r = r ↔ r.Regular) ∧
      ∀ f : Field, f.synchronize (f.synchronize r) = f.synchronize r ∧
        (f.typeName? ≠ some "" → (∀ i, f.oneof = some i → i < 2 ^ 31) →
          f.ReadsBack (buildField ctx path (f.synchronize r))) := by
  refine ⟨Field.synchronize_buildField_eq_self_iff ctx path r, fun f => ⟨?_, ?_⟩⟩
  · exact f.synchronize_synchronize f r
  · intro named bounded
    exact Field.readsBack_buildField ctx path r named bounded

/-- The descriptor of a group in a oneof with a negative index. -/
def visitProto : FieldProto where
  name := some "visit"
  number := some 1
  label := some 3
  type := some 10
  typeName := some ".shop.Visit"
  options := some { deprecated := some false }
  oneofIndex := some (-1)
  proto3Optional := some true

/-- A field with an empty set of options in a oneof. -/
def roomField : Field where
  kind := .enum
  enumeration := some ".shop.Room"
  options := some {}
  proto3Optional := true
  oneof := some 2

theorem visitProto_regular : visitProto.Regular where
  type := ⟨.group, rfl, by simp [visitProto, Kind.isNamed]⟩
  label := ⟨.repeated, rfl⟩
  options := by decide
  proto3Optional := Or.inr ⟨rfl, rfl⟩

/-- What is shared in a file of proto3 without locations. -/
def plainContext : FileContext := ⟨[], .proto3, defaultMarker⟩

theorem writeBack_inverse_visit : visitProto.Regular ∧
    (buildField plainContext [] visitProto).synchronize visitProto = visitProto ∧
    roomField.typeName? ≠ some "" ∧ (∀ i, roomField.oneof = some i → i < 2 ^ 31) ∧
    roomField.ReadsBack (buildField plainContext [] (roomField.synchronize visitProto)) := by
  obtain ⟨hread, hwrite⟩ := writeBack_inverse plainContext [] visitProto
  have hnamed : roomField.typeName? ≠ some "" := by decide
  have hbounded : ∀ i, roomField.oneof = some i → i < 2 ^ 31 := by
    rintro i ⟨⟩
    decide
  exact ⟨visitProto_regular, hread.mpr visitProto_regular, hnamed, hbounded,
    (hwrite roomField).2 hnamed hbounded⟩

end AliasErasure
