import AliasErasure.Erasure.Substitute
import AliasErasure.Proofs.Schema.Search

set_option autoImplicit false

/-! # Models and their descriptors

A field *mirrors* a descriptor when reading the descriptor gives the field again; its oneof,
features and comments are left out of this, and empty options count as none. A message mirrors its
descriptor when names, fields and oneofs do, position by position.

All that a schema takes from descriptors mirrors them at every depth (`File.IsBuilt.family`).
Besides, a field that was read from a descriptor refers to nothing but what its kind allows
(`Field.WellNamed`); this is what a payload needs to be written back to a descriptor.
-/

namespace AliasErasure

open Descriptor (FieldProto FileProto MessageProto)

/-! ## Fields -/

/-- Two fields agree in what makes a field this one and in its type; empty options count as
none. -/
structure Field.Agrees (f g : Field) : Prop where
  name : f.name = g.name
  number : f.number = g.number
  kind : f.kind = g.kind
  cardinality : f.cardinality = g.cardinality
  jsonName : f.jsonName = g.jsonName
  defaultValue : f.defaultValue = g.defaultValue
  message : f.message = g.message
  enumeration : f.enumeration = g.enumeration
  options : nonEmptyOptions f.options = nonEmptyOptions g.options

/-- Reading the descriptor `r` gives a field that agrees with `f`. -/
def Field.Mirrors (f : Field) (r : FieldProto) : Prop :=
  ∀ ctx path, (buildField ctx path r).Agrees f

/-- Reading the descriptor `r` gives a field in the same oneof as `f`. -/
def Field.MirrorsOneof (f : Field) (r : FieldProto) : Prop :=
  ∀ ctx path, (buildField ctx path r).oneof = f.oneof

/-- A field refers only to what its kind allows, and by a name that is not empty. -/
structure Field.WellNamed (f : Field) : Prop where
  message : ∀ n, f.message = some n → (f.kind = .message ∨ f.kind = .group) ∧ n ≠ ""
  enumeration : ∀ n, f.enumeration = some n → f.kind = .enum ∧ n ≠ ""

theorem buildField_mirrors (ctx : FileContext) (path : List Int32) (r : FieldProto) :
    (buildField ctx path r).Mirrors r :=
  fun _ _ => ⟨rfl, rfl, rfl, rfl, rfl, rfl, rfl, rfl, rfl⟩

theorem buildField_mirrorsOneof (ctx : FileContext) (path : List Int32) (r : FieldProto) :
    (buildField ctx path r).MirrorsOneof r :=
  fun _ _ => rfl

theorem buildField_wellNamed (ctx : FileContext) (path : List Int32) (r : FieldProto) :
    (buildField ctx path r).WellNamed := by
  constructor
  · intro n hn
    have h : (if Kind.ofProto r.type = .message ∨ Kind.ofProto r.type = .group
        then r.typeName.filter (· != "") else none) = some n := hn
    split at h
    next hkind =>
      obtain ⟨-, hne⟩ := Option.filter_eq_some_iff.mp h
      exact ⟨hkind, by simpa using hne⟩
    next => cases h
  · intro n hn
    have h : (if Kind.ofProto r.type = .enum
        then r.typeName.filter (· != "") else none) = some n := hn
    split at h
    next hkind =>
      obtain ⟨-, hne⟩ := Option.filter_eq_some_iff.mp h
      exact ⟨hkind, by simpa using hne⟩
    next => cases h

/-- Only fields of message, group and enum kind refer to a declaration by name. -/
theorem Field.isNamed_of_typeName? {f : Field} {n : String} (h : f.typeName? = some n) :
    f.kind.isNamed = true := by
  rw [Field.typeName?] at h
  cases hkind : f.kind <;> simp_all [Kind.isNamed]

/-- A field that is read refers to the type name of its descriptor, if its kind allows that. -/
theorem buildField_typeName? (ctx : FileContext) (path : List Int32) (r : FieldProto) :
    (buildField ctx path r).typeName?
      = if (Kind.ofProto r.type).isNamed then r.typeName.filter (· != "") else none := by
  simp only [buildField, Field.typeName?]
  cases Kind.ofProto r.type <;> simp [Kind.isNamed]

theorem Field.Agrees.typeName? {f g : Field} (h : f.Agrees g) : f.typeName? = g.typeName? := by
  simp only [Field.typeName?, h.kind, h.message, h.enumeration]

/-! ## Messages -/

/-- Names, fields and oneofs of a message are those of its descriptor, position by position. -/
structure Message.Mirrors (m : Message) (raw : MessageProto) : Prop where
  name : raw.name.getD "" = m.name
  fields : List.Forall₂ Field.Mirrors m.fields raw.field
  oneofs : m.oneofs.map (·.name) = raw.oneofDecl.map fun o => o.name.getD ""

/-- The fields of a message are in the same oneofs as those of its descriptor. -/
def Message.MirrorsOneofs (m : Message) (raw : MessageProto) : Prop :=
  List.Forall₂ Field.MirrorsOneof m.fields raw.field

/-- A list made position by position stands in any relation that holds position by position. -/
theorem forall₂_mapIdx {α β : Type} {R : β → α → Prop} (l : List α) :
    ∀ {g : Nat → α → β}, (∀ i a, R (g i a) a) → List.Forall₂ R (l.mapIdx g) l := by
  induction l with
  | nil => intro g h; exact List.Forall₂.nil
  | cons a l ih =>
      intro g h
      rw [List.mapIdx_cons]
      exact List.Forall₂.cons (h 0 a) (ih fun i b => h (i + 1) b)

/-- What stands at one position of corresponding lists corresponds. -/
theorem rel_of_getElem? {α β : Type} {R : α → β → Prop} {as : List α} {bs : List β}
    (h : List.Forall₂ R as bs) {j : Nat} {a : α} {b : β} (ha : as[j]? = some a)
    (hb : bs[j]? = some b) : R a b := by
  have hpair : (a, b) ∈ as.zip bs :=
    List.mem_of_getElem? (List.getElem?_zip_eq_some.mpr ⟨ha, hb⟩)
  exact List.forall₂_zip h hpair

/-- In lists of one length every element of the first has a counterpart. -/
theorem exists_mem_zip {α β : Type} {as : List α} {bs : List β} (h : as.length = bs.length)
    {a : α} (ha : a ∈ as) : ∃ b, (a, b) ∈ as.zip bs := by
  obtain ⟨i, hi, rfl⟩ := List.mem_iff_getElem.mp ha
  have hi' : i < (as.zip bs).length := by
    rw [List.length_zip]
    omega
  exact ⟨bs[i], List.mem_iff_getElem.mpr ⟨i, hi', List.getElem_zip⟩⟩

/-- In corresponding lists every element of the first has a counterpart. -/
theorem exists_rel_of_mem_left {α β : Type} {R : α → β → Prop} {as : List α} {bs : List β}
    (h : List.Forall₂ R as bs) {a : α} (ha : a ∈ as) : ∃ b ∈ bs, R a b := by
  obtain ⟨b, hb⟩ := exists_mem_zip h.length_eq ha
  exact ⟨b, (List.of_mem_zip hb).2, List.forall₂_zip h hb⟩

/-- In corresponding lists every element of the second has a counterpart. -/
theorem exists_rel_of_mem_right {α β : Type} {R : α → β → Prop} {as : List α} {bs : List β}
    (h : List.Forall₂ R as bs) {b : β} (hb : b ∈ bs) : ∃ a ∈ as, R a b :=
  exists_rel_of_mem_left h.flip hb

section Message

variable (ctx : FileContext) (scope : String) (path : List Int32) (raw : MessageProto)

/-- The parts of the model of a message. -/
theorem buildMessage_eq :
    buildMessage ctx scope path raw =
      { name := raw.name.getD ""
        fullName := scope ++ "." ++ raw.name.getD ""
        comments := commentsAt ctx.locations path
        marked := hasMarker ctx.marker (commentsAt ctx.locations path).leading
        mapEntry := (raw.options.bind (·.mapEntry)).getD false
        fields := raw.field.mapIdx fun i f => buildField ctx (path ++ fieldStep i) f
        oneofs := raw.oneofDecl.mapIdx fun i o => buildOneof raw.field i o
        nested := buildNested ctx (scope ++ "." ++ raw.name.getD "") path 0 raw.nestedType
        enums := raw.enumType.mapIdx fun i e =>
          buildEnum ctx (scope ++ "." ++ raw.name.getD "") (path ++ nestedEnumStep i) e } := by
  cases raw; rfl

theorem buildMessage_mirrors : (buildMessage ctx scope path raw).Mirrors raw := by
  rw [buildMessage_eq]
  refine ⟨rfl, forall₂_mapIdx _ fun i r => buildField_mirrors _ _ r, ?_⟩
  have h : List.Forall₂ (fun o p => o.name = p.name.getD "")
      (raw.oneofDecl.mapIdx fun i o => buildOneof raw.field i o) raw.oneofDecl :=
    forall₂_mapIdx _ fun _ _ => rfl
  refine List.forall₂_eq_eq_eq ▸ ?_
  rw [List.forall₂_map_left_iff, List.forall₂_map_right_iff]
  exact h

theorem buildMessage_mirrorsOneofs : (buildMessage ctx scope path raw).MirrorsOneofs raw := by
  rw [Message.MirrorsOneofs, buildMessage_eq]
  exact forall₂_mapIdx _ fun i r => buildField_mirrorsOneof _ _ r

theorem mem_fields_buildMessage {f : Field} (hf : f ∈ (buildMessage ctx scope path raw).fields) :
    ∃ p, ∃ r ∈ raw.field, f = buildField ctx p r := by
  rw [buildMessage_eq] at hf
  obtain ⟨i, hi, rfl⟩ := List.mem_mapIdx.mp hf
  exact ⟨_, _, List.getElem_mem hi, rfl⟩

end Message

end AliasErasure
