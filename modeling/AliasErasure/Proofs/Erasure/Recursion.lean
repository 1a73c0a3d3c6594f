import AliasErasure.Proofs.Erasure.References

set_option autoImplicit false

/-! # Recursive aliases

A field that has come through an alias names what the payload of the alias names, and its
descriptor names the same (`Schema.NamesPayload`). This is a type other than the alias, unless the
alias is *recursive*: its only field refers to the alias itself. Such an alias is erased like any
other, since only what is declared inside an alias keeps it, and a message is not declared inside
itself (`Message.Recursive.isErasable`). So the fields that come through recursive aliases, and no
others, point back at a message that has gone (`pointsBack_iff_recursive`).
-/

namespace AliasErasure

open Descriptor (FieldProto FileProto MessageProto)

/-! ## Messages that refer to themselves -/

/-- A name is not that of something declared inside the scope of this very name. -/
theorem isInside_self (name : String) : isInside name name = false := by
  rw [isInside, ← Bool.not_eq_true, List.isPrefixOf_iff_prefix]
  intro h
  have hlen := h.length_le
  rw [List.length_append, List.length_singleton] at hlen
  omega

/-- The message is an alias that stands for itself. -/
def Message.Recursive (m : Message) : Prop :=
  ∃ p, m.payload? = some p ∧ p.typeName? = some m.fullName

/-- **A recursive alias can be erased.** -/
theorem Message.Recursive.isErasable {m : Message} (h : m.Recursive) : m.isErasable = true := by
  obtain ⟨p, hp, hname⟩ := h
  rw [Message.isErasable_iff]
  refine ⟨p, hp, ?_⟩
  rw [Message.declares, hname]
  exact isInside_self m.fullName

/-- The payload of an alias names the alias exactly if the alias is recursive. -/
theorem Message.typeName?_payload_iff {m : Message} {p : Field} (hp : m.payload? = some p) :
    p.typeName? = some m.fullName ↔ m.Recursive := by
  constructor
  · intro hname
    exact ⟨p, hp, hname⟩
  · rintro ⟨q, hq, hname⟩
    rw [hp] at hq
    cases hq
    exact hname

/-! ## Fields that have come through an alias -/

/-- If the field has come through an alias, then the alias is in the schema, and its payload is
what the field and its descriptor name. -/
def Schema.NamesPayload (s : Schema) (x : Field) (r : FieldProto) : Prop :=
  ∀ a, x.viaAlias = some a → ∃ t p, s.message? a.fullName = some t ∧ t.ident = a ∧
    t.erasablePayload? = some p ∧ x.typeName? = p.typeName? ∧ r.typeName = p.typeName?

section NamesPayload

variable {s : Schema} {x : Field} {r : FieldProto}

theorem Schema.namesPayload_of_none (h : x.viaAlias = none) (r : FieldProto) :
    s.NamesPayload x r := by
  intro a ha
  rw [h] at ha
  cases ha

theorem Schema.Built.namesPayload_resolveField (hs : s.Built) (h : s.NamesPayload x r) :
    s.NamesPayload (s.resolveField x) (s.resolveFieldProto x r) := by
  rw [Schema.resolveFieldProto, Schema.refersToAlias, Schema.resolveField]
  cases ht : s.aliasTarget? x with
  | none => exact h
  | some target =>
      intro a ha
      cases ha
      exact ⟨target.1, target.2, hs.message?_of_aliasTarget? ht, rfl,
        (Schema.aliasTarget?_eq_some_iff.mp ht).2.2.2, rfl, rfl⟩

/-- A field points back at the alias it has come through exactly if the alias is recursive. -/
theorem Schema.NamesPayload.pointsBack_iff (h : s.NamesPayload x r) {a : Ident}
    (ha : x.viaAlias = some a) :
    ∃ t, s.message? a.fullName = some t ∧ t.ident = a ∧ t.isErasable = true ∧
      (x.typeName? = some a.fullName ↔ t.Recursive) ∧
      (r.typeName = some a.fullName ↔ t.Recursive) := by
  obtain ⟨t, p, ht, rfl, hp, hfield, hproto⟩ := h a ha
  have hpayload := (Message.erasablePayload?_eq_some_iff.mp hp).1
  refine ⟨t, ht, rfl, Option.isSome_iff_exists.mpr ⟨p, hp⟩, ?_, ?_⟩
  · rw [hfield]
    exact Message.typeName?_payload_iff hpayload
  · rw [hproto]
    exact Message.typeName?_payload_iff hpayload

end NamesPayload

/-! ## Messages and files -/

section Built

variable {s : Schema} {ctx : FileContext} {m : Message} {raw : MessageProto}

/-- No field of a message that was read from a descriptor has come through an alias. -/
theorem Message.BuiltFrom.namesPayload (h : m.BuiltFrom ctx raw) :
    List.Forall₂ s.NamesPayload m.fields raw.field := by
  rw [List.forall₂_iff_zip]
  refine ⟨h.mirrors.fields.length_eq, fun {x r} hxr => ?_⟩
  exact Schema.namesPayload_of_none (h.viaAlias (List.of_mem_zip hxr).1) r

theorem Schema.Built.namesPayload_resolveMessage (hs : s.Built) (h : m.BuiltFrom ctx raw) :
    List.Forall₂ s.NamesPayload (s.resolveMessage m raw).1.fields
      (s.resolveMessage m raw).2.field :=
  -- moving oneofs up changes neither names nor aliases
  Schema.forall₂_resolveMessage (fun _ _ hxr => hs.namesPayload_resolveField hxr)
    (fun _ _ _ _ hxr => hxr) h.namesPayload

theorem Schema.Built.namesPayload_resolved (hs : s.Built) {f : File} (hf : f.IsBuilt) :
    List.Forall₂ (fun m raw => List.Forall₂ s.NamesPayload m.fields raw.field)
      (families (s.resolved f).messages)
      (Descriptor.families (s.resolved f).proto.messageType) := by
  refine Schema.forall₂_families_resolved_of hf (fun _ _ _ h => h.namesPayload) fun p hp => ?_
  obtain ⟨ctx, hfrom⟩ := hf.builtFrom_of_mem_kept hp
  exact hs.namesPayload_resolveMessage hfrom

/-- A field of a message that stays, if it refers to a recursive alias, points back at it. -/
theorem Schema.Built.exists_pointsBack (hs : s.Built) {f : File} (hf : f.IsBuilt)
    {p : Message × MessageProto} (hp : p ∈ s.kept f) {x : Field} (hx : x ∈ p.1.fields)
    {t : Message} {q : Field} (ht : s.aliasTarget? x = some (t, q)) (hrec : t.Recursive) :
    ∃ p' ∈ (s.resolved f).messages.zip (s.resolved f).proto.messageType,
      ∃ y ∈ p'.1.fields.zip p'.2.field, y.1.viaAlias = some t.ident ∧
        y.1.typeName? = some t.fullName ∧ y.2.typeName = some t.fullName := by
  obtain ⟨ctx, hfrom⟩ := hf.builtFrom_of_mem_kept hp
  have hnames := hs.namesPayload_resolveMessage hfrom
  obtain ⟨r, hr⟩ := exists_mem_zip hnames.length_eq (s.settleField_mem_resolveMessage p.1 p.2 hx)
  have hvia : (s.settleField p.1 x).viaAlias = some t.ident := by
    rw [Schema.settleField_of_alias p.1 ht]
    rfl
  obtain ⟨u, hu, -, -, hfield, hproto⟩ := (List.forall₂_zip hnames hr).pointsBack_iff hvia
  have heq : u = t := by
    rw [show t.ident.fullName = t.fullName from rfl, hs.message?_of_aliasTarget? ht] at hu
    exact (Option.some.inj hu).symm
  subst heq
  exact ⟨_, Schema.resolveMessage_mem_zip_resolved hp, _, hr, hvia, hfield.mpr hrec,
    hproto.mpr hrec⟩

end Built

/-- **Which fields point back.** Every file of a schema made of descriptors resolves, and wherever
in the result a field has come through an alias, the field names this alias, and likewise its
descriptor, exactly if the alias is recursive. -/
theorem pointsBack_iff_recursive (marker : String) (generate : List String)
    (protos : List FileProto) {f : File}
    (hf : f ∈ (Schema.ofProtos marker generate protos).files) :
    ∃ f', (Schema.ofProtos marker generate protos).resolve f = .ok f' ∧
      List.Forall₂ (fun m raw => List.Forall₂ (fun x r => ∀ a, x.viaAlias = some a →
          ∃ t, (Schema.ofProtos marker generate protos).message? a.fullName = some t ∧
            t.ident = a ∧ t.isErasable = true ∧
            (x.typeName? = some a.fullName ↔ t.Recursive) ∧
            (r.typeName = some a.fullName ↔ t.Recursive))
        m.fields raw.field) (families f'.messages) (Descriptor.families f'.proto.messageType) := by
  have hs := Schema.built_ofProtos marker generate protos
  have hbuilt := hs.files f hf
  refine ⟨_, hbuilt.resolve_eq_ok _, ?_⟩
  refine (hs.namesPayload_resolved hbuilt).imp fun m raw hfields => hfields.imp fun x r hxr => ?_
  intro a ha
  exact hxr.pointsBack_iff ha

/-- A file with a recursive alias, `Category`, to which `Product` refers. -/
def categoriesProto : FileProto where
  name := some "categories.proto"
  package := some "shop"
  syntaxName := some "proto3"
  messageType :=
    [{ name := some "Category"
       field := [{ name := some "parent", number := some 1, label := some 1, type := some 11
                   typeName := some ".shop.Category" }] },
     { name := some "Product"
       field := [{ name := some "category", number := some 1, label := some 1, type := some 11
                   typeName := some ".shop.Category" }] }]
  sourceCodeInfo := some
    { location := [{ path := [4, 0], leadingComments := some " protobuf:alias\n" }] }

/-- The schema of `categoriesProto`. -/
def categoriesSchema : Schema := Schema.ofProto categoriesProto

/-- The file of `categoriesSchema`. -/
def categoriesFile : File := buildFile defaultMarker true categoriesProto

theorem categoriesSchema_built : categoriesSchema.Built := Schema.built_ofProto _

theorem categoriesSchema_files : categoriesSchema.files = [categoriesFile] :=
  Schema.files_ofProto _

theorem categoriesFile_mem : categoriesFile ∈ categoriesSchema.files := by
  simp [categoriesSchema_files]

theorem pointsBack_iff_recursive_categories :
    categoriesFile ∈ categoriesSchema.files ∧
      ∃ f', categoriesSchema.resolve categoriesFile = .ok f' ∧
        List.Forall₂ (fun m raw => List.Forall₂ (fun x r => ∀ a, x.viaAlias = some a →
            ∃ t, categoriesSchema.message? a.fullName = some t ∧ t.ident = a ∧
              t.isErasable = true ∧
              (x.typeName? = some a.fullName ↔ t.Recursive) ∧
              (r.typeName = some a.fullName ↔ t.Recursive))
          m.fields raw.field) (families f'.messages)
          (Descriptor.families f'.proto.messageType) :=
  ⟨categoriesFile_mem, pointsBack_iff_recursive _ _ _ categoriesFile_mem⟩

/-- `Category` is recursive. -/
theorem categoriesSchema_category : ∃ t, categoriesSchema.message? ".shop.Category" = some t ∧
    (∃ q, t.erasablePayload? = some q) ∧ t.Recursive := by
  rw [Schema.message?_eq_getLast? categoriesSchema_built.indexed, Schema.allMessages,
    categoriesSchema_files]
  exact ⟨_, rfl, ⟨_, rfl⟩, _, rfl, rfl⟩

/-- `Product` stays, and its field refers to `Category`. -/
theorem categories_product : ∃ p ∈ categoriesSchema.kept categoriesFile, ∃ x ∈ p.1.fields,
    x.kind = .message ∧ x.viaAlias = none ∧ x.message = some ".shop.Category" := by
  have hproduct := List.mem_of_getElem?
    (l := categoriesFile.messages.zip categoriesFile.proto.messageType) (i := 1) rfl
  exact ⟨_, List.mem_filter.mpr ⟨hproduct, rfl⟩, _, List.mem_of_getElem? (i := 0) rfl, rfl, rfl,
    rfl⟩

/-- **Fields do point back**: in the resolved file a field of `Product` has come through an alias
that it goes on naming, and its descriptor names it too. -/
theorem pointsBack_categories :
    categoriesFile ∈ categoriesSchema.files ∧
      ∃ f', categoriesSchema.resolve categoriesFile = .ok f' ∧
        ∃ p ∈ f'.messages.zip f'.proto.messageType, ∃ y ∈ p.1.fields.zip p.2.field,
          ∃ a, y.1.viaAlias = some a ∧ y.1.typeName? = some a.fullName ∧
            y.2.typeName = some a.fullName := by
  have hbuilt := categoriesSchema_built.files _ categoriesFile_mem
  obtain ⟨t, ht, ⟨q, hq⟩, hrec⟩ := categoriesSchema_category
  obtain ⟨p, hp, x, hx, hkind, hvia, hname⟩ := categories_product
  have htarget : categoriesSchema.aliasTarget? x = some (t, q) :=
    Schema.aliasTarget?_eq_some_iff.mpr ⟨hkind, hvia, by rw [hname, Option.bind_some, ht], hq⟩
  obtain ⟨p', hp', y, hy, hback⟩ :=
    categoriesSchema_built.exists_pointsBack hbuilt hp hx htarget hrec
  exact ⟨categoriesFile_mem, _, hbuilt.resolve_eq_ok _, p', hp', y, hy, t.ident, hback⟩

end AliasErasure
