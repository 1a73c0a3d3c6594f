import AliasErasure.Proofs.Erasure.References
import AliasErasure.Proofs.Schema.Declared

set_option autoImplicit false

/-! # Declarations that go with an alias

An alias that goes takes along all types declared inside it. It is kept if its own payload uses one
of these, but nobody looks at other uses: those by fields elsewhere, by extensions and by methods.
What a resolved file uses is determined here case by case (`Schema.StillUses`); the uses that are
left of a type that has gone along with an alias, or by a method of the alias itself, are *orphans*
(`orphaned_iff_stillUses`).
-/

namespace AliasErasure

open Descriptor (FieldProto FileProto MessageProto)

/-! ## What resolved files use -/

/-- What the fields and extensions of a file use, once it has been resolved. -/
inductive Schema.StillUses (s : Schema) (f : File) (n : String) : Prop
  /-- A field of a message that stays uses the type, and does not refer to an alias. -/
  | field {p : Message × MessageProto} {x : Field} {r : FieldProto} (hp : p ∈ s.kept f)
      (hx : (x, r) ∈ p.1.fields.zip p.2.field) (hnone : s.aliasTarget? x = none)
      (hn : n ∈ r.typeUses)
  /-- A field of a message that stays refers to an alias whose payload uses the type. -/
  | payload {p : Message × MessageProto} {x : Field} {t : Message} {q : Field} {name : String}
      (hp : p ∈ s.kept f) (hx : x ∈ p.1.fields) (ht : s.aliasTarget? x = some (t, q))
      (hname : q.typeName? = some name) (hn : n = Schema.qualified name)
  /-- An extension directly in a message that stays uses the type. -/
  | extension {p : Message × MessageProto} {r : FieldProto} (hp : p ∈ s.kept f)
      (hr : r ∈ p.2.extension) (hn : n ∈ r.extensionUses)
  /-- A message nested in one that stays uses the type. -/
  | nested {p : Message × MessageProto} {raw : MessageProto} (hp : p ∈ s.kept f)
      (hraw : raw ∈ Descriptor.families p.2.nestedType) (hn : n ∈ raw.ownUses)
  /-- An extension at the top level uses the type. -/
  | fileExtension {r : FieldProto} (hr : r ∈ f.proto.extension) (hn : n ∈ r.extensionUses)

section Uses

variable {s : Schema} {n : String}

/-- Descriptors of fields are resolved one by one. -/
theorem Schema.resolveFieldProtos_eq_map_zip {fs : List Field} {rs : List FieldProto}
    (h : fs.length = rs.length) :
    s.resolveFieldProtos fs rs = (fs.zip rs).map fun q => s.resolveFieldProto q.1 q.2 := by
  induction fs generalizing rs with
  | nil =>
      cases rs with
      | nil => rfl
      | cons r rs => cases h
  | cons x fs ih =>
      cases rs with
      | nil => cases h
      | cons r rs =>
          show s.resolveFieldProto x r :: s.resolveFieldProtos fs rs = _
          rw [ih (Nat.succ.inj h), List.zip_cons_cons, List.map_cons]

/-- Moving oneofs up does not change what fields use. -/
theorem Schema.flatMap_typeUses_resolveMessage (m : Message) (raw : MessageProto) :
    (s.resolveMessage m raw).2.field.flatMap (·.typeUses)
      = (s.resolveFieldProtos m.fields raw.field).flatMap (·.typeUses) := by
  cases hp : s.pruning? m with
  | none => rw [s.resolveMessage_of_pruning?_eq_none m raw hp]
  | some used =>
      rw [s.resolveMessage_of_pruning?_eq_some m raw hp]
      show ((s.resolveFieldProtos m.fields raw.field).map (renumberProto used)).flatMap _ = _
      rw [List.flatMap_map]
      rfl

theorem Schema.mem_typeUses_resolveFieldProto_iff {x : Field} {r : FieldProto} :
    n ∈ (s.resolveFieldProto x r).typeUses ↔
      (s.aliasTarget? x = none ∧ n ∈ r.typeUses) ∨
        ∃ t q name, s.aliasTarget? x = some (t, q) ∧ q.typeName? = some name ∧
          n = Schema.qualified name := by
  rw [Schema.resolveFieldProto, Schema.refersToAlias, Schema.resolveField]
  cases ht : s.aliasTarget? x with
  | none => simp
  | some target =>
      have huses : ((x.substitute target.2 target.1.ident).synchronize r).typeUses
          = target.2.typeName?.toList.map Schema.qualified := rfl
      simp only [Option.isSome_some, if_true, huses, List.mem_map, Option.mem_toList]
      constructor
      · rintro ⟨name, hname, rfl⟩
        exact Or.inr ⟨target.1, target.2, name, rfl, hname, rfl⟩
      · rintro (⟨hnone, -⟩ | ⟨t, q, name, htarget, hname, rfl⟩)
        · cases hnone
        · cases htarget
          exact ⟨name, hname, rfl⟩

/-- What a resolved message uses itself: what its fields use or take over, and what the extensions
in it use. -/
theorem Schema.mem_ownUses_resolveMessage_iff {m : Message} {raw : MessageProto}
    (h : m.fields.length = raw.field.length) :
    n ∈ (s.resolveMessage m raw).2.ownUses ↔
      (∃ q ∈ m.fields.zip raw.field, n ∈ (s.resolveFieldProto q.1 q.2).typeUses) ∨
        ∃ r ∈ raw.extension, n ∈ r.extensionUses := by
  have hextension : (s.resolveMessage m raw).2.extension = raw.extension := by
    rw [s.resolveMessage_frame_raw]
  rw [MessageProto.ownUses, List.mem_append, Schema.flatMap_typeUses_resolveMessage,
    Schema.resolveFieldProtos_eq_map_zip h, hextension, List.flatMap_map, List.mem_flatMap,
    List.mem_flatMap]

/-- The descriptors in a resolved file at every depth: those nested in a message that stays, and
those of the messages that stay, resolved. -/
theorem Schema.mem_families_resolved_raw_iff {f : File} {raw : MessageProto} :
    raw ∈ Descriptor.families (s.resolved f).proto.messageType ↔
      ∃ p ∈ s.kept f, raw ∈ Descriptor.families p.2.nestedType ∨
        raw = (s.resolveMessage p.1 p.2).2 := by
  rw [Descriptor.mem_families]
  simp only [Schema.resolved, List.mem_map, exists_exists_and_eq_and,
    s.family_resolveMessage_raw, List.mem_append, List.mem_singleton]

/-- **What a resolved file uses.** -/
theorem File.IsBuilt.mem_fieldUses_resolved_iff {f : File} (hf : f.IsBuilt) :
    n ∈ (s.resolved f).proto.fieldUses ↔ s.StillUses f n := by
  have hlen : ∀ p ∈ s.kept f, p.1.fields.length = p.2.field.length := by
    intro p hp
    obtain ⟨ctx, hfrom⟩ := hf.builtFrom_of_mem_kept hp
    exact hfrom.mirrors.fields.length_eq
  have hextension : (s.resolved f).proto.extension = f.proto.extension := rfl
  rw [FileProto.fieldUses, hextension, List.mem_append, List.mem_flatMap, List.mem_flatMap]
  simp only [Schema.mem_families_resolved_raw_iff]
  constructor
  · rintro (⟨raw, ⟨p, hp, hraw | rfl⟩, hn⟩ | ⟨r, hr, hn⟩)
    · exact .nested hp hraw hn
    · rcases (Schema.mem_ownUses_resolveMessage_iff (hlen p hp)).mp hn with
        ⟨q, hq, hn⟩ | ⟨r, hr, hn⟩
      · rcases Schema.mem_typeUses_resolveFieldProto_iff.mp hn with
          ⟨hnone, hn⟩ | ⟨t, payload, name, ht, hname, hn⟩
        · exact .field hp hq hnone hn
        · exact .payload hp (List.of_mem_zip hq).1 ht hname hn
      · exact .extension hp hr hn
    · exact .fileExtension hr hn
  · intro huses
    cases huses with
    | field hp hx hnone hn =>
        refine Or.inl ⟨_, ⟨_, hp, Or.inr rfl⟩, ?_⟩
        rw [Schema.mem_ownUses_resolveMessage_iff (hlen _ hp)]
        exact Or.inl ⟨_, hx, Schema.mem_typeUses_resolveFieldProto_iff.mpr (Or.inl ⟨hnone, hn⟩)⟩
    | payload hp hx ht hname hn =>
        obtain ⟨r, hr⟩ := exists_mem_zip (hlen _ hp) hx
        refine Or.inl ⟨_, ⟨_, hp, Or.inr rfl⟩, ?_⟩
        rw [Schema.mem_ownUses_resolveMessage_iff (hlen _ hp)]
        exact Or.inl ⟨_, hr, Schema.mem_typeUses_resolveFieldProto_iff.mpr
          (Or.inr ⟨_, _, _, ht, hname, hn⟩)⟩
    | extension hp hr hn =>
        refine Or.inl ⟨_, ⟨_, hp, Or.inr rfl⟩, ?_⟩
        rw [Schema.mem_ownUses_resolveMessage_iff (hlen _ hp)]
        exact Or.inr ⟨_, hr, hn⟩
    | nested hp hraw hn => exact Or.inl ⟨_, ⟨_, hp, Or.inl hraw⟩, hn⟩
    | fileExtension hr hn => exact Or.inr ⟨_, hr, hn⟩

end Uses

/-! ## Orphans -/

/-- The file would miss the message `a`: a field, an extension or a method uses a type declared
inside it, or a method uses the message itself. -/
def File.Misses (f : File) (a : Message) : Prop :=
  (∃ n ∈ a.innerTypes, n ∈ f.proto.fieldUses ∨ n ∈ f.proto.methodUses) ∨
    a.fullName ∈ f.proto.methodUses

/-- Some alias that has left its file is missed. -/
def Orphaned (resolved : List File) : Prop :=
  ∃ g ∈ resolved, ∃ a ∈ g.aliases, ∃ f ∈ resolved, f.Misses a

/-- A message that goes is missed: what it declares is still used once the file `f` has been
resolved. -/
def Schema.Misses (s : Schema) (f : File) (a : Message) : Prop :=
  (∃ n ∈ a.innerTypes, s.StillUses f n ∨ n ∈ f.proto.methodUses) ∨
    a.fullName ∈ f.proto.methodUses

/-- A message keeps the types inside it, whether it goes or stays. -/
theorem Schema.resolvePair_innerTypes (s : Schema) (p : Message × MessageProto) :
    (s.resolvePair p).1.innerTypes = p.1.innerTypes := by
  rw [Schema.resolvePair]
  split
  · rfl
  · refine (Message.types_congr ?_ ?_ ?_).2 <;> rw [s.resolveMessage_frame]

section Built

variable {s : Schema} (hs : s.Built)
include hs

/-- What is missed in the resolved files is what the schema says. -/
theorem Schema.Built.exists_misses_iff (a : Message) :
    (∃ f' ∈ s.files.map s.resolved, f'.Misses a) ↔ ∃ f ∈ s.files, s.Misses f a := by
  simp only [List.mem_map, exists_exists_and_eq_and]
  refine exists_congr fun f => and_congr_right fun hf => ?_
  have hmethods : (s.resolved f).proto.methodUses = f.proto.methodUses := rfl
  simp only [File.Misses, Schema.Misses, hmethods, (hs.files f hf).mem_fieldUses_resolved_iff]

theorem Schema.Built.orphaned_iff :
    Orphaned (s.files.map s.resolved) ↔
      ∃ a ∈ s.topLevel, s.consumes a = true ∧ ∃ f ∈ s.files, s.Misses f a := by
  -- whether a message is missed does not depend on its fields, so it may be taken unresolved
  have hgone : ∀ g ∈ s.files, (∃ a ∈ (s.resolved g).aliases, ∃ f ∈ s.files, s.Misses f a) ↔
      ∃ a ∈ g.messages, s.consumes a = true ∧ ∃ f ∈ s.files, s.Misses f a := by
    intro g hg
    refine (hs.files g hg).exists_mem_aliases_iff fun p => ?_
    simp only [Schema.Misses, s.resolvePair_innerTypes, s.resolvePair_fullName]
  simp only [Orphaned, hs.exists_misses_iff]
  simp only [List.mem_map, exists_exists_and_eq_and, Schema.topLevel, List.mem_flatMap]
  constructor
  · rintro ⟨g, hg, h⟩
    obtain ⟨a, ha, hrest⟩ := (hgone g hg).mp h
    exact ⟨a, ⟨g, hg, ha⟩, hrest⟩
  · rintro ⟨a, ⟨g, hg, ha⟩, hrest⟩
    exact ⟨g, hg, (hgone g hg).mpr ⟨a, ha, hrest⟩⟩

end Built

/-- **When there are orphans.** All files of a schema made of descriptors resolve, and something
that has gone with an alias is missed exactly if the schema has a message that goes, and a use of
what it declares that stays. -/
theorem orphaned_iff_stillUses (marker : String) (generate : List String)
    (protos : List FileProto) :
    ∃ resolved, List.Forall₂
        (fun f f' => (Schema.ofProtos marker generate protos).resolve f = .ok f')
        (Schema.ofProtos marker generate protos).files resolved ∧
      (Orphaned resolved ↔
        ∃ a ∈ (Schema.ofProtos marker generate protos).topLevel,
          (Schema.ofProtos marker generate protos).consumes a = true ∧
            ∃ f ∈ (Schema.ofProtos marker generate protos).files,
              (Schema.ofProtos marker generate protos).Misses f a) := by
  have hs := Schema.built_ofProtos marker generate protos
  refine ⟨_, ?_, hs.orphaned_iff⟩
  rw [List.forall₂_map_right_iff, List.forall₂_same]
  exact fun f hf => (hs.files f hf).resolve_eq_ok _

/-- A file with an alias, `Quote`, in which an enum is declared that `Order` uses; besides, a method
answers with a `Quote`. -/
def quotesProto : FileProto where
  name := some "quotes.proto"
  package := some "shop"
  syntaxName := some "proto3"
  messageType :=
    [{ name := some "Quote"
       field := [{ name := some "cents", number := some 1, label := some 1, type := some 3 }]
       enumType :=
        [{ name := some "Currency", value := [{ name := some "EUR", number := some 0 }] }] },
     { name := some "Order"
       field := [{ name := some "currency", number := some 1, label := some 1, type := some 14
                   typeName := some ".shop.Quote.Currency" }] }]
  service :=
    [{ name := some "Quotes"
       method := [{ name := some "Ask", inputType := some ".shop.Order"
                    outputType := some ".shop.Quote" }] }]
  sourceCodeInfo := some
    { location := [{ path := [4, 0], leadingComments := some " protobuf:alias\n" }] }

/-- The schema of `quotesProto`. -/
def quotesSchema : Schema := Schema.ofProto quotesProto

/-- The file of `quotesSchema`. -/
def quotesFile : File := buildFile defaultMarker true quotesProto

theorem quotesSchema_built : quotesSchema.Built := Schema.built_ofProto _

theorem quotesSchema_files : quotesSchema.files = [quotesFile] := Schema.files_ofProto _

theorem quotesSchema_types :
    quotesSchema.types = [".shop.Quote", ".shop.Quote.Currency", ".shop.Order"] := by
  rw [Schema.types, quotesSchema_files]
  rfl

/-- Every use in the file is of a type in the file. -/
theorem quotesSchema_linked : quotesSchema.Linked := by
  have huses : quotesFile.proto.fieldUses = [".shop.Quote.Currency"] ∧
      quotesFile.proto.methodUses = [".shop.Order", ".shop.Quote"] := ⟨by decide, by decide⟩
  intro f hf n hn
  rw [quotesSchema_files, List.mem_singleton] at hf
  subst hf
  rw [huses.1, huses.2] at hn
  rw [quotesSchema_types]
  simp only [List.mem_cons, List.not_mem_nil, or_false] at hn ⊢
  tauto

/-- `Order` stays, and its field uses the enum. -/
theorem quotes_order : quotesSchema.StillUses quotesFile ".shop.Quote.Currency" := by
  have horder := List.mem_of_getElem?
    (l := quotesFile.messages.zip quotesFile.proto.messageType) (i := 1) rfl
  refine .field (List.mem_filter.mpr ⟨horder, rfl⟩) (List.mem_of_getElem? (i := 0) rfl) rfl ?_
  decide

/-- **Declarations do go while they are needed**: types have different names and every use is of a
declared type, and yet, once everything is resolved, a field uses an enum that has gone with an
alias, and a method the alias itself. -/
theorem orphaned_quotes :
    quotesSchema.types.Nodup ∧ quotesSchema.Linked ∧
      ∃ resolved, List.Forall₂ (fun f f' => quotesSchema.resolve f = .ok f')
          quotesSchema.files resolved ∧
        ∃ g ∈ resolved, ∃ a ∈ g.aliases, ∃ f ∈ resolved,
          (∃ n ∈ a.innerTypes, n ∈ f.proto.fieldUses) ∧ a.fullName ∈ f.proto.methodUses := by
  have hmem : quotesFile ∈ quotesSchema.files := by simp [quotesSchema_files]
  have hbuilt := quotesSchema_built.files _ hmem
  have hresolved : quotesSchema.resolved quotesFile ∈ [quotesSchema.resolved quotesFile] :=
    List.mem_singleton_self _
  refine ⟨?_, quotesSchema_linked, [quotesSchema.resolved quotesFile], ?_, _, hresolved, ?_⟩
  · rw [quotesSchema_types]
    decide
  · rw [quotesSchema_files]
    exact List.Forall₂.cons (hbuilt.resolve_eq_ok _) List.Forall₂.nil
  · have hfield := hbuilt.mem_fieldUses_resolved_iff.mpr quotes_order
    refine ⟨_, List.mem_of_getElem? (i := 0) rfl, _, hresolved, ⟨_, ?_, hfield⟩, ?_⟩
    · decide
    · decide

end AliasErasure
