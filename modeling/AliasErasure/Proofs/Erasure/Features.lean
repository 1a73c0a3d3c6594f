import AliasErasure.Proofs.Erasure.Agreement

set_option autoImplicit false

/-! # Features of resolved fields

The features of a field follow from its descriptor and from the dialect of its file
(`FieldProto.featuresIn`). A field that takes over a payload takes over the payload's features, and
these were worked out in the dialect of the file that declares the alias. The descriptor that is
written goes to the file of the field, which may be in another dialect.

So in a resolved file the features of a field are those of its descriptor in the dialect of this
file, or in that of the alias's file if the field has come through an alias
(`resolve_settlesFeatures`). Both are the same exactly where the two dialects agree, which is
seldom: proto2 checks no text, and proto3 and editions treat presence differently
(`Dialect.AgreeOn`).
-/

namespace AliasErasure

open Descriptor (FieldOptions FieldProto FileProto MessageProto)

/-! ## Features and dialects -/

/-- The features that the descriptor of a field stands for in a file of the dialect `d`. -/
def Descriptor.FieldProto.featuresIn (r : FieldProto) (d : Dialect) : Features :=
  featuresOf d r (Kind.ofProto r.type) (Cardinality.ofProto r.label)

/-- Features depend on kind, cardinality, packing and the flag for `optional` only. -/
theorem Descriptor.FieldProto.featuresIn_congr {r r' : FieldProto}
    (hkind : Kind.ofProto r.type = Kind.ofProto r'.type)
    (hcardinality : Cardinality.ofProto r.label = Cardinality.ofProto r'.label)
    (hpacked : r.options.bind (·.packed) = r'.options.bind (·.packed))
    (hoptional : r.proto3Optional.getD false = r'.proto3Optional.getD false) (d : Dialect) :
    r.featuresIn d = r'.featuresIn d := by
  unfold FieldProto.featuresIn featuresOf
  rw [hkind, hcardinality, hpacked, hoptional]

/-- Two dialects agree on fields of some kind and cardinality, leaving aside `optional` fields of
proto3: always if they are one, never if one of them is proto2, and otherwise on repeated fields
and on singular messages. -/
def Dialect.AgreeOn (d e : Dialect) (kind : Kind) (cardinality : Cardinality) : Prop :=
  d = e ∨ d ≠ .proto2 ∧ e ≠ .proto2 ∧
    (cardinality = .repeated ∧ kind ≠ .group ∨ cardinality = .optional ∧ kind = .message)

theorem featuresOf_utf8Validated (d : Dialect) (r : FieldProto) (kind : Kind)
    (cardinality : Cardinality) :
    (featuresOf d r kind cardinality).utf8Validated = true ↔ d ≠ .proto2 := by
  cases d <;> simp [featuresOf]

theorem featuresOf_proto3_eq_editions_iff {r : FieldProto} {kind : Kind}
    {cardinality : Cardinality} (plain : r.proto3Optional.getD false = false) :
    featuresOf .proto3 r kind cardinality = featuresOf .editions r kind cardinality ↔
      (cardinality = .repeated ∧ kind ≠ .group ∨ cardinality = .optional ∧ kind = .message) := by
  cases cardinality with
  | optional =>
      -- presence tells messages apart, and with it no group is left
      by_cases hkind : kind = .message
      · simp [featuresOf, plain, hkind]
      · simp [featuresOf, plain, hkind]
  | required => simp [featuresOf]
  | repeated =>
      by_cases hkind : kind = .group
      · simp [featuresOf, hkind]
      · simp [featuresOf, hkind]

/-- **Where dialects agree on features.** -/
theorem Descriptor.FieldProto.featuresIn_eq_iff {r : FieldProto}
    (plain : r.proto3Optional.getD false = false) (d e : Dialect) :
    r.featuresIn d = r.featuresIn e ↔
      d.AgreeOn e (Kind.ofProto r.type) (Cardinality.ofProto r.label) := by
  -- proto2 is told apart by the validation of text, so it has no other dialect to agree with
  have hutf8 : r.featuresIn d = r.featuresIn e → (d ≠ .proto2 ↔ e ≠ .proto2) := by
    intro h
    rw [← featuresOf_utf8Validated d r, ← featuresOf_utf8Validated e r]
    exact iff_of_eq (congrArg (·.utf8Validated = true) h)
  have hnewer : r.featuresIn .proto3 = r.featuresIn .editions ↔ _ :=
    featuresOf_proto3_eq_editions_iff plain
  unfold Dialect.AgreeOn
  cases d with
  | proto2 =>
      cases e with
      | proto2 => simp
      | proto3 => simpa using hutf8
      | editions => simpa using hutf8
  | proto3 =>
      cases e with
      | proto2 => simpa using hutf8
      | proto3 => simp
      | editions => simpa using hnewer
  | editions =>
      cases e with
      | proto2 => simpa using hutf8
      | proto3 => simpa using eq_comm.trans hnewer
      | editions => simp

/-! ## Fields -/

/-- Where a field comes from: it was read, in the dialect `d`, from the descriptor `r`. -/
def Field.ReadIn (x : Field) (d : Dialect) (r : FieldProto) : Prop :=
  ∃ ctx path, ctx.dialect = d ∧ x = buildField ctx path r

theorem Field.ReadIn.features {x : Field} {d : Dialect} {r : FieldProto} (h : x.ReadIn d r) :
    x.features = r.featuresIn d := by
  obtain ⟨ctx, path, rfl, rfl⟩ := h
  rfl

theorem bind_packed_nonEmptyOptions (options : Option FieldOptions) :
    (nonEmptyOptions options).bind (·.packed) = options.bind (·.packed) := by
  cases options with
  | none => rfl
  | some o =>
      by_cases ho : o = {}
      · subst ho
        rfl
      · rw [nonEmptyOptions, Option.filter_some, if_pos (by simpa using ho)]

/-- **The descriptor written for a field that takes over a payload stands for the features that
the payload's own descriptor stands for**, in each dialect. -/
theorem Field.ReadIn.featuresIn_synchronize {p : Field} {e : Dialect} {r₀ : FieldProto}
    (hp : p.ReadIn e r₀) (plain : p.proto3Optional = false) (x : Field) (erased : Ident)
    (r : FieldProto) (d : Dialect) :
    ((x.substitute p erased).synchronize r).featuresIn d = r₀.featuresIn d := by
  obtain ⟨ctx, path, -, rfl⟩ := hp
  have hflag : r₀.proto3Optional.getD false = false := plain
  refine FieldProto.featuresIn_congr ?_ ?_ ?_ ?_ d
  · exact Kind.ofProto_toNumber _
  · exact Cardinality.ofProto_toNumber _
  · exact bind_packed_nonEmptyOptions r₀.options
  · -- outside every oneof the flag is not written, and the payload has none
    rw [hflag]
    show (if r₀.proto3Optional.getD false && false then some true else none).getD false = false
    rw [Bool.and_false, if_neg Bool.false_ne_true, Option.getD_none]

/-- What is said of the features of a field `x` of a resolved file in the dialect `d`, beside its
descriptor `r`. -/
structure Schema.FeaturesSettle (s : Schema) (d : Dialect) (x : Field) (r : FieldProto) : Prop where
  /-- A field that has not come through an alias has the features that its descriptor stands for
  in this file. -/
  own : x.viaAlias = none → x.features = r.featuresIn d
  /-- A field that has come through an alias has those that its descriptor would stand for in the
  file of the alias. They are those of this file exactly where the two dialects agree. -/
  taken : ∀ a, x.viaAlias = some a → ∃ t ∈ s.allMessages,
    s.message? a.fullName = some t ∧ t.ident = a ∧
      ∀ g ∈ s.files, t ∈ families g.messages → x.features = r.featuresIn g.dialect ∧
        (x.features = r.featuresIn d ↔ d.AgreeOn g.dialect x.kind x.cardinality)

/-- No payload of an alias is an `optional` field of proto3. -/
def Schema.PlainPayloads (s : Schema) : Prop :=
  ∀ m ∈ s.allMessages, ∀ p, m.payload? = some p → p.proto3Optional = false

section Built

variable {s : Schema} (hs : s.Built)
include hs

/-- A field of a message was read in the dialect of the file that declares the message. -/
theorem Schema.Built.exists_readIn {g : File} (hg : g ∈ s.files) {m : Message}
    (hm : m ∈ families g.messages) {p : Field} (hp : p ∈ m.fields) :
    ∃ r, p.ReadIn g.dialect r := by
  obtain ⟨ctx, hdialect, hmessages⟩ := (hs.files g hg).messages_dialect
  obtain ⟨raw, -, scope, path, -, rfl⟩ := exists_rel_of_mem_left (forall₂_families hmessages) hm
  obtain ⟨fieldPath, r, -, rfl⟩ := mem_fields_buildMessage ctx scope path raw hp
  exact ⟨r, ctx, fieldPath, hdialect, rfl⟩

/-- What a field that takes over a payload has to do with the file of the alias. -/
theorem Schema.Built.features_substitute (plain : s.PlainPayloads) {x : Field} {t : Message}
    {p : Field} (ht : s.aliasTarget? x = some (t, p)) {g : File} (hg : g ∈ s.files)
    (htg : t ∈ families g.messages) (r : FieldProto) (d : Dialect) :
    let x' := x.substitute p t.ident
    let r' := x'.synchronize r
    x'.features = r'.featuresIn g.dialect ∧
      (x'.features = r'.featuresIn d ↔ d.AgreeOn g.dialect x'.kind x'.cardinality) := by
  intro x' r'
  obtain ⟨htmem, hpmem⟩ := hs.aliasTarget?_mem ht
  have hpayload := (Schema.aliasTarget?_eq_some_iff.mp ht).2.2.2
  have hplain := plain t htmem p (Message.erasablePayload?_eq_some_iff.mp hpayload).1
  obtain ⟨r₀, hp⟩ := hs.exists_readIn hg htg hpmem
  have hwritten : ∀ e, r'.featuresIn e = r₀.featuresIn e :=
    hp.featuresIn_synchronize hplain x t.ident r
  have hfeatures : x'.features = r₀.featuresIn g.dialect := hp.features
  obtain ⟨ctx, path, -, rfl⟩ := hp
  constructor
  · exact hfeatures.trans (hwritten g.dialect).symm
  · calc x'.features = r'.featuresIn d
        ↔ r₀.featuresIn d = r₀.featuresIn g.dialect := by rw [hfeatures, hwritten, eq_comm]
      _ ↔ d.AgreeOn g.dialect x'.kind x'.cardinality :=
          FieldProto.featuresIn_eq_iff hplain d g.dialect

theorem Schema.Built.featuresSettle_resolveField (plain : s.PlainPayloads) {d : Dialect}
    {x : Field} {r : FieldProto} (h : s.FeaturesSettle d x r) :
    s.FeaturesSettle d (s.resolveField x) (s.resolveFieldProto x r) := by
  rw [Schema.resolveFieldProto, Schema.refersToAlias, Schema.resolveField]
  cases ht : s.aliasTarget? x with
  | none => exact h
  | some target =>
      constructor
      · intro hvia
        cases hvia
      · intro a hvia
        cases hvia
        refine ⟨target.1, (hs.aliasTarget?_mem ht).1, hs.message?_of_aliasTarget? ht, rfl, ?_⟩
        intro g hg htg
        exact hs.features_substitute plain ht hg htg r d

end Built

/-- The fields of a message as it was read have their own features. -/
theorem Message.BuiltFrom.featuresSettle {ctx : FileContext} {m : Message} {raw : MessageProto}
    (h : m.BuiltFrom ctx raw) (s : Schema) :
    List.Forall₂ (s.FeaturesSettle ctx.dialect) m.fields raw.field := by
  obtain ⟨scope, path, -, rfl⟩ := h
  rw [buildMessage_eq]
  refine forall₂_mapIdx _ fun i r => ⟨fun _ => rfl, fun a hvia => ?_⟩
  cases hvia

/-! ## Files -/

/-- **Features of resolved fields.** Suppose that no payload of an alias is an `optional` field of
proto3. Then every file of a schema made of descriptors resolves, and each field of what is left
has, if it has not come through an alias, the features that its descriptor stands for in this
file. If it has, its features are those that its descriptor would stand for in the file of the
alias; they are the ones of this file exactly where the two dialects agree. -/
theorem resolve_settlesFeatures (marker : String) (generate : List String)
    (protos : List FileProto) (plain : (Schema.ofProtos marker generate protos).PlainPayloads)
    {f : File} (hf : f ∈ (Schema.ofProtos marker generate protos).files) :
    ∃ f', (Schema.ofProtos marker generate protos).resolve f = .ok f' ∧
      List.Forall₂ (fun m raw => List.Forall₂
          ((Schema.ofProtos marker generate protos).FeaturesSettle f.dialect) m.fields raw.field)
        f'.messages f'.proto.messageType := by
  have hs := Schema.built_ofProtos marker generate protos
  obtain ⟨ctx, hdialect, hmessages⟩ := (hs.files f hf).messages_dialect
  refine ⟨_, (hs.files f hf).resolve_eq_ok _, Schema.forall₂_resolved fun p hp => ?_⟩
  have hfrom : p.1.BuiltFrom ctx p.2 :=
    (List.forall₂_iff_zip.mp hmessages).2 (List.mem_filter.mp hp).1
  rw [← hdialect]
  apply Schema.forall₂_resolveMessage
  · intro x r hxr
    exact hs.featuresSettle_resolveField plain hxr
  · -- moving a oneof up leaves everything alone that features depend on
    intro used _ x r hxr
    exact ⟨hxr.own, hxr.taken⟩
  · exact hfrom.featuresSettle _

/-- A proto2 file with an alias, `TicketId`, for text. -/
def legacyIdsProto : FileProto where
  name := some "legacy_ids.proto"
  package := some "shop"
  syntaxName := some "proto2"
  messageType :=
    [{ name := some "TicketId"
       field := [{ name := some "value", number := some 1, label := some 1, type := some 9 }] }]
  sourceCodeInfo := some
    { location := [{ path := [4, 0], leadingComments := some " protobuf:alias\n" }] }

/-- A proto3 file in which `Ticket` refers to `TicketId`. -/
def ticketsProto : FileProto where
  name := some "tickets.proto"
  package := some "shop"
  dependency := ["legacy_ids.proto"]
  syntaxName := some "proto3"
  messageType :=
    [{ name := some "Ticket"
       field := [{ name := some "id", number := some 1, label := some 1, type := some 11
                   typeName := some ".shop.TicketId" }] }]

/-- The schema of the two files. -/
def ticketsSchema : Schema :=
  Schema.ofProtos defaultMarker ["tickets.proto"] [legacyIdsProto, ticketsProto]

/-- The file of `legacyIdsProto` in `ticketsSchema`. -/
def legacyIdsFile : File := buildFile defaultMarker false legacyIdsProto

/-- The file of `ticketsProto` in `ticketsSchema`. -/
def ticketsFile : File := buildFile defaultMarker true ticketsProto

theorem ticketsSchema_built : ticketsSchema.Built := Schema.built_ofProtos _ _ _

theorem ticketsSchema_files : ticketsSchema.files = [legacyIdsFile, ticketsFile] := by
  simp [ticketsSchema, Schema.ofProtos, Schema.ofFiles, legacyIdsProto, ticketsProto,
    legacyIdsFile, ticketsFile]

theorem ticketsFile_mem : ticketsFile ∈ ticketsSchema.files := by simp [ticketsSchema_files]

theorem ticketsSchema_plain : ticketsSchema.PlainPayloads := by
  have hfields : ∀ m ∈ ticketsSchema.allMessages, ∀ p ∈ m.fields, p.proto3Optional = false := by
    rw [Schema.allMessages, ticketsSchema_files]
    decide
  exact fun m hm p hp => hfields m hm p (Message.mem_fields_of_payload? hp)

theorem resolve_settlesFeatures_tickets :
    ticketsSchema.PlainPayloads ∧ ticketsFile ∈ ticketsSchema.files ∧
      ∃ f', ticketsSchema.resolve ticketsFile = .ok f' ∧
        List.Forall₂ (fun m raw => List.Forall₂
            (ticketsSchema.FeaturesSettle ticketsFile.dialect) m.fields raw.field)
          f'.messages f'.proto.messageType :=
  ⟨ticketsSchema_plain, ticketsFile_mem,
    resolve_settlesFeatures _ _ _ ticketsSchema_plain ticketsFile_mem⟩

/-- The payload of `TicketId` was read in proto2. -/
theorem ticketsSchema_ticketId : ∃ t, ticketsSchema.message? ".shop.TicketId" = some t ∧
    ∃ p, t.erasablePayload? = some p ∧ p.features.utf8Validated = false := by
  rw [Schema.message?_eq_getLast? ticketsSchema_built.indexed, Schema.allMessages,
    ticketsSchema_files]
  exact ⟨_, rfl, _, rfl, rfl⟩

/-- `Ticket` stays, and its field refers to `TicketId`. -/
theorem tickets_ticket : ∃ p ∈ ticketsSchema.kept ticketsFile, ∃ x ∈ p.1.fields,
    x.kind = .message ∧ x.viaAlias = none ∧ x.message = some ".shop.TicketId" := by
  have hticket := List.mem_of_getElem?
    (l := ticketsFile.messages.zip ticketsFile.proto.messageType) (i := 0) rfl
  exact ⟨_, List.mem_filter.mpr ⟨hticket, rfl⟩, _, List.mem_of_getElem? (i := 0) rfl, rfl, rfl,
    rfl⟩

/-- **Features do differ from those of the descriptor**: no payload is an `optional` field, and
yet a field of the resolved file has other features than its descriptor stands for in this file.
The field is taken for one whose text is not checked, as in proto2. -/
theorem features_differ_tickets :
    ticketsSchema.PlainPayloads ∧ ticketsFile ∈ ticketsSchema.files ∧
      ticketsFile.dialect = .proto3 ∧
      ∃ f', ticketsSchema.resolve ticketsFile = .ok f' ∧
        ∃ p ∈ f'.messages.zip f'.proto.messageType, ∃ q ∈ p.1.fields.zip p.2.field,
          q.1.features ≠ q.2.featuresIn ticketsFile.dialect := by
  have hbuilt := ticketsSchema_built.files _ ticketsFile_mem
  obtain ⟨p, hp, x, hx, hkind, hvia, hname⟩ := tickets_ticket
  obtain ⟨t, ht, q, hq, hunchecked⟩ := ticketsSchema_ticketId
  have htarget : ticketsSchema.aliasTarget? x = some (t, q) :=
    Schema.aliasTarget?_eq_some_iff.mpr ⟨hkind, hvia, by rw [hname, Option.bind_some, ht], hq⟩
  obtain ⟨ctx, hfrom⟩ := hbuilt.builtFrom_of_mem_kept hp
  have hfields := (ticketsSchema_built.resolveMessage_mirrors hfrom.mirrors).fields
  obtain ⟨r, hr⟩ := exists_mem_zip hfields.length_eq
    (ticketsSchema.settleField_mem_resolveMessage p.1 p.2 hx)
  refine ⟨ticketsSchema_plain, ticketsFile_mem, rfl, _, hbuilt.resolve_eq_ok _,
    _, Schema.resolveMessage_mem_zip_resolved hp, _, hr, fun heq => ?_⟩
  have hchecked : (r.featuresIn .proto3).utf8Validated = true := rfl
  have hfeatures : (ticketsSchema.settleField p.1 x).features = r.featuresIn .proto3 := heq
  rw [← hfeatures, Schema.settleField_of_alias p.1 htarget] at hchecked
  exact Bool.false_ne_true (hunchecked.symm.trans hchecked)

end AliasErasure
