import AliasErasure.Output.Source
import AliasErasure.Proofs.Erasure.Oneofs

set_option autoImplicit false

/-! # Presence in the source text and in the descriptor

In proto3 a field tracks presence if it is declared `optional`. The source text of a resolved file
says so by a label, the descriptor by a flag together with a synthetic oneof that holds only this
field.

The label follows the field alone, provided that the field is not written as a member of a oneof
(`Message.labelsOptional_iff`). A field declared `optional` never is: a synthetic oneof is not
written, and it moves up along with its field (`Schema.writtenOneof?_settleField`). The flag, on
the other hand, is dropped when a field takes over a payload, because that leaves its oneof
(`Schema.resolveField_flagged`). So where the payload is declared `optional`, the text says what
the descriptor does not (`presence_agrees_iff`).
-/

namespace AliasErasure

open Descriptor (FieldProto FileProto MessageProto)

/-! ## The label -/

section Label

variable {dialect : Dialect} {m : Message} {x : Field}

theorem fieldLabelText_cases (dialect : Dialect) (x : Field) :
    fieldLabelText dialect x = "" ∨ fieldLabelText dialect x = "optional" ∨
      fieldLabelText dialect x = "repeated" ∨ fieldLabelText dialect x = "required" := by
  unfold fieldLabelText
  split
  case h_5 => split <;> simp
  all_goals simp

theorem fieldLabelText_proto3_iff : fieldLabelText .proto3 x = "optional" ↔
    x.cardinality = .optional ∧ x.proto3Optional = true := by
  cases hcard : x.cardinality with
  | optional => simp [fieldLabelText, hcard]
  | required => simp [fieldLabelText, hcard]
  | repeated => simp [fieldLabelText, hcard]

theorem mapEntryFields?_eq_none (h : x.cardinality = .optional) : mapEntryFields? m x = none := by
  rw [mapEntryFields?, if_neg]
  rintro ⟨hrepeated, -⟩
  rw [h] at hrepeated
  cases hrepeated

/-- Texts with different first characters differ. -/
theorem ne_of_head? {s t : String} (h : s.toList.head? ≠ t.toList.head?) : s ≠ t :=
  fun heq => h (by rw [heq])

/-- A declaration starts with the label `optional` only by way of the label. -/
theorem declarationText_eq_optional_iff :
    declarationText dialect m x = "optional " ++ memberText dialect x ↔
      mapEntryFields? m x = none ∧ fieldLabelText dialect x = "optional" := by
  rw [declarationText]
  cases hmap : mapEntryFields? m x with
  | some entry =>
      have hne : ∀ t, "map<" ++ t ≠ "optional " ++ memberText dialect x :=
        fun t => ne_of_head? (by simp)
      simp only [String.append_assoc, reduceCtorEq, false_and, iff_false]
      exact hne _
  | none =>
      rcases fieldLabelText_cases dialect x with h | h | h | h
      · -- without a label nothing stands in front of the type
        have hne : memberText dialect x ≠ "optional " ++ memberText dialect x := by
          intro heq
          have hlen := congrArg (fun t => t.toList.length) heq
          simp only [String.toList_append, List.length_append] at hlen
          exact absurd hlen (by simp)
        simpa [h] using hne
      · simp [h]
      · simp [h]
      · simp [h]

/-- The fields of a message that stand outside of oneofs are written on their own. -/
theorem field_mem_bodyItems_iff {fields : List Field} {seen : List Nat} :
    .field x ∈ bodyItems m seen fields ↔ x ∈ fields ∧ writtenOneof? m x = none := by
  induction fields generalizing seen with
  | nil => simp [bodyItems]
  | cons f rest ih =>
      rw [bodyItems]
      cases hf : writtenOneof? m f with
      | none =>
          simp only [List.mem_cons, BodyItem.field.injEq, ih]
          grind
      | some i =>
          -- the oneof stands here or further up, and the field is one of its members
          have hne : writtenOneof? m x = none → x ≠ f := by
            rintro hx rfl
            rw [hf] at hx
            cases hx
          simp only [List.mem_cons]
          split
          · rw [ih]
            grind
          · simp only [List.mem_cons, reduceCtorEq, false_or, ih]
            grind

/-- The source text of a message has a field outside of oneofs, with the label `optional`. -/
def Message.LabelsOptional (dialect : Dialect) (m : Message) (x : Field) : Prop :=
  .field x ∈ bodyItems m [] m.fields ∧
    declarationText dialect m x = "optional " ++ memberText dialect x

/-- **When a field is labelled**: it is declared `optional` and no oneof is written around it. -/
theorem Message.labelsOptional_iff (hx : x ∈ m.fields) :
    m.LabelsOptional .proto3 x ↔
      writtenOneof? m x = none ∧ x.cardinality = .optional ∧ x.proto3Optional = true := by
  rw [Message.LabelsOptional, field_mem_bodyItems_iff, declarationText_eq_optional_iff,
    fieldLabelText_proto3_iff]
  constructor
  · rintro ⟨⟨-, houtside⟩, -, hoptional⟩
    exact ⟨houtside, hoptional⟩
  · rintro ⟨houtside, hoptional⟩
    exact ⟨⟨hx, houtside⟩, mapEntryFields?_eq_none hoptional.1, hoptional⟩

/-- The parts of the source text of a message. -/
theorem messageLines_eq (dialect : Dialect) (level : Nat) (m : Message) :
    messageLines dialect level m =
      commentLines level m.comments ++ .code level ("message " ++ m.name ++ " \x7b") ::
        nestedLines dialect (level + 1) m.nested ++
        m.enums.flatMap (enumLines (level + 1)) ++
        (bodyItems m [] m.fields).flatMap (bodyItemLines dialect (level + 1) m) ++
        closingLines level := by
  cases m
  rw [messageLines]

/-- A field with the label has a line in the source text that starts with it. -/
theorem Message.LabelsOptional.line_mem (h : m.LabelsOptional dialect x) (level : Nat) :
    .code (level + 1) ("optional " ++ memberText dialect x ++ aliasRemark x)
      ∈ messageLines dialect level m := by
  have hline : .code (level + 1) ("optional " ++ memberText dialect x ++ aliasRemark x)
      ∈ bodyItemLines dialect (level + 1) m (.field x) := by
    rw [bodyItemLines, fieldLines, h.2]
    simp
  have hbody := List.mem_flatMap.mpr ⟨_, h.1, hline⟩
  rw [messageLines_eq]
  exact List.mem_append_left _ (List.mem_append_right _ hbody)

/-- A line of a message is one of the file. -/
theorem mem_fileLines_of_message {f : File} (hm : m ∈ f.messages) {line : Line}
    (h : line ∈ messageLines f.dialect 0 m) : line ∈ fileLines f := by
  have hlines := List.mem_flatMap.mpr ⟨m, hm, h⟩
  rw [fileLines]
  exact List.mem_append_left _ (List.mem_append_right _ hlines)

end Label

/-! ## Synthetic oneofs -/

/-- Every field declared `optional` in the way of proto3 names a oneof of the message. -/
def Descriptor.MessageProto.OptionalsInOneofs (raw : MessageProto) : Prop :=
  ∀ r ∈ raw.field, r.proto3Optional = some true →
    ∃ i, r.oneofIndex = some i ∧ 0 ≤ i.toInt ∧ i.toInt < raw.oneofDecl.length

/-- The oneof of a field declared `optional` is synthetic. -/
theorem Message.BuiltFrom.synthetic {ctx : FileContext} {m : Message} {raw : MessageProto}
    (h : m.BuiltFrom ctx raw) (hraw : raw.OptionalsInOneofs) {x : Field} (hx : x ∈ m.fields)
    (hoptional : x.proto3Optional = true) :
    ∃ i o, x.oneof = some i ∧ m.oneofs[i]? = some o ∧ o.synthetic = true := by
  obtain ⟨scope, path, -, rfl⟩ := h
  obtain ⟨p, r, hr, rfl⟩ := mem_fields_buildMessage ctx scope path raw hx
  have hflag : r.proto3Optional = some true := by
    cases hr : r.proto3Optional with
    | none => simp [buildField, hr] at hoptional
    | some b => simpa [buildField, hr] using hoptional
  obtain ⟨i, hi, hnonneg, hlt⟩ := hraw r hr hflag
  have hposition := toInt_eq_oneofPosition hnonneg
  have hrange : oneofPosition i < raw.oneofDecl.length := by omega
  refine ⟨oneofPosition i, buildOneof raw.field (oneofPosition i) raw.oneofDecl[oneofPosition i],
    ?_, ?_, ?_⟩
  · show r.oneofIndex.map oneofPosition = _
    rw [hi, Option.map_some]
  · rw [buildMessage_eq]
    simp [hrange]
  · show raw.field.any _ = true
    rw [List.any_eq_true]
    have hindex : Int32.ofNat (oneofPosition i) = i := oneofIndexOf_oneofPosition i
    exact ⟨r, hr, by simp [hflag, hi, hindex]⟩

/-- **No oneof is written around a field declared `optional`**, once its message has been
resolved: it is in no oneof any more, or in the synthetic one from before. -/
theorem Schema.writtenOneof?_settleField {s : Schema} {ctx : FileContext} {m : Message}
    {raw : MessageProto} (h : m.BuiltFrom ctx raw) (hraw : raw.OptionalsInOneofs) {y : Field}
    (hy : y ∈ m.fields) (hoptional : (s.settleField m y).proto3Optional = true) :
    writtenOneof? (s.resolveMessage m raw).1 (s.settleField m y) = none := by
  cases ht : s.aliasTarget? y with
  | some target =>
      rw [Schema.settleField_of_alias m ht]
      rfl
  | none =>
      have hsame : y.proto3Optional = true := by
        rw [Schema.settleField_of_none m ht] at hoptional
        exact hoptional
      obtain ⟨i, o, hi, ho, hsynthetic⟩ := h.synthetic hraw hy hsame
      obtain ⟨hrange, -⟩ := List.getElem?_eq_some_iff.mp ho
      obtain ⟨j, hj⟩ := Schema.exists_oneofAfter? hy ht hi hrange
      have hposition : (s.settleField m y).oneof = some j := by
        rw [Schema.settleField_oneof ht, hi, Option.bind_some, hj]
      have hoverthere : (s.resolveMessage m raw).1.oneofs[j]? = some o := by
        rw [Schema.getElem?_oneofs_resolveMessage hj, ho]
      rw [writtenOneof?, hposition]
      simp [hoverthere, hsynthetic]

/-! ## The flag -/

/-- The descriptor `r` flags the field `x` as `optional` if `x` was declared so and has not come
through an alias. -/
def Field.Flagged (x : Field) (r : FieldProto) : Prop :=
  r.proto3Optional = some true ↔ x.proto3Optional = true ∧ x.viaAlias = none

theorem buildField_flagged (ctx : FileContext) (path : List Int32) (r : FieldProto) :
    (buildField ctx path r).Flagged r := by
  show r.proto3Optional = some true ↔ r.proto3Optional.getD false = true ∧ none = none
  cases r.proto3Optional <;> simp

theorem Message.BuiltFrom.flagged {ctx : FileContext} {m : Message} {raw : MessageProto}
    (h : m.BuiltFrom ctx raw) : List.Forall₂ Field.Flagged m.fields raw.field := by
  obtain ⟨scope, path, -, rfl⟩ := h
  rw [buildMessage_eq]
  exact forall₂_mapIdx _ fun i r => buildField_flagged _ _ r

/-- A field that takes over a payload loses its flag, as it stands outside of oneofs then. -/
theorem Schema.resolveField_flagged {s : Schema} {x : Field} {r : FieldProto} (h : x.Flagged r) :
    (s.resolveField x).Flagged (s.resolveFieldProto x r) := by
  rw [Schema.resolveFieldProto, Schema.refersToAlias, Schema.resolveField]
  cases ht : s.aliasTarget? x with
  | none => exact h
  | some target => simp [Field.Flagged, Field.synchronize, Field.substitute]

/-- Moving oneofs up changes neither what a field is declared as nor its flag. -/
theorem Schema.forall₂_flagged_resolveMessage {s : Schema} {m : Message} {raw : MessageProto}
    (h : List.Forall₂ Field.Flagged m.fields raw.field) :
    List.Forall₂ Field.Flagged (s.resolveMessage m raw).1.fields
      (s.resolveMessage m raw).2.field :=
  Schema.forall₂_resolveMessage (fun _ _ hxr => Schema.resolveField_flagged hxr)
    (fun _ _ _ _ hxr => hxr) h

/-! ## Both together -/

/-- The source text labels the field `x` of `m` as `optional` exactly if the descriptor flags it. -/
def Message.PresenceAgrees (dialect : Dialect) (m : Message) (x : Field) (r : FieldProto) : Prop :=
  m.LabelsOptional dialect x ↔ r.proto3Optional = some true

theorem Schema.presenceAgrees_iff {s : Schema} {ctx : FileContext} {m : Message}
    {raw : MessageProto} (h : m.BuiltFrom ctx raw) (hraw : raw.OptionalsInOneofs) {x : Field}
    (hx : x ∈ (s.resolveMessage m raw).1.fields) {r : FieldProto} (hflag : x.Flagged r) :
    (s.resolveMessage m raw).1.PresenceAgrees .proto3 x r ↔
      (x.proto3Optional = true → (x.cardinality = .optional ↔ x.viaAlias = none)) := by
  have houtside : x.proto3Optional = true → writtenOneof? (s.resolveMessage m raw).1 x = none := by
    intro hoptional
    rw [s.resolveMessage_fields] at hx
    obtain ⟨y, hy, rfl⟩ := List.mem_map.mp hx
    exact Schema.writtenOneof?_settleField h hraw hy hoptional
  rw [Field.Flagged] at hflag
  rw [Message.PresenceAgrees, Message.labelsOptional_iff hx, hflag]
  constructor
  · intro hagrees hoptional
    simpa [houtside hoptional, hoptional] using hagrees
  · intro hagrees
    cases hoptional : x.proto3Optional with
    | false => simp
    | true => simpa [houtside hoptional] using hagrees hoptional

section Payload

variable {s : Schema} {m t : Message} {x p : Field}

/-- **A field that takes over an `optional` payload is labelled.** -/
theorem Schema.labelsOptional_of_payload (hx : x ∈ m.fields)
    (h : s.aliasTarget? x = some (t, p)) (hsingular : p.cardinality = .optional)
    (hoptional : p.proto3Optional = true) (raw : MessageProto) :
    (s.resolveMessage m raw).1.LabelsOptional .proto3 (s.settleField m x) := by
  rw [Message.labelsOptional_iff (s.settleField_mem_resolveMessage m raw hx),
    Schema.settleField_of_alias m h]
  exact ⟨rfl, hsingular, hoptional⟩

/-- A field that takes over a payload, of whatever kind, is not flagged. -/
theorem Schema.not_flagged_of_payload (h : s.aliasTarget? x = some (t, p)) {r : FieldProto}
    (hflag : (s.settleField m x).Flagged r) : r.proto3Optional ≠ some true := by
  intro hflagged
  have hvia := (hflag.mp hflagged).2
  rw [Schema.settleField_of_alias m h] at hvia
  cases hvia

end Payload

/-- **Where text and descriptor agree on presence.** Every proto3 file of a schema made of
descriptors resolves, and if its `optional` fields are in oneofs, the text labels a field as
`optional` exactly if the descriptor flags it, save for fields that have taken over an `optional`
payload and for `optional` fields that are not singular. -/
theorem presence_agrees_iff (marker : String) (generate : List String) (protos : List FileProto)
    {f : File} (hf : f ∈ (Schema.ofProtos marker generate protos).files)
    (hdialect : f.dialect = .proto3)
    (hoptionals : ∀ raw ∈ f.proto.messageType, raw.OptionalsInOneofs) :
    ∃ f', (Schema.ofProtos marker generate protos).resolve f = .ok f' ∧
      List.Forall₂ (fun m raw => List.Forall₂ (fun x r =>
          (m.PresenceAgrees f'.dialect x r ↔
            (x.proto3Optional = true → (x.cardinality = .optional ↔ x.viaAlias = none))))
        m.fields raw.field) f'.messages f'.proto.messageType := by
  have hbuilt := (Schema.built_ofProtos marker generate protos).files f hf
  refine ⟨_, hbuilt.resolve_eq_ok _, ?_⟩
  refine Schema.forall₂_resolved fun p hp => ?_
  obtain ⟨ctx, hfrom⟩ := hbuilt.builtFrom_of_mem_kept hp
  have hraw : p.2 ∈ f.proto.messageType := (List.of_mem_zip (List.mem_filter.mp hp).1).2
  have hflags := Schema.forall₂_flagged_resolveMessage
    (s := Schema.ofProtos marker generate protos) hfrom.flagged
  show List.Forall₂ (fun x r => Message.PresenceAgrees f.dialect _ x r ↔ _) _ _
  rw [hdialect]
  refine List.forall₂_iff_zip.mpr ⟨hflags.length_eq, fun {x r} hxr => ?_⟩
  exact Schema.presenceAgrees_iff hfrom (hoptionals p.2 hraw) (List.of_mem_zip hxr).1
    (List.forall₂_zip hflags hxr)

/-- A file in which the alias `UserId` holds an `optional` number, and `User` refers to it. -/
def usersProto : FileProto where
  name := some "users.proto"
  package := some "shop"
  syntaxName := some "proto3"
  messageType :=
    [{ name := some "UserId"
       field := [{ name := some "value", number := some 1, label := some 1, type := some 3
                   oneofIndex := some 0, proto3Optional := some true }]
       oneofDecl := [{ name := some "_value" }] },
     { name := some "User"
       field := [{ name := some "id", number := some 1, label := some 1, type := some 11
                   typeName := some ".shop.UserId" }] }]
  sourceCodeInfo := some
    { location := [{ path := [4, 0], leadingComments := some " protobuf:alias\n" }] }

/-- The schema of `usersProto`. -/
def usersSchema : Schema := Schema.ofProto usersProto

/-- The file of `usersSchema`. -/
def usersFile : File := buildFile defaultMarker true usersProto

theorem usersSchema_built : usersSchema.Built := Schema.built_ofProto _

theorem usersSchema_files : usersSchema.files = [usersFile] := Schema.files_ofProto _

theorem usersFile_mem : usersFile ∈ usersSchema.files := by simp [usersSchema_files]

theorem usersFile_optionals : ∀ raw ∈ usersFile.proto.messageType, raw.OptionalsInOneofs := by
  intro raw hraw r hr hflag
  simp only [usersFile, buildFile, usersProto, List.mem_cons, List.not_mem_nil, or_false] at hraw
  rcases hraw with rfl | rfl
  · simp only [List.mem_cons, List.not_mem_nil, or_false] at hr
    subst hr
    exact ⟨0, rfl, by decide, by decide⟩
  · simp only [List.mem_cons, List.not_mem_nil, or_false] at hr
    subst hr
    cases hflag

theorem presence_agrees_iff_users :
    usersFile ∈ usersSchema.files ∧ usersFile.dialect = .proto3 ∧
      (∀ raw ∈ usersFile.proto.messageType, raw.OptionalsInOneofs) ∧
      ∃ f', usersSchema.resolve usersFile = .ok f' ∧
        List.Forall₂ (fun m raw => List.Forall₂ (fun x r =>
            (m.PresenceAgrees f'.dialect x r ↔
              (x.proto3Optional = true → (x.cardinality = .optional ↔ x.viaAlias = none))))
          m.fields raw.field) f'.messages f'.proto.messageType :=
  ⟨usersFile_mem, rfl, usersFile_optionals,
    presence_agrees_iff _ _ _ usersFile_mem rfl usersFile_optionals⟩

/-- The payload of `UserId` is an `optional` field. -/
theorem usersSchema_userId : ∃ t, usersSchema.message? ".shop.UserId" = some t ∧
    ∃ q, t.erasablePayload? = some q ∧ q.proto3Optional = true ∧ q.cardinality = .optional := by
  rw [Schema.message?_eq_getLast? usersSchema_built.indexed, Schema.allMessages,
    usersSchema_files]
  exact ⟨_, rfl, _, rfl, rfl, rfl⟩

/-- `User` stays, and its field refers to `UserId`. -/
theorem users_user : ∃ p ∈ usersSchema.kept usersFile, ∃ x ∈ p.1.fields,
    x.kind = .message ∧ x.viaAlias = none ∧ x.message = some ".shop.UserId" := by
  have huser := List.mem_of_getElem?
    (l := usersFile.messages.zip usersFile.proto.messageType) (i := 1) rfl
  exact ⟨_, List.mem_filter.mpr ⟨huser, rfl⟩, _, List.mem_of_getElem? (i := 0) rfl, rfl, rfl, rfl⟩

/-- **Text and descriptor do disagree**: the file is a proto3 file with its `optional` field in a
oneof, and yet in the resolved file a field of `User` is labelled, in a line of the source text,
that is not flagged. -/
theorem not_presence_agrees_users :
    usersFile ∈ usersSchema.files ∧ (∀ f ∈ usersSchema.files, f.dialect = .proto3) ∧
      (∀ raw ∈ usersFile.proto.messageType, raw.OptionalsInOneofs) ∧
      ∃ f', usersSchema.resolve usersFile = .ok f' ∧
        ∃ p ∈ f'.messages.zip f'.proto.messageType, ∃ q ∈ p.1.fields.zip p.2.field,
          mapEntryFields? p.1 q.1 = none ∧ ¬ p.1.PresenceAgrees f'.dialect q.1 q.2 ∧
            .code 1 ("optional " ++ memberText f'.dialect q.1 ++ aliasRemark q.1) ∈ fileLines f' ∧
            q.2.proto3Optional ≠ some true := by
  have hbuilt := usersSchema_built.files _ usersFile_mem
  obtain ⟨p, hp, x, hx, hkind, hvia, hname⟩ := users_user
  obtain ⟨t, ht, q, hq, hoptional, hsingular⟩ := usersSchema_userId
  have htarget : usersSchema.aliasTarget? x = some (t, q) :=
    Schema.aliasTarget?_eq_some_iff.mpr ⟨hkind, hvia, by rw [hname, Option.bind_some, ht], hq⟩
  obtain ⟨ctx, hfrom⟩ := hbuilt.builtFrom_of_mem_kept hp
  have hflags := Schema.forall₂_flagged_resolveMessage (s := usersSchema) hfrom.flagged
  obtain ⟨r, hr⟩ := exists_mem_zip hflags.length_eq
    (usersSchema.settleField_mem_resolveMessage p.1 p.2 hx)
  have hlabelled := Schema.labelsOptional_of_payload hx htarget hsingular hoptional p.2
  have hnotFlagged := Schema.not_flagged_of_payload htarget (List.forall₂_zip hflags hr)
  refine ⟨usersFile_mem, ?_, usersFile_optionals, _, hbuilt.resolve_eq_ok _,
    (_, (usersSchema.resolveMessage p.1 p.2).2), ?_, _, hr,
    (declarationText_eq_optional_iff.mp hlabelled.2).1, ?_, ?_, hnotFlagged⟩
  · simp [usersSchema_files]
    rfl
  · show _ ∈ List.zip (List.map _ _) (List.map _ _)
    rw [List.zip_map']
    exact List.mem_map_of_mem hp
  · exact fun hagrees => hnotFlagged (hagrees.mp hlabelled)
  · exact mem_fileLines_of_message (Schema.mem_resolved_messages hp) (hlabelled.line_mem 0)

end AliasErasure
