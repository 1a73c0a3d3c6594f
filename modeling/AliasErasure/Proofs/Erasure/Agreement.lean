import AliasErasure.Proofs.Erasure.Resolution
import AliasErasure.Proofs.Schema.Built

set_option autoImplicit false

/-! # Resolved files agree with their descriptors

A file and its descriptor are changed side by side: fields are replaced in one and written back in
the other, oneofs are dropped and moved up in both, and messages leave both lists together. In a
schema made of descriptors the two still say the same afterwards (`resolve_mirrors`): reading the
resolved descriptor gives the fields of the resolved file.

The argument goes through the layers one by one. A payload comes from the schema and so is well
named, hence a field that takes it over can be written back (`Schema.Built.resolveField_mirrors`);
a message is mirrored since its fields are (`Schema.Built.resolveMessage_mirrors`), and what is
left of a file is a list of such messages.
-/

namespace AliasErasure

open Descriptor (FieldProto FileProto Location MessageProto)

/-! ## Fields -/

section Field

variable {s : Schema} (hs : s.Built)
include hs

/-- Whatever a field refers to as an alias is a message of the schema, with its payload. -/
theorem Schema.Built.aliasTarget?_mem {f : Field} {t : Message} {p : Field}
    (h : s.aliasTarget? f = some (t, p)) : t ∈ s.allMessages ∧ p ∈ t.fields := by
  obtain ⟨-, -, htarget, hp⟩ := Schema.aliasTarget?_eq_some_iff.mp h
  obtain ⟨n, -, hn⟩ := Option.bind_eq_some_iff.mp htarget
  exact ⟨(hs.fullName_of_message? hn).1,
    Message.mem_fields_of_payload? (Message.erasablePayload?_eq_some_iff.mp hp).1⟩

/-- The alias that a field refers to is found under its own name. -/
theorem Schema.Built.message?_of_aliasTarget? {f : Field} {t : Message} {p : Field}
    (h : s.aliasTarget? f = some (t, p)) : s.message? t.fullName = some t := by
  obtain ⟨-, -, htarget, -⟩ := Schema.aliasTarget?_eq_some_iff.mp h
  obtain ⟨n, -, hn⟩ := Option.bind_eq_some_iff.mp htarget
  rw [(hs.fullName_of_message? hn).2, Schema.message?_qualified]
  exact hn

/-- A field that refers to a message which cannot be erased goes on referring to it. -/
theorem Schema.Built.aliasTarget?_eq_none (distinct : (s.allMessages.map (·.fullName)).Nodup)
    {t : Message} (ht : t ∈ s.allMessages) (hkept : t.isErasable = false) {f : Field}
    (hf : f.message = some t.fullName) : s.aliasTarget? f = none := by
  rw [Option.eq_none_iff_forall_ne_some]
  rintro ⟨u, p⟩ h
  obtain ⟨-, -, hu, hp⟩ := Schema.aliasTarget?_eq_some_iff.mp h
  rw [hf, Option.bind_some, hs.message?_fullName distinct ht] at hu
  cases hu
  rw [Message.isErasable, hp] at hkept
  cases hkept

theorem Schema.Built.wellNamed_substitute {f : Field} {t : Message} {p : Field}
    (h : s.aliasTarget? f = some (t, p)) : (f.substitute p t.ident).WellNamed := by
  obtain ⟨ht, hp⟩ := hs.aliasTarget?_mem h
  have hwell := hs.wellNamed ht hp
  exact ⟨hwell.message, hwell.enumeration⟩

theorem Schema.Built.resolveField_mirrors {f : Field} {r : FieldProto} (h : f.Mirrors r) :
    (s.resolveField f).Mirrors (s.resolveFieldProto f r) := by
  rw [Schema.resolveFieldProto, Schema.refersToAlias, Schema.resolveField]
  cases ht : s.aliasTarget? f with
  | none => exact h
  | some target =>
      have hread := h ⟨[], .proto2, ""⟩ []
      exact Field.mirrors_synchronize (hs.wellNamed_substitute ht) hread.name hread.number
        hread.jsonName

end Field

theorem Schema.resolveField_mirrorsOneof {s : Schema} {f : Field} {r : FieldProto}
    (h : f.MirrorsOneof r) : (s.resolveField f).MirrorsOneof (s.resolveFieldProto f r) := by
  rw [Schema.resolveFieldProto, Schema.refersToAlias, Schema.resolveField]
  cases ht : s.aliasTarget? f with
  | none => exact h
  | some target => exact Field.mirrorsOneof_synchronize rfl r

/-- Fields and descriptors that are resolved side by side go on corresponding to each other. -/
theorem Schema.forall₂_resolveFieldProtos {s : Schema} {R : Field → FieldProto → Prop}
    (step : ∀ f r, R f r → R (s.resolveField f) (s.resolveFieldProto f r)) {fs : List Field}
    {rs : List FieldProto} (h : List.Forall₂ R fs rs) :
    List.Forall₂ R (fs.map s.resolveField) (s.resolveFieldProtos fs rs) := by
  induction h with
  | nil => exact List.Forall₂.nil
  | cons hf _ ih => exact List.Forall₂.cons (step _ _ hf) ih

/-! ## Messages -/

/-- Dropping elements by position commutes with a map. -/
theorem map_keepUsed {α β : Type} (g : α → β) (used : List Bool) (as : List α) :
    (keepUsed used as).map g = keepUsed used (as.map g) := by
  induction as generalizing used with
  | nil => simp [keepUsed]
  | cons a as ih =>
      cases used with
      | nil => simp [keepUsed]
      | cons keep used =>
          have htail := ih used
          simp only [keepUsed, List.zip_cons_cons, List.map_cons] at htail ⊢
          cases keep <;> simp [htail]

/-- Changing both sides of a correspondence by maps that respect it. -/
theorem forall₂_map_map {α β : Type} {R : α → β → Prop} {g : α → α} {h : β → β}
    (step : ∀ a b, R a b → R (g a) (h b)) {as : List α} {bs : List β}
    (hab : List.Forall₂ R as bs) : List.Forall₂ R (as.map g) (bs.map h) := by
  rw [List.forall₂_map_left_iff, List.forall₂_map_right_iff]
  exact hab.imp step

/-- **Fields of a resolved message correspond to its descriptors** in any way that is kept by
resolving a field and by moving oneofs up. -/
theorem Schema.forall₂_resolveMessage {s : Schema} {R : Field → FieldProto → Prop} {m : Message}
    {raw : MessageProto} (step : ∀ f r, R f r → R (s.resolveField f) (s.resolveFieldProto f r))
    (move : ∀ used : List Bool, used.length = m.oneofs.length →
      ∀ f r, R f r → R (f.renumber used) (renumberProto used r))
    (h : List.Forall₂ R m.fields raw.field) :
    List.Forall₂ R (s.resolveMessage m raw).1.fields (s.resolveMessage m raw).2.field := by
  have hfields := Schema.forall₂_resolveFieldProtos step h
  cases hp : s.pruning? m with
  | none =>
      rw [s.resolveMessage_of_pruning?_eq_none m raw hp]
      exact hfields
  | some used =>
      rw [s.resolveMessage_of_pruning?_eq_some m raw hp]
      exact forall₂_map_map (move used (Schema.length_of_pruning? hp)) hfields

theorem Schema.Built.resolveMessage_mirrors {s : Schema} (hs : s.Built) {m : Message}
    {raw : MessageProto} (h : m.Mirrors raw) :
    (s.resolveMessage m raw).1.Mirrors (s.resolveMessage m raw).2 := by
  refine ⟨?_, ?_, ?_⟩
  · rw [s.resolveMessage_frame, s.resolveMessage_frame_raw]
    exact h.name
  · exact Schema.forall₂_resolveMessage (fun _ _ hfr => hs.resolveField_mirrors hfr)
      (fun used _ _ _ hfr => hfr.renumber used) h.fields
  · cases hp : s.pruning? m with
    | none =>
        rw [s.resolveMessage_of_pruning?_eq_none m raw hp]
        exact h.oneofs
    | some used =>
        rw [s.resolveMessage_of_pruning?_eq_some m raw hp]
        show (keepUsed used m.oneofs).map _ = (keepUsed used raw.oneofDecl).map _
        rw [map_keepUsed, map_keepUsed, h.oneofs]

theorem Schema.resolveMessage_mirrorsOneofs {s : Schema} {m : Message} {raw : MessageProto}
    (h : m.MirrorsOneofs raw) (honeofs : m.oneofs.length ≤ 2 ^ 31) :
    (s.resolveMessage m raw).1.MirrorsOneofs (s.resolveMessage m raw).2 := by
  refine Schema.forall₂_resolveMessage (fun _ _ hfr => Schema.resolveField_mirrorsOneof hfr) ?_ h
  intro used hused f r hfr
  exact Field.MirrorsOneof.renumber hfr (hused.symm ▸ honeofs)

/-! ## Files -/

/-- A file made of a descriptor has no mismatch, so it resolves. -/
theorem File.IsBuilt.resolve_eq_ok {f : File} (hf : f.IsBuilt) (s : Schema) :
    s.resolve f = .ok (s.resolved f) := by
  obtain ⟨ctx, hmessages⟩ := hf.messages
  rw [Schema.resolve_eq_ok_iff]
  exact ⟨s.mismatch?_eq_none (hmessages.imp fun m raw h => h.mirrors), rfl⟩

/-- What stays of a file made of a descriptor was read from the descriptor at its side. -/
theorem File.IsBuilt.builtFrom_of_mem_kept {f : File} (hf : f.IsBuilt) {s : Schema}
    {p : Message × MessageProto} (hp : p ∈ s.kept f) : ∃ ctx, p.1.BuiltFrom ctx p.2 := by
  obtain ⟨ctx, hmessages⟩ := hf.messages
  exact ⟨ctx, (List.forall₂_iff_zip.mp hmessages).2 (List.mem_filter.mp hp).1⟩

/-- A file says what its descriptor says: the messages are equally many, and position by position
their names, fields and oneofs are those that reading the descriptor gives. -/
def File.Mirrors (f : File) : Prop :=
  List.Forall₂ (fun m raw => m.Mirrors raw ∧ m.MirrorsOneofs raw) f.messages f.proto.messageType

/-- **Resolved files agree with their descriptors.** Every file of a schema made of descriptors
resolves, and the resolved file says what the resolved descriptor says, both about fields that
have taken over a payload and about all others, as long as no message has `2 ^ 31` oneofs. -/
theorem resolve_mirrors (marker : String) (generate : List String) (protos : List FileProto)
    {f : File} (hf : f ∈ (Schema.ofProtos marker generate protos).files)
    (honeofs : ∀ raw ∈ f.proto.messageType, raw.oneofDecl.length < 2 ^ 31) :
    ∃ f', (Schema.ofProtos marker generate protos).resolve f = .ok f' ∧ f'.Mirrors := by
  have hs := Schema.built_ofProtos marker generate protos
  have hbuilt := hs.files f hf
  refine ⟨_, hbuilt.resolve_eq_ok _, ?_⟩
  show List.Forall₂ _ (List.map _ _) (List.map _ _)
  rw [List.forall₂_map_left_iff, List.forall₂_map_right_iff, List.forall₂_same]
  intro p hp
  obtain ⟨ctx, hfrom⟩ := hbuilt.builtFrom_of_mem_kept hp
  have hraw : p.2 ∈ f.proto.messageType := (List.of_mem_zip (List.mem_filter.mp hp).1).2
  have hcount : p.1.oneofs.length = p.2.oneofDecl.length := by
    simpa using congrArg List.length hfrom.mirrors.oneofs
  refine ⟨hs.resolveMessage_mirrors hfrom.mirrors,
    Schema.resolveMessage_mirrorsOneofs hfrom.mirrorsOneofs ?_⟩
  rw [hcount]
  exact Nat.le_of_lt (honeofs p.2 hraw)

/-- A file with an alias, `Ids`, and an optional field that refers to it; the field leaves its
oneof, which moves the other oneof up. -/
def ordersProto : FileProto where
  name := some "orders.proto"
  package := some "shop"
  syntaxName := some "proto3"
  messageType :=
    [{ name := some "Ids"
       field := [{ name := some "values", number := some 1, label := some 3, type := some 3 }] },
     { name := some "Order"
       field :=
        [{ name := some "ids", number := some 1, label := some 1, type := some 11
           typeName := some ".shop.Ids", oneofIndex := some 0, proto3Optional := some true },
         { name := some "note", number := some 2, label := some 1, type := some 9
           oneofIndex := some 1 }]
       oneofDecl := [{ name := some "_ids" }, { name := some "choice" }] }]
  sourceCodeInfo := some
    { location := [{ path := [4, 0], leadingComments := some " protobuf:alias\n" }] }

/-- The schema of `ordersProto`. -/
def ordersSchema : Schema := Schema.ofProto ordersProto

/-- The file of `ordersSchema`. -/
def ordersFile : File := buildFile defaultMarker true ordersProto

theorem ordersFile_mem : ordersFile ∈ ordersSchema.files := by
  rw [ordersSchema, Schema.files_ofProto]
  exact List.mem_singleton_self _

theorem resolve_mirrors_orders :
    ordersFile ∈ ordersSchema.files ∧
      (∀ raw ∈ ordersFile.proto.messageType, raw.oneofDecl.length < 2 ^ 31) ∧
      ∃ f', ordersSchema.resolve ordersFile = .ok f' ∧ f'.Mirrors := by
  have honeofs : ∀ raw ∈ ordersFile.proto.messageType, raw.oneofDecl.length < 2 ^ 31 := by
    simp [ordersFile, buildFile, ordersProto]
  exact ⟨ordersFile_mem, honeofs, resolve_mirrors _ _ _ ordersFile_mem honeofs⟩

end AliasErasure
