import AliasErasure.Proofs.Erasure.Agreement

set_option autoImplicit false

/-! # One level is resolved

What a resolved file consists of is a matter of the schema alone: of each message that stays
everything is kept but fields and oneofs, and a field either takes over the payload that the schema
holds for the alias it refers to, or keeps everything but its oneof (`resolve_oneLevel`).

A payload is taken over as the schema has it, so a chain of aliases is followed by one step only.
Besides, a group is never resolved, not even if its message is marked as an alias
(`totals_leftover`). These are the two ways in which a field can name an alias afterwards.
-/

namespace AliasErasure

open Descriptor (FileProto MessageProto)

/-- A field refers to the alias `t`, whose payload in the schema is `p`. -/
def Schema.Refers (s : Schema) (f : Field) (t : Message) (p : Field) : Prop :=
  f.kind = .message ∧ f.message.bind s.message? = some t ∧ t.erasablePayload? = some p

/-- A field, of whatever kind, names the alias `u`. -/
def Schema.NamesAlias (s : Schema) (f : Field) (u : Message) : Prop :=
  f.message.bind s.message? = some u ∧ u.isErasable = true

/-- What becomes of a field. -/
structure Schema.FieldSettles (s : Schema) (f f' : Field) : Prop where
  /-- A reference to an alias is replaced by the payload that the schema has for it. -/
  replaced : ∀ t p, s.Refers f t p → f' = f.substitute p t.ident
  /-- Any other field keeps everything but its oneof. -/
  other : (∀ t p, ¬ s.Refers f t p) → f' = { f with oneof := f'.oneof }
  /-- What still names an alias has taken over a payload that names it, unless it is a group. -/
  leftover : ∀ u, s.NamesAlias f' u → f.kind = .group ∨
    ∃ t p, s.Refers f t p ∧ f' = f.substitute p t.ident ∧ s.NamesAlias p u

/-- What becomes of a message that stays. -/
structure Schema.MessageSettles (s : Schema) (m m' : Message) : Prop where
  name : m'.name = m.name
  fullName : m'.fullName = m.fullName
  comments : m'.comments = m.comments
  marked : m'.marked = m.marked
  mapEntry : m'.mapEntry = m.mapEntry
  nested : m'.nested = m.nested
  enums : m'.enums = m.enums
  fields : List.Forall₂ s.FieldSettles m.fields m'.fields

/-- A field that has not come through an alias refers to what `aliasTarget?` finds. -/
theorem Schema.refers_iff {s : Schema} {f : Field} (hf : f.viaAlias = none) {t : Message}
    {p : Field} : s.Refers f t p ↔ s.aliasTarget? f = some (t, p) := by
  rw [Schema.aliasTarget?_eq_some_iff, Schema.Refers]
  constructor
  · rintro ⟨hkind, ht, hp⟩
    exact ⟨hkind, hf, ht, hp⟩
  · rintro ⟨hkind, -, ht, hp⟩
    exact ⟨hkind, ht, hp⟩

theorem Schema.fieldSettles_settleField {s : Schema} (m : Message) {f : Field}
    (hwell : f.WellNamed) (hf : f.viaAlias = none) : s.FieldSettles f (s.settleField m f) := by
  refine ⟨fun t p h => ?_, fun h => ?_, fun u hu => ?_⟩
  · exact Schema.settleField_of_alias m ((Schema.refers_iff hf).mp h)
  · refine Schema.settleField_of_none m (Option.eq_none_iff_forall_ne_some.mpr ?_)
    rintro ⟨t, p⟩ ht
    exact h t p ((Schema.refers_iff hf).mpr ht)
  · obtain ⟨hnamed, herasable⟩ := hu
    cases ht : s.aliasTarget? f with
    | some target =>
        have hsettled := Schema.settleField_of_alias m ht
        rw [hsettled] at hnamed
        exact Or.inr ⟨_, _, (Schema.refers_iff hf).mpr ht, hsettled, hnamed, herasable⟩
    | none =>
        -- the field is the one it was; were it not a group, it would have been replaced
        rw [Schema.settleField_of_none m ht] at hnamed
        obtain ⟨n, hn, -⟩ := Option.bind_eq_some_iff.mp hnamed
        rcases (hwell.message n hn).1 with hkind | hkind
        · obtain ⟨p, hp⟩ := Option.isSome_iff_exists.mp herasable
          rw [(Schema.refers_iff hf).mp ⟨hkind, hnamed, hp⟩] at ht
          cases ht
        · exact Or.inl hkind

theorem Schema.messageSettles_resolveMessage {s : Schema} {m : Message} (raw : MessageProto)
    (hm : ∀ f ∈ m.fields, f.WellNamed ∧ f.viaAlias = none) :
    s.MessageSettles m (s.resolveMessage m raw).1 := by
  have hfields : List.Forall₂ s.FieldSettles m.fields (s.resolveMessage m raw).1.fields := by
    rw [s.resolveMessage_fields, List.forall₂_map_right_iff, List.forall₂_same]
    exact fun f hf => Schema.fieldSettles_settleField m (hm f hf).1 (hm f hf).2
  rw [s.resolveMessage_frame] at hfields ⊢
  exact ⟨rfl, rfl, rfl, rfl, rfl, rfl, rfl, hfields⟩

/-- The messages that stay in a file made of a descriptor, without their descriptors. -/
theorem File.IsBuilt.map_fst_kept {f : File} (hf : f.IsBuilt) (s : Schema) :
    (s.kept f).map (·.1) = f.messages.filter fun m => !s.consumes m := by
  obtain ⟨ctx, hmessages⟩ := hf.messages
  have hfst : (f.messages.zip f.proto.messageType).map (·.1) = f.messages :=
    List.map_fst_zip (Nat.le_of_eq hmessages.length_eq)
  conv_rhs => rw [← hfst, List.filter_map]
  rfl

/-- **One level is resolved, exactly.** Every file of a schema made of descriptors resolves; the
messages of the result are those of the file that do not go, in order, and each of them is settled
as the schema says. -/
theorem resolve_oneLevel (marker : String) (generate : List String) (protos : List FileProto)
    {f : File} (hf : f ∈ (Schema.ofProtos marker generate protos).files) :
    ∃ f', (Schema.ofProtos marker generate protos).resolve f = .ok f' ∧
      List.Forall₂ (Schema.ofProtos marker generate protos).MessageSettles
        (f.messages.filter fun m => !(Schema.ofProtos marker generate protos).consumes m)
        f'.messages := by
  have hs := Schema.built_ofProtos marker generate protos
  have hbuilt := hs.files f hf
  refine ⟨_, hbuilt.resolve_eq_ok _, ?_⟩
  rw [← hbuilt.map_fst_kept]
  show List.Forall₂ _ (List.map _ _) (List.map _ _)
  rw [List.forall₂_map_left_iff, List.forall₂_map_right_iff, List.forall₂_same]
  intro p hp
  obtain ⟨ctx, hfrom⟩ := hbuilt.builtFrom_of_mem_kept hp
  exact Schema.messageSettles_resolveMessage p.2 fun x hx => ⟨hfrom.wellNamed hx, hfrom.viaAlias hx⟩

theorem resolve_oneLevel_orders :
    ordersFile ∈ ordersSchema.files ∧ ∃ f', ordersSchema.resolve ordersFile = .ok f' ∧
      List.Forall₂ ordersSchema.MessageSettles
        (ordersFile.messages.filter fun m => !ordersSchema.consumes m) f'.messages :=
  ⟨ordersFile_mem, resolve_oneLevel _ _ _ ordersFile_mem⟩

/-- A file in which `Invoice` has a group, `Total`, whose message is marked as an alias. -/
def totalsProto : FileProto where
  name := some "totals.proto"
  package := some "shop"
  syntaxName := some "proto2"
  messageType :=
    [{ name := some "Invoice"
       field := [{ name := some "total", number := some 1, label := some 1, type := some 10
                   typeName := some ".shop.Invoice.Total" }]
       nestedType :=
        [{ name := some "Total"
           field := [{ name := some "cents", number := some 1, label := some 1
                       type := some 3 }] }] }]
  sourceCodeInfo := some
    { location := [{ path := [4, 0, 3, 0], leadingComments := some " protobuf:alias\n" }] }

/-- The schema of `totalsProto`. -/
def totalsSchema : Schema := Schema.ofProto totalsProto

/-- The file of `totalsSchema`. -/
def totalsFile : File := buildFile defaultMarker true totalsProto

theorem totalsSchema_built : totalsSchema.Built := Schema.built_ofProto _

theorem totalsSchema_files : totalsSchema.files = [totalsFile] := Schema.files_ofProto _

theorem totalsSchema_total : ∃ u, totalsSchema.message? ".shop.Invoice.Total" = some u ∧
    u.isErasable = true := by
  rw [Schema.message?_eq_getLast? totalsSchema_built.indexed, Schema.allMessages,
    totalsSchema_files]
  exact ⟨_, rfl, rfl⟩

/-- `Invoice` stays in the file. -/
theorem totals_invoice : ∃ p ∈ totalsSchema.kept totalsFile, p.1 ∈ totalsFile.messages ∧
    ∃ x, p.1.fields = [x] ∧ x.kind = .group ∧ x.message = some ".shop.Invoice.Total" := by
  have hinvoice := List.mem_of_getElem?
    (l := totalsFile.messages.zip totalsFile.proto.messageType) (i := 0) rfl
  exact ⟨_, List.mem_filter.mpr ⟨hinvoice, rfl⟩, (List.of_mem_zip hinvoice).1, _, rfl, rfl, rfl⟩

/-- **A group is not resolved.** The field of `Invoice` names an alias afterwards, though it did
not refer to one whose payload it could have taken over. -/
theorem totals_leftover :
    totalsFile ∈ totalsSchema.files ∧ ∃ f', totalsSchema.resolve totalsFile = .ok f' ∧
      ∃ m ∈ totalsFile.messages, ∃ m' ∈ f'.messages, m'.fullName = m.fullName ∧
        ∃ x x', m.fields = [x] ∧ m'.fields = [x'] ∧ (∃ u, totalsSchema.NamesAlias x' u) ∧
          ∀ t p, ¬ totalsSchema.Refers x t p := by
  have hmem : totalsFile ∈ totalsSchema.files := by simp [totalsSchema_files]
  obtain ⟨u, hu, herasable⟩ := totalsSchema_total
  obtain ⟨p, hkept, hp, x, hx, hkind, hname⟩ := totals_invoice
  have hgroup : ∀ t q, ¬ totalsSchema.Refers x t q := by
    rintro t q ⟨hmessage, -⟩
    cases hkind.symm.trans hmessage
  have hnone : totalsSchema.aliasTarget? x = none := by
    rw [Option.eq_none_iff_forall_ne_some]
    rintro ⟨t, q⟩ ht
    obtain ⟨hmessage, -, htarget⟩ := Schema.aliasTarget?_eq_some_iff.mp ht
    exact hgroup t q ⟨hmessage, htarget⟩
  refine ⟨hmem, _, (totalsSchema_built.files _ hmem).resolve_eq_ok _, p.1, hp, _,
    Schema.mem_resolved_messages hkept, ?_, x, totalsSchema.settleField p.1 x, hx, ?_, ⟨u, ?_⟩,
    hgroup⟩
  · rw [totalsSchema.resolveMessage_frame]
  · rw [totalsSchema.resolveMessage_fields, hx, List.map_singleton]
  · rw [Schema.settleField_of_none _ hnone, Schema.NamesAlias, hname]
    exact ⟨hu, herasable⟩

end AliasErasure
