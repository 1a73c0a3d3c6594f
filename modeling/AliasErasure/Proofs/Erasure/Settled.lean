import AliasErasure.Proofs.Erasure.Agreement

set_option autoImplicit false

/-! # Resolving twice

A file is *settled* if nothing is left to be done in it: messages and descriptors have the same
names, no field of a message refers to an alias, and no message can be erased. Settled files are
exactly those that resolve to themselves (`Schema.resolve_eq_self_iff`).

What resolving gives is settled (`Schema.settled_of_resolve`), so nothing changes the second time
(`resolve_resolve`). Neither the schema nor the file has to be made of descriptors for this: a file
may come from elsewhere, bring aliases along, or have a descriptor that is in line with it only
where resolving has to look. What carries the argument is that a field which has taken over a
payload remembers the alias, and so does not refer to one any more, even if its payload does.
-/

namespace AliasErasure

open Descriptor (FieldProto FileProto MessageProto)

/-! ## Fields that do not refer to an alias -/

section Field

variable {s : Schema} {f : Field}

/-- A field that has come through an alias does not refer to one, whatever its payload names. -/
theorem Schema.aliasTarget?_of_viaAlias (h : f.viaAlias ≠ none) : s.aliasTarget? f = none := by
  rw [Schema.aliasTarget?, if_neg]
  rintro ⟨-, hvia⟩
  exact h hvia

/-- No field refers to an alias once its message has been resolved. -/
theorem Schema.refersToAlias_settleField (m : Message) :
    s.refersToAlias (s.settleField m f) = false := by
  rw [Schema.refersToAlias_eq_false_iff]
  cases ht : s.aliasTarget? f with
  | some target =>
      rw [Schema.settleField_of_alias m ht]
      exact Schema.aliasTarget?_of_viaAlias (Option.some_ne_none _)
  | none =>
      -- such a field has kept all that decides whether it refers to an alias
      rw [Schema.settleField_of_none m ht]
      exact ht

theorem Schema.resolveField_eq_self (h : s.refersToAlias f = false) : s.resolveField f = f := by
  rw [Schema.resolveField, Schema.refersToAlias_eq_false_iff.mp h]

end Field

/-! ## Messages without such fields -/

section Message

variable {s : Schema} {m : Message}

theorem Schema.resolveFieldProtos_eq_self {fs : List Field}
    (h : ∀ f ∈ fs, s.refersToAlias f = false) (raws : List FieldProto) :
    s.resolveFieldProtos fs raws = raws := by
  induction fs generalizing raws with
  | nil => rfl
  | cons f fs ih =>
      cases raws with
      | nil => rfl
      | cons raw rest =>
          have hraw : s.resolveFieldProto f raw = raw := by
            rw [Schema.resolveFieldProto, h f (by simp)]
            rfl
          have hrest : s.resolveFieldProtos fs rest = rest :=
            ih (fun g hg => h g (by simp [hg])) rest
          show s.resolveFieldProto f raw :: s.resolveFieldProtos fs rest = raw :: rest
          rw [hraw, hrest]

theorem Schema.emptiesOneofs_eq_false (h : ∀ f ∈ m.fields, s.refersToAlias f = false) :
    s.emptiesOneofs m = false := by
  rw [Schema.emptiesOneofs, List.any_eq_false]
  intro f hf
  simp [h f hf]

/-- A message without references to aliases is left as it is, and so is its descriptor. -/
theorem Schema.resolveMessage_eq_self (h : ∀ f ∈ m.fields, s.refersToAlias f = false)
    (raw : MessageProto) : s.resolveMessage m raw = (m, raw) := by
  have hfields : m.fields.map s.resolveField = m.fields := by
    rw [List.map_congr_left fun f hf => Schema.resolveField_eq_self (h f hf)]
    exact List.map_id' _
  have hraw : s.resolveFieldProtos m.fields raw.field = raw.field :=
    Schema.resolveFieldProtos_eq_self h raw.field
  rw [Schema.resolveMessage, Schema.emptiesOneofs_eq_false h, hfields, hraw,
    if_neg Bool.false_ne_true]
  cases m
  cases raw
  rfl

/-- A message without references to aliases goes only if it can be erased. -/
theorem Schema.consumes_eq_isErasable (h : ∀ f ∈ m.fields, s.refersToAlias f = false) :
    s.consumes m = m.isErasable := by
  have huncovers : s.uncovers m = false := by
    rw [Bool.eq_false_iff]
    intro hu
    obtain ⟨p, t, q, hp, -, ht, -⟩ := Schema.uncovers_iff.mp hu
    have hnone := Schema.refersToAlias_eq_false_iff.mp (h p (Message.mem_fields_of_payload? hp))
    rw [ht] at hnone
    cases hnone
  rw [Schema.consumes, huncovers, Bool.or_false]

theorem Schema.messageMismatch?_of_name {raw : MessageProto}
    (h : ∀ f ∈ m.fields, s.refersToAlias f = false) (hname : raw.name.getD "" = m.name)
    (file : String) (i : Nat) : s.messageMismatch? file m i raw = none := by
  have hfields : ∀ p ∈ m.fields.zipIdx, s.fieldMismatch? file m i raw p.1 p.2 = none := by
    intro p hp
    rw [Schema.fieldMismatch?, h p.1 (List.fst_mem_of_mem_zipIdx hp)]
    rfl
  rw [Schema.messageMismatch?, if_neg (not_not.mpr hname),
    List.findSome?_eq_none_iff.mpr hfields, Schema.emptiesOneofs_eq_false h]
  simp

end Message

/-! ## Settled files -/

/-- Nothing is left to be done in a file. -/
structure Schema.Settled (s : Schema) (f : File) : Prop where
  /-- Messages and descriptors have the same names, position by position. -/
  names : List.Forall₂ (fun m raw => raw.name.getD "" = m.name) f.messages f.proto.messageType
  /-- No message can be erased. -/
  kept : ∀ m ∈ f.messages, m.isErasable = false
  /-- No field refers to an alias. -/
  untouched : ∀ m ∈ f.messages, ∀ x ∈ m.fields, s.refersToAlias x = false

section Settled

variable {s : Schema} {f : File}

theorem Schema.Settled.mismatch?_eq_none (h : s.Settled f) : s.mismatch? f = none := by
  rw [Schema.mismatch?, if_neg (not_not.mpr h.names.length_eq), List.findSome?_eq_none_iff]
  rintro ⟨⟨m, raw⟩, i⟩ hp
  have hpair : (m, raw) ∈ f.messages.zip f.proto.messageType :=
    List.mem_of_getElem? (List.mem_zipIdx_iff_getElem?.mp hp)
  have hm : m ∈ f.messages := (List.of_mem_zip hpair).1
  have hname : raw.name.getD "" = m.name := (List.forall₂_iff_zip.mp h.names).2 hpair
  rw [Schema.pairMismatch?, Schema.messageMismatch?_of_name (h.untouched m hm) hname, ite_self]

/-- No message of a settled file goes. -/
theorem Schema.Settled.gone_eq_nil (h : s.Settled f) : s.gone f = [] := by
  rw [Schema.gone, List.filter_eq_nil_iff]
  intro p hp
  have hm : p.1 ∈ f.messages := (List.of_mem_zip hp).1
  rw [Schema.consumes_eq_isErasable (h.untouched p.1 hm), h.kept p.1 hm]
  exact Bool.false_ne_true

theorem Schema.Settled.resolved_eq_self (h : s.Settled f) : s.resolved f = f := by
  have hlen : f.messages.length = f.proto.messageType.length := h.names.length_eq
  have hself : ∀ p ∈ f.messages.zip f.proto.messageType, s.resolveMessage p.1 p.2 = p :=
    fun p hp => Schema.resolveMessage_eq_self (h.untouched p.1 (List.of_mem_zip hp).1) p.2
  have hmessages : (f.messages.zip f.proto.messageType).map
      (fun p => (s.resolveMessage p.1 p.2).1) = f.messages := by
    rw [List.map_congr_left fun p hp => congrArg Prod.fst (hself p hp)]
    exact List.map_fst_zip (Nat.le_of_eq hlen)
  have hraw : (f.messages.zip f.proto.messageType).map
      (fun p => (s.resolveMessage p.1 p.2).2) = f.proto.messageType := by
    rw [List.map_congr_left fun p hp => congrArg Prod.snd (hself p hp)]
    exact List.map_snd_zip (Nat.le_of_eq hlen.symm)
  rw [Schema.resolved, Schema.kept_eq_zip h.gone_eq_nil, h.gone_eq_nil, hmessages, hraw]
  simp

/-- A settled file resolves to itself. -/
theorem Schema.Settled.resolve_eq_ok (h : s.Settled f) : s.resolve f = .ok f :=
  Schema.resolve_eq_ok_iff.mpr ⟨h.mismatch?_eq_none, h.resolved_eq_self.symm⟩

/-- In a file without a mismatch every message that stays has the name of its descriptor. -/
theorem Schema.name_eq_of_mem_kept (h : s.mismatch? f = none) {p : Message × MessageProto}
    (hp : p ∈ s.kept f) : p.2.name.getD "" = p.1.name := by
  obtain ⟨hzip, hstays⟩ := List.mem_filter.mp hp
  obtain ⟨i, hi⟩ := List.getElem?_of_mem hzip
  have herasable : p.1.isErasable = false := by
    rw [← Bool.not_eq_true]
    intro herasable
    simp [Schema.consumes, herasable] at hstays
  rw [Schema.mismatch?] at h
  split at h
  · cases h
  · have hpair := List.findSome?_eq_none_iff.mp h (p, i) (List.mem_zipIdx_iff_getElem?.mpr hi)
    rw [Schema.pairMismatch?, herasable, Schema.messageMismatch?] at hpair
    by_contra hname
    simp [hname] at hpair

/-- **What resolving gives is settled.** -/
theorem Schema.settled_of_resolve {f' : File} (h : s.resolve f = .ok f') : s.Settled f' := by
  obtain ⟨hmismatch, rfl⟩ := Schema.resolve_eq_ok_iff.mp h
  refine ⟨Schema.forall₂_resolved fun p hp => ?_, fun m hm => ?_, fun m hm x hx => ?_⟩
  · rw [s.resolveMessage_frame, s.resolveMessage_frame_raw]
    exact Schema.name_eq_of_mem_kept hmismatch hp
  · obtain ⟨p, hp, rfl⟩ := List.mem_map.mp hm
    exact Schema.isErasable_of_mem_kept hp
  · obtain ⟨p, hp, rfl⟩ := List.mem_map.mp hm
    rw [s.resolveMessage_fields] at hx
    obtain ⟨y, -, rfl⟩ := List.mem_map.mp hx
    exact Schema.refersToAlias_settleField p.1

/-- The files that resolve to themselves are the settled ones. -/
theorem Schema.resolve_eq_self_iff : s.resolve f = .ok f ↔ s.Settled f :=
  ⟨Schema.settled_of_resolve, Schema.Settled.resolve_eq_ok⟩

end Settled

/-- **Resolving is idempotent**: whatever the schema and the file, nothing is left to be done in a
resolved file, and it resolves to itself, with all its messages, aliases and descriptors. -/
theorem resolve_resolve (s : Schema) (f f' : File) (h : s.resolve f = .ok f') :
    s.Settled f' ∧ s.resolve f' = .ok f' := by
  have hsettled := Schema.settled_of_resolve h
  exact ⟨hsettled, hsettled.resolve_eq_ok⟩

/-- A file in which `Price` is an alias for `Cents`, an alias too, and `Item` refers to `Price`. -/
def pricesProto : FileProto where
  name := some "prices.proto"
  package := some "shop"
  syntaxName := some "proto3"
  messageType :=
    [{ name := some "Cents"
       field := [{ name := some "value", number := some 1, label := some 1, type := some 3 }] },
     { name := some "Price"
       field := [{ name := some "value", number := some 1, label := some 1, type := some 11
                   typeName := some ".shop.Cents" }] },
     { name := some "Item"
       field := [{ name := some "price", number := some 1, label := some 1, type := some 11
                   typeName := some ".shop.Price" }] }]
  sourceCodeInfo := some
    { location :=
        [{ path := [4, 0], leadingComments := some " protobuf:alias\n" },
         { path := [4, 1], leadingComments := some " protobuf:alias\n" }] }

/-- The schema of `pricesProto`. -/
def pricesSchema : Schema := Schema.ofProto pricesProto

/-- The file of `pricesSchema`. -/
def pricesFile : File := buildFile defaultMarker true pricesProto

theorem resolve_resolve_prices :
    pricesSchema.resolve pricesFile = .ok (pricesSchema.resolved pricesFile) ∧
      pricesSchema.Settled (pricesSchema.resolved pricesFile) ∧
      pricesSchema.resolve (pricesSchema.resolved pricesFile)
        = .ok (pricesSchema.resolved pricesFile) := by
  have hbuilt : pricesFile.IsBuilt := ⟨defaultMarker, true, rfl⟩
  have hresolve := hbuilt.resolve_eq_ok pricesSchema
  exact ⟨hresolve, resolve_resolve pricesSchema pricesFile _ hresolve⟩

end AliasErasure
