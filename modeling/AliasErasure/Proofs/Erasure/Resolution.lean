import AliasErasure.Erasure.Resolve
import AliasErasure.Proofs.Erasure.Synchronize

set_option autoImplicit false

/-! # What resolving does to messages and files

The facts that all theorems on erasure are assembled from, one for each operation:

* a field is replaced exactly if it refers to an alias (`Schema.aliasTarget?_eq_some_iff`);
* a message keeps everything but its fields and oneofs, and each field is settled on its own
  (`Schema.resolveMessage_fields`, `Schema.settleField_of_alias`, `Schema.settleField_of_none`);
* a message goes if it can be erased, or if it is *uncovered*: it was kept for the sake of its
  payload's declaration, but its payload is replaced by one declared elsewhere
  (`Schema.isErasable_resolvePair`);
* a file that does not fail consists of the messages that do not go, resolved
  (`Schema.resolve_eq_ok_iff`).
-/

namespace AliasErasure

open Descriptor (FieldProto MessageProto)

/-! ## Payloads and references -/

theorem Message.payload?_eq_some_iff {m : Message} {p : Field} :
    m.payload? = some p ↔ m.marked = true ∧ m.fields = [p] := by
  rw [Message.payload?]
  split
  next hmarked =>
    split
    next payload hfields => simp [hmarked, hfields]
    next hfields => simpa [hmarked] using fun h => hfields p h
  next hmarked => simp [hmarked]

theorem Message.mem_fields_of_payload? {m : Message} {p : Field} (h : m.payload? = some p) :
    p ∈ m.fields := by
  rw [(Message.payload?_eq_some_iff.mp h).2]
  simp

theorem Message.erasablePayload?_eq_some_iff {m : Message} {p : Field} :
    m.erasablePayload? = some p ↔ m.payload? = some p ∧ m.declares p = false := by
  rw [Message.erasablePayload?]
  cases m.payload? with
  | none => simp
  | some q =>
      by_cases h : m.declares q = true
      · simp only [h, if_true]
        grind
      · simp only [h, Bool.false_eq_true, if_false]
        grind

theorem Message.isErasable_iff {m : Message} :
    m.isErasable = true ↔ ∃ p, m.payload? = some p ∧ m.declares p = false := by
  simp only [Message.isErasable, Option.isSome_iff_exists, erasablePayload?_eq_some_iff]

/-- **A field refers to an alias** if it is of message kind, has not come through an alias before,
and its name leads to a message that can be erased. -/
theorem Schema.aliasTarget?_eq_some_iff {s : Schema} {f : Field} {t : Message} {p : Field} :
    s.aliasTarget? f = some (t, p) ↔
      f.kind = .message ∧ f.viaAlias = none ∧ f.message.bind s.message? = some t ∧
        t.erasablePayload? = some p := by
  rw [Schema.aliasTarget?]
  split
  next hf =>
    cases htarget : f.message.bind s.message? with
    | none => simp
    | some target =>
        simp only [Option.map_eq_some_iff, Prod.mk.injEq, Option.some.injEq]
        constructor
        · rintro ⟨q, hq, rfl, rfl⟩
          exact ⟨hf.1, hf.2, rfl, hq⟩
        · rintro ⟨-, -, rfl, hp⟩
          exact ⟨p, hp, rfl, rfl⟩
  next hf =>
    constructor
    · intro h; cases h
    · rintro ⟨hkind, hvia, -⟩
      exact absurd ⟨hkind, hvia⟩ hf

theorem Schema.refersToAlias_eq_false_iff {s : Schema} {f : Field} :
    s.refersToAlias f = false ↔ s.aliasTarget? f = none := by
  rw [Schema.refersToAlias, Option.isSome_eq_false_iff, Option.isNone_iff_eq_none]

/-! ## One message -/

/-- Which oneofs of a message still have members once its fields are resolved, if that makes any
difference. -/
def Schema.pruning? (s : Schema) (m : Message) : Option (List Bool) :=
  let used := usedOneofs m.oneofs.length (m.fields.map s.resolveField)
  if s.emptiesOneofs m ∧ used.all id = false then some used else none

theorem Schema.length_of_pruning? {s : Schema} {m : Message} {used : List Bool}
    (h : s.pruning? m = some used) : used.length = m.oneofs.length := by
  rw [Schema.pruning?] at h
  split at h
  · cases h
    simp [usedOneofs]
  · cases h

/-- A field of a message after all of the message has been resolved. -/
def Schema.settleField (s : Schema) (m : Message) (f : Field) : Field :=
  match s.pruning? m with
  | none => s.resolveField f
  | some used => (s.resolveField f).renumber used

section ResolveMessage

variable (s : Schema) (m : Message) (raw : MessageProto)

theorem Schema.resolveMessage_of_pruning?_eq_none (h : s.pruning? m = none) :
    s.resolveMessage m raw = ({ m with fields := m.fields.map s.resolveField },
      { raw with field := s.resolveFieldProtos m.fields raw.field }) := by
  simp only [Schema.pruning?] at h
  simp only [Schema.resolveMessage, pruneOneofs]
  split at h
  · cases h
  · grind

theorem Schema.resolveMessage_of_pruning?_eq_some {used : List Bool}
    (h : s.pruning? m = some used) :
    s.resolveMessage m raw =
      ({ m with
          fields := (m.fields.map s.resolveField).map (·.renumber used)
          oneofs := keepUsed used m.oneofs },
       { raw with
          field := (s.resolveFieldProtos m.fields raw.field).map (renumberProto used)
          oneofDecl := keepUsed used raw.oneofDecl }) := by
  simp only [Schema.pruning?] at h
  simp only [Schema.resolveMessage, pruneOneofs]
  split at h
  · cases h
    grind
  · cases h

/-- **Each field is settled on its own.** -/
theorem Schema.resolveMessage_fields :
    (s.resolveMessage m raw).1.fields = m.fields.map (s.settleField m) := by
  cases h : s.pruning? m with
  | none =>
      rw [s.resolveMessage_of_pruning?_eq_none m raw h]
      simp [Schema.settleField, h]
  | some used =>
      rw [s.resolveMessage_of_pruning?_eq_some m raw h]
      simp [Schema.settleField, h]

theorem Schema.settleField_mem_resolveMessage {f : Field} (hf : f ∈ m.fields) :
    s.settleField m f ∈ (s.resolveMessage m raw).1.fields := by
  rw [Schema.resolveMessage_fields]
  exact List.mem_map_of_mem hf

/-- A message keeps everything but its fields and oneofs. -/
theorem Schema.resolveMessage_frame :
    (s.resolveMessage m raw).1 =
      { m with
        fields := (s.resolveMessage m raw).1.fields
        oneofs := (s.resolveMessage m raw).1.oneofs } := by
  cases h : s.pruning? m with
  | none => rw [s.resolveMessage_of_pruning?_eq_none m raw h]
  | some used => rw [s.resolveMessage_of_pruning?_eq_some m raw h]

/-- A descriptor keeps everything but its fields and oneofs. -/
theorem Schema.resolveMessage_frame_raw :
    (s.resolveMessage m raw).2 =
      { raw with
        field := (s.resolveMessage m raw).2.field
        oneofDecl := (s.resolveMessage m raw).2.oneofDecl } := by
  cases h : s.pruning? m with
  | none => rw [s.resolveMessage_of_pruning?_eq_none m raw h]
  | some used => rw [s.resolveMessage_of_pruning?_eq_some m raw h]

end ResolveMessage

section SettleField

variable {s : Schema} (m : Message) {f : Field}

/-- A field that refers to an alias takes over the payload, whatever happens to oneofs. -/
theorem Schema.settleField_of_alias {t : Message} {p : Field}
    (h : s.aliasTarget? f = some (t, p)) : s.settleField m f = f.substitute p t.ident := by
  rw [Schema.settleField, Schema.resolveField, h]
  cases s.pruning? m <;> rfl

/-- Any other field keeps everything but its oneof. -/
theorem Schema.settleField_of_none (h : s.aliasTarget? f = none) :
    s.settleField m f = { f with oneof := (s.settleField m f).oneof } := by
  rw [Schema.settleField, Schema.resolveField, h]
  cases s.pruning? m <;> rfl

theorem Schema.settleField_typeName? :
    (s.settleField m f).typeName? = (s.resolveField f).typeName? := by
  rw [Schema.settleField]
  cases s.pruning? m <;> rfl

end SettleField

/-! ## Messages that go -/

/-- An alias that was kept for the sake of its payload's declaration is *uncovered* if the payload
refers to an alias in turn, whose own payload is declared elsewhere. -/
def Schema.uncovers (s : Schema) (m : Message) : Bool :=
  m.payload?.any fun p => m.declares p && (s.aliasTarget? p).any fun target => !m.declares target.2

/-- Whether a message goes: it can be erased, or it is uncovered. -/
def Schema.consumes (s : Schema) (m : Message) : Bool := m.isErasable || s.uncovers m

theorem Schema.uncovers_iff {s : Schema} {m : Message} :
    s.uncovers m = true ↔ ∃ p t q, m.payload? = some p ∧ m.declares p = true ∧
      s.aliasTarget? p = some (t, q) ∧ m.declares q = false := by
  rw [Schema.uncovers]
  cases hp : m.payload? with
  | none => simp
  | some p =>
      cases ht : s.aliasTarget? p with
      | none => simp [ht]
      | some target => simp [ht]; grind

/-- A message that can be erased is not uncovered. -/
theorem Schema.not_isErasable_of_uncovers {s : Schema} {m : Message} (h : s.uncovers m = true) :
    m.isErasable = false := by
  obtain ⟨p, t, q, hp, hinside, -, -⟩ := Schema.uncovers_iff.mp h
  rw [Bool.eq_false_iff]
  intro herasable
  obtain ⟨p', hp', houtside⟩ := Message.isErasable_iff.mp herasable
  grind

theorem Message.declares_congr {m m' : Message} {f g : Field} (hname : m.fullName = m'.fullName)
    (htype : f.typeName? = g.typeName?) : m.declares f = m'.declares g := by
  rw [Message.declares, Message.declares, hname, htype]

theorem Schema.declares_resolveField {s : Schema} {m : Message} {f : Field} :
    m.declares (s.resolveField f) = match s.aliasTarget? f with
      | some (_, q) => m.declares q
      | none => m.declares f := by
  rw [Schema.resolveField]
  cases s.aliasTarget? f with
  | none => rfl
  | some target => exact Message.declares_congr rfl rfl

/-- Once resolved, a message can be erased if its payload is then declared elsewhere. -/
theorem Schema.isErasable_resolveMessage {s : Schema} {m : Message} {raw : MessageProto} :
    (s.resolveMessage m raw).1.isErasable = true ↔
      ∃ p, m.payload? = some p ∧ m.declares (s.resolveField p) = false := by
  have hmarked : (s.resolveMessage m raw).1.marked = m.marked := by
    rw [s.resolveMessage_frame]
  have hname : (s.resolveMessage m raw).1.fullName = m.fullName := by
    rw [s.resolveMessage_frame]
  have hdeclares : ∀ p, (s.resolveMessage m raw).1.declares (s.settleField m p)
      = m.declares (s.resolveField p) :=
    fun p => Message.declares_congr hname (s.settleField_typeName? m)
  simp only [Message.isErasable_iff, Message.payload?_eq_some_iff, hmarked,
    s.resolveMessage_fields, List.map_eq_singleton_iff]
  constructor
  · rintro ⟨_, ⟨hm, p, hp, rfl⟩, houtside⟩
    exact ⟨p, ⟨hm, hp⟩, hdeclares p ▸ houtside⟩
  · rintro ⟨p, ⟨hm, hp⟩, houtside⟩
    exact ⟨_, ⟨hm, p, hp, rfl⟩, (hdeclares p).symm ▸ houtside⟩

/-- **Which messages go**, as far as the schema alone tells. -/
theorem Schema.isErasable_resolvePair {s : Schema} {p : Message × MessageProto} :
    (s.resolvePair p).1.isErasable = s.consumes p.1 := by
  rw [Schema.resolvePair, Schema.consumes]
  cases herasable : p.1.isErasable with
  | true => simp [herasable]
  | false =>
      -- the payload was declared inside, so only a payload put in its place can be elsewhere
      rw [Bool.false_or, Bool.eq_iff_iff]
      simp only [Bool.false_eq_true, if_false]
      rw [Schema.isErasable_resolveMessage, Schema.uncovers_iff]
      have hinside : ∀ q, p.1.payload? = some q → p.1.declares q = true := by
        intro q hq
        rw [← Bool.not_eq_false]
        intro houtside
        rw [Message.isErasable_iff.mpr ⟨q, hq, houtside⟩] at herasable
        cases herasable
      constructor
      · rintro ⟨q, hq, houtside⟩
        rw [Schema.declares_resolveField] at houtside
        cases ht : s.aliasTarget? q with
        | none => rw [ht, hinside q hq] at houtside; cases houtside
        | some target =>
            rw [ht] at houtside
            exact ⟨q, target.1, target.2, hq, hinside q hq, ht, houtside⟩
      · rintro ⟨q, t, r, hq, -, ht, houtside⟩
        refine ⟨q, hq, ?_⟩
        rw [Schema.declares_resolveField, ht]
        exact houtside

/-! ## One file -/

/-- The messages of a file that stay, with their descriptors. -/
def Schema.kept (s : Schema) (f : File) : List (Message × MessageProto) :=
  (f.messages.zip f.proto.messageType).filter fun p => !s.consumes p.1

/-- The messages of a file that go, with their descriptors. -/
def Schema.gone (s : Schema) (f : File) : List (Message × MessageProto) :=
  (f.messages.zip f.proto.messageType).filter fun p => s.consumes p.1

theorem Schema.resolvePair_of_mem_kept {s : Schema} {f : File} {p : Message × MessageProto}
    (h : p ∈ s.kept f) : s.resolvePair p = s.resolveMessage p.1 p.2 := by
  obtain ⟨-, hstays⟩ := List.mem_filter.mp h
  rw [Schema.resolvePair, if_neg]
  intro herasable
  simp [Schema.consumes, herasable] at hstays

/-- A message that stays cannot be erased once it is resolved. -/
theorem Schema.isErasable_of_mem_kept {s : Schema} {f : File} {p : Message × MessageProto}
    (h : p ∈ s.kept f) : (s.resolveMessage p.1 p.2).1.isErasable = false := by
  rw [← s.resolvePair_of_mem_kept h, Schema.isErasable_resolvePair]
  simpa using (List.mem_filter.mp h).2

/-- If no message goes, all of them stay. -/
theorem Schema.kept_eq_zip {s : Schema} {f : File} (h : s.gone f = []) :
    s.kept f = f.messages.zip f.proto.messageType := by
  rw [Schema.gone, List.filter_eq_nil_iff] at h
  rw [Schema.kept, List.filter_eq_self]
  intro p hp
  simpa using h p hp

/-- What is left of a file: the messages that stay, resolved, and the ones that go. -/
theorem Schema.survivors_eq (s : Schema) (f : File) :
    s.survivors f =
      { messages := (s.kept f).map fun p => (s.resolveMessage p.1 p.2).1
        raw := (s.kept f).map fun p => (s.resolveMessage p.1 p.2).2
        aliases := (s.gone f).map fun p => (s.resolvePair p).1 } := by
  have hkept : ((f.messages.zip f.proto.messageType).map s.resolvePair).filter
        (fun p => !p.1.isErasable)
      = (s.kept f).map fun p => s.resolveMessage p.1 p.2 := by
    rw [List.filter_map, ← List.map_congr_left fun p hp => s.resolvePair_of_mem_kept hp]
    congr 1
    exact List.filter_congr fun p _ => by simp [Schema.isErasable_resolvePair]
  have hgone : ((f.messages.zip f.proto.messageType).map s.resolvePair).filter
        (fun p => p.1.isErasable)
      = (s.gone f).map s.resolvePair := by
    rw [List.filter_map]
    congr 1
    exact List.filter_congr fun p _ => by simp [Schema.isErasable_resolvePair]
  rw [Schema.survivors, partitionPairs, hkept, hgone]
  simp [List.map_map, Function.comp_def]

/-- The file that is left of `f`. -/
def Schema.resolved (s : Schema) (f : File) : File :=
  { f with
    messages := (s.kept f).map fun p => (s.resolveMessage p.1 p.2).1
    aliases := f.aliases ++ (s.gone f).map fun p => (s.resolvePair p).1
    proto := { f.proto with
      messageType := (s.kept f).map fun p => (s.resolveMessage p.1 p.2).2
      sourceCodeInfo := if (s.gone f).isEmpty then f.proto.sourceCodeInfo else none } }

theorem Schema.mem_resolved_messages {s : Schema} {f : File} {p : Message × MessageProto}
    (hp : p ∈ s.kept f) : (s.resolveMessage p.1 p.2).1 ∈ (s.resolved f).messages :=
  List.mem_map.mpr ⟨p, hp, rfl⟩

/-- Messages and descriptors that stay keep standing side by side. -/
theorem Schema.resolveMessage_mem_zip_resolved {s : Schema} {f : File}
    {p : Message × MessageProto} (hp : p ∈ s.kept f) :
    s.resolveMessage p.1 p.2 ∈
      (s.resolved f).messages.zip (s.resolved f).proto.messageType := by
  show _ ∈ List.zip (List.map _ _) (List.map _ _)
  rw [List.zip_map']
  exact List.mem_map_of_mem hp

/-- What holds of each message that stays and its descriptor, once both are resolved, holds
throughout the resolved file. -/
theorem Schema.forall₂_resolved {s : Schema} {f : File} {R : Message → MessageProto → Prop}
    (h : ∀ p ∈ s.kept f, R (s.resolveMessage p.1 p.2).1 (s.resolveMessage p.1 p.2).2) :
    List.Forall₂ R (s.resolved f).messages (s.resolved f).proto.messageType := by
  show List.Forall₂ R (List.map _ _) (List.map _ _)
  rw [List.forall₂_map_left_iff, List.forall₂_map_right_iff, List.forall₂_same]
  exact h

/-- **A file without a mismatch resolves**, and one with a mismatch does not. -/
theorem Schema.resolve_eq_ok_iff {s : Schema} {f f' : File} :
    s.resolve f = .ok f' ↔ s.mismatch? f = none ∧ f' = s.resolved f := by
  rw [Schema.resolve]
  cases s.mismatch? f with
  | some mismatch => simp
  | none =>
      simp only [s.survivors_eq, List.isEmpty_map, Except.ok.injEq, true_and]
      exact eq_comm

/-! ## Mirrors have no mismatch -/

section Mismatch

variable (s : Schema) (file : String)

theorem Schema.fieldMismatch?_eq_none {m : Message} {raw : MessageProto}
    (h : List.Forall₂ Field.Mirrors m.fields raw.field) {f : Field} {j : Nat}
    (hf : m.fields[j]? = some f) (i : Nat) : s.fieldMismatch? file m i raw f j = none := by
  obtain ⟨hj, rfl⟩ := List.getElem?_eq_some_iff.mp hf
  have hj' : j < raw.field.length := h.length_eq ▸ hj
  have hmirrors : (m.fields[j]).Mirrors raw.field[j] := (List.forall₂_iff_get.mp h).2 j hj hj'
  have hname : raw.field[j].name.getD "" = m.fields[j].name :=
    (hmirrors ⟨[], .proto2, ""⟩ []).name
  rw [Schema.fieldMismatch?, List.getElem?_eq_getElem hj']
  simp [hname]

theorem Schema.messageMismatch?_eq_none {m : Message} {raw : MessageProto} (h : m.Mirrors raw)
    (i : Nat) : s.messageMismatch? file m i raw = none := by
  have hfields : ∀ p ∈ m.fields.zipIdx, s.fieldMismatch? file m i raw p.1 p.2 = none :=
    fun p hp => s.fieldMismatch?_eq_none file h.fields (List.mem_zipIdx_iff_getElem?.mp hp) i
  have honeofs : raw.oneofDecl.length = m.oneofs.length := by
    have hlen := congrArg List.length h.oneofs
    simpa using hlen.symm
  rw [Schema.messageMismatch?, if_neg (not_not.mpr h.name),
    List.findSome?_eq_none_iff.mpr hfields]
  simp [honeofs]

/-- **Where every message mirrors its descriptor there is no mismatch.** -/
theorem Schema.mismatch?_eq_none {f : File}
    (h : List.Forall₂ Message.Mirrors f.messages f.proto.messageType) :
    s.mismatch? f = none := by
  rw [Schema.mismatch?, if_neg (not_not.mpr h.length_eq), List.findSome?_eq_none_iff]
  rintro ⟨⟨m, raw⟩, i⟩ hp
  have hpair : (m, raw) ∈ f.messages.zip f.proto.messageType :=
    List.mem_of_getElem? (List.mem_zipIdx_iff_getElem?.mp hp)
  have hmirrors : m.Mirrors raw := (List.forall₂_iff_zip.mp h).2 hpair
  rw [Schema.pairMismatch?, s.messageMismatch?_eq_none f.name hmirrors i, ite_self]

end Mismatch

end AliasErasure
