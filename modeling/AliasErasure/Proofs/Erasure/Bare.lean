import AliasErasure.Proofs.Erasure.Resolution

set_option autoImplicit false

/-! # Resolving does not read comments

Comments stand at every declaration of a model, and in the source locations of its descriptor. The
*bare* model is what is left without them; the marks of aliases, which were read from comments when
the model was built, are kept.

Resolving commutes with leaving comments out (`Schema.resolve_bare`). For every operation there is
one lemma that says so, and each cites those of the operations that it calls. So no comment has any
influence on what a file is resolved to, apart from the comments of the result.
-/

namespace AliasErasure

open Descriptor (FieldProto FileProto Location MessageProto)

/-! ## Leaving comments out -/

/-- A field without its comments. -/
def Field.bare (x : Field) : Field := { x with comments := {} }

/-- An enum without its comments. -/
def EnumType.bare (e : EnumType) : EnumType := { e with comments := {} }

mutual

/-- A message without comments, at every depth. -/
def Message.bare : Message → Message
  | m@{ nested := nested, .. } =>
      { m with
        comments := {}
        fields := m.fields.map (·.bare)
        nested := bareMessages nested
        enums := m.enums.map (·.bare) }

/-- Messages without comments. -/
def bareMessages : List Message → List Message
  | [] => []
  | m :: rest => m.bare :: bareMessages rest

end

/-- A source location without comments. -/
def Descriptor.Location.bare (l : Location) : Location :=
  { l with leadingComments := none, trailingComments := none, leadingDetachedComments := [] }

/-- A descriptor whose source locations have no comments. -/
def Descriptor.FileProto.bare (f : FileProto) : FileProto :=
  { f with sourceCodeInfo := f.sourceCodeInfo.map fun info => ⟨info.location.map (·.bare)⟩ }

/-- A file without comments. -/
def File.bare (f : File) : File :=
  { f with
    messages := f.messages.map (·.bare)
    enums := f.enums.map (·.bare)
    aliases := f.aliases.map (·.bare)
    proto := f.proto.bare }

/-- A schema without comments. -/
def Schema.bare (s : Schema) : Schema := Schema.ofFiles (s.files.map (·.bare))

/-! ## What is left -/

theorem bareMessages_eq_map (ms : List Message) : bareMessages ms = ms.map (·.bare) := by
  induction ms with
  | nil => rfl
  | cons m rest ih => rw [bareMessages, ih, List.map_cons]

/-- The parts of a message without comments. -/
theorem Message.bare_eq (m : Message) :
    m.bare =
      { m with
        comments := {}
        fields := m.fields.map (·.bare)
        nested := m.nested.map (·.bare)
        enums := m.enums.map (·.bare) } := by
  cases m
  rw [Message.bare, bareMessages_eq_map]

@[simp] theorem Field.bare_kind (x : Field) : x.bare.kind = x.kind := rfl

@[simp] theorem Field.bare_cardinality (x : Field) : x.bare.cardinality = x.cardinality := rfl

@[simp] theorem Field.bare_message (x : Field) : x.bare.message = x.message := rfl

@[simp] theorem Field.bare_oneof (x : Field) : x.bare.oneof = x.oneof := rfl

@[simp] theorem Field.bare_viaAlias (x : Field) : x.bare.viaAlias = x.viaAlias := rfl

theorem Field.bare_typeName? (x : Field) : x.bare.typeName? = x.typeName? := rfl

section Message

variable (m : Message)

@[simp] theorem Message.bare_name : m.bare.name = m.name := by rw [m.bare_eq]

@[simp] theorem Message.bare_fullName : m.bare.fullName = m.fullName := by rw [m.bare_eq]

@[simp] theorem Message.bare_marked : m.bare.marked = m.marked := by rw [m.bare_eq]

@[simp] theorem Message.bare_mapEntry : m.bare.mapEntry = m.mapEntry := by rw [m.bare_eq]

@[simp] theorem Message.bare_fields : m.bare.fields = m.fields.map (·.bare) := by rw [m.bare_eq]

@[simp] theorem Message.bare_oneofs : m.bare.oneofs = m.oneofs := by rw [m.bare_eq]

@[simp] theorem Message.bare_nested : m.bare.nested = m.nested.map (·.bare) := by rw [m.bare_eq]

@[simp] theorem Message.bare_enums : m.bare.enums = m.enums.map (·.bare) := by rw [m.bare_eq]

@[simp] theorem Message.bare_ident : m.bare.ident = m.ident := by simp [Message.ident]

/-- Fields and oneofs can be exchanged before or after comments are left out. -/
theorem Message.bare_exchange (xs : List Field) (os : List Oneof) :
    ({ m with fields := xs, oneofs := os } : Message).bare
      = { m.bare with fields := xs.map (·.bare), oneofs := os } := by
  rw [Message.bare_eq, m.bare_eq]

end Message

/-! ## Looking up -/

theorem Message.family_bare (m : Message) : m.bare.family = m.family.map (·.bare) := by
  induction m using Message.nestedInduction with
  | step m ih =>
      have hnested : families (m.nested.map (·.bare)) = (families m.nested).map (·.bare) := by
        generalize m.nested = ms at ih
        induction ms with
        | nil => rfl
        | cons x rest ihrest =>
            rw [List.map_cons, families_cons, families_cons, List.map_append, ih x (by simp),
              ihrest fun y hy => ih y (by simp [hy])]
      rw [Message.family_eq, m.family_eq, m.bare_nested, hnested, List.map_append,
        List.map_singleton]

theorem families_bare (ms : List Message) :
    families (ms.map (·.bare)) = (families ms).map (·.bare) := by
  induction ms with
  | nil => rfl
  | cons m rest ih => rw [List.map_cons, families_cons, families_cons, List.map_append, ih,
      m.family_bare]

theorem Schema.allMessages_bare (s : Schema) : s.bare.allMessages = s.allMessages.map (·.bare) := by
  show (s.files.map (·.bare)).flatMap (fun f => families f.messages) = _
  rw [Schema.allMessages, List.flatMap_map, List.map_flatMap]
  exact List.flatMap_congr fun f _ => families_bare f.messages

/-- **A name leads to the same message**, without its comments. -/
theorem Schema.message?_bare {s : Schema} (hs : s.Indexed) (name : String) :
    s.bare.message? name = (s.message? name).map (·.bare) := by
  -- found is the last message of the name, and a bare message has the same name
  have hfilter : (s.allMessages.map (·.bare)).filter (fun m => m.fullName == Schema.qualified name)
      = (s.allMessages.filter fun m => m.fullName == Schema.qualified name).map (·.bare) := by
    rw [List.filter_map]
    simp [Function.comp_def]
  rw [Schema.message?_eq_getLast? (s := s.bare) rfl, Schema.message?_eq_getLast? hs,
    Schema.allMessages_bare, hfilter, List.getLast?_map]

/-! ## References to aliases -/

theorem Message.payload?_bare (m : Message) : m.bare.payload? = m.payload?.map (·.bare) := by
  rw [Message.payload?, Message.payload?, m.bare_marked, m.bare_fields]
  split
  · cases m.fields with
    | nil => rfl
    | cons x rest => cases rest <;> rfl
  · rfl

theorem Message.erasablePayload?_bare (m : Message) :
    m.bare.erasablePayload? = m.erasablePayload?.map (·.bare) := by
  rw [Message.erasablePayload?, Message.erasablePayload?, m.payload?_bare]
  cases m.payload? with
  | none => rfl
  | some p =>
      have hdeclares : m.bare.declares p.bare = m.declares p :=
        Message.declares_congr m.bare_fullName p.bare_typeName?
      simp only [Option.map_some, hdeclares]
      split <;> rfl

theorem Message.isErasable_bare (m : Message) : m.bare.isErasable = m.isErasable := by
  rw [Message.isErasable, Message.isErasable, m.erasablePayload?_bare, Option.isSome_map]

section Schema

variable {s : Schema} (hs : s.Indexed)
include hs

theorem Schema.aliasTarget?_bare (x : Field) :
    s.bare.aliasTarget? x.bare = (s.aliasTarget? x).map fun t => (t.1.bare, t.2.bare) := by
  have htarget : x.message.bind s.bare.message? = (x.message.bind s.message?).map (·.bare) := by
    cases x.message with
    | none => rfl
    | some name => exact Schema.message?_bare hs name
  rw [Schema.aliasTarget?, Schema.aliasTarget?, x.bare_kind, x.bare_viaAlias, x.bare_message,
    htarget]
  split
  · cases x.message.bind s.message? with
    | none => rfl
    | some t =>
        simp only [Option.map_some, t.erasablePayload?_bare, Option.map_map]
        rfl
  · rfl

theorem Schema.refersToAlias_bare (x : Field) :
    s.bare.refersToAlias x.bare = s.refersToAlias x := by
  rw [Schema.refersToAlias, Schema.refersToAlias, Schema.aliasTarget?_bare hs, Option.isSome_map]

theorem Schema.emptiesOneofs_bare (m : Message) :
    s.bare.emptiesOneofs m.bare = s.emptiesOneofs m := by
  rw [Schema.emptiesOneofs, Schema.emptiesOneofs, m.bare_fields, List.any_map]
  congr 1
  funext x
  rw [Function.comp_apply, Schema.refersToAlias_bare hs, x.bare_oneof]

/-! ## Fields and messages -/

theorem Schema.resolveField_bare (x : Field) :
    s.bare.resolveField x.bare = (s.resolveField x).bare := by
  rw [Schema.resolveField, Schema.resolveField, Schema.aliasTarget?_bare hs]
  cases s.aliasTarget? x with
  | none => rfl
  | some t =>
      simp only [Option.map_some, Message.bare_ident]
      rfl

theorem Schema.resolveFieldProto_bare (x : Field) (r : FieldProto) :
    s.bare.resolveFieldProto x.bare r = s.resolveFieldProto x r := by
  rw [Schema.resolveFieldProto, Schema.resolveFieldProto, Schema.refersToAlias_bare hs,
    Schema.resolveField_bare hs]
  rfl

theorem Schema.resolveFieldProtos_bare (xs : List Field) (rs : List FieldProto) :
    s.bare.resolveFieldProtos (xs.map (·.bare)) rs = s.resolveFieldProtos xs rs := by
  induction xs generalizing rs with
  | nil => rfl
  | cons x xs ih =>
      cases rs with
      | nil => rfl
      | cons r rs =>
          rw [List.map_cons, Schema.resolveFieldProtos, Schema.resolveFieldProtos,
            Schema.resolveFieldProto_bare hs, ih]

omit hs in
theorem usedOneofs_bare (count : Nat) (xs : List Field) :
    usedOneofs count (xs.map (·.bare)) = usedOneofs count xs := by
  simp [usedOneofs, Function.comp_def]

omit hs in
theorem pruneOneofs_bare (m : Message) (raw : MessageProto) :
    pruneOneofs m.bare raw = ((pruneOneofs m raw).1.bare, (pruneOneofs m raw).2) := by
  rw [pruneOneofs, pruneOneofs]
  simp only [Message.bare_fields, Message.bare_oneofs, usedOneofs_bare]
  split
  · rfl
  · refine Prod.ext ?_ rfl
    rw [Message.bare_exchange, List.map_map, List.map_map]
    rfl

theorem Schema.resolveMessage_bare (m : Message) (raw : MessageProto) :
    s.bare.resolveMessage m.bare raw
      = ((s.resolveMessage m raw).1.bare, (s.resolveMessage m raw).2) := by
  have hmap : m.bare.fields.map s.bare.resolveField
      = (m.fields.map s.resolveField).map (·.bare) := by
    rw [m.bare_fields, List.map_map, List.map_map]
    exact List.map_congr_left fun x _ => Schema.resolveField_bare hs x
  have hfields : ({ m.bare with fields := m.bare.fields.map s.bare.resolveField } : Message)
      = ({ m with fields := m.fields.map s.resolveField } : Message).bare := by
    rw [hmap, m.bare_eq, Message.bare_eq { m with fields := m.fields.map s.resolveField }]
  simp only [Schema.resolveMessage]
  -- whether oneofs are pruned is asked of the message as it was before its fields were resolved
  rw [hfields, m.bare_fields, Schema.resolveFieldProtos_bare hs, Schema.emptiesOneofs_bare hs]
  split
  · exact pruneOneofs_bare _ _
  · rfl

theorem Schema.resolvePair_bare (p : Message × MessageProto) :
    s.bare.resolvePair (p.1.bare, p.2) = ((s.resolvePair p).1.bare, (s.resolvePair p).2) := by
  rw [Schema.resolvePair, Schema.resolvePair, p.1.isErasable_bare, Schema.resolveMessage_bare hs]
  split <;> rfl

/-! ## Files -/

theorem Schema.messageMismatch?_bare (file : String) (m : Message) (i : Nat) (raw : MessageProto) :
    s.bare.messageMismatch? file m.bare i raw = s.messageMismatch? file m i raw := by
  have hfield : ∀ x j, s.bare.fieldMismatch? file m.bare i raw x.bare j
      = s.fieldMismatch? file m i raw x j := by
    intro x j
    rw [Schema.fieldMismatch?, Schema.fieldMismatch?, Schema.refersToAlias_bare hs, m.bare_name]
    rfl
  rw [Schema.messageMismatch?, Schema.messageMismatch?, Schema.emptiesOneofs_bare hs,
    m.bare_name, m.bare_oneofs, m.bare_fields, List.zipIdx_map, List.findSome?_map]
  simp only [Function.comp_def, Prod.map_fst, Prod.map_snd, id_eq, hfield]

omit hs in
theorem File.zip_bare (f : File) :
    f.bare.messages.zip f.bare.proto.messageType
      = (f.messages.zip f.proto.messageType).map fun p => (p.1.bare, p.2) := by
  show (f.messages.map (·.bare)).zip f.proto.messageType = _
  rw [List.zip_map_left]
  rfl

theorem Schema.mismatch?_bare (f : File) : s.bare.mismatch? f.bare = s.mismatch? f := by
  have hlength : f.bare.messages.length = f.messages.length := List.length_map _
  have hpair : ∀ p : (Message × MessageProto) × Nat,
      s.bare.pairMismatch? f.name ((p.1.1.bare, p.1.2), p.2) = s.pairMismatch? f.name p := by
    intro p
    rw [Schema.pairMismatch?, Schema.pairMismatch?, p.1.1.isErasable_bare,
      Schema.messageMismatch?_bare hs]
  rw [Schema.mismatch?, Schema.mismatch?, hlength, File.pairs, File.pairs, f.zip_bare,
    List.zipIdx_map, List.findSome?_map]
  show (if f.messages.length ≠ f.proto.messageType.length then _ else _) = _
  congr 2
  funext p
  exact hpair p

theorem Schema.survivors_bare (f : File) :
    s.bare.survivors f.bare =
      { messages := (s.survivors f).messages.map (·.bare)
        raw := (s.survivors f).raw
        aliases := (s.survivors f).aliases.map (·.bare) } := by
  have hpairs : (f.bare.messages.zip f.bare.proto.messageType).map s.bare.resolvePair
      = ((f.messages.zip f.proto.messageType).map s.resolvePair).map fun p => (p.1.bare, p.2) := by
    rw [f.zip_bare, List.map_map, List.map_map]
    exact List.map_congr_left fun p _ => Schema.resolvePair_bare hs p
  rw [Schema.survivors, Schema.survivors, hpairs]
  simp [partitionPairs, List.filter_map, Function.comp_def, Message.isErasable_bare]

/-- **Resolving commutes with leaving comments out.** -/
theorem Schema.resolve_bare (f : File) :
    s.bare.resolve f.bare = (s.resolve f).map (·.bare) := by
  rw [Schema.resolve, Schema.resolve, Schema.mismatch?_bare hs, Schema.survivors_bare hs]
  cases s.mismatch? f with
  | some mismatch => rfl
  | none =>
      simp only [Except.map, List.isEmpty_map]
      congr 1
      simp [File.bare, FileProto.bare, apply_ite]

end Schema

end AliasErasure
