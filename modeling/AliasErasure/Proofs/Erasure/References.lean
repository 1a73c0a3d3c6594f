import AliasErasure.Proofs.Erasure.Classification

set_option autoImplicit false

/-! # References that are left behind

Once all files of a schema are resolved, some messages have gone. A reference to one of them that
is still there dangles. `dangling_iff_leavesReference` says exactly when this happens, given that
no alias stands for another alias: there are two ways, and both show in the schema beforehand.

* Fields are resolved in top-level messages only, so a message nested in one that stays keeps its
  references (`Schema.LeavesNested`).
* Fields that refer to an uncovered message are left alone, but the message goes
  (`Schema.LeavesUncovered`).

Files and descriptors do not differ in this, since they mirror each other at every depth
(`Schema.Built.forall₂_families_resolved`).
-/

namespace AliasErasure

open Descriptor (FieldProto FileProto MessageProto)

/-! ## Names in fields and descriptors -/

/-- A field of message kind that refers to the message with the qualified name `n`. -/
def Field.Names (f : Field) (n : String) : Prop := f.kind = .message ∧ f.message = some n

/-- The descriptor of a field of message kind that refers to the message with the qualified name
`n`. -/
def Descriptor.FieldProto.Names (r : FieldProto) (n : String) : Prop :=
  Kind.ofProto r.type = .message ∧ r.typeName = some n

/-- A field and its descriptor refer to the same messages. -/
theorem Field.Mirrors.names_iff {f : Field} {r : FieldProto} (h : f.Mirrors r) {n : String}
    (hn : n ≠ "") : f.Names n ↔ r.Names n := by
  have hread := h ⟨[], .proto2, ""⟩ []
  have hkind : Kind.ofProto r.type = f.kind := hread.kind
  have hmessage : (if Kind.ofProto r.type = .message ∨ Kind.ofProto r.type = .group
      then r.typeName.filter (· != "") else none) = f.message := hread.message
  rw [Field.Names, FieldProto.Names, hkind, ← hmessage, hkind]
  constructor
  · rintro ⟨hk, hname⟩
    rw [if_pos (Or.inl hk)] at hname
    exact ⟨hk, (Option.filter_eq_some_iff.mp hname).1⟩
  · rintro ⟨hk, hname⟩
    rw [if_pos (Or.inl hk), hname]
    exact ⟨hk, by simp [hn]⟩

/-- In lists that correspond, one side has an element of a kind if the other side has. -/
theorem exists_mem_iff_of_forall₂ {α β : Type} {R : α → β → Prop} {P : α → Prop} {Q : β → Prop}
    (step : ∀ a b, R a b → (P a ↔ Q b)) {as : List α} {bs : List β} (h : List.Forall₂ R as bs) :
    (∃ a ∈ as, P a) ↔ ∃ b ∈ bs, Q b := by
  induction h with
  | nil => simp
  | cons hab _ ih => simp [ih, step _ _ hab]

/-- A message and its descriptor refer to the same messages. -/
theorem Message.Mirrors.names_iff {m : Message} {raw : MessageProto} (h : m.Mirrors raw)
    {n : String} (hn : n ≠ "") : (∃ x ∈ m.fields, x.Names n) ↔ ∃ r ∈ raw.field, r.Names n :=
  exists_mem_iff_of_forall₂ (fun _ _ hxr => hxr.names_iff hn) h.fields

/-! ## Resolved messages at every depth -/

theorem Message.BuiltFrom.nested {ctx : FileContext} {m : Message} {raw : MessageProto}
    (h : m.BuiltFrom ctx raw) :
    List.Forall₂ (Message.BuiltFrom ctx) (families m.nested)
      (Descriptor.families raw.nestedType) := by
  obtain ⟨scope, path, hscope, rfl⟩ := h
  rw [buildMessage_eq]
  exact forall₂_buildNested ctx raw.nestedType
    (fun inner _ => forall₂_family_buildMessage ctx inner) (hscope.inner _) path 0

/-- The family of a resolved message: only the message itself has changed. -/
theorem Schema.family_resolveMessage (s : Schema) (m : Message) (raw : MessageProto) :
    (s.resolveMessage m raw).1.family = families m.nested ++ [(s.resolveMessage m raw).1] := by
  rw [Message.family_eq]
  congr 2
  rw [s.resolveMessage_frame]

theorem Schema.family_resolveMessage_raw (s : Schema) (m : Message) (raw : MessageProto) :
    (s.resolveMessage m raw).2.family
      = Descriptor.families raw.nestedType ++ [(s.resolveMessage m raw).2] := by
  rw [MessageProto.family_eq]
  congr 2
  rw [s.resolveMessage_frame_raw]

/-- What holds of each message and its descriptor when one is read from the other, and of the
messages that stay when both have been resolved, holds at every depth of a resolved file. -/
theorem Schema.forall₂_families_resolved_of {s : Schema} {f : File} (hf : f.IsBuilt)
    {R : Message → MessageProto → Prop} (nested : ∀ ctx x raw, x.BuiltFrom ctx raw → R x raw)
    (own : ∀ p ∈ s.kept f, R (s.resolveMessage p.1 p.2).1 (s.resolveMessage p.1 p.2).2) :
    List.Forall₂ R (families (s.resolved f).messages)
      (Descriptor.families (s.resolved f).proto.messageType) := by
  -- what goes is on neither side, so the induction is on the messages that stay
  have key : ∀ ps : List (Message × MessageProto), (∀ p ∈ ps, p ∈ s.kept f) →
      List.Forall₂ R
        (families (ps.map fun p => (s.resolveMessage p.1 p.2).1))
        (Descriptor.families (ps.map fun p => (s.resolveMessage p.1 p.2).2)) := by
    intro ps
    induction ps with
    | nil => intro _; exact List.Forall₂.nil
    | cons p rest ih =>
        intro hps
        have hp := hps p (by simp)
        obtain ⟨ctx, hfrom⟩ := hf.builtFrom_of_mem_kept hp
        have hfamily : List.Forall₂ R (s.resolveMessage p.1 p.2).1.family
            (s.resolveMessage p.1 p.2).2.family := by
          rw [s.family_resolveMessage, s.family_resolveMessage_raw]
          exact List.rel_append (hfrom.nested.imp fun x r hxr => nested ctx x r hxr)
            (List.Forall₂.cons (own p hp) List.Forall₂.nil)
        exact List.rel_append hfamily (ih fun q hq => hps q (by simp [hq]))
  exact key (s.kept f) fun p hp => hp

/-- **Resolved files mirror their descriptors at every depth.** -/
theorem Schema.Built.forall₂_families_resolved {s : Schema} (hs : s.Built) {f : File}
    (hf : f.IsBuilt) :
    List.Forall₂ Message.Mirrors (families (s.resolved f).messages)
      (Descriptor.families (s.resolved f).proto.messageType) := by
  refine Schema.forall₂_families_resolved_of hf (fun _ _ _ h => h.mirrors) fun p hp => ?_
  obtain ⟨ctx, hfrom⟩ := hf.builtFrom_of_mem_kept hp
  exact hs.resolveMessage_mirrors hfrom.mirrors

/-- The messages of a resolved file at every depth: those nested in a message that stays, and the
messages that stay, resolved. -/
theorem Schema.mem_families_resolved_iff {s : Schema} {f : File} {x : Message} :
    x ∈ families (s.resolved f).messages ↔
      ∃ p ∈ s.kept f, x ∈ families p.1.nested ∨ x = (s.resolveMessage p.1 p.2).1 := by
  rw [mem_families]
  simp only [Schema.resolved, List.mem_map, exists_exists_and_eq_and, s.family_resolveMessage,
    List.mem_append, List.mem_singleton]

/-! ## Dangling references -/

/-- The qualified name `n` is that of a message that has left one of the files. -/
def GoneFrom (resolved : List File) (n : String) : Prop :=
  ∃ g ∈ resolved, ∃ a ∈ g.aliases, a.fullName = n

/-- Some field of some message, at whatever depth, refers to a message that has gone. -/
def Dangling (resolved : List File) : Prop :=
  ∃ n, GoneFrom resolved n ∧
    ∃ f ∈ resolved, ∃ x ∈ families f.messages, ∃ field ∈ x.fields, field.Names n

/-- Some field of some descriptor, at whatever depth, refers to a message that has gone. -/
def DanglingInDescriptors (resolved : List File) : Prop :=
  ∃ n, GoneFrom resolved n ∧
    ∃ f ∈ resolved, ∃ x ∈ Descriptor.families f.proto.messageType, ∃ field ∈ x.field,
      field.Names n

/-- The messages of a schema that are not nested in others. -/
def Schema.topLevel (s : Schema) : List Message := s.files.flatMap (·.messages)

/-- No alias that can be erased stands for another one. -/
def Schema.Unchained (s : Schema) : Prop :=
  ∀ t ∈ s.allMessages, ∀ p, t.erasablePayload? = some p → p.kind = .message →
    ∀ u, p.message.bind s.message? = some u → u.isErasable = false

/-- If no marked message has a field of message kind, no alias stands for another one. -/
theorem Schema.unchained_of_scalar {s : Schema}
    (h : s.allMessages.all (fun t => !t.marked || t.fields.all (·.kind != .message)) = true) :
    s.Unchained := by
  intro t ht p hp hkind
  have hpayload := (Message.erasablePayload?_eq_some_iff.mp hp).1
  obtain ⟨hmarked, hfields⟩ := Message.payload?_eq_some_iff.mp hpayload
  have hnot := List.all_eq_true.mp h t ht
  simp [hmarked, hfields, hkind] at hnot

/-- A message nested in one that stays refers to a message that goes. -/
def Schema.LeavesNested (s : Schema) : Prop :=
  ∃ m ∈ s.topLevel, s.consumes m = false ∧ ∃ x ∈ families m.nested, ∃ field ∈ x.fields,
    ∃ a ∈ s.topLevel, s.consumes a = true ∧ field.Names a.fullName

/-- A field of a message that stays refers to an uncovered message, or takes over a payload that
does. -/
def Schema.LeavesUncovered (s : Schema) : Prop :=
  ∃ m ∈ s.topLevel, s.consumes m = false ∧ ∃ field ∈ m.fields,
    ∃ a ∈ s.topLevel, s.uncovers a = true ∧
      (field.Names a.fullName ∨
        ∃ t p, s.aliasTarget? field = some (t, p) ∧ p.Names a.fullName)

theorem Schema.mem_allMessages_of_mem_topLevel {s : Schema} {m : Message}
    (hm : m ∈ s.topLevel) : m ∈ s.allMessages := by
  obtain ⟨f, hf, hmf⟩ := List.mem_flatMap.mp hm
  exact Schema.mem_allMessages_of_mem hf hmf

theorem Schema.settleField_names_iff {s : Schema} {m : Message} {f : Field} {n : String} :
    (s.settleField m f).Names n ↔ (s.resolveField f).Names n := by
  rw [Schema.settleField]
  cases s.pruning? m <;> exact Iff.rfl

section Dangling

variable {s : Schema} (hs : s.Built)
include hs

theorem Schema.Built.fullName_ne_empty {m : Message} (hm : m ∈ s.allMessages) :
    m.fullName ≠ "" := by
  obtain ⟨ctx, raw, h⟩ := hs.builtFrom hm
  intro hempty
  have hq := h.qualified
  rw [hempty] at hq
  exact absurd hq (by decide)

/-- What has gone from the resolved files are the messages that go. -/
theorem Schema.Built.goneFrom_iff {n : String} :
    GoneFrom (s.files.map s.resolved) n ↔
      ∃ a ∈ s.topLevel, s.consumes a = true ∧ a.fullName = n := by
  simp only [GoneFrom, List.mem_map, exists_exists_and_eq_and]
  constructor
  · rintro ⟨g, hg, hgone⟩
    obtain ⟨a, ha, h⟩ := ((hs.files g hg).exists_mem_aliases_resolved_iff s n).mp hgone
    exact ⟨a, List.mem_flatMap.mpr ⟨g, hg, ha⟩, h⟩
  · rintro ⟨a, ha, h⟩
    obtain ⟨g, hg, hag⟩ := List.mem_flatMap.mp ha
    exact ⟨g, hg, ((hs.files g hg).exists_mem_aliases_resolved_iff s n).mpr ⟨a, hag, h⟩⟩

/-- Files and descriptors dangle together. -/
theorem Schema.Built.danglingInDescriptors_iff :
    DanglingInDescriptors (s.files.map s.resolved) ↔ Dangling (s.files.map s.resolved) := by
  refine exists_congr fun n => and_congr_right fun hgone => ?_
  obtain ⟨a, ha, -, rfl⟩ := hs.goneFrom_iff.mp hgone
  have hne := hs.fullName_ne_empty (Schema.mem_allMessages_of_mem_topLevel ha)
  simp only [List.mem_map, exists_exists_and_eq_and]
  refine exists_congr fun f => and_congr_right fun hf => ?_
  exact (exists_mem_iff_of_forall₂ (fun x raw hx => hx.names_iff hne)
    (hs.forall₂_families_resolved (hs.files f hf))).symm

/-- The names in a resolved file: those in nested messages have not been touched, the others are
those of resolved fields. -/
theorem Schema.Built.names_resolved_iff {f : File} (hf : f ∈ s.files) {n : String} :
    (∃ x ∈ families (s.resolved f).messages, ∃ field ∈ x.fields, field.Names n) ↔
      ∃ m ∈ f.messages, s.consumes m = false ∧
        ((∃ x ∈ families m.nested, ∃ field ∈ x.fields, field.Names n) ∨
          ∃ field ∈ m.fields, (s.resolveField field).Names n) := by
  obtain ⟨ctx, hmessages⟩ := (hs.files f hf).messages
  constructor
  · rintro ⟨x, hx, field, hfield, hname⟩
    obtain ⟨p, hp, hx⟩ := Schema.mem_families_resolved_iff.mp hx
    obtain ⟨hzip, hstays⟩ := List.mem_filter.mp hp
    refine ⟨p.1, (List.of_mem_zip hzip).1, by simpa using hstays, ?_⟩
    rcases hx with hx | rfl
    · exact Or.inl ⟨x, hx, field, hfield, hname⟩
    · rw [s.resolveMessage_fields] at hfield
      obtain ⟨y, hy, rfl⟩ := List.mem_map.mp hfield
      exact Or.inr ⟨y, hy, Schema.settleField_names_iff.mp hname⟩
  · rintro ⟨m, hm, hstays, hnames⟩
    obtain ⟨raw, hzip⟩ := exists_mem_zip hmessages.length_eq hm
    have hp : (m, raw) ∈ s.kept f := List.mem_filter.mpr ⟨hzip, by simp [hstays]⟩
    rcases hnames with ⟨x, hx, field, hfield, hname⟩ | ⟨y, hy, hname⟩
    · exact ⟨x, Schema.mem_families_resolved_iff.mpr ⟨_, hp, Or.inl hx⟩, field, hfield, hname⟩
    · exact ⟨_, Schema.mem_families_resolved_iff.mpr ⟨_, hp, Or.inr rfl⟩, _,
        s.settleField_mem_resolveMessage m raw hy, Schema.settleField_names_iff.mpr hname⟩

/-- A resolved field refers to a message that goes only if that message is uncovered. -/
theorem Schema.Built.names_resolveField_iff
    (distinct : (s.allMessages.map (·.fullName)).Nodup) (unchained : s.Unchained)
    {m a : Message} (hm : m ∈ s.allMessages) (ha : a ∈ s.allMessages) {field : Field}
    (hfield : field ∈ m.fields) :
    (s.consumes a = true ∧ (s.resolveField field).Names a.fullName) ↔
      (s.uncovers a = true ∧ (field.Names a.fullName ∨
        ∃ t p, s.aliasTarget? field = some (t, p) ∧ p.Names a.fullName)) := by
  have hfound := hs.message?_fullName distinct ha
  rw [Schema.consumes, Bool.or_eq_true]
  constructor
  · rintro ⟨hgoes, hname⟩
    cases ht : s.aliasTarget? field with
    | none =>
        rw [Schema.resolveField, ht] at hname
        refine ⟨hgoes.resolve_left fun herasable => ?_, Or.inl hname⟩
        -- otherwise the field would have been replaced
        obtain ⟨p, hp⟩ := Option.isSome_iff_exists.mp herasable
        have hsome : s.aliasTarget? field = some (a, p) := by
          rw [Schema.aliasTarget?_eq_some_iff]
          refine ⟨hname.1, hs.viaAlias hm hfield, ?_, hp⟩
          rw [hname.2, Option.bind_some, hfound]
        rw [ht] at hsome
        cases hsome
    | some target =>
        rw [Schema.resolveField, ht] at hname
        refine ⟨hgoes.resolve_left fun herasable => ?_, Or.inr ⟨_, _, rfl, hname⟩⟩
        -- otherwise one alias would stand for another
        have hp := (Schema.aliasTarget?_eq_some_iff.mp ht).2.2.2
        have hkept := unchained target.1 (hs.aliasTarget?_mem ht).1 target.2 hp hname.1 a (by
          rw [show target.2.message = some a.fullName from hname.2, Option.bind_some, hfound])
        rw [herasable] at hkept
        cases hkept
  · rintro ⟨huncovers, hnames⟩
    refine ⟨Or.inr huncovers, ?_⟩
    rcases hnames with hname | ⟨t, p, ht, hname⟩
    · have hkept := Schema.not_isErasable_of_uncovers huncovers
      rw [Schema.resolveField, hs.aliasTarget?_eq_none distinct ha hkept hname.2]
      exact hname
    · rw [Schema.resolveField, ht]
      exact hname

/-- Where references dangle, a message that stays names one that goes, either in a message nested
in it or in one of its fields as resolved. -/
theorem Schema.Built.dangling_iff_names :
    Dangling (s.files.map s.resolved) ↔ ∃ m ∈ s.topLevel, s.consumes m = false ∧
      ∃ a ∈ s.topLevel, s.consumes a = true ∧
        ((∃ x ∈ families m.nested, ∃ field ∈ x.fields, field.Names a.fullName) ∨
          ∃ field ∈ m.fields, (s.resolveField field).Names a.fullName) := by
  constructor
  · rintro ⟨n, hgone, f', hf', hnames⟩
    obtain ⟨a, ha, hgoes, rfl⟩ := hs.goneFrom_iff.mp hgone
    obtain ⟨f, hf, rfl⟩ := List.mem_map.mp hf'
    obtain ⟨m, hmf, hstays, hnames⟩ := (hs.names_resolved_iff hf).mp hnames
    exact ⟨m, List.mem_flatMap.mpr ⟨f, hf, hmf⟩, hstays, a, ha, hgoes, hnames⟩
  · rintro ⟨m, hm, hstays, a, ha, hgoes, hnames⟩
    obtain ⟨f, hf, hmf⟩ := List.mem_flatMap.mp hm
    exact ⟨a.fullName, hs.goneFrom_iff.mpr ⟨a, ha, hgoes, rfl⟩, _, List.mem_map_of_mem hf,
      (hs.names_resolved_iff hf).mpr ⟨m, hmf, hstays, hnames⟩⟩

theorem Schema.Built.dangling_iff (distinct : (s.allMessages.map (·.fullName)).Nodup)
    (unchained : s.Unchained) :
    Dangling (s.files.map s.resolved) ↔ s.LeavesNested ∨ s.LeavesUncovered := by
  have hfield : ∀ {m a field}, m ∈ s.topLevel → a ∈ s.topLevel → field ∈ m.fields →
      ((s.consumes a = true ∧ (s.resolveField field).Names a.fullName) ↔
        (s.uncovers a = true ∧ (field.Names a.fullName ∨
          ∃ t p, s.aliasTarget? field = some (t, p) ∧ p.Names a.fullName))) :=
    fun hm ha hfield => hs.names_resolveField_iff distinct unchained
      (Schema.mem_allMessages_of_mem_topLevel hm) (Schema.mem_allMessages_of_mem_topLevel ha)
      hfield
  rw [hs.dangling_iff_names]
  constructor
  · rintro ⟨m, hm, hstays, a, ha, hgoes, hnames⟩
    rcases hnames with ⟨x, hx, field, hmem, hname⟩ | ⟨field, hmem, hname⟩
    · exact Or.inl ⟨m, hm, hstays, x, hx, field, hmem, a, ha, hgoes, hname⟩
    · have hleft := (hfield hm ha hmem).mp ⟨hgoes, hname⟩
      exact Or.inr ⟨m, hm, hstays, field, hmem, a, ha, hleft⟩
  · rintro (⟨m, hm, hstays, x, hx, field, hmem, a, ha, hgoes, hname⟩ |
      ⟨m, hm, hstays, field, hmem, a, ha, hleft⟩)
    · exact ⟨m, hm, hstays, a, ha, hgoes, Or.inl ⟨x, hx, field, hmem, hname⟩⟩
    · obtain ⟨hgoes, hname⟩ := (hfield hm ha hmem).mpr hleft
      exact ⟨m, hm, hstays, a, ha, hgoes, Or.inr ⟨field, hmem, hname⟩⟩

end Dangling

/-- **When references dangle.** Given distinct names and no alias that stands for another, all
files of a schema made of descriptors resolve, and a reference to a message that has gone is left,
in the files and likewise in their descriptors, exactly if a nested message or a field that refers
to an uncovered message leaves one. -/
theorem dangling_iff_leavesReference (marker : String) (generate : List String)
    (protos : List FileProto)
    (distinct : ((Schema.ofProtos marker generate protos).allMessages.map (·.fullName)).Nodup)
    (unchained : (Schema.ofProtos marker generate protos).Unchained) :
    ∃ resolved, List.Forall₂
        (fun f f' => (Schema.ofProtos marker generate protos).resolve f = .ok f')
        (Schema.ofProtos marker generate protos).files resolved ∧
      (Dangling resolved ↔ (Schema.ofProtos marker generate protos).LeavesNested ∨
        (Schema.ofProtos marker generate protos).LeavesUncovered) ∧
      (DanglingInDescriptors resolved ↔ (Schema.ofProtos marker generate protos).LeavesNested ∨
        (Schema.ofProtos marker generate protos).LeavesUncovered) := by
  have hs := Schema.built_ofProtos marker generate protos
  refine ⟨_, ?_, hs.dangling_iff distinct unchained, ?_⟩
  · rw [List.forall₂_map_right_iff, List.forall₂_same]
    exact fun f hf => (hs.files f hf).resolve_eq_ok _
  · rw [hs.danglingInDescriptors_iff]
    exact hs.dangling_iff distinct unchained

/-- A file with an alias, `Id`, to which `Invoice` refers itself and in a message nested in it. -/
def invoicesProto : FileProto where
  name := some "invoices.proto"
  package := some "shop"
  syntaxName := some "proto3"
  messageType :=
    [{ name := some "Id"
       field := [{ name := some "value", number := some 1, label := some 1, type := some 3 }] },
     { name := some "Invoice"
       field := [{ name := some "id", number := some 1, label := some 1, type := some 11
                   typeName := some ".shop.Id" }]
       nestedType :=
        [{ name := some "Line"
           field := [{ name := some "item", number := some 1, label := some 1, type := some 11
                       typeName := some ".shop.Id" }] }] }]
  sourceCodeInfo := some
    { location := [{ path := [4, 0], leadingComments := some " protobuf:alias\n" }] }

/-- The schema of `invoicesProto`. -/
def invoicesSchema : Schema := Schema.ofProto invoicesProto

theorem invoicesSchema_built : invoicesSchema.Built := Schema.built_ofProto _

theorem invoicesSchema_files :
    invoicesSchema.files = [buildFile defaultMarker true invoicesProto] := Schema.files_ofProto _

theorem invoicesSchema_names :
    invoicesSchema.allMessages.map (·.fullName) =
      [".shop.Id", ".shop.Invoice.Line", ".shop.Invoice"] := by
  rw [Schema.allMessages, invoicesSchema_files]
  rfl

theorem invoicesSchema_distinct : (invoicesSchema.allMessages.map (·.fullName)).Nodup := by
  rw [invoicesSchema_names]
  decide

theorem invoicesSchema_unchained : invoicesSchema.Unchained := by
  refine Schema.unchained_of_scalar ?_
  rw [Schema.allMessages, invoicesSchema_files]
  rfl

theorem dangling_iff_leavesReference_invoices :
    (invoicesSchema.allMessages.map (·.fullName)).Nodup ∧ invoicesSchema.Unchained ∧
      ∃ resolved, List.Forall₂ (fun f f' => invoicesSchema.resolve f = .ok f')
          invoicesSchema.files resolved ∧
        (Dangling resolved ↔ invoicesSchema.LeavesNested ∨ invoicesSchema.LeavesUncovered) ∧
        (DanglingInDescriptors resolved ↔
          invoicesSchema.LeavesNested ∨ invoicesSchema.LeavesUncovered) :=
  ⟨invoicesSchema_distinct, invoicesSchema_unchained,
    dangling_iff_leavesReference _ _ _ invoicesSchema_distinct invoicesSchema_unchained⟩

/-- The field of `Invoice.Line` refers to `Id`, which goes. -/
theorem invoicesSchema_leavesNested : invoicesSchema.LeavesNested := by
  have htop : invoicesSchema.topLevel = (buildFile defaultMarker true invoicesProto).messages := by
    rw [Schema.topLevel, invoicesSchema_files]
    exact List.append_nil _
  rw [Schema.LeavesNested, htop]
  exact ⟨_, List.mem_of_getElem? (i := 1) rfl, rfl, _, List.mem_of_getElem? (i := 0) rfl,
    _, List.mem_of_getElem? (i := 0) rfl, _, List.mem_of_getElem? (i := 0) rfl, rfl, rfl, rfl⟩

/-- **References do dangle**: names are distinct, every field of message kind names a message of
the schema, no alias stands for another, and yet a reference to a message that has gone is left
once everything is resolved. -/
theorem dangling_invoices :
    (invoicesSchema.allMessages.map (·.fullName)).Nodup ∧
      (∀ m ∈ invoicesSchema.allMessages, ∀ x ∈ m.fields, x.kind = .message →
        ∃ n ∈ invoicesSchema.allMessages.map (·.fullName), x.message = some n) ∧
      invoicesSchema.Unchained ∧
      ∃ resolved, List.Forall₂ (fun f f' => invoicesSchema.resolve f = .ok f')
          invoicesSchema.files resolved ∧ Dangling resolved ∧ DanglingInDescriptors resolved := by
  have hdangling := (invoicesSchema_built.dangling_iff invoicesSchema_distinct
    invoicesSchema_unchained).mpr (Or.inl invoicesSchema_leavesNested)
  refine ⟨invoicesSchema_distinct, ?_, invoicesSchema_unchained, _, ?_, hdangling,
    invoicesSchema_built.danglingInDescriptors_iff.mpr hdangling⟩
  · have hnamed : invoicesSchema.allMessages.all (fun m => m.fields.all fun x =>
        x.kind != .message || x.message == some ".shop.Id") = true := by
      rw [Schema.allMessages, invoicesSchema_files]
      rfl
    intro m hm x hx hkind
    have hname := List.all_eq_true.mp (List.all_eq_true.mp hnamed m hm) x hx
    rw [invoicesSchema_names]
    exact ⟨".shop.Id", by simp, by simpa [hkind] using hname⟩
  · rw [List.forall₂_map_right_iff, List.forall₂_same]
    exact fun f hf => (invoicesSchema_built.files f hf).resolve_eq_ok _

end AliasErasure
