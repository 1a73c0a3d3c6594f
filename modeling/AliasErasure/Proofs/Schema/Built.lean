import AliasErasure.Proofs.Schema.Mirror

set_option autoImplicit false

/-! # Schemas made of descriptors

In a schema that was made of descriptors every message, at whatever depth it stands, was read from
the descriptor at the same place (`File.IsBuilt.families`). Hence its qualified name starts with a
dot, and its fields are well named and have not come through an alias.
-/

namespace AliasErasure

open Descriptor (FieldProto FileProto MessageProto)

/-! ## Families of descriptors -/

mutual

/-- A descriptor with all descriptors nested in it, in the order of `Message.family`. -/
def Descriptor.MessageProto.family : MessageProto → List MessageProto
  | m@{ nestedType := nested, .. } => Descriptor.families nested ++ [m]

/-- The families of some descriptors, one after the other. -/
def Descriptor.families : List MessageProto → List MessageProto
  | [] => []
  | m :: rest => m.family ++ Descriptor.families rest

end

/-- What holds of a descriptor as soon as it holds of those nested in it holds of all. -/
@[elab_as_elim]
theorem Descriptor.MessageProto.nestedInduction {P : MessageProto → Prop}
    (step : ∀ m : MessageProto, (∀ x ∈ m.nestedType, P x) → P m) (m : MessageProto) : P m := by
  induction m using MessageProto.rec (motive_2 := fun ms => ∀ x ∈ ms, P x) with
  | mk _ _ _ _ _ _ _ _ _ _ ih => exact step _ ih
  | nil => cases ‹_ ∈ []›
  | cons m rest ihm ihrest x hx =>
      rcases List.mem_cons.mp hx with rfl | hx'
      · exact ihm
      · exact ihrest x hx'

theorem Descriptor.MessageProto.family_eq (m : MessageProto) :
    m.family = Descriptor.families m.nestedType ++ [m] := by
  cases m; rfl

/-! ## Qualified names -/

/-- A scope that names can be qualified in: the outermost one, or one that starts with a dot. -/
def Rooted (scope : String) : Prop := scope = "" ∨ scope.toList.head? = some '.'

theorem head?_qualified {scope : String} (h : Rooted scope) (name : String) :
    (scope ++ "." ++ name).toList.head? = some '.' := by
  rcases h with rfl | h
  · simp
  · simp [List.head?_append, h]

theorem Rooted.inner {scope : String} (h : Rooted scope) (name : String) :
    Rooted (scope ++ "." ++ name) :=
  Or.inr (head?_qualified h name)

theorem rooted_packageScope (package : String) : Rooted (packageScope package) := by
  rw [packageScope]
  split
  · exact Or.inl rfl
  · exact Or.inr (by simp)

/-! ## Messages at every depth -/

/-- The message `m` was read from the descriptor `raw`. -/
def Message.BuiltFrom (ctx : FileContext) (m : Message) (raw : MessageProto) : Prop :=
  ∃ scope path, Rooted scope ∧ m = buildMessage ctx scope path raw

/-- The nested messages of a model are those of the descriptor, provided the family of each one
is. -/
theorem forall₂_buildNested (ctx : FileContext) (raws : List MessageProto)
    (each : ∀ raw ∈ raws, ∀ scope path, Rooted scope →
      List.Forall₂ (Message.BuiltFrom ctx) (buildMessage ctx scope path raw).family raw.family)
    {scope : String} (hscope : Rooted scope) (path : List Int32) :
    ∀ i, List.Forall₂ (Message.BuiltFrom ctx) (families (buildNested ctx scope path i raws))
      (Descriptor.families raws) := by
  induction raws with
  | nil => intro i; exact List.Forall₂.nil
  | cons raw rest ih =>
      -- positions only change the path, on which families do not depend
      intro i
      exact List.rel_append (each raw (by simp) scope (path ++ nestedStep i) hscope)
        (ih (fun r hr => each r (by simp [hr])) (i + 1))

theorem forall₂_family_buildMessage (ctx : FileContext) (raw : MessageProto) :
    ∀ scope path, Rooted scope →
      List.Forall₂ (Message.BuiltFrom ctx) (buildMessage ctx scope path raw).family
        raw.family := by
  induction raw using MessageProto.nestedInduction with
  | step raw ih =>
      intro scope path hscope
      have hnested := forall₂_buildNested ctx raw.nestedType ih (hscope.inner (raw.name.getD ""))
        path 0
      have hself : Message.BuiltFrom ctx (buildMessage ctx scope path raw) raw :=
        ⟨scope, path, hscope, rfl⟩
      rw [Message.family_eq, MessageProto.family_eq]
      refine List.rel_append ?_ (List.Forall₂.cons hself List.Forall₂.nil)
      rw [buildMessage_eq]
      exact hnested

theorem forall₂_families {ctx : FileContext} {ms : List Message} {raws : List MessageProto}
    (h : List.Forall₂ (Message.BuiltFrom ctx) ms raws) :
    List.Forall₂ (Message.BuiltFrom ctx) (families ms) (Descriptor.families raws) := by
  induction h with
  | nil => exact List.Forall₂.nil
  | cons hm _ ih =>
      obtain ⟨scope, path, hscope, rfl⟩ := hm
      exact List.rel_append (forall₂_family_buildMessage ctx _ scope path hscope) ih

section BuiltFrom

variable {ctx : FileContext} {m : Message} {raw : MessageProto}

theorem Message.BuiltFrom.mirrors (h : m.BuiltFrom ctx raw) : m.Mirrors raw := by
  obtain ⟨scope, path, -, rfl⟩ := h
  exact buildMessage_mirrors ctx scope path raw

theorem Message.BuiltFrom.mirrorsOneofs (h : m.BuiltFrom ctx raw) : m.MirrorsOneofs raw := by
  obtain ⟨scope, path, -, rfl⟩ := h
  exact buildMessage_mirrorsOneofs ctx scope path raw

theorem Message.BuiltFrom.qualified (h : m.BuiltFrom ctx raw) :
    Schema.qualified m.fullName = m.fullName := by
  obtain ⟨scope, path, hscope, rfl⟩ := h
  have hname : (buildMessage ctx scope path raw).fullName = scope ++ "." ++ raw.name.getD "" := by
    rw [buildMessage_eq]
  rw [hname, Schema.qualified, if_pos (head?_qualified hscope _)]

theorem Message.BuiltFrom.wellNamed (h : m.BuiltFrom ctx raw) {f : Field} (hf : f ∈ m.fields) :
    f.WellNamed := by
  obtain ⟨scope, path, -, rfl⟩ := h
  obtain ⟨p, r, -, rfl⟩ := mem_fields_buildMessage ctx scope path raw hf
  exact buildField_wellNamed ctx p r

theorem Message.BuiltFrom.viaAlias (h : m.BuiltFrom ctx raw) {f : Field} (hf : f ∈ m.fields) :
    f.viaAlias = none := by
  obtain ⟨scope, path, -, rfl⟩ := h
  obtain ⟨p, r, -, rfl⟩ := mem_fields_buildMessage ctx scope path raw hf
  rfl

end BuiltFrom

/-! ## Files and schemas -/

/-- A file whose model was made of its descriptor. -/
def File.IsBuilt (f : File) : Prop := ∃ marker generate, f = buildFile marker generate f.proto

theorem buildFile_messages_builtFrom (marker : String) (generate : Bool) (proto : FileProto) :
    List.Forall₂ (Message.BuiltFrom (contextOf marker proto))
      (buildFile marker generate proto).messages proto.messageType :=
  forall₂_mapIdx _ fun _ _ => ⟨_, _, rooted_packageScope _, rfl⟩

/-- Messages and descriptors of a file are read in the dialect of the file. -/
theorem File.IsBuilt.messages_dialect {f : File} (h : f.IsBuilt) :
    ∃ ctx, ctx.dialect = f.dialect ∧
      List.Forall₂ (Message.BuiltFrom ctx) f.messages f.proto.messageType := by
  obtain ⟨marker, generate, hf⟩ := h
  refine ⟨contextOf marker f.proto, ?_, ?_⟩
  · rw [hf]
    rfl
  · conv => arg 2; rw [hf]
    exact buildFile_messages_builtFrom marker generate f.proto

theorem File.IsBuilt.messages {f : File} (h : f.IsBuilt) :
    ∃ ctx, List.Forall₂ (Message.BuiltFrom ctx) f.messages f.proto.messageType := by
  obtain ⟨ctx, -, hmessages⟩ := h.messages_dialect
  exact ⟨ctx, hmessages⟩

theorem File.IsBuilt.aliases {f : File} (h : f.IsBuilt) : f.aliases = [] := by
  obtain ⟨marker, generate, hf⟩ := h
  rw [hf]
  rfl

theorem File.IsBuilt.families {f : File} (h : f.IsBuilt) :
    ∃ ctx, List.Forall₂ (Message.BuiltFrom ctx) (families f.messages)
      (Descriptor.families f.proto.messageType) := by
  obtain ⟨ctx, hmessages⟩ := h.messages
  exact ⟨ctx, forall₂_families hmessages⟩

/-- A schema made of descriptors. -/
structure Schema.Built (s : Schema) : Prop where
  indexed : s.Indexed
  files : ∀ f ∈ s.files, f.IsBuilt

theorem Schema.built_ofProtos (marker : String) (generate : List String)
    (protos : List FileProto) : (Schema.ofProtos marker generate protos).Built := by
  refine ⟨Schema.indexed_ofProtos marker generate protos, fun f hf => ?_⟩
  obtain ⟨proto, -, rfl⟩ := List.mem_map.mp hf
  exact ⟨marker, _, rfl⟩

section Schema

variable {s : Schema} (hs : s.Built)
include hs

theorem Schema.Built.builtFrom {m : Message} (hm : m ∈ s.allMessages) :
    ∃ ctx raw, m.BuiltFrom ctx raw := by
  obtain ⟨f, hf, hmf⟩ := List.mem_flatMap.mp hm
  obtain ⟨ctx, hfamilies⟩ := (hs.files f hf).families
  obtain ⟨raw, -, h⟩ := exists_rel_of_mem_left hfamilies hmf
  exact ⟨ctx, raw, h⟩

theorem Schema.Built.message?_fullName (distinct : (s.allMessages.map (·.fullName)).Nodup)
    {m : Message} (hm : m ∈ s.allMessages) : s.message? m.fullName = some m := by
  obtain ⟨ctx, raw, h⟩ := hs.builtFrom hm
  exact Schema.message?_fullName hs.indexed distinct hm h.qualified

theorem Schema.Built.fullName_of_message? {n : String} {m : Message}
    (h : s.message? n = some m) : m ∈ s.allMessages ∧ m.fullName = Schema.qualified n :=
  Schema.mem_allMessages_of_message? hs.indexed h

/-- **Where names are distinct, looking up is searching.** -/
theorem Schema.Built.message?_eq_some_iff (distinct : (s.allMessages.map (·.fullName)).Nodup)
    {n : String} {m : Message} :
    s.message? n = some m ↔ m ∈ s.allMessages ∧ m.fullName = Schema.qualified n := by
  refine ⟨hs.fullName_of_message?, ?_⟩
  rintro ⟨hm, hname⟩
  have hself := hs.message?_fullName distinct hm
  rwa [hname, Schema.message?_qualified] at hself

theorem Schema.Built.wellNamed {m : Message} (hm : m ∈ s.allMessages) {f : Field}
    (hf : f ∈ m.fields) : f.WellNamed := by
  obtain ⟨ctx, raw, h⟩ := hs.builtFrom hm
  exact h.wellNamed hf

theorem Schema.Built.viaAlias {m : Message} (hm : m ∈ s.allMessages) {f : Field}
    (hf : f ∈ m.fields) : f.viaAlias = none := by
  obtain ⟨ctx, raw, h⟩ := hs.builtFrom hm
  exact h.viaAlias hf

end Schema

/-! ## Schemas of one file -/

/-- The schema of a single file, which is generated, with the usual marker. -/
def Schema.ofProto (proto : FileProto) : Schema :=
  Schema.ofProtos defaultMarker [proto.name.getD ""] [proto]

theorem Schema.files_ofProto (proto : FileProto) :
    (Schema.ofProto proto).files = [buildFile defaultMarker true proto] := by
  simp [Schema.ofProto, Schema.ofProtos, Schema.ofFiles]

theorem Schema.built_ofProto (proto : FileProto) : (Schema.ofProto proto).Built :=
  Schema.built_ofProtos _ _ _

end AliasErasure
