import AliasErasure.Erasure.Report
import AliasErasure.Proofs.Erasure.References
import AliasErasure.Proofs.Erasure.Settled

set_option autoImplicit false

/-! # Resolving again from descriptors

The descriptors of resolved files are descriptors like any others, and a schema can be made of
them. Nothing is left to be done in it (`resolve_reread`): its files resolve to themselves.

That a field has come through an alias is forgotten on the way, so it is not for this reason that
the field is left alone the second time, as it was in `resolve_resolve`. Instead, what can be
erased the second time could be erased the first time
(`Schema.Built.mem_families_of_isErasable_reread`), and is nested in another message
(`Schema.Built.isErasable_reread`). For if an alias has gone from a file, so have all comments and
with them the markers; and if none has, all messages stand at their old places. So a field that
refers to an alias now must have done so before, and would have been replaced; or it has taken
over a payload that does, and then one alias stands for another.
-/

namespace AliasErasure

open Descriptor (FieldProto FileProto MessageProto)

/-! ## Messages without markers -/

theorem hasMarker_empty (marker : String) : hasMarker marker "" = false := by
  by_cases h : marker = ""
  · simp [hasMarker, h]
  · simp [hasMarker, h, Text.occursIn]

/-- Without source locations no message is marked, so none can be erased. -/
theorem Message.BuiltFrom.isErasable_eq_false {ctx : FileContext} {m : Message}
    {raw : MessageProto} (h : m.BuiltFrom ctx raw) (hctx : ctx.locations = []) :
    m.isErasable = false := by
  have hmarked : m.marked = false := by
    obtain ⟨scope, path, -, rfl⟩ := h
    rw [buildMessage_eq]
    show hasMarker ctx.marker (commentsAt ctx.locations path).leading = false
    rw [hctx]
    exact hasMarker_empty ctx.marker
  rw [Bool.eq_false_iff]
  intro herasable
  obtain ⟨p, hp, -⟩ := Message.isErasable_iff.mp herasable
  have hmarker := (Message.payload?_eq_some_iff.mp hp).1
  rw [hmarked] at hmarker
  cases hmarker

/-! ## One message -/

/-- Whether a message can be erased depends on its name, its marker and the types of its
fields. -/
theorem Message.isErasable_congr {m m' : Message} (hname : m.fullName = m'.fullName)
    (hmarked : m.marked = m'.marked)
    (hfields : List.Forall₂ Field.Agrees m.fields m'.fields) : m.isErasable = m'.isErasable := by
  rw [Message.isErasable, Message.isErasable, Message.erasablePayload?, Message.erasablePayload?,
    Message.payload?, Message.payload?, hmarked]
  generalize m.fields = xs at hfields ⊢
  generalize m'.fields = ys at hfields ⊢
  cases m'.marked with
  | false => rfl
  | true =>
      cases hfields with
      | nil => rfl
      | cons hxy hrest =>
          cases hrest with
          | nil =>
              simp only [if_true, Message.declares_congr hname hxy.typeName?]
              split <;> rfl
          | cons _ _ => rfl

section BuildMessage

variable {s : Schema} (ctx : FileContext) (scope : String) (path : List Int32)

/-- Reading a descriptor gives the fields of a message that mirrors it. -/
theorem Message.Mirrors.agrees_buildMessage {m : Message} {raw : MessageProto}
    (h : m.Mirrors raw) :
    List.Forall₂ Field.Agrees (buildMessage ctx scope path raw).fields m.fields := by
  rw [buildMessage_eq, List.forall₂_iff_get]
  refine ⟨by simp [h.fields.length_eq], fun i hi hi' => ?_⟩
  have hraw : i < raw.field.length := h.fields.length_eq ▸ hi'
  have hfield := (List.forall₂_iff_get.mp h.fields).2 i hi' hraw
  simp only [List.get_eq_getElem, List.getElem_mapIdx]
  exact hfield ctx _

/-- At one place, a resolved descriptor is read as the one before is, up to fields and oneofs. -/
theorem buildMessage_resolveMessage (m : Message) (raw : MessageProto) :
    buildMessage ctx scope path (s.resolveMessage m raw).2 =
      { buildMessage ctx scope path raw with
        fields := (buildMessage ctx scope path (s.resolveMessage m raw).2).fields
        oneofs := (buildMessage ctx scope path (s.resolveMessage m raw).2).oneofs } := by
  rw [buildMessage_eq, buildMessage_eq, s.resolveMessage_frame_raw]

/-- A resolved message can be erased exactly if it can be when its descriptor is read again at
the same place. -/
theorem Schema.Built.isErasable_buildMessage (hs : s.Built) {m : Message} {raw : MessageProto}
    (hm : m = buildMessage ctx scope path raw) :
    (buildMessage ctx scope path (s.resolveMessage m raw).2).isErasable
      = (s.resolveMessage m raw).1.isErasable := by
  have hmirrors : (s.resolveMessage m raw).1.Mirrors (s.resolveMessage m raw).2 :=
    hs.resolveMessage_mirrors (hm ▸ buildMessage_mirrors ctx scope path raw)
  refine Message.isErasable_congr ?_ ?_ (hmirrors.agrees_buildMessage ctx scope path)
  · rw [buildMessage_resolveMessage, s.resolveMessage_frame, hm]
  · rw [buildMessage_resolveMessage, s.resolveMessage_frame, hm]

end BuildMessage

/-! ## One file -/

section Reread

variable {s : Schema} {f : File} {marker : String} {generate again : Bool}

/-- If an alias goes, all source locations do. -/
theorem Schema.locations_resolved (h : s.gone f ≠ []) :
    (contextOf marker (s.resolved f).proto).locations = [] := by
  simp [contextOf, Schema.resolved, h]

/-- If none does, the file is read again as it was before. -/
theorem Schema.contextOf_resolved (h : s.gone f = []) :
    contextOf marker (s.resolved f).proto = contextOf marker f.proto := by
  simp [contextOf, Schema.resolved, h]

/-- A message that is read again is one that stays. If all stay, it is at the same place. -/
theorem Schema.mem_messages_reread (hf : f = buildFile marker generate f.proto) {x : Message}
    (hx : x ∈ (buildFile marker again (s.resolved f).proto).messages) :
    ∃ p ∈ s.kept f, ∃ scope path,
      x = buildMessage (contextOf marker (s.resolved f).proto) scope path
        (s.resolveMessage p.1 p.2).2 ∧
      (s.gone f = [] →
        p.1 = buildMessage (contextOf marker (s.resolved f).proto) scope path p.2) := by
  obtain ⟨i, hi, rfl⟩ := List.mem_mapIdx.mp hx
  have hi' : i < (s.kept f).length := by simpa [Schema.resolved] using hi
  refine ⟨(s.kept f)[i], List.getElem_mem hi', packageScope (f.proto.package.getD ""),
    messageStep i, ?_, fun hgone => ?_⟩
  · simp [Schema.resolved]
  · rw [Schema.contextOf_resolved hgone]
    have hmessages : f.messages = f.proto.messageType.mapIdx fun i m =>
        buildMessage (contextOf marker f.proto) (packageScope (f.proto.package.getD ""))
          (messageStep i) m := by
      conv_lhs => rw [hf]
      rfl
    simp only [Schema.kept_eq_zip hgone, List.getElem_zip, hmessages, List.getElem_mapIdx]

/-- If an alias goes from a file, the file has none any more, at whatever depth, when it is read
again. -/
theorem Schema.isErasable_of_gone (h : s.gone f ≠ []) {u : Message}
    (hu : u ∈ families (buildFile marker again (s.resolved f).proto).messages) :
    u.isErasable = false := by
  obtain ⟨raw, -, hraw⟩ :=
    exists_rel_of_mem_left (forall₂_families (buildFile_messages_builtFrom _ _ _)) hu
  exact hraw.isErasable_eq_false (Schema.locations_resolved h)

/-- **No message of a resolved file can be erased** when it is read again. -/
theorem Schema.Built.isErasable_reread (hs : s.Built)
    (hf : f = buildFile marker generate f.proto) {x : Message}
    (hx : x ∈ (buildFile marker again (s.resolved f).proto).messages) : x.isErasable = false := by
  by_cases hgone : s.gone f = []
  · obtain ⟨p, hp, scope, path, rfl, hplace⟩ := Schema.mem_messages_reread hf hx
    rw [hs.isErasable_buildMessage _ scope path (hplace hgone)]
    exact Schema.isErasable_of_mem_kept hp
  · exact Schema.isErasable_of_gone hgone (mem_families.mpr ⟨x, hx, x.self_mem_family⟩)

/-- **What can be erased when a resolved file is read again was in the file before.** -/
theorem Schema.Built.mem_families_of_isErasable_reread (hs : s.Built)
    (hf : f = buildFile marker generate f.proto) {u : Message}
    (hu : u ∈ families (buildFile marker again (s.resolved f).proto).messages)
    (herasable : u.isErasable = true) : u ∈ families f.messages := by
  by_cases hgone : s.gone f = []
  · obtain ⟨x, hx, hux⟩ := mem_families.mp hu
    rw [Message.family_eq, List.mem_append, List.mem_singleton] at hux
    rcases hux with hux | rfl
    · -- messages nested in one that stays are read as before
      obtain ⟨p, hp, scope, path, rfl, hplace⟩ := Schema.mem_messages_reread hf hx
      rw [buildMessage_resolveMessage, ← hplace hgone] at hux
      have hp' : p.1 ∈ f.messages := (List.of_mem_zip (List.mem_filter.mp hp).1).1
      rw [mem_families]
      exact ⟨p.1, hp', by rw [Message.family_eq]; exact List.mem_append_left _ hux⟩
    · rw [hs.isErasable_reread hf hx] at herasable
      cases herasable
  · rw [Schema.isErasable_of_gone hgone hu] at herasable
    cases herasable

/-- The fields that are read again are those of messages that stay, settled. -/
theorem Schema.Built.exists_agrees_of_mem_reread (hs : s.Built)
    (hf : f = buildFile marker generate f.proto) {x : Message}
    (hx : x ∈ (buildFile marker again (s.resolved f).proto).messages) {y' : Field}
    (hy' : y' ∈ x.fields) : ∃ m ∈ f.messages, ∃ y ∈ m.fields, y'.Agrees (s.settleField m y) := by
  obtain ⟨p, hp, scope, path, rfl, -⟩ := Schema.mem_messages_reread hf hx
  have hbuilt : f.IsBuilt := ⟨marker, generate, hf⟩
  obtain ⟨ctx, hfrom⟩ := hbuilt.builtFrom_of_mem_kept hp
  have hfields := (hs.resolveMessage_mirrors hfrom.mirrors).agrees_buildMessage
    (contextOf marker (s.resolved f).proto) scope path
  rw [s.resolveMessage_fields, List.forall₂_map_right_iff] at hfields
  obtain ⟨y, hy, hagrees⟩ := exists_rel_of_mem_left hfields hy'
  exact ⟨p.1, (List.of_mem_zip (List.mem_filter.mp hp).1).1, y, hy, hagrees⟩

end Reread

/-! ## Schemas -/

/-- The files of a schema resolve, in order, to `resolved`. -/
def Schema.ResolvesTo (s : Schema) (resolved : List File) : Prop :=
  List.Forall₂ (fun f f' => s.resolve f = .ok f') s.files resolved

/-- The schema of the descriptors of some files. -/
def reread (marker : String) (generate : List String) (files : List File) : Schema :=
  Schema.ofProtos marker generate (files.map (·.proto))

theorem Schema.Built.resolvesTo {s : Schema} (hs : s.Built) :
    s.ResolvesTo (s.files.map s.resolved) := by
  rw [Schema.ResolvesTo, List.forall₂_map_right_iff, List.forall₂_same]
  exact fun f hf => (hs.files f hf).resolve_eq_ok s

/-- A file that is read again is made of the descriptor of a resolved one. -/
theorem mem_files_reread {s : Schema} {marker : String} {again : List String} {f' : File}
    (hf' : f' ∈ (reread marker again (s.files.map s.resolved)).files) :
    ∃ f ∈ s.files, ∃ generate, f' = buildFile marker generate (s.resolved f).proto := by
  obtain ⟨proto, hproto, rfl⟩ := List.mem_map.mp hf'
  rw [List.map_map] at hproto
  obtain ⟨f, hf, rfl⟩ := List.mem_map.mp hproto
  exact ⟨f, hf, _, rfl⟩

theorem map_proto_files_ofProtos (marker : String) (generate : List String)
    (protos : List FileProto) :
    (Schema.ofProtos marker generate protos).files.map (·.proto) = protos := by
  show (protos.map _).map _ = protos
  rw [List.map_map]
  exact List.map_id' protos

/-- The fields of a settled file are not resolved any further. -/
theorem Schema.Settled.resolvedCount_eq_zero {s : Schema} {f : File} (h : s.Settled f) :
    s.resolvedCount f = 0 := by
  have key : ∀ ms : List Message, (∀ m ∈ ms, m ∈ f.messages) →
      ms.foldl (fun count m => count + m.fields.countP s.refersToAlias) 0 = 0 := by
    intro ms
    induction ms with
    | nil => intro _; rfl
    | cons m rest ih =>
        intro hms
        have hnone : m.fields.countP s.refersToAlias = 0 := by
          rw [List.countP_eq_zero]
          intro x hx
          simp [h.untouched m (hms m (by simp)) x hx]
        rw [List.foldl_cons, hnone]
        exact ih fun m' hm' => hms m' (by simp [hm'])
  exact key _ fun m hm => (List.mem_filter.mp hm).1

/-- All files of a schema were made of their descriptors with the same marker. -/
def Schema.BuiltWith (s : Schema) (marker : String) : Prop :=
  ∀ f ∈ s.files, ∃ generate, f = buildFile marker generate f.proto

theorem Schema.builtWith_ofProtos (marker : String) (generate : List String)
    (protos : List FileProto) : (Schema.ofProtos marker generate protos).BuiltWith marker := by
  intro f hf
  obtain ⟨proto, -, rfl⟩ := List.mem_map.mp hf
  exact ⟨_, rfl⟩

section Schema

variable {s : Schema} {marker : String} (again : List String) (hs : s.Built)
  (hmarker : s.BuiltWith marker)
include hs hmarker

/-- **An alias of the second schema is one of the first**, and is found by the same name. -/
theorem Schema.Built.message?_of_message?_reread
    (distinct : (s.allMessages.map (·.fullName)).Nodup) {n : String} {u : Message}
    (h : (reread marker again (s.files.map s.resolved)).message? n = some u)
    (herasable : u.isErasable = true) : s.message? n = some u := by
  obtain ⟨hu, hname⟩ := (Schema.built_ofProtos _ _ _).fullName_of_message? h
  obtain ⟨f', hf', huf⟩ := List.mem_flatMap.mp hu
  obtain ⟨f, hf, _, rfl⟩ := mem_files_reread hf'
  obtain ⟨_, hself⟩ := hmarker f hf
  rw [hs.message?_eq_some_iff distinct]
  exact ⟨List.mem_flatMap.mpr ⟨f, hf, hs.mem_families_of_isErasable_reread hself huf herasable⟩,
    hname⟩

/-- No field of a message that is read again refers to an alias. -/
theorem Schema.Built.aliasTarget?_reread (distinct : (s.allMessages.map (·.fullName)).Nodup)
    (unchained : s.Unchained) {f' : File}
    (hf' : f' ∈ (reread marker again (s.files.map s.resolved)).files) {x : Message}
    (hx : x ∈ f'.messages) {y' : Field} (hy' : y' ∈ x.fields) :
    (reread marker again (s.files.map s.resolved)).aliasTarget? y' = none := by
  obtain ⟨f, hf, _, rfl⟩ := mem_files_reread hf'
  obtain ⟨_, hself⟩ := hmarker f hf
  obtain ⟨m, hm, y, hy, hagrees⟩ := hs.exists_agrees_of_mem_reread hself hx hy'
  rw [Option.eq_none_iff_forall_ne_some]
  rintro ⟨u, q⟩ h
  obtain ⟨hkind, -, hu, hq⟩ := Schema.aliasTarget?_eq_some_iff.mp h
  have herasable : u.isErasable = true := Option.isSome_iff_exists.mpr ⟨q, hq⟩
  obtain ⟨n, hn, hfound⟩ := Option.bind_eq_some_iff.mp hu
  have hfirst := hs.message?_of_message?_reread again hmarker distinct hfound herasable
  rw [hagrees.kind] at hkind
  rw [hagrees.message] at hn
  cases ht : s.aliasTarget? y with
  | some target =>
      -- the field has taken over a payload, and payloads do not name aliases
      rw [Schema.settleField_of_alias m ht] at hkind hn
      have hp := (Schema.aliasTarget?_eq_some_iff.mp ht).2.2.2
      have hnot := unchained target.1 (hs.aliasTarget?_mem ht).1 target.2 hp hkind u (by
        rw [show target.2.message = some n from hn, Option.bind_some, hfirst])
      rw [herasable] at hnot
      cases hnot
  | none =>
      -- the field has stayed as it was, and would have been replaced
      rw [Schema.settleField_of_none m ht] at hkind hn
      have hvia := hs.viaAlias (Schema.mem_allMessages_of_mem hf hm) hy
      have hsome : s.aliasTarget? y = some (u, q) :=
        Schema.aliasTarget?_eq_some_iff.mpr ⟨hkind, hvia, by
          rw [show y.message = some n from hn, Option.bind_some, hfirst], hq⟩
      rw [ht] at hsome
      cases hsome

/-- **Files that are read again are settled.** -/
theorem Schema.Built.settled_reread (distinct : (s.allMessages.map (·.fullName)).Nodup)
    (unchained : s.Unchained) {f' : File}
    (hf' : f' ∈ (reread marker again (s.files.map s.resolved)).files) :
    (reread marker again (s.files.map s.resolved)).Settled f' := by
  refine ⟨?_, fun x hx => ?_, fun x hx y' hy' => ?_⟩
  · obtain ⟨ctx, hmessages⟩ := ((Schema.built_ofProtos _ _ _).files f' hf').messages
    exact hmessages.imp fun m raw h => h.mirrors.name
  · obtain ⟨f, hf, _, rfl⟩ := mem_files_reread hf'
    obtain ⟨_, hself⟩ := hmarker f hf
    exact hs.isErasable_reread hself hx
  · rw [Schema.refersToAlias_eq_false_iff]
    exact hs.aliasTarget?_reread again hmarker distinct unchained hf' hx hy'

end Schema

/-- **Resolving is stable on its own output.** Given distinct names and no alias that stands for
another, all files of a schema made of descriptors resolve. In a schema made, with the same
marker, of the descriptors that result, every file resolves to itself, so the descriptors do not
change any more; no alias goes, and no field is resolved. -/
theorem resolve_reread (marker : String) (generate again : List String) (protos : List FileProto)
    (distinct : ((Schema.ofProtos marker generate protos).allMessages.map (·.fullName)).Nodup)
    (unchained : (Schema.ofProtos marker generate protos).Unchained) :
    ∃ resolved, (Schema.ofProtos marker generate protos).ResolvesTo resolved ∧
      (reread marker again resolved).ResolvesTo (reread marker again resolved).files ∧
      (reread marker again resolved).files.map (·.proto) = resolved.map (·.proto) ∧
      ∀ f' ∈ (reread marker again resolved).files,
        f'.aliases = [] ∧ (reread marker again resolved).resolvedCount f' = 0 := by
  have hs := Schema.built_ofProtos marker generate protos
  have hmarker := Schema.builtWith_ofProtos marker generate protos
  have hsettled := @Schema.Built.settled_reread _ _ again hs hmarker distinct unchained
  refine ⟨_, hs.resolvesTo, ?_, map_proto_files_ofProtos marker again _, fun f' hf' => ⟨?_, ?_⟩⟩
  · rw [Schema.ResolvesTo, List.forall₂_same]
    exact fun f' hf' => (hsettled hf').resolve_eq_ok
  · exact ((Schema.built_ofProtos _ _ _).files f' hf').aliases
  · exact (hsettled hf').resolvedCount_eq_zero

/-- A file with an alias, `Sku`. -/
def skusProto : FileProto where
  name := some "skus.proto"
  package := some "shop"
  syntaxName := some "proto3"
  messageType :=
    [{ name := some "Sku"
       field := [{ name := some "value", number := some 1, label := some 1, type := some 9 }] }]
  sourceCodeInfo := some
    { location := [{ path := [4, 0], leadingComments := some " protobuf:alias\n" }] }

/-- A file that refers to `Sku` and to an alias nested in a message, `Stock.Count`. No message
goes from it, so the comments stay, and `Stock.Count` is an alias for good. -/
def stockProto : FileProto where
  name := some "stock.proto"
  package := some "shop"
  syntaxName := some "proto3"
  messageType :=
    [{ name := some "Stock"
       field :=
        [{ name := some "item", number := some 1, label := some 1, type := some 11
           typeName := some ".shop.Sku" },
         { name := some "count", number := some 2, label := some 1, type := some 11
           typeName := some ".shop.Stock.Count" }]
       nestedType :=
        [{ name := some "Count"
           field := [{ name := some "value", number := some 1, label := some 1
                       type := some 13 }] }] }]
  sourceCodeInfo := some
    { location := [{ path := [4, 0, 3, 0], leadingComments := some " protobuf:alias\n" }] }

/-- The schema of `skusProto` and `stockProto`. -/
def stockSchema : Schema :=
  Schema.ofProtos defaultMarker ["skus.proto", "stock.proto"] [skusProto, stockProto]

theorem stockSchema_distinct : (stockSchema.allMessages.map (·.fullName)).Nodup := by
  have hnames : stockSchema.allMessages.map (·.fullName)
      = [".shop.Sku", ".shop.Stock.Count", ".shop.Stock"] := rfl
  rw [hnames]
  decide

theorem stockSchema_unchained : stockSchema.Unchained := Schema.unchained_of_scalar rfl

theorem resolve_reread_stock :
    (stockSchema.allMessages.map (·.fullName)).Nodup ∧ stockSchema.Unchained ∧
      ∃ resolved, stockSchema.ResolvesTo resolved ∧
        (reread defaultMarker ["skus.proto", "stock.proto"] resolved).ResolvesTo
          (reread defaultMarker ["skus.proto", "stock.proto"] resolved).files ∧
        (reread defaultMarker ["skus.proto", "stock.proto"] resolved).files.map (·.proto)
          = resolved.map (·.proto) ∧
        ∀ f' ∈ (reread defaultMarker ["skus.proto", "stock.proto"] resolved).files,
          f'.aliases = [] ∧
            (reread defaultMarker ["skus.proto", "stock.proto"] resolved).resolvedCount f' = 0 :=
  ⟨stockSchema_distinct, stockSchema_unchained,
    resolve_reread _ _ _ _ stockSchema_distinct stockSchema_unchained⟩

end AliasErasure
