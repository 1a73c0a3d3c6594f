import AliasErasure.Output.Embedding
import AliasErasure.Proofs.Erasure.Agreement
import AliasErasure.Proofs.Erasure.Bare
import AliasErasure.Proofs.Output.Presence
import AliasErasure.Proofs.Schema.Tree

set_option autoImplicit false

/-! # Comments matter only where they mark

Two lists of descriptors that differ in nothing but comments may still be resolved differently,
because comments hold the marks of aliases. That is all: if they mark the same messages, the bare
models are the same (`bare_buildFile`), hence so are the bare files that they are resolved to
(`Schema.resolve_bare`). An embedded descriptor is made of the bare file alone (`embed_bare`), and
so is the source text, as long as comments are not written (`source_bare`). Thus the output is the
same for both (`output_ignores_comments`).
-/

namespace AliasErasure

open Descriptor (EnumProto FieldProto FileProto MessageProto)

/-! ## Building -/

section Build

variable {ctx ctx' : FileContext}

theorem bare_buildField (hdialect : ctx.dialect = ctx'.dialect) (path : List Int32)
    (r : FieldProto) : (buildField ctx path r).bare = (buildField ctx' path r).bare := by
  simp [buildField, Field.bare, hdialect]

theorem bare_buildEnum (scope : String) (path : List Int32) (e : EnumProto) :
    (buildEnum ctx scope path e).bare = (buildEnum ctx' scope path e).bare := rfl

theorem map_mapIdx_congr {α β γ : Type} {g g' : Nat → α → β} {h : β → γ} {l : List α}
    (heq : ∀ i a, h (g i a) = h (g' i a)) : (l.mapIdx g).map h = (l.mapIdx g').map h := by
  rw [List.mapIdx_eq_zipIdx_map, List.mapIdx_eq_zipIdx_map, List.map_map, List.map_map]
  exact List.map_congr_left fun p _ => heq p.2 p.1

/-- Two messages are marked alike, and so are those that positions lead to inside them. -/
def Message.MarkedAlike (m m' : Message) : Prop :=
  ∀ inner, (m.descend? inner).map (·.marked) = (m'.descend? inner).map (·.marked)

theorem Message.MarkedAlike.marked {m m' : Message} (h : m.MarkedAlike m') :
    m.marked = m'.marked :=
  Option.some.inj (h [])

theorem Message.MarkedAlike.nested {m m' x x' : Message} (h : m.MarkedAlike m') {k : Nat}
    (hx : m.nested[k]? = some x) (hx' : m'.nested[k]? = some x') : x.MarkedAlike x' := by
  intro inner
  have hk := h (k :: inner)
  rwa [Message.descend?, Message.descend?, hx, hx'] at hk

/-- **Comments beyond the marks do not matter to the model of a message.** -/
theorem bare_buildMessage (hdialect : ctx.dialect = ctx'.dialect) (raw : MessageProto) :
    ∀ scope path,
      (buildMessage ctx scope path raw).MarkedAlike (buildMessage ctx' scope path raw) →
      (buildMessage ctx scope path raw).bare = (buildMessage ctx' scope path raw).bare := by
  induction raw using MessageProto.nestedInduction with
  | step raw ih =>
      intro scope path hmarks
      -- only the mark is read from comments, so the other parts agree whatever comments there are
      have hnested : (buildMessage ctx scope path raw).nested.map (·.bare)
          = (buildMessage ctx' scope path raw).nested.map (·.bare) := by
        apply List.ext_getElem?
        intro k
        rw [List.getElem?_map, List.getElem?_map, getElem?_nested_buildMessage,
          getElem?_nested_buildMessage]
        cases hx : raw.nestedType[k]? with
        | none => rfl
        | some x =>
            have hget : ∀ c, (buildMessage c scope path raw).nested[k]?
                = some (buildMessage c (scope ++ "." ++ raw.name.getD "")
                    (path ++ nestedStep k) x) := by
              intro c
              rw [getElem?_nested_buildMessage, hx, Option.map_some]
            have hmarks' := hmarks.nested (hget ctx) (hget ctx')
            exact congrArg some (ih x (List.mem_of_getElem? hx) _ _ hmarks')
      have hfields : (buildMessage ctx scope path raw).fields.map (·.bare)
          = (buildMessage ctx' scope path raw).fields.map (·.bare) := by
        rw [buildMessage_eq, buildMessage_eq]
        exact map_mapIdx_congr fun _ _ => bare_buildField hdialect _ _
      have henums : (buildMessage ctx scope path raw).enums.map (·.bare)
          = (buildMessage ctx' scope path raw).enums.map (·.bare) := by
        rw [buildMessage_eq, buildMessage_eq]
        exact map_mapIdx_congr fun _ _ => bare_buildEnum _ _ _
      rw [Message.bare_eq, Message.bare_eq, hnested, hfields, henums, hmarks.marked,
        buildMessage_eq, buildMessage_eq]

/-- Descriptors that differ in comments alone differ in source locations alone. -/
theorem Descriptor.FileProto.exists_of_bare_eq {f f' : FileProto} (h : f.bare = f'.bare) :
    ∃ info, f' = { f with sourceCodeInfo := info } :=
  ⟨f'.sourceCodeInfo,
    (congrArg (fun g : FileProto => { g with sourceCodeInfo := f'.sourceCodeInfo }) h).symm⟩

/-- **Files that differ in comments alone have the same bare model**, if they mark the same
messages. -/
theorem bare_buildFile {marker : String} {generate : Bool} {f f' : FileProto}
    (h : f.bare = f'.bare)
    (hmarks : ∀ path, (Message.atPath? (buildFile marker generate f).messages path).map (·.marked)
      = (Message.atPath? (buildFile marker generate f').messages path).map (·.marked)) :
    (buildFile marker generate f).bare = (buildFile marker generate f').bare := by
  obtain ⟨info, rfl⟩ := FileProto.exists_of_bare_eq h
  have hdialect : (contextOf marker f).dialect
      = (contextOf marker { f with sourceCodeInfo := info }).dialect := rfl
  have hmessages : (buildFile marker generate f).messages.map (·.bare)
      = (buildFile marker generate { f with sourceCodeInfo := info }).messages.map (·.bare) := by
    apply List.ext_getElem?
    intro i
    rw [List.getElem?_map, List.getElem?_map, getElem?_messages_buildFile,
      getElem?_messages_buildFile]
    cases hx : f.messageType[i]? with
    | none => rfl
    | some raw =>
        refine congrArg some (bare_buildMessage hdialect raw _ _ fun inner => ?_)
        have hinner := hmarks (i :: inner)
        rwa [Message.atPath?, Message.atPath?, getElem?_messages_buildFile,
          getElem?_messages_buildFile, hx] at hinner
  have henums : (buildFile marker generate f).enums.map (·.bare)
      = (buildFile marker generate { f with sourceCodeInfo := info }).enums.map (·.bare) :=
    map_mapIdx_congr fun _ _ => bare_buildEnum _ _ _
  rw [File.bare, File.bare, File.mk.injEq]
  exact ⟨rfl, rfl, rfl, rfl, hmessages, henums, rfl, h⟩

/-- **Schemas that differ in comments alone are the same without comments**, if they mark the same
messages. -/
theorem bare_ofProtos {marker : String} {generate : List String} {protos protos' : List FileProto}
    (h : protos.map (·.bare) = protos'.map (·.bare))
    (hmarks : ∀ place,
      (messageAt? (Schema.ofProtos marker generate protos).files place).map (·.marked)
        = (messageAt? (Schema.ofProtos marker generate protos').files place).map (·.marked)) :
    (Schema.ofProtos marker generate protos).files.map (·.bare)
      = (Schema.ofProtos marker generate protos').files.map (·.bare) := by
  have hget : ∀ (ps : List FileProto) (i : Nat), (Schema.ofProtos marker generate ps).files[i]?
      = (ps[i]?).map fun f => buildFile marker (generate.contains (f.name.getD "")) f :=
    fun ps i => List.getElem?_map
  apply List.ext_getElem?
  intro i
  have hi : (protos[i]?).map (·.bare) = (protos'[i]?).map (·.bare) := by
    rw [← List.getElem?_map, ← List.getElem?_map, h]
  rw [List.getElem?_map, List.getElem?_map, hget, hget]
  cases hf : protos[i]? with
  | none =>
      rw [hf] at hi
      rw [Option.map_eq_none_iff.mp hi.symm]
  | some f =>
      rw [hf] at hi
      obtain ⟨f', hf', hbare⟩ := Option.map_eq_some_iff.mp hi.symm
      have hname : f'.name = f.name := by
        obtain ⟨info, rfl⟩ := FileProto.exists_of_bare_eq hbare
        rfl
      rw [hf']
      simp only [Option.map_some, hname]
      refine congrArg some (bare_buildFile hbare.symm fun path => ?_)
      have hplace := hmarks ⟨i, path⟩
      simpa only [messageAt?, hget, hf, hf', Option.map_some, Option.bind_some, hname] using hplace

end Build

/-! ## Lines of code

What is written of a declaration when comments are not: the same for the bare declaration. -/

section Lines

variable (dialect : Dialect)

theorem writtenLines_append (a b : List Line) :
    writtenLines false (a ++ b) = writtenLines false a ++ writtenLines false b := by
  simp [writtenLines]

theorem writtenLines_flatMap {α : Type} (g : α → List Line) (xs : List α) :
    writtenLines false (xs.flatMap g) = xs.flatMap fun x => writtenLines false (g x) := by
  simp [writtenLines, List.filter_flatMap]

theorem writtenLines_code (level : Nat) (text : String) (rest : List Line) :
    writtenLines false (.code level text :: rest) = .code level text :: writtenLines false rest :=
  rfl

theorem writtenLines_commentLines (level : Nat) (c : Comments) :
    writtenLines false (commentLines level c) = [] := by
  simp [writtenLines, commentLines, Line.isComment]

/-- Comments in front of lines of code are not written. -/
theorem writtenLines_commented (level : Nat) (c : Comments) (rest : List Line) :
    writtenLines false (commentLines level c ++ rest) = writtenLines false rest := by
  rw [writtenLines_append, writtenLines_commentLines, List.nil_append]

theorem enumLines_bare (level : Nat) (e : EnumType) :
    writtenLines false (enumLines level e.bare) = writtenLines false (enumLines level e) := by
  rw [enumLines, enumLines, List.append_assoc, List.append_assoc]
  simp only [List.cons_append, writtenLines_commented]
  rfl

theorem mapEntryFields?_bare (m : Message) (x : Field) :
    mapEntryFields? m.bare x.bare = (mapEntryFields? m x).map fun e => (e.1.bare, e.2.bare) := by
  have hentry : (m.nested.map (·.bare)).find?
        (fun n => n.mapEntry && x.message == some n.fullName)
      = (m.nested.find? fun n => n.mapEntry && x.message == some n.fullName).map (·.bare) := by
    rw [List.find?_map]
    simp only [Function.comp_def, Message.bare_mapEntry, Message.bare_fullName]
  have hnumber : ∀ (n : Message) (k : Int32), n.bare.fields.find? (·.number == k)
      = (n.fields.find? (·.number == k)).map (·.bare) := by
    intro n k
    rw [n.bare_fields, List.find?_map]
    rfl
  rw [mapEntryFields?, mapEntryFields?, m.bare_nested, x.bare_cardinality, x.bare_kind,
    x.bare_message, hentry]
  split
  · cases m.nested.find? fun n => n.mapEntry && x.message == some n.fullName with
    | none => rfl
    | some entry =>
        simp only [Option.map_some, hnumber]
        cases entry.fields.find? (·.number == 1) with
        | none => rfl
        | some key =>
            cases entry.fields.find? (·.number == 2) with
            | none => rfl
            | some value => rfl
  · rfl

theorem declarationText_bare (m : Message) (x : Field) :
    declarationText dialect m.bare x.bare = declarationText dialect m x := by
  rw [declarationText, declarationText, mapEntryFields?_bare]
  cases mapEntryFields? m x with
  | none => rfl
  | some entry => rfl

theorem fieldLines_bare (level : Nat) (m : Message) (x : Field) :
    writtenLines false (fieldLines dialect level m.bare x.bare)
      = writtenLines false (fieldLines dialect level m x) := by
  rw [fieldLines, fieldLines, writtenLines_commented, writtenLines_commented,
    declarationText_bare]
  rfl

/-- An item of a body without comments. -/
def BodyItem.bare : BodyItem → BodyItem
  | .field x => .field x.bare
  | .oneof position => .oneof position

theorem bodyItems_bare (m : Message) (seen : List Nat) (xs : List Field) :
    bodyItems m.bare seen (xs.map (·.bare)) = (bodyItems m seen xs).map (·.bare) := by
  have hwritten : ∀ x, writtenOneof? m.bare x.bare = writtenOneof? m x := by
    intro x
    rw [writtenOneof?, writtenOneof?, m.bare_oneofs]
    rfl
  induction xs generalizing seen with
  | nil => rfl
  | cons x xs ih =>
      rw [List.map_cons, bodyItems, bodyItems, hwritten]
      cases writtenOneof? m x with
      | none => rw [ih]; rfl
      | some i =>
          dsimp only
          split
          · exact ih seen
          · rw [ih]; rfl

theorem oneofLines_bare (level : Nat) (m : Message) (position : Nat) :
    writtenLines false (oneofLines dialect level m.bare position)
      = writtenLines false (oneofLines dialect level m position) := by
  have hmembers : oneofMembers m.bare position = (oneofMembers m position).map (·.bare) := by
    rw [oneofMembers, oneofMembers, m.bare_fields, List.filter_map]
    rfl
  rw [oneofLines, oneofLines, m.bare_oneofs, hmembers, List.flatMap_map]
  simp only [List.cons_append, writtenLines_code, writtenLines_append, writtenLines_flatMap,
    writtenLines_commentLines]
  rfl

theorem bodyItemLines_bare (level : Nat) (m : Message) (item : BodyItem) :
    writtenLines false (bodyItemLines dialect level m.bare item.bare)
      = writtenLines false (bodyItemLines dialect level m item) := by
  cases item with
  | field x => exact fieldLines_bare dialect level m x
  | oneof position => exact oneofLines_bare dialect level m position

/-- **Code does not depend on comments**, at whatever depth a message stands. -/
theorem messageLines_bare (m : Message) :
    ∀ level, writtenLines false (messageLines dialect level m.bare)
      = writtenLines false (messageLines dialect level m) := by
  induction m using Message.nestedInduction with
  | step m ih =>
      intro level
      -- map entries are not written, so the hypothesis is needed for other nested messages only
      have hnested : ∀ ms : List Message, (∀ x ∈ ms, x ∈ m.nested) →
          writtenLines false (nestedLines dialect (level + 1) (ms.map (·.bare)))
            = writtenLines false (nestedLines dialect (level + 1) ms) := by
        intro ms hms
        induction ms with
        | nil => rfl
        | cons x rest ihrest =>
            rw [List.map_cons, nestedLines, nestedLines, writtenLines_append, writtenLines_append,
              ihrest fun y hy => hms y (by simp [hy]), x.bare_mapEntry]
            split
            · rfl
            · rw [ih x (hms x (by simp))]
      have henums : writtenLines false ((m.enums.map (·.bare)).flatMap (enumLines (level + 1)))
          = writtenLines false (m.enums.flatMap (enumLines (level + 1))) := by
        simp only [List.flatMap_map, writtenLines_flatMap, enumLines_bare]
      have hbody : writtenLines false
            ((bodyItems m.bare [] (m.fields.map (·.bare))).flatMap
              (bodyItemLines dialect (level + 1) m.bare))
          = writtenLines false
            ((bodyItems m [] m.fields).flatMap (bodyItemLines dialect (level + 1) m)) := by
        simp only [bodyItems_bare, List.flatMap_map, writtenLines_flatMap, bodyItemLines_bare]
      rw [messageLines_eq, messageLines_eq]
      simp only [List.cons_append, List.append_assoc, writtenLines_commented, writtenLines_code]
      simp only [writtenLines_append, Message.bare_name, Message.bare_nested, Message.bare_enums,
        Message.bare_fields, hnested m.nested fun _ h => h, henums, hbody]

theorem headerTexts_bare (f : File) : headerTexts f.bare = headerTexts f := by
  show ["// " ++ generatedHeader, "// source: " ++ f.name] ++
    (if (f.aliases.map (·.bare)).isEmpty then []
      else ["// aliases: " ++ ", ".intercalate ((f.aliases.map (·.bare)).map (·.name))]) = _
  rw [List.isEmpty_map, List.map_map]
  simp [headerTexts, Function.comp_def]

theorem fileLines_bare (f : File) :
    writtenLines false (fileLines f.bare) = writtenLines false (fileLines f) := by
  have hmessages : writtenLines false (f.bare.messages.flatMap (messageLines f.bare.dialect 0))
      = writtenLines false (f.messages.flatMap (messageLines f.dialect 0)) := by
    show writtenLines false ((f.messages.map (·.bare)).flatMap (messageLines f.dialect 0)) = _
    simp only [List.flatMap_map, writtenLines_flatMap, messageLines_bare]
  have henums : writtenLines false (f.bare.enums.flatMap (enumLines 0))
      = writtenLines false (f.enums.flatMap (enumLines 0)) := by
    show writtenLines false ((f.enums.map (·.bare)).flatMap (enumLines 0)) = _
    simp only [List.flatMap_map, writtenLines_flatMap, enumLines_bare]
  rw [fileLines, fileLines, headerTexts_bare]
  simp only [writtenLines_append, hmessages, henums]
  rfl

end Lines

/-! ## Output -/

/-- **Source text is made of the bare file** when comments are not written. -/
theorem source_bare (config : OutputConfig) (f : File) :
    renderSource { config with includeComments := false } f.bare
      = renderSource { config with includeComments := false } f := by
  rw [renderSource, renderSource, File.source, File.source]
  simp only [fileLines_bare]
  rfl

/-- **The embedded descriptor is made of the bare file.** -/
theorem embed_bare (config : OutputConfig) (f : File) : embed config f.bare = embed config f :=
  rfl

/-- Two files are written and embedded alike, apart from comments. -/
def SameOutput (config : OutputConfig) (f f' : File) : Prop :=
  embed config f = embed config f' ∧
    renderSource { config with includeComments := false } f
      = renderSource { config with includeComments := false } f'

theorem sameOutput_of_bare {config : OutputConfig} {f f' : File} (h : f.bare = f'.bare) :
    SameOutput config f f' := by
  constructor
  · rw [← embed_bare, h, embed_bare]
  · rw [← source_bare, h, source_bare]

/-- **Comments matter only where they mark.** Take two lists of descriptors that differ in nothing
but the comments in source locations, and a marker by which they mark the same messages, at every
depth. Then every file is resolved in both schemas, and has the same output in both, before and
after it is resolved: the same embedded descriptor, and the same source text without comments. -/
theorem output_ignores_comments (marker : String) (generate : List String)
    (protos protos' : List FileProto) (h : protos.map (·.bare) = protos'.map (·.bare))
    (hmarks : ∀ place,
      (messageAt? (Schema.ofProtos marker generate protos).files place).map (·.marked)
        = (messageAt? (Schema.ofProtos marker generate protos').files place).map (·.marked))
    (config : OutputConfig) :
    List.Forall₂ (fun f f' => SameOutput config f f' ∧
        ∃ r r', (Schema.ofProtos marker generate protos).resolve f = .ok r ∧
          (Schema.ofProtos marker generate protos').resolve f' = .ok r' ∧ SameOutput config r r')
      (Schema.ofProtos marker generate protos).files
      (Schema.ofProtos marker generate protos').files := by
  have hfiles := bare_ofProtos h hmarks
  have hbare : (Schema.ofProtos marker generate protos).bare
      = (Schema.ofProtos marker generate protos').bare := congrArg Schema.ofFiles hfiles
  have hs := Schema.built_ofProtos marker generate protos
  have hs' := Schema.built_ofProtos marker generate protos'
  have hlength : (Schema.ofProtos marker generate protos).files.length
      = (Schema.ofProtos marker generate protos').files.length := by
    simpa using congrArg List.length hfiles
  refine List.forall₂_iff_get.mpr ⟨hlength, fun i hi hi' => ?_⟩
  have hf : ((Schema.ofProtos marker generate protos).files.get ⟨i, hi⟩).bare
      = ((Schema.ofProtos marker generate protos').files.get ⟨i, hi'⟩).bare := by
    have hget := congrArg (·[i]?) hfiles
    simpa [hi, hi'] using hget
  generalize hfi : (Schema.ofProtos marker generate protos).files.get ⟨i, hi⟩ = f at hf ⊢
  generalize hfi' : (Schema.ofProtos marker generate protos').files.get ⟨i, hi'⟩ = f' at hf ⊢
  have hmem : f ∈ (Schema.ofProtos marker generate protos).files := hfi ▸ List.get_mem _ _
  have hmem' : f' ∈ (Schema.ofProtos marker generate protos').files := hfi' ▸ List.get_mem _ _
  -- resolving succeeds on both sides; without comments the two results are the same
  have hr := (hs.files f hmem).resolve_eq_ok (Schema.ofProtos marker generate protos)
  have hr' := (hs'.files f' hmem').resolve_eq_ok (Schema.ofProtos marker generate protos')
  have hresolved := Schema.resolve_bare hs.indexed f
  rw [hbare, hf, Schema.resolve_bare hs'.indexed f', hr, hr'] at hresolved
  exact ⟨sameOutput_of_bare hf, _, _, hr, hr',
    sameOutput_of_bare (Except.ok.inj hresolved).symm⟩

/-- The file of `ordersProto` with other comments, which mark the same message. -/
def rewordedOrdersProto : FileProto :=
  { ordersProto with
    sourceCodeInfo := some
      { location :=
          [{ path := [4, 0], leadingComments := some " All of them.\n protobuf:alias\n"
             trailingComments := some " Never reused.\n"
             leadingDetachedComments := [" Identifiers.\n"] }] } }

theorem rewordedOrdersProto_marks (place : MessagePlace) :
    (messageAt? (Schema.ofProtos defaultMarker [] [ordersProto]).files place).map (·.marked)
      = (messageAt? (Schema.ofProtos defaultMarker [] [rewordedOrdersProto]).files place).map
          (·.marked) := by
  obtain ⟨file, path⟩ := place
  match file, path with
  | file + 1, _ => rfl
  | 0, [] => rfl
  | 0, [0] => rfl
  | 0, [1] => rfl
  | 0, 0 :: _ :: _ => rfl
  | 0, 1 :: _ :: _ => rfl
  | 0, (_ + 2) :: _ => rfl

theorem output_ignores_comments_orders :
    [ordersProto].map (·.bare) = [rewordedOrdersProto].map (·.bare) ∧
      (∀ place, (messageAt? (Schema.ofProtos defaultMarker [] [ordersProto]).files place).map
          (·.marked)
        = (messageAt? (Schema.ofProtos defaultMarker [] [rewordedOrdersProto]).files place).map
          (·.marked)) ∧
      List.Forall₂ (fun f f' => SameOutput {} f f' ∧
          ∃ r r', (Schema.ofProtos defaultMarker [] [ordersProto]).resolve f = .ok r ∧
            (Schema.ofProtos defaultMarker [] [rewordedOrdersProto]).resolve f' = .ok r' ∧
            SameOutput {} r r')
        (Schema.ofProtos defaultMarker [] [ordersProto]).files
        (Schema.ofProtos defaultMarker [] [rewordedOrdersProto]).files :=
  ⟨rfl, rewordedOrdersProto_marks,
    output_ignores_comments defaultMarker [] [ordersProto] [rewordedOrdersProto] rfl
      rewordedOrdersProto_marks {}⟩

end AliasErasure
