import AliasErasure.Proofs.Output.Declarations
import AliasErasure.Proofs.Text.StringLiteral

set_option autoImplicit false

/-! # Literals in the source text

Strings stand between quotes in four places of a source text: values of file options, imports,
default values of strings and byte strings, and JSON names. Each of them is described by a
`Quotation`: the string, and the line around its literal.

Literals are well-formed wherever the string is escaped, which is so for file options and default
values. Imports and JSON names are written as they are, so their literals stand for something else,
or for nothing, as soon as there is something to escape in them (`quotes_standsFor_iff`). The
default value of a byte string, on the other hand, is in the C notation already. It is escaped once
more, so that its literal stands for the notation and not for the bytes, unless these are the same
(`byteDefault_standsFor_iff`).
-/

namespace AliasErasure

open Descriptor (FileOptions FileProto)
open Text.Quoted (Plain StandsFor escape readItem readItems readItems_nil readItems_of_readItem
  standsFor_escape standsFor_self_iff unescape? unescape?_eq_encodeText_iff)
open Wire (encodeText)

/-! ## The line of a field -/

/-- A message is written at a level of the source text: those of the file at the top, and those
nested in a message that is written, save for the entries of maps. -/
inductive File.Writes (f : File) : Nat → Message → Prop where
  | top {m : Message} (hm : m ∈ f.messages) : f.Writes 0 m
  | nested {level : Nat} {m n : Message} (hm : f.Writes level m) (hn : n ∈ m.nested)
      (hentry : n.mapEntry = false) : f.Writes (level + 1) n

theorem File.Writes.mem_fileLines {f : File} {level : Nat} {m : Message} (h : f.Writes level m)
    {line : Line} (hline : line ∈ messageLines f.dialect level m) : line ∈ fileLines f := by
  induction h with
  | top hm => exact mem_fileLines_of_message hm hline
  | @nested level m n hm hn hentry ih =>
      have hnested : line ∈ nestedLines f.dialect (level + 1) m.nested := by
        rw [nestedLines_eq, List.mem_flatMap]
        exact ⟨n, List.mem_filter.mpr ⟨hn, by simp [hentry]⟩, hline⟩
      apply ih
      rw [messageLines_eq]
      simp [hnested]

/-- The line of a field that has `options` after its number: on its own, or as a member of a
oneof, one level deeper. -/
def fieldLine (dialect : Dialect) (level : Nat) (m : Message) (x : Field) (options : String) :
    Line :=
  match writtenOneof? m x with
  | none => .code (level + 1) (declarationHead dialect m x ++ options ++ ";" ++ aliasRemark x)
  | some _ => .code (level + 2) (memberHead x ++ options ++ ";")

/-- **Each field has its line**, with its options. -/
theorem fieldLine_mem_messageLines {m : Message} {x : Field} (hx : x ∈ m.fields)
    (dialect : Dialect) (level : Nat) :
    fieldLine dialect level m x (fieldOptionsText dialect x) ∈ messageLines dialect level m := by
  obtain ⟨i, hi⟩ := List.mem_iff_getElem?.mp hx
  have hmem : (x, i) ∈ m.fields.zipIdx := List.mk_mem_zipIdx_iff_getElem?.mpr hi
  have harranged := m.bodyParts_arranged
  -- the line stands in the part of the body that the field is written in
  have hpart : ∃ a ∈ m.bodyParts,
      fieldLine dialect level m x (fieldOptionsText dialect x) ∈ a.lines dialect (level + 1) m := by
    rw [fieldLine]
    cases hwritten : writtenOneof? m x with
    | none =>
        refine ⟨.plain (x, i), harranged.plain_mem_iff.mpr ⟨hmem, hwritten⟩, ?_⟩
        simp [BodyPart.lines, fieldLines, declarationText_eq]
    | some k =>
        obtain ⟨members, hblock, hmembers⟩ :=
          (harranged.inBlock_iff _ hmem k).mpr (writtenOneof?_eq_some_iff.mp hwritten)
        refine ⟨.block k members, hblock, List.mem_cons_of_mem _ (List.mem_append_left _ ?_)⟩
        exact List.mem_flatMap.mpr ⟨_, hmembers, by simp [memberText_eq]⟩
  obtain ⟨a, ha, hline⟩ := hpart
  have hbody := List.mem_flatMap.mpr ⟨a, ha, hline⟩
  rw [m.flatMap_bodyParts_lines] at hbody
  rw [messageLines_eq]
  exact List.mem_append_left _ (List.mem_append_right _ hbody)

/-! ## Quotations -/

/-- The places in which strings stand between quotes. -/
inductive QuotePlace where
  | fileOption
  | dependency
  | defaultValue
  | jsonName

/-- A string between quotes, and the line that it stands in, by what is written between the
quotes. -/
structure Quotation where
  place : QuotePlace
  value : String
  line : String → Line

/-- Options in brackets, with a blank in front; nothing if there are none. -/
def bracketed : List String → String
  | [] => ""
  | options => " [" ++ ", ".intercalate options ++ "]"

/-- The default value among the options of a field. -/
def defaultTexts (dialect : Dialect) (x : Field) : List String :=
  if dialect = .proto2 then
    x.defaultValue.toList.map fun value => "default = " ++ defaultText x value else []

/-- The JSON name among the options of a field. -/
def jsonNameTexts (x : Field) : List String :=
  (x.jsonName.filter (· != Text.lowerCamel x.name)).toList.map fun name =>
    "json_name = \"" ++ name ++ "\""

/-- The options of a field that are truth values. -/
def flagTexts (x : Field) : List String :=
  ((x.options.bind (·.packed)).toList.map fun packed => s!"packed = {packed}") ++
    if (x.options.bind (·.deprecated)).getD false then ["deprecated = true"] else []

theorem fieldOptionsText_eq (dialect : Dialect) (x : Field) :
    fieldOptionsText dialect x
      = bracketed (defaultTexts dialect x ++ jsonNameTexts x ++ flagTexts x) := by
  rw [fieldOptionsText, fieldOptionTexts, flagTexts, ← List.append_assoc]
  rfl

/-- The string options of a file that are written. -/
def Descriptor.FileOptions.texts (o : FileOptions) : List (String × Option String) :=
  [("go_package", o.goPackage), ("java_package", o.javaPackage),
   ("java_outer_classname", o.javaOuterClassname), ("csharp_namespace", o.csharpNamespace)]

/-- The word in front of the import at a position. -/
def Descriptor.FileProto.importModifier (proto : FileProto) (i : Nat) : String :=
  if proto.publicDependency.any fun k => k.toInt == i then "public "
  else if proto.weakDependency.any fun k => k.toInt == i then "weak " else ""

/-- The line of a field with a default value, by what stands between the quotes. -/
def defaultLine (dialect : Dialect) (level : Nat) (m : Message) (x : Field) (body : String) :
    Line :=
  fieldLine dialect level m x
    (bracketed (("default = \"" ++ body ++ "\"") :: (jsonNameTexts x ++ flagTexts x)))

/-- The line of a field with a JSON name, by what stands between the quotes. -/
def jsonNameLine (dialect : Dialect) (level : Nat) (m : Message) (x : Field) (body : String) :
    Line :=
  fieldLine dialect level m x
    (bracketed (defaultTexts dialect x ++ ("json_name = \"" ++ body ++ "\"") :: flagTexts x))

/-- The strings that stand between quotes in the source text of a file. -/
inductive File.Quotes (f : File) : Quotation → Prop where
  /-- Texts that are values of file options, unless they are empty. -/
  | fileOption {o : FileOptions} {name value : String} (ho : f.proto.options = some o)
      (hvalue : (name, some value) ∈ o.texts) (hne : value ≠ "") :
      f.Quotes ⟨.fileOption, value, fun body =>
        .code 0 ("option " ++ name ++ " = \"" ++ body ++ "\";")⟩
  /-- Imports. -/
  | dependency {i : Nat} {value : String} (hvalue : f.proto.dependency[i]? = some value) :
      f.Quotes ⟨.dependency, value, fun body =>
        .code 0 ("import " ++ f.proto.importModifier i ++ "\"" ++ body ++ "\";")⟩
  /-- In proto2, default values of strings and byte strings. -/
  | defaultValue {level : Nat} {m : Message} {x : Field} {value : String}
      (hm : f.Writes level m) (hx : x ∈ m.fields) (hdialect : f.dialect = .proto2)
      (hkind : x.kind = .string ∨ x.kind = .bytes) (hvalue : x.defaultValue = some value) :
      f.Quotes ⟨.defaultValue, value, defaultLine f.dialect level m x⟩
  /-- JSON names that do not follow from the names of their fields. -/
  | jsonName {level : Nat} {m : Message} {x : Field} {value : String}
      (hm : f.Writes level m) (hx : x ∈ m.fields) (hvalue : x.jsonName = some value)
      (hne : value ≠ Text.lowerCamel x.name) :
      f.Quotes ⟨.jsonName, value, jsonNameLine f.dialect level m x⟩

/-- Whether strings are escaped in a place. -/
def QuotePlace.escapes : QuotePlace → Bool
  | fileOption | defaultValue => true
  | dependency | jsonName => false

/-- What is written between the quotes. -/
def Quotation.body (q : Quotation) : String :=
  if q.place.escapes then escape q.value else q.value

/-- **What is written between the quotes stands for the string** if it is escaped, or if there is
nothing to escape. -/
theorem Quotation.standsFor_body_iff (q : Quotation) :
    StandsFor q.body (encodeText q.value) ↔ q.place.escapes = true ∨ Plain q.value := by
  rw [Quotation.body]
  cases q.place.escapes with
  | true => simp [standsFor_escape]
  | false => simp [standsFor_self_iff]

section Lines

variable {f : File}

theorem mem_paragraph {texts : List String} {text : String} (h : text ∈ texts) :
    .code 0 text ∈ paragraph texts := by
  have hne : texts.isEmpty = false := List.isEmpty_eq_false_iff.mpr (List.ne_nil_of_mem h)
  simp [paragraph, hne, h]

theorem mem_fileLines_of_option {text : String} (h : text ∈ fileOptionTexts f.proto) :
    .code 0 text ∈ fileLines f := by
  simp [fileLines, mem_paragraph h]

theorem mem_fileLines_of_import {text : String} (h : text ∈ importTexts f.proto) :
    .code 0 text ∈ fileLines f := by
  simp [fileLines, mem_paragraph h]

theorem mem_fileOptionTexts {proto : FileProto} {o : FileOptions} {name value : String}
    (ho : proto.options = some o) (hvalue : (name, some value) ∈ o.texts) (hne : value ≠ "") :
    "option " ++ name ++ " = \"" ++ escape value ++ "\";" ∈ fileOptionTexts proto := by
  have htext : "option " ++ name ++ " = \"" ++ escape value ++ "\";"
      ∈ textOption name (some value) := by
    have hbody : (" = \"" : String) = " = " ++ "\"" := rfl
    have hend : ("\";" : String) = "\"" ++ ";" := rfl
    simp only [textOption, Text.Quoted.literal, hbody, hend, String.append_assoc]
    simp [hne]
  have htexts : ∀ p ∈ o.texts, ∀ t ∈ textOption p.1 p.2, t ∈ fileOptionTexts proto := by
    intro p hp t ht
    simp only [fileOptionTexts, ho, List.mem_append]
    simp only [FileOptions.texts, List.mem_cons, List.not_mem_nil, or_false] at hp
    rcases hp with rfl | rfl | rfl | rfl
    all_goals simp [ht]
  exact htexts _ hvalue _ htext

theorem mem_importTexts {proto : FileProto} {i : Nat} {value : String}
    (h : proto.dependency[i]? = some value) :
    "import " ++ proto.importModifier i ++ "\"" ++ value ++ "\";" ∈ importTexts proto := by
  refine List.mem_of_getElem? (i := i) ?_
  rw [importTexts, List.getElem?_mapIdx, h]
  rfl

/-- The default value of a string is written as a literal. -/
theorem defaultTexts_eq {x : Field} {value : String} (hkind : x.kind = .string ∨ x.kind = .bytes)
    (hvalue : x.defaultValue = some value) :
    defaultTexts .proto2 x = ["default = \"" ++ escape value ++ "\""] := by
  have htext : defaultText x value = "\"" ++ escape value ++ "\"" := by
    rcases hkind with hkind | hkind
    all_goals rw [defaultText, hkind]; rfl
  have hbody : ("default = \"" : String) = "default = " ++ "\"" := rfl
  rw [hbody, defaultTexts, if_pos rfl, hvalue]
  simp only [Option.toList_some, List.map_singleton, htext, String.append_assoc]

theorem jsonNameTexts_eq {x : Field} {value : String} (hvalue : x.jsonName = some value)
    (hne : value ≠ Text.lowerCamel x.name) :
    jsonNameTexts x = ["json_name = \"" ++ value ++ "\""] := by
  simp [jsonNameTexts, hvalue, hne]

section Field

variable {level : Nat} {m : Message} {x : Field} {value : String}

theorem File.Writes.fieldLine_mem (hm : f.Writes level m) (hx : x ∈ m.fields) :
    fieldLine f.dialect level m x (fieldOptionsText f.dialect x) ∈ fileLines f :=
  hm.mem_fileLines (fieldLine_mem_messageLines hx f.dialect level)

/-- **A default value is written escaped**, that of a string like that of a byte string. -/
theorem File.Writes.defaultLine_mem (hm : f.Writes level m) (hx : x ∈ m.fields)
    (hdialect : f.dialect = .proto2) (hkind : x.kind = .string ∨ x.kind = .bytes)
    (hvalue : x.defaultValue = some value) :
    defaultLine f.dialect level m x (escape value) ∈ fileLines f := by
  have hline := hm.fieldLine_mem hx
  rw [fieldOptionsText_eq] at hline
  rw [defaultLine]
  rwa [hdialect, defaultTexts_eq hkind hvalue, List.append_assoc, ← hdialect] at hline

/-- A JSON name is written as it is. -/
theorem File.Writes.jsonNameLine_mem (hm : f.Writes level m) (hx : x ∈ m.fields)
    (hvalue : x.jsonName = some value) (hne : value ≠ Text.lowerCamel x.name) :
    jsonNameLine f.dialect level m x value ∈ fileLines f := by
  have hline := hm.fieldLine_mem hx
  rwa [fieldOptionsText_eq, jsonNameTexts_eq hvalue hne, List.append_assoc] at hline

end Field

/-- **Every quotation is in the source text.** -/
theorem File.Quotes.line_mem {q : Quotation} (h : f.Quotes q) : q.line q.body ∈ fileLines f := by
  cases h with
  | fileOption ho hvalue hne => exact mem_fileLines_of_option (mem_fileOptionTexts ho hvalue hne)
  | dependency hvalue => exact mem_fileLines_of_import (mem_importTexts hvalue)
  | defaultValue hm hx hdialect hkind hvalue => exact hm.defaultLine_mem hx hdialect hkind hvalue
  | jsonName hm hx hvalue hne => exact hm.jsonNameLine_mem hx hvalue hne

theorem File.Quotes.isComment_line {q : Quotation} (h : f.Quotes q) (body : String) :
    (q.line body).isComment = false := by
  have hfield : ∀ (level : Nat) (m : Message) (x : Field) (options : String),
      (fieldLine f.dialect level m x options).isComment = false := by
    intro level m x options
    rw [fieldLine]
    split <;> rfl
  cases h with
  | fileOption ho hvalue hne => rfl
  | dependency hvalue => rfl
  | defaultValue hm hx hdialect hkind hvalue => exact hfield _ _ _ _
  | jsonName hm hx hvalue hne => exact hfield _ _ _ _

/-- The source text of a file has a line. -/
def File.HasLine (config : OutputConfig) (f : File) (line : Line) : Prop :=
  ∃ before after, f.source config = before ++ line.text config.indent ++ after

/-- Lines of code stand in the source text, whether comments are written or not. -/
theorem hasLine_of_mem {line : Line} (h : line ∈ fileLines f) (hcode : line.isComment = false)
    (config : OutputConfig) : f.HasLine config line := by
  have hwritten : line ∈ writtenLines config.includeComments (fileLines f) := by
    rw [writtenLines]
    split
    · exact h
    · exact List.mem_filter.mpr ⟨h, by simp [hcode]⟩
  obtain ⟨above, below, hlines⟩ := List.append_of_mem hwritten
  refine ⟨String.join (above.map (·.text config.indent)),
    String.join (below.map (·.text config.indent)), ?_⟩
  rw [File.source, hlines]
  simp [String.append_assoc]

theorem File.Quotes.hasLine {q : Quotation} (h : f.Quotes q) (config : OutputConfig) :
    f.HasLine config (q.line q.body) :=
  hasLine_of_mem h.line_mem (h.isComment_line q.body) config

end Lines

/-! ## Strings -/

/-- **Which literals stand for their strings.** Each string that a file has between quotes has its
line in the source text, with a literal that stands for the string if and only if it stands in a
place where strings are escaped, or has nothing to escape. -/
theorem quotes_standsFor_iff (config : OutputConfig) {f : File} {q : Quotation}
    (hq : f.Quotes q) :
    f.HasLine config (q.line q.body) ∧
      (StandsFor q.body (encodeText q.value) ↔ q.place.escapes = true ∨ Plain q.value) :=
  ⟨hq.hasLine config, q.standsFor_body_iff⟩

/-- A file that imports a file with a quote in its name, and has a JSON name with a backslash. -/
def labelsProto : FileProto where
  name := some "labels.proto"
  package := some "shop"
  dependency := ["size\"m\".proto"]
  syntaxName := some "proto3"
  messageType :=
    [{ name := some "Label"
       field := [{ name := some "text", number := some 1, label := some 1, type := some 9
                   jsonName := some "back\\name" }] }]

/-- The schema of `labelsProto`. -/
def labelsSchema : Schema := Schema.ofProto labelsProto

/-- The file of `labelsSchema`. -/
def labelsFile : File := buildFile defaultMarker true labelsProto

theorem labelsSchema_files : labelsSchema.files = [labelsFile] := Schema.files_ofProto _

theorem labelsSchema_resolve : labelsSchema.resolve labelsFile = .ok labelsFile := rfl

/-- The import of `labelsFile`. -/
theorem labelsFile_import : ∃ q, labelsFile.Quotes q ∧ q.place = .dependency ∧
    q.value = "size\"m\".proto" := by
  have hvalue : labelsFile.proto.dependency[0]? = some "size\"m\".proto" := rfl
  exact ⟨_, .dependency hvalue, rfl, rfl⟩

/-- The JSON name in `labelsFile`. -/
theorem labelsFile_jsonName : ∃ q, labelsFile.Quotes q ∧ q.place = .jsonName ∧
    q.value = "back\\name" := by
  obtain ⟨m, hm, x, hx, hvalue, hne⟩ : ∃ m ∈ labelsFile.messages, ∃ x ∈ m.fields,
      x.jsonName = some "back\\name" ∧ "back\\name" ≠ Text.lowerCamel x.name :=
    ⟨_, List.mem_of_getElem? (i := 0) rfl, _, List.mem_of_getElem? (i := 0) rfl, rfl, by decide⟩
  exact ⟨_, .jsonName (.top hm) hx hvalue hne, rfl, rfl⟩

theorem quotes_standsFor_iff_labels : ∃ q, labelsFile.Quotes q ∧ q.value = "back\\name" ∧
    labelsFile.HasLine {} (q.line q.body) ∧
    (StandsFor q.body (encodeText q.value) ↔ q.place.escapes = true ∨ Plain q.value) := by
  obtain ⟨q, hq, -, hvalue⟩ := labelsFile_jsonName
  exact ⟨q, hq, hvalue, quotes_standsFor_iff {} hq⟩

/-- **Literals do stand for other strings**: in a resolved file, an import and a JSON name have
lines in the source text with literals that do not stand for them. -/
theorem not_standsFor_labels :
    labelsFile ∈ labelsSchema.files ∧ labelsSchema.resolve labelsFile = .ok labelsFile ∧
      (∃ q, labelsFile.Quotes q ∧ q.place = .dependency ∧
        labelsFile.HasLine {} (q.line q.body) ∧ ¬ StandsFor q.body (encodeText q.value)) ∧
      (∃ q, labelsFile.Quotes q ∧ q.place = .jsonName ∧
        labelsFile.HasLine {} (q.line q.body) ∧ ¬ StandsFor q.body (encodeText q.value)) := by
  have hquote : ¬ Plain "size\"m\".proto" := fun h => Bool.noConfusion (h '"' (by decide)).2
  have hbackslash : ¬ Plain "back\\name" := fun h => (h '\\' (by decide)).1 rfl
  obtain ⟨q, hq, hplace, hvalue⟩ := labelsFile_import
  obtain ⟨r, hr, hplace', hvalue'⟩ := labelsFile_jsonName
  refine ⟨by simp [labelsSchema_files], labelsSchema_resolve, ⟨q, hq, hplace, hq.hasLine {}, ?_⟩,
    ⟨r, hr, hplace', hr.hasLine {}, ?_⟩⟩
  · rw [q.standsFor_body_iff, hplace, hvalue]
    simp [QuotePlace.escapes, hquote]
  · rw [r.standsFor_body_iff, hplace', hvalue']
    simp [QuotePlace.escapes, hbackslash]

/-! ## Byte strings -/

/-- A literal stands for one value. -/
theorem standsFor_escape_iff {s : String} {bytes : List UInt8} :
    StandsFor (escape s) bytes ↔ bytes = encodeText s := by
  constructor
  · intro h
    have hread := (h []).symm.trans (standsFor_escape s [])
    simpa using hread
  · rintro rfl
    exact standsFor_escape s

/-- **Which byte strings keep their default values.** The default value of a byte string comes in
the C notation. It has its line in the source text, with a literal that stands for the same bytes
if and only if the notation has no escapes. -/
theorem byteDefault_standsFor_iff (config : OutputConfig) {f : File} {level : Nat} {m : Message}
    {x : Field} {value : String} {bytes : List UInt8} (hm : f.Writes level m) (hx : x ∈ m.fields)
    (hdialect : f.dialect = .proto2) (hkind : x.kind = .bytes)
    (hvalue : x.defaultValue = some value) (hbytes : unescape? value.toList = some bytes) :
    f.HasLine config (defaultLine f.dialect level m x (escape value)) ∧
      (StandsFor (escape value) bytes ↔ ∀ c ∈ value.toList, c ≠ '\\') := by
  have hq : f.Quotes _ := .defaultValue hm hx hdialect (Or.inr hkind) hvalue
  refine ⟨hq.hasLine config, ?_⟩
  rw [standsFor_escape_iff, ← unescape?_eq_encodeText_iff, hbytes, Option.some.injEq]

/-- A file with a byte string whose default value is the byte 1. -/
def framesProto : FileProto where
  name := some "frames.proto"
  package := some "shop"
  syntaxName := some "proto2"
  messageType :=
    [{ name := some "Frame"
       field := [{ name := some "head", number := some 1, label := some 1, type := some 12
                   defaultValue := some "\\001" }] }]

/-- The schema of `framesProto`. -/
def framesSchema : Schema := Schema.ofProto framesProto

/-- The file of `framesSchema`. -/
def framesFile : File := buildFile defaultMarker true framesProto

theorem framesSchema_files : framesSchema.files = [framesFile] := Schema.files_ofProto _

theorem framesSchema_resolve : framesSchema.resolve framesFile = .ok framesFile := rfl

theorem unescape?_frames : unescape? "\\001".toList = some [1] := by
  have hitem : readItem ['\\', '0', '0', '1'] = some ([1], []) := rfl
  have hitems : readItems (fun _ => false) ['\\', '0', '0', '1'] = some ([1], []) := by
    rw [readItems_of_readItem rfl hitem, readItems_nil]
    rfl
  exact congrArg (Option.map (·.1)) hitems

/-- The field of `framesFile`. -/
theorem framesFile_head : ∃ m ∈ framesFile.messages, ∃ x ∈ m.fields, x.kind = .bytes ∧
    x.defaultValue = some "\\001" :=
  ⟨_, List.mem_of_getElem? (i := 0) rfl, _, List.mem_of_getElem? (i := 0) rfl, rfl, rfl⟩

theorem byteDefault_standsFor_iff_frames : ∃ m x, framesFile.Writes 0 m ∧ x ∈ m.fields ∧
    framesFile.dialect = .proto2 ∧ x.kind = .bytes ∧ x.defaultValue = some "\\001" ∧
    unescape? "\\001".toList = some [1] ∧
    framesFile.HasLine {} (defaultLine framesFile.dialect 0 m x (escape "\\001")) ∧
    (StandsFor (escape "\\001") [1] ↔ ∀ c ∈ "\\001".toList, c ≠ '\\') := by
  obtain ⟨m, hm, x, hx, hkind, hvalue⟩ := framesFile_head
  exact ⟨m, x, .top hm, hx, rfl, hkind, hvalue, unescape?_frames,
    byteDefault_standsFor_iff {} (.top hm) hx rfl hkind hvalue unescape?_frames⟩

/-- **Byte strings do lose their default values**: in a resolved proto2 file, the default value of
a byte string is the byte 1, and its literal in the source text does not stand for this byte. -/
theorem byteDefault_lost_frames :
    framesFile ∈ framesSchema.files ∧ framesSchema.resolve framesFile = .ok framesFile ∧
      framesFile.dialect = .proto2 ∧
      ∃ m x, framesFile.Writes 0 m ∧ x ∈ m.fields ∧ x.kind = .bytes ∧
        ∃ value, x.defaultValue = some value ∧ unescape? value.toList = some [1] ∧
          ∃ body, framesFile.HasLine {} (defaultLine framesFile.dialect 0 m x body) ∧
            ¬ StandsFor body [1] := by
  obtain ⟨m, hm, x, hx, hkind, hvalue⟩ := framesFile_head
  have hq : framesFile.Quotes _ := .defaultValue (.top hm) hx rfl (Or.inr hkind) hvalue
  refine ⟨by simp [framesSchema_files], framesSchema_resolve, rfl, m, x, .top hm, hx, hkind, _,
    hvalue, unescape?_frames, _, hq.hasLine {}, ?_⟩
  show ¬ StandsFor (escape "\\001") [1]
  rw [standsFor_escape_iff]
  intro h
  have hescaped := unescape?_frames.trans (congrArg some h)
  exact unescape?_eq_encodeText_iff.mp hescaped '\\' (by decide) rfl

end AliasErasure
