import AliasErasure.Output.Config
import AliasErasure.Text.Blank
import AliasErasure.Text.CamelCase
import AliasErasure.Text.Quoted
import AliasErasure.Text.Split

set_option autoImplicit false

/-! # Schema source

A resolved file as source text of the schema language. The text is a list of lines, each of them
a comment or code, with the level it is indented to. Comments are lines of their own, so leaving
them out takes nothing else away.
-/

namespace AliasErasure

open Descriptor (FileProto ServiceProto MethodProto)

/-! ## Lines -/

/-- A line of source text, without its indentation. -/
inductive Line where
  | comment (level : Nat) (text : String)
  | code (level : Nat) (text : String)
  deriving DecidableEq, Repr

namespace Line

/-- Whether a line is a comment. -/
def isComment : Line → Bool
  | .comment .. => true
  | .code .. => false

/-- The indentation of a level. -/
def indentation (indent : String) (level : Nat) : String :=
  String.join (List.replicate level indent)

/-- The text of a line, with indentation and line feed. -/
def text (indent : String) : Line → String
  | .comment level text => indentation indent level ++ "//" ++ text ++ "\n"
  | .code level text => indentation indent level ++ text ++ "\n"

/-- An empty line. -/
def blank : Line := .code 0 ""

end Line

/-- The lines of the comment above a declaration. -/
def commentLines (level : Nat) (comments : Comments) : List Line :=
  (Text.lines (Text.dropEndWhile (· == '\n') comments.leading.toList)).map fun cs =>
    .comment level (String.ofList cs)

/-! ## Fields -/

/-- How the type of a field is written. A reference without a name cannot be written and is
replaced. -/
def fieldTypeText (f : Field) : String :=
  match f.kind.keyword? with
  | some keyword => keyword
  | none =>
      match f.typeName? with
      | some name => name
      | none => if f.kind = .group then "group" else "bytes"

/-- The label in front of a field's type, empty where the dialect writes none. -/
def fieldLabelText (dialect : Dialect) (f : Field) : String :=
  match f.cardinality, dialect with
  | .repeated, _ => "repeated"
  | .required, .proto2 => "required"
  | .required, _ => ""
  | .optional, .proto2 => "optional"
  | .optional, .proto3 => if f.proto3Optional then "optional" else ""
  | .optional, .editions => ""

/-- How the default value of a field is written. -/
def defaultText (f : Field) (value : String) : String :=
  match f.kind with
  | .string | .bytes => Text.Quoted.literal value
  | _ => value

/-- The options of a field: the default value where the dialect has such, a JSON name that does
not follow from the name, and the options on packing and deprecation. -/
def fieldOptionTexts (dialect : Dialect) (f : Field) : List String :=
  (if dialect = .proto2 then
    f.defaultValue.toList.map fun value => "default = " ++ defaultText f value else []) ++
  ((f.jsonName.filter (· != Text.lowerCamel f.name)).toList.map fun name =>
    "json_name = \"" ++ name ++ "\"") ++
  ((f.options.bind (·.packed)).toList.map fun packed => s!"packed = {packed}") ++
  if (f.options.bind (·.deprecated)).getD false then ["deprecated = true"] else []

/-- The options of a field in brackets, with a blank in front; nothing if there are none. -/
def fieldOptionsText (dialect : Dialect) (f : Field) : String :=
  match fieldOptionTexts dialect f with
  | [] => ""
  | options => " [" ++ ", ".intercalate options ++ "]"

/-- Type, name, number and options of a field, up to the semicolon. -/
def memberText (dialect : Dialect) (f : Field) : String :=
  fieldTypeText f ++ " " ++ f.name ++ " = " ++ toString f.number ++
    fieldOptionsText dialect f ++ ";"

/-- The fields for key and value, if `f` is a map field of the message. -/
def mapEntryFields? (m : Message) (f : Field) : Option (Field × Field) :=
  if f.cardinality = .repeated ∧ f.kind = .message then
    match m.nested.find? fun n => n.mapEntry && f.message == some n.fullName with
    | none => none
    | some entry =>
        match entry.fields.find? (·.number == 1), entry.fields.find? (·.number == 2) with
        | some key, some value => some (key, value)
        | _, _ => none
  else none

/-- The declaration of a field, up to the semicolon. -/
def declarationText (dialect : Dialect) (m : Message) (f : Field) : String :=
  match mapEntryFields? m f with
  | some (key, value) =>
      "map<" ++ fieldTypeText key ++ ", " ++ fieldTypeText value ++ "> " ++ f.name ++ " = " ++
        toString f.number ++ fieldOptionsText dialect f ++ ";"
  | none =>
      match fieldLabelText dialect f with
      | "" => memberText dialect f
      | label => label ++ " " ++ memberText dialect f

/-- The remark after a field that has taken over a payload. -/
def aliasRemark (f : Field) : String :=
  match f.viaAlias with
  | some erased => " // alias of " ++ erased.name
  | none => ""

/-- The lines of a field. -/
def fieldLines (dialect : Dialect) (level : Nat) (m : Message) (f : Field) : List Line :=
  commentLines level f.comments ++ [.code level (declarationText dialect m f ++ aliasRemark f)]

/-! ## Messages and enums -/

/-- The position of the oneof that a field is written in; synthetic oneofs are not written. -/
def writtenOneof? (m : Message) (f : Field) : Option Nat :=
  f.oneof.filter fun i => !((m.oneofs[i]?.map (·.synthetic)).getD false)

/-- What the body of a message consists of: fields, and oneofs with their members. -/
inductive BodyItem where
  | field (f : Field)
  | oneof (position : Nat)

/-- The body of a message. A oneof stands where its first member stands; `seen` are the oneofs
that stand already. -/
def bodyItems (m : Message) (seen : List Nat) : List Field → List BodyItem
  | [] => []
  | f :: rest =>
      match writtenOneof? m f with
      | none => .field f :: bodyItems m seen rest
      | some i =>
          if i ∈ seen then bodyItems m seen rest else .oneof i :: bodyItems m (i :: seen) rest

/-- The members of a oneof. -/
def oneofMembers (m : Message) (position : Nat) : List Field :=
  m.fields.filter fun f => f.oneof == some position

/-- The lines of a oneof. -/
def oneofLines (dialect : Dialect) (level : Nat) (m : Message) (position : Nat) : List Line :=
  let name := (m.oneofs[position]?.map (·.name)).getD ""
  .code level ("oneof " ++ name ++ " \x7b") ::
    (oneofMembers m position).flatMap (fun f =>
      commentLines (level + 1) f.comments ++ [.code (level + 1) (memberText dialect f)]) ++
    [.code level "\x7d"]

/-- The lines of an item of a body. -/
def bodyItemLines (dialect : Dialect) (level : Nat) (m : Message) : BodyItem → List Line
  | .field f => fieldLines dialect level m f
  | .oneof position => oneofLines dialect level m position

/-- The line that ends a declaration; an empty one follows at the top level. -/
def closingLines (level : Nat) : List Line :=
  .code level "\x7d" :: if level = 0 then [Line.blank] else []

/-- The lines of an enum. -/
def enumLines (level : Nat) (e : EnumType) : List Line :=
  commentLines level e.comments ++ .code level ("enum " ++ e.name ++ " \x7b") ::
    (e.values.map fun v => .code (level + 1) (v.name ++ " = " ++ toString v.number ++ ";")) ++
    closingLines level

mutual

/-- The lines of a message: nested messages, nested enums, then the body. -/
def messageLines (dialect : Dialect) (level : Nat) : Message → List Line
  | m@{ nested := nested, .. } =>
      commentLines level m.comments ++ .code level ("message " ++ m.name ++ " \x7b") ::
        nestedLines dialect (level + 1) nested ++
        m.enums.flatMap (enumLines (level + 1)) ++
        (bodyItems m [] m.fields).flatMap (bodyItemLines dialect (level + 1) m) ++
        closingLines level

/-- The lines of nested messages; entries of maps are not written. -/
def nestedLines (dialect : Dialect) (level : Nat) : List Message → List Line
  | [] => []
  | m :: rest =>
      (if m.mapEntry then [] else messageLines dialect level m) ++ nestedLines dialect level rest

end

/-! ## Files -/

/-- Lines with an empty one after them, unless there are none. -/
def paragraph (texts : List String) : List Line :=
  if texts.isEmpty then [] else texts.map (.code 0) ++ [Line.blank]

/-- The option of a file with a text as value; the empty text is not written. -/
def textOption (name : String) (value : Option String) : List String :=
  (value.filter (· != "")).toList.map fun v =>
    "option " ++ name ++ " = " ++ Text.Quoted.literal v ++ ";"

/-- The option of a file with a truth value. -/
def flagOption (name : String) (value : Option Bool) : List String :=
  value.toList.map fun v => s!"option {name} = {v};"

/-- The options of a file that are written. -/
def fileOptionTexts (f : FileProto) : List String :=
  match f.options with
  | none => []
  | some o =>
      textOption "go_package" o.goPackage ++
      textOption "java_package" o.javaPackage ++
      textOption "java_outer_classname" o.javaOuterClassname ++
      flagOption "java_multiple_files" o.javaMultipleFiles ++
      flagOption "cc_enable_arenas" o.ccEnableArenas ++
      textOption "csharp_namespace" o.csharpNamespace

/-- The imports of a file. -/
def importTexts (f : FileProto) : List String :=
  f.dependency.mapIdx fun i name =>
    let listed (indices : List Int32) : Bool := indices.any fun k => k.toInt == i
    let modifier := if listed f.publicDependency then "public "
      else if listed f.weakDependency then "weak " else ""
    "import " ++ modifier ++ "\"" ++ name ++ "\";"

/-- The declaration of a method. -/
def methodText (m : MethodProto) : String :=
  let stream (streaming : Option Bool) : String := if streaming.getD false then "stream " else ""
  "rpc " ++ m.name.getD "" ++ "(" ++ stream m.clientStreaming ++ m.inputType.getD "" ++
    ") returns (" ++ stream m.serverStreaming ++ m.outputType.getD "" ++ ");"

/-- The lines of a service. -/
def serviceLines (s : ServiceProto) : List Line :=
  .code 0 ("service " ++ s.name.getD "" ++ " \x7b") ::
    (s.method.map fun m => .code 1 (methodText m)) ++ closingLines 0

/-- The statement of a file's dialect. The number of the edition is not known; the first one is
written. -/
def dialectText : Dialect → String
  | .editions => "edition = \"2023\";"
  | dialect => "syntax = \"" ++ dialect.name ++ "\";"

/-- The lines at the top of a file. -/
def headerTexts (f : File) : List String :=
  ["// " ++ generatedHeader, "// source: " ++ f.name] ++
    if f.aliases.isEmpty then []
    else ["// aliases: " ++ ", ".intercalate (f.aliases.map (·.name))]

/-- All lines of a file. -/
def fileLines (f : File) : List Line :=
  paragraph (headerTexts f) ++
    paragraph [dialectText f.dialect] ++
    paragraph (if f.package = "" then [] else ["package " ++ f.package ++ ";"]) ++
    paragraph (fileOptionTexts f.proto) ++
    paragraph (importTexts f.proto) ++
    f.proto.service.flatMap serviceLines ++
    f.messages.flatMap (messageLines f.dialect 0) ++
    f.enums.flatMap (enumLines 0)

/-- The lines that are written: all, or those that are no comments. -/
def writtenLines (includeComments : Bool) (lines : List Line) : List Line :=
  if includeComments then lines else lines.filter fun l => !l.isComment

/-- The source text of a file. -/
def File.source (config : OutputConfig) (f : File) : String :=
  String.join ((writtenLines config.includeComments (fileLines f)).map (·.text config.indent))

/-- The generated file with the source text. -/
def renderSource (config : OutputConfig) (f : File) : List GeneratedFile :=
  [⟨f.outputName config.importPaths ".resolved.proto", f.source config⟩]

end AliasErasure
