import AliasErasure.Linking.LinkError
import AliasErasure.Linking.Sites
import AliasErasure.Text.CamelCase
import AliasErasure.Text.Split
import Std.Data.HashMap

set_option autoImplicit false

/-! # The table of names

All files share one table of qualified names. Every declaration enters its name, and a file enters
its package and the packages around it; only packages may share a name. A few rules that need no
look at other declarations are checked on the way.
-/

namespace AliasErasure

open Descriptor

/-- What a name stands for, as far as references to it tell apart. -/
inductive Subject where
  | package
  | message (m : MessageProto)
  | enum (e : EnumProto)
  | service
  | member

/-- What a name stands for, and the position of the file that declares it. -/
structure Definition where
  file : Nat
  subject : Subject

/-- The table of names. -/
abbrev NameTable := Std.HashMap String Definition

/-- What a site contributes: a name, or a broken rule. -/
inductive Finding where
  | declares (name : String) (subject : Subject)
  | breaks (e : LinkError)

/-! ## Findings -/

/-- The packages around a package and the package itself: its name up to each dot, and whole. -/
def packageNames (package : String) : List String :=
  if package = "" then []
  else
    let parts := Text.splitAt '.' package.toList
    (List.range parts.length).map fun i =>
      String.ofList (['.'].intercalate (parts.take (i + 1)))

/-- Whether a file is written in the oldest dialect, for which fewer rules hold. -/
def isOldest (f : FileProto) : Bool :=
  match f.syntaxName with
  | none => true
  | some name => name == "proto2"

/-- The pairs of field names with the same folded form: for each name that repeats an earlier one,
the first with this form. -/
def camelCaseConflicts (seen : List String) : List String → List (String × String)
  | [] => []
  | name :: rest =>
      match seen.find? fun earlier => Text.folded earlier == Text.folded name with
      | some first => (first, name) :: camelCaseConflicts seen rest
      | none => camelCaseConflicts (seen ++ [name]) rest

/-- What a site of the file contributes. `earlier` are the names of the files before it. -/
def findings (earlier : List String) (file : FileProto) : Site → List Finding
  | .file =>
      let name := file.name.getD ""
      (if earlier.contains name then [.breaks (.duplicateFile name)] else []) ++
        (packageNames (file.package.getD "")).map fun p => .declares p .package
  | .message name m =>
      .declares name (.message m) ::
        if isOldest file then []
        else
          let names := m.field.map fun f => f.name.getD ""
          (camelCaseConflicts [] names).map fun (first, second) =>
            .breaks (.camelCaseConflict first second)
  | .enum name e =>
      .declares name (.enum e) ::
        match e.value with
        | [] => [.breaks .emptyEnum]
        | v :: _ =>
            if !isOldest file && v.number.getD 0 != 0 then [.breaks .nonzeroFirstValue] else []
  | .service name _ => [.declares name .service]
  | .oneof name | .field name .. | .enumValue name .. | .method name _ | .extension name .. =>
      [.declares name .member]

/-! ## The table -/

/-- Whether two declarations may share a name. -/
def Subject.shares : Subject → Subject → Bool
  | .package, .package => true
  | _, _ => false

/-- A table with the errors found while it was filled. -/
structure NameScan where
  table : NameTable := ∅
  errors : List LinkError := []

/-- The name of the file at a position. -/
def fileNameAt (files : List FileProto) (i : Nat) : String :=
  (files[i]?.bind (·.name)).getD ""

/-- One more finding, in the file at position `i`. -/
def NameScan.add (files : List FileProto) (i : Nat) (scan : NameScan) : Finding → NameScan
  | .breaks e => { scan with errors := scan.errors ++ [e] }
  | .declares name subject =>
      match scan.table[name]? with
      | none => { scan with table := scan.table.insert name ⟨i, subject⟩ }
      | some d =>
          if d.subject.shares subject then scan
          else
            let first := fileNameAt files d.file
            let e := if first = fileNameAt files i then LinkError.definedTwice name
              else .definedElsewhere name first
            { scan with errors := scan.errors ++ [e] }

/-- The table of all names of some files. -/
def scanNames (files : List FileProto) : NameScan :=
  files.zipIdx.foldl (fun scan (f, i) =>
    let earlier := (files.take i).map fun g => g.name.getD ""
    ((fileSites f).flatMap (findings earlier f)).foldl (NameScan.add files i) scan) {}

end AliasErasure
