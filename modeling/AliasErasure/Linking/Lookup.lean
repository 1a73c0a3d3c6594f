import AliasErasure.Linking.Names

set_option autoImplicit false

/-! # Looking up references

A reference with a leading dot is a qualified name. Any other is searched in the scope where it
stands, then in each scope around it, and last at the root. A simple name is the first declaration
of the right sort that is found on the way. Of a dotted name, the first part alone is searched
like this, among packages and declarations that contain others, and the scope where it is found
decides.

Only declarations of visible files count: those of the file itself, of the files it imports, and
of the files that these pass on. A file passes on what it imports publicly. Something passed on
passes on in its turn only if it was visible already, by another path or because the same file
stands twice among the public imports.
-/

namespace AliasErasure

open Descriptor

/-! ## Visible files -/

/-- The position of the file with a name. -/
def filePosition? (files : List FileProto) (name : String) : Option Nat :=
  files.findIdx? fun f => f.name.getD "" == name

/-- The imports of a file that it lists as public, by their positions, in the order of imports.
Listing a position twice makes no difference; a file that stands twice among the imports counts
twice if both positions are listed. -/
def publicImports (f : FileProto) : List String :=
  f.dependency.zipIdx.filterMap fun (name, i) =>
    if f.publicDependency.any (·.toInt == i) then some name else none

/-- The positions of the files that the file at position `i` imports publicly. -/
def publicPositions (files : List FileProto) (i : Nat) : List Nat :=
  ((files[i]?.map publicImports).getD []).filterMap (filePosition? files)

/-- The positions in `seen`, and those of the files that the file at position `i` passes on. A file
that is passed on passes on others in its turn only if it is seen already. The first argument
bounds how often this is followed; without cycles of imports the number of files is enough. -/
def passedOn (files : List FileProto) : (bound : Nat) → List Nat → Nat → List Nat
  | 0, seen, _ => seen
  | bound + 1, seen, i =>
      (publicPositions files i).foldl (fun seen j =>
        if seen.contains j then passedOn files bound seen j else j :: seen) seen

/-- The positions of the files that are visible from the file at position `i`: the file itself, each
of its imports, and after each what this import passes on. -/
def visibleFiles (files : List FileProto) (i : Nat) : List Nat :=
  let imports := ((files[i]?.map (·.dependency)).getD []).filterMap (filePosition? files)
  imports.foldl (fun seen j => passedOn files files.length (j :: seen) j) [i]

/-! ## Lookup -/

/-- What references are checked against. -/
structure LinkContext where
  table : NameTable
  visible : List Nat

/-- The outcome of a lookup. -/
inductive Lookup where
  | found (name : String) (subject : Subject)
  | wrongSort (name : String)
  | hidden (name : String)
  | shadowed (name : String)
  | missing

/-- Looks up a qualified name without its leading dot. -/
def lookupQualified (ctx : LinkContext) (accepts : Subject → Bool) (name : String) : Lookup :=
  match ctx.table[name]? with
  | none => .missing
  | some d =>
      if !ctx.visible.contains d.file then .hidden name
      else if accepts d.subject then .found name d.subject
      else .wrongSort name

/-- The scope itself and the scopes around it, down to the root, which has the empty name. -/
def scopesFrom (scope : String) : List String :=
  let parts := Text.splitAt '.' scope.toList
  let inner := (List.range parts.length).map fun k =>
    String.ofList (['.'].intercalate (parts.take (parts.length - k)))
  if scope = "" then [""] else inner ++ [""]

/-- A name, simple or dotted, as it is qualified in a scope. -/
def inScope (scope name : String) : String := scopedName scope (some name)

/-- Whether a declaration can contain others. -/
def Subject.contains : Subject → Bool
  | .package | .message _ | .enum _ | .service => true
  | .member => false

/-- Looks up a simple name in some scopes. If none of them has the right sort of declaration, the
first declaration of another sort, or of a hidden file, is the outcome. -/
def lookupSimple (ctx : LinkContext) (accepts : Subject → Bool) (name : String) :
    List String → Lookup
  | [] => .missing
  | scope :: outer =>
      match lookupQualified ctx accepts (inScope scope name) with
      | .missing => lookupSimple ctx accepts name outer
      | .found full subject => .found full subject
      | other =>
          match lookupSimple ctx accepts name outer with
          | .found full subject => .found full subject
          | _ => other

/-- Looks up a dotted name, whose first part is `first`, in some scopes. -/
def lookupDotted (ctx : LinkContext) (accepts : Subject → Bool) (first name : String) :
    List String → Lookup
  | [] => .missing
  | scope :: outer =>
      match (ctx.table[inScope scope first]?).map (·.subject.contains) with
      | some true =>
          match lookupQualified ctx accepts (inScope scope name) with
          | .missing => .shadowed (inScope scope name)
          | outcome => outcome
      | _ => lookupDotted ctx accepts first name outer

/-- Looks up a reference that stands in `scope`. -/
def lookup (ctx : LinkContext) (accepts : Subject → Bool) (scope name : String) : Lookup :=
  match name.toList with
  | '.' :: rest => lookupQualified ctx accepts (String.ofList rest)
  | cs =>
      match Text.cut? '.' cs with
      | none => lookupSimple ctx accepts name (scopesFrom scope)
      | some (first, _) =>
          if scope = "" then lookupQualified ctx accepts name
          else lookupDotted ctx accepts (String.ofList first) name (scopesFrom scope)

end AliasErasure
