import AliasErasure.Output.FileName

set_option autoImplicit false

/-! # Generated files and their settings -/

namespace AliasErasure

/-- The line at the top of every generated file. -/
def generatedHeader : String := "Code generated by protoc-gen-alias. DO NOT EDIT."

/-- Settings of generated files. -/
structure OutputConfig where
  /-- The text that indents a line by one level. -/
  indent : String := "  "
  includeComments : Bool := true
  /-- Files go to the directory of the import path for Go packages. -/
  importPaths : Bool := true
  /-- Output that no behaviour depends on is left out: the embedded descriptor. -/
  stripNonfunctional : Bool := false
  deriving DecidableEq, Repr

/-- A generated file. -/
structure GeneratedFile where
  name : String
  content : String
  deriving DecidableEq, Repr

end AliasErasure
