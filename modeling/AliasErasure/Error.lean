import AliasErasure.Wire.DecodeError

set_option autoImplicit false

/-! # Errors

Most errors end a whole run. A `mismatch` concerns one file only: its descriptor and its schema
model have different shapes, so nothing is generated for it while the other files go on
(`Error.isFileScoped`).
-/

namespace AliasErasure

/-- Where the schema model of a file and its descriptor differ, and how. -/
structure Mismatch where
  file : String
  /-- The name of the message and its position in the file. -/
  message : String × Nat
  /-- The name of the field and its position in the message, if one field is concerned. -/
  field : Option (String × Nat) := none
  details : String
  deriving DecidableEq, Repr

/-- A name with its position. -/
def Mismatch.place (p : String × Nat) : String := s!"{p.1}[{p.2}]"

/-- What can go wrong. -/
inductive Error where
  | fileWrite (path source : String)
  | directoryCreate (path source : String)
  | pathTraversal (path : String)
  | undecodable (e : Wire.DecodeError)
  | unlinkable (details : String)
  | unsupportedDialect (name : String)
  | mismatch (m : Mismatch)
  | invalidParameter (name details : String)
  | pluginsUnsupported
  deriving DecidableEq, Repr

namespace Error

/-- The text of an error. -/
def message : Error → String
  | .fileWrite path source => s!"failed to write file '{path}': {source}"
  | .directoryCreate path source => s!"failed to create directory '{path}': {source}"
  | .pathTraversal path => s!"path traversal detected: '{path}' would escape output directory"
  | .undecodable e => s!"failed to decode descriptor: {e.message}"
  | .unlinkable details => s!"failed to build file descriptor: {details}"
  | .unsupportedDialect name => s!"unsupported proto syntax: '{name}'"
  | .mismatch m =>
      let field := match m.field with
        | none => ""
        | some f => s!", field {Mismatch.place f}"
      s!"descriptor mirror mismatch in '{m.file}' at message {Mismatch.place m.message}{field}: " ++
        m.details
  | .invalidParameter name details => s!"invalid plugin parameter '{name}': {details}"
  | .pluginsUnsupported =>
      "plugins are not supported; use a dedicated gRPC plugin to generate service code"

/-- The text of the error that caused this one, if another one did. -/
def source? : Error → Option String
  | .fileWrite _ source | .directoryCreate _ source => some source
  | .undecodable e => some e.message
  | _ => none

/-- Whether the error concerns one file only. -/
def isFileScoped : Error → Bool
  | .mismatch _ => true
  | _ => false

end Error

end AliasErasure
