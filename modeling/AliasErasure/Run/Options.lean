import AliasErasure.Erasure.Marker
import AliasErasure.Error
import AliasErasure.Output.Config
import AliasErasure.Text.Blank

set_option autoImplicit false

/-! # Options of a run

The compiler passes options as one text: settings between commas, each a name and, after an equals
sign, a value. Blanks around a setting do not count, and empty settings are passed over. Of several
settings with one name the last one counts.
-/

namespace AliasErasure

/-- Which files are generated. -/
inductive Emit where
  | source
  | embedding
  | all
  deriving DecidableEq, Repr

/-- The options of a run. -/
structure Options where
  marker : String := defaultMarker
  output : OutputConfig := {}
  emit : Emit := .all
  /-- Resolved descriptors are linked before anything is generated. -/
  validate : Bool := false
  deriving DecidableEq, Repr

namespace Options

/-- A truth value of a setting; the empty text is true. -/
def truthValue (name value : String) : Except Error Bool :=
  if value = "" ∨ value = "true" then .ok true
  else if value = "false" then .ok false
  else .error (.invalidParameter name s!"expected true or false, got '{value}'")

/-- The options after one more setting. -/
def set (o : Options) (name value : String) : Except Error Options :=
  match name with
  | "paths" =>
      match value with
      | "import" => .ok { o with output := { o.output with importPaths := true } }
      | "source_relative" => .ok { o with output := { o.output with importPaths := false } }
      | _ => .error (.invalidParameter name s!"unknown path type '{value}'")
  | "emit" =>
      match value with
      | "proto" => .ok { o with emit := .source }
      | "embed" => .ok { o with emit := .embedding }
      | "all" => .ok { o with emit := .all }
      | _ => .error (.invalidParameter name s!"expected proto, embed or all, got '{value}'")
  | "alias_marker" =>
      if value = "" then .error (.invalidParameter name "marker must not be empty")
      else .ok { o with marker := value }
  | "validate" => (truthValue name value).map fun b => { o with validate := b }
  | "experimental_strip_nonfunctional_codegen" =>
      (truthValue name value).map fun b =>
        { o with output := { o.output with stripNonfunctional := b } }
  | "plugins" => if value = "" then .ok o else .error .pluginsUnsupported
  | _ => .error (.invalidParameter name "unknown parameter")

/-- The settings of a parameter text, as names and values. A setting without an equals sign has the
empty value. -/
def settings (parameter : String) : List (String × String) :=
  let texts := (Text.splitAt ',' parameter.toList).map Text.trimBlanks
  (texts.filter (· ≠ [])).map fun cs =>
    match Text.cut? '=' cs with
    | some (name, value) => (String.ofList name, String.ofList value)
    | none => (String.ofList cs, "")

/-- The options that settings lead to from given ones, up to the first error. -/
def setAll (o : Options) : List (String × String) → Except Error Options
  | [] => .ok o
  | (name, value) :: rest =>
      match o.set name value with
      | .ok o => o.setAll rest
      | .error e => .error e

/-- **The options that a parameter text stands for.** -/
def parse (parameter : String) : Except Error Options := setAll {} (settings parameter)

end Options

end AliasErasure
