import AliasErasure.Error
import AliasErasure.Event
import AliasErasure.Linking.DescriptorSet
import AliasErasure.Linking.OptionContents

set_option autoImplicit false

/-! # Linking

Descriptors link when no rule is broken. The rules are checked in four rounds: the descriptors can
be read as one set, all names are in order, all references are, and the contents of options agree
with their types. A round is only begun when those before it have found nothing, and the first error
counts.
-/

namespace AliasErasure

open Descriptor

/-- The errors of the first round that finds any. -/
def linkErrors (files : List FileProto) : List LinkError :=
  let scan := scanNames files
  if !isReadableSet files then [.unreadable]
  else if !scan.errors.isEmpty then scan.errors
  else
    match referenceErrors files scan.table with
    | [] => optionErrors files scan.table
    | errors => errors

/-- The qualified names of all messages, in order. -/
def messageNames (files : List FileProto) : List String :=
  (files.flatMap fileSites).filterMap fun
    | .message name _ => some name
    | _ => none

/-- **The names of the messages of some files, if they link.** -/
def link (files : List FileProto) : Except Error (List String) :=
  match linkErrors files with
  | [] => .ok (messageNames files)
  | e :: _ => .error (.unlinkable s!"failed to decode descriptor pool: {e.message}")

/-- What is reported about files that have been linked. -/
def linkEvents (files : List FileProto) : List Event :=
  match linkErrors files with
  | [] => [Event.debug s!"Validated {files.length} file(s)"]
  | _ => []

end AliasErasure
