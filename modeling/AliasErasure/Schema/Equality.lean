import AliasErasure.Descriptor.Records
import AliasErasure.Schema.Types

set_option autoImplicit false

/-! # Sameness of files

Two files are the same when they agree in all parts, the descriptor included. Doubles in options
are compared as numbers, so a file that holds a NaN is not the same as itself.
-/

namespace AliasErasure

open Wire Descriptor

/-- Sameness of options that may be unset. -/
def sameOptions : Option FieldOptions → Option FieldOptions → Bool
  | none, none => true
  | some a, some b => sameOccurrences a.toRecord b.toRecord
  | _, _ => false

/-- Sameness of fields. -/
def Field.same (a b : Field) : Bool :=
  sameOptions a.options b.options && { a with options := none } == { b with options := none }

/-- Sameness of lists, given that of their elements. -/
def sameList {α : Type} (same : α → α → Bool) : List α → List α → Bool
  | [], [] => true
  | a :: as, b :: bs => same a b && sameList same as bs
  | _, _ => false

mutual

/-- Sameness of messages. -/
def Message.same : Message → Message → Bool
  | a@{ nested := nested, .. }, b =>
      a.name == b.name && a.fullName == b.fullName && a.comments == b.comments &&
        a.marked == b.marked && a.mapEntry == b.mapEntry && sameList Field.same a.fields b.fields &&
        a.oneofs == b.oneofs && sameMessages nested b.nested && a.enums == b.enums

/-- Sameness of lists of messages. -/
def sameMessages : List Message → List Message → Bool
  | [], [] => true
  | a :: as, b :: bs => a.same b && sameMessages as bs
  | _, _ => false

end

/-- Sameness of files. -/
def File.same (a b : File) : Bool :=
  a.name == b.name && a.package == b.package && a.dialect == b.dialect &&
    a.generate == b.generate && sameMessages a.messages b.messages && a.enums == b.enums &&
    sameMessages a.aliases b.aliases && sameOccurrences a.proto.toRecord b.proto.toRecord

end AliasErasure
