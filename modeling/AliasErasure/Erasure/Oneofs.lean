import AliasErasure.Erasure.Substitute
import AliasErasure.Schema.Build

set_option autoImplicit false

/-! # Oneofs left without members

A field that takes the place of a reference leaves its oneof, and a oneof may be left empty by
that. Empty oneofs are dropped from the message and from its descriptor, and the positions of the
others are moved up.
-/

namespace AliasErasure

open Descriptor (FieldProto MessageProto)

/-- Whether each of the first `count` oneofs has a member among the fields. -/
def usedOneofs (count : Nat) (fields : List Field) : List Bool :=
  (List.range count).map fun i => fields.any fun f => f.oneof == some i

/-- The position of the oneof `i` after unused ones are dropped; none if it is dropped itself, or
if there is no such oneof. -/
def newPosition? (used : List Bool) (i : Nat) : Option Nat :=
  if used[i]? = some true then some ((used.take i).count true) else none

/-- The elements at used positions. -/
def keepUsed {α : Type} (used : List Bool) (as : List α) : List α :=
  (as.zip used).filterMap fun (a, keep) => if keep then some a else none

/-- A field after unused oneofs are dropped. -/
def Field.renumber (used : List Bool) (f : Field) : Field :=
  { f with oneof := f.oneof.bind (newPosition? used) }

/-- The descriptor of a field after unused oneofs are dropped. -/
def renumberProto (used : List Bool) (f : FieldProto) : FieldProto :=
  { f with
    oneofIndex :=
      (f.oneofIndex.bind fun i => newPosition? used (oneofPosition i)).map oneofIndexOf }

/-- A message and its descriptor without their unused oneofs. -/
def pruneOneofs (m : Message) (raw : MessageProto) : Message × MessageProto :=
  let used := usedOneofs m.oneofs.length m.fields
  if used.all id then (m, raw)
  else
    ({ m with
        oneofs := keepUsed used m.oneofs
        fields := m.fields.map (·.renumber used) },
     { raw with
        oneofDecl := keepUsed used raw.oneofDecl
        field := raw.field.map (renumberProto used) })

end AliasErasure
