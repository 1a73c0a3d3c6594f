import AliasErasure.Erasure.Oneofs
import AliasErasure.Erasure.Partition
import AliasErasure.Schema.Index

set_option autoImplicit false

/-! # Erasing the aliases of a file

Every field of a message that stays, if it refers to an alias that can be erased, takes over the
alias's payload (`Field.substitute`), in the model and in the descriptor. After that the aliases
go (`partitionPairs`).

Payloads are always taken from the schema, never from a file under way, so neither the order of
files nor that of fields matters. One level is resolved: a payload that refers to an alias is
taken over as it is, and a field that has taken over a payload is never changed again.

The model and the descriptor of a file correspond by position. Where they do not, the file has a
`mismatch?` and nothing is made of it; all that follows is then a matter of maps over pairs.
-/

namespace AliasErasure

open Descriptor (FieldProto MessageProto)

/-! ## References to aliases -/

/-- The alias that a field refers to, with its payload. -/
def Schema.aliasTarget? (s : Schema) (f : Field) : Option (Message × Field) :=
  if f.kind = .message ∧ f.viaAlias = none then
    match f.message.bind s.message? with
    | some target => target.erasablePayload?.map fun payload => (target, payload)
    | none => none
  else none

/-- Whether a field refers to an alias. -/
def Schema.refersToAlias (s : Schema) (f : Field) : Bool := (s.aliasTarget? f).isSome

/-- Whether a field of the message that refers to an alias stands in a oneof. -/
def Schema.emptiesOneofs (s : Schema) (m : Message) : Bool :=
  m.fields.any fun f => s.refersToAlias f && f.oneof.isSome

/-! ## Mismatches -/

/-- Why the descriptor has no counterpart for the field at position `j`, a field that refers to an
alias. Fields that do not are not looked at. -/
def Schema.fieldMismatch? (s : Schema) (file : String) (m : Message) (i : Nat)
    (raw : MessageProto) (f : Field) (j : Nat) : Option Mismatch :=
  if s.refersToAlias f then
    match raw.field[j]? with
    | none => some ⟨file, (m.name, i), some (f.name, j),
        s!"raw message has {raw.field.length} field(s)"⟩
    | some r =>
        if r.name.getD "" = f.name then none
        else some ⟨file, (m.name, i), some (f.name, j),
          "raw field is named '" ++ r.name.getD "" ++ "'"⟩
  else none

/-- Why a message and its descriptor at position `i` do not correspond: by their names, by the
first field that has no counterpart, or by the number of oneofs if those have to be changed. -/
def Schema.messageMismatch? (s : Schema) (file : String) (m : Message) (i : Nat)
    (raw : MessageProto) : Option Mismatch :=
  if raw.name.getD "" ≠ m.name then
    some ⟨file, (m.name, i), none, "raw message is named '" ++ raw.name.getD "" ++ "'"⟩
  else
    match m.fields.zipIdx.findSome? fun (f, j) => s.fieldMismatch? file m i raw f j with
    | some mismatch => some mismatch
    | none =>
        if s.emptiesOneofs m ∧ raw.oneofDecl.length ≠ m.oneofs.length then
          some ⟨file, (m.name, i), none,
            s!"{m.oneofs.length} semantic oneofs but {raw.oneofDecl.length} raw oneofs"⟩
        else none

/-- The messages of a file paired with their descriptors, and their positions. -/
def File.pairs (f : File) : List ((Message × MessageProto) × Nat) :=
  (f.messages.zip f.proto.messageType).zipIdx

/-- Why a message that stays does not correspond to its descriptor. Aliases that go are not
looked at. -/
def Schema.pairMismatch? (s : Schema) (file : String) :
    (Message × MessageProto) × Nat → Option Mismatch
  | ((m, raw), i) => if m.isErasable then none else s.messageMismatch? file m i raw

/-- Why a file and its descriptor do not correspond: by the number of messages, or by the first
message that stays and has a mismatch. -/
def Schema.mismatch? (s : Schema) (f : File) : Option Mismatch :=
  if f.messages.length ≠ f.proto.messageType.length then
    some (messageCountMismatch f.name f.messages.length f.proto.messageType.length)
  else f.pairs.findSome? (s.pairMismatch? f.name)

/-! ## Fields and messages -/

/-- A field, with the payload of the alias it refers to if there is one. -/
def Schema.resolveField (s : Schema) (f : Field) : Field :=
  match s.aliasTarget? f with
  | some (target, payload) => f.substitute payload target.ident
  | none => f

/-- The descriptor of a field, brought in line with the resolved field if that has changed. -/
def Schema.resolveFieldProto (s : Schema) (f : Field) (raw : FieldProto) : FieldProto :=
  if s.refersToAlias f then (s.resolveField f).synchronize raw else raw

/-- The descriptors of the fields of a message; those beyond the last field stay as they are. -/
def Schema.resolveFieldProtos (s : Schema) : List Field → List FieldProto → List FieldProto
  | f :: fs, raw :: rest => s.resolveFieldProto f raw :: s.resolveFieldProtos fs rest
  | _, rest => rest

/-- A message that stays and its descriptor, with all fields resolved. -/
def Schema.resolveMessage (s : Schema) (m : Message) (raw : MessageProto) :
    Message × MessageProto :=
  let resolved := { m with fields := m.fields.map s.resolveField }
  let resolvedRaw := { raw with field := s.resolveFieldProtos m.fields raw.field }
  if s.emptiesOneofs m then pruneOneofs resolved resolvedRaw else (resolved, resolvedRaw)

/-- A message and its descriptor, resolved unless the message is about to go. -/
def Schema.resolvePair (s : Schema) (p : Message × MessageProto) : Message × MessageProto :=
  if p.1.isErasable then p else s.resolveMessage p.1 p.2

/-! ## Files -/

/-- What is left of a file's messages after all fields have been resolved. -/
def Schema.survivors (s : Schema) (f : File) : Partition :=
  partitionPairs ((f.messages.zip f.proto.messageType).map s.resolvePair)

/-- **The file without its aliases.** Source locations are dropped if an alias goes, because the
paths in them count the messages of the file. -/
def Schema.resolve (s : Schema) (f : File) : Except Error File :=
  match s.mismatch? f with
  | some mismatch => .error (.mismatch mismatch)
  | none =>
      let rest := s.survivors f
      .ok { f with
        messages := rest.messages
        aliases := f.aliases ++ rest.aliases
        proto := { f.proto with
          messageType := rest.raw
          sourceCodeInfo := if rest.aliases.isEmpty then f.proto.sourceCodeInfo else none } }

end AliasErasure
