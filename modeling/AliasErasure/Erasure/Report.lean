import AliasErasure.Erasure.Resolve

set_option autoImplicit false

/-! # What is reported while a file is resolved

Messages are gone through in order, and the fields of each in order. A mismatch ends the report
where it is found.
-/

namespace AliasErasure

open Descriptor (MessageProto)

/-- The name of the alias that a payload refers to in turn, if it does. -/
def Schema.chained? (s : Schema) (payload : Field) : Option String :=
  if payload.kind = .message then
    match payload.message.bind s.message? with
    | some inner => if inner.isErasable then payload.message else none
    | none => none
  else none

/-- What is reported about a field that takes over a payload. -/
def Schema.fieldEvents (s : Schema) (file : String) (m : Message) (f : Field) : List Event :=
  match s.aliasTarget? f with
  | none => []
  | some (target, payload) =>
      let place := s!"{file}: {m.name}.{f.name}"
      let chain := match s.chained? payload with
        | none => []
        | some inner =>
            let rule := "which is itself an alias; only one level is resolved"
            [Event.warn s!"{place} resolves to {inner} {rule}"]
      chain ++ [Event.trace s!"{place} -> {payload.kind.title} (alias {target.name})"]

/-- What is reported when oneofs of a message are dropped. -/
def Schema.oneofEvents (s : Schema) (file : String) (m : Message) (raw : MessageProto) :
    List Event :=
  let kept := (s.resolveMessage m raw).1.oneofs.length
  if s.emptiesOneofs m ∧ kept ≠ m.oneofs.length then
    [Event.trace s!"{file}: {m.name} keeps {kept} of {m.oneofs.length} oneof(s)"]
  else []

/-- What is reported about a message, up to its mismatch if it has one. -/
def Schema.messageEvents (s : Schema) (file : String) :
    (Message × MessageProto) × Nat → List Event
  | ((m, raw), i) =>
      if m.isErasable ∨ raw.name.getD "" ≠ m.name then []
      else
        let matching := m.fields.zipIdx.takeWhile fun (f, j) =>
          (s.fieldMismatch? file m i raw f j).isNone
        matching.flatMap (fun (f, _) => s.fieldEvents file m f) ++
          if (s.messageMismatch? file m i raw).isNone then s.oneofEvents file m raw else []

/-- How many fields of the messages that stay take over a payload. -/
def Schema.resolvedCount (s : Schema) (f : File) : Nat :=
  (f.messages.filter fun m => !m.isErasable).foldl
    (fun count m => count + m.fields.countP s.refersToAlias) 0

/-- What is reported while a file is resolved. -/
def Schema.resolveEvents (s : Schema) (f : File) : List Event :=
  if f.messages.length ≠ f.proto.messageType.length then []
  else
    let matching := f.pairs.takeWhile fun p => (s.pairMismatch? f.name p).isNone
    matching.flatMap (s.messageEvents f.name) ++
      match f.pairs.drop matching.length with
      | failing :: _ => s.messageEvents f.name failing
      | [] =>
          let resolved := f.pairs.map fun p => s.resolvePair p.1
          let gone := (resolved.filter fun p => p.1.isErasable).length
          let counts := s!"rewrote {s.resolvedCount f} field(s), consumed {gone} alias message(s)"
          partitionEvents f.name (resolved.map (·.1)) (resolved.map (·.2)) ++
            [Event.debug s!"{f.name}: {counts}"]

end AliasErasure
