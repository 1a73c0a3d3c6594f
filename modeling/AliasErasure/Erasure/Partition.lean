import AliasErasure.Erasure.Payload
import AliasErasure.Error
import AliasErasure.Event

set_option autoImplicit false

/-! # Messages that stay and aliases that go

The messages of a file are cut together with their descriptors: one decision for each position
takes a message and its descriptor out, or keeps both.
-/

namespace AliasErasure

open Descriptor (MessageProto)

/-- The outcome of a partition. -/
structure Partition where
  /-- The messages that stay. -/
  messages : List Message := []
  /-- Their descriptors, position by position. -/
  raw : List MessageProto := []
  /-- The aliases that go. -/
  aliases : List Message := []

/-- The name that stands for the file itself where an error names a message. -/
def wholeFile : String := "<file>"

/-- The error of two lists of messages of different lengths. -/
def messageCountMismatch (file : String) (messages raw : Nat) : Mismatch where
  file := file
  message := (wholeFile, min messages raw)
  details := s!"{messages} semantic messages but {raw} raw messages"

/-- The partition of messages paired with their descriptors. -/
def partitionPairs (pairs : List (Message × MessageProto)) : Partition where
  messages := (pairs.filter fun p => !p.1.isErasable).map (·.1)
  raw := (pairs.filter fun p => !p.1.isErasable).map (·.2)
  aliases := (pairs.filter fun p => p.1.isErasable).map (·.1)

/-- The partition of messages and their descriptors, which must be equally many. -/
def partitionMessages (file : String) (messages : List Message) (raw : List MessageProto) :
    Except Error Partition :=
  if messages.length = raw.length then .ok (partitionPairs (messages.zip raw))
  else .error (.mismatch (messageCountMismatch file messages.length raw.length))

/-- What is reported about one message of a partition. -/
def partitionEventsOf (file : String) (m : Message) : List Event :=
  if m.isErasable then [Event.debug s!"{file}: consuming alias message {m.fullName}"]
  else
    match m.payload? with
    | some payload =>
        let typeName := payload.typeName?.getD ""
        let reason := s!"payload type {typeName} is declared inside it"
        [Event.warn s!"{file}: keeping alias {m.fullName}: {reason}"]
    | none => []

/-- What is reported about a partition. -/
def partitionEvents (file : String) (messages : List Message) (raw : List MessageProto) :
    List Event :=
  if messages.length = raw.length then messages.flatMap (partitionEventsOf file) else []

end AliasErasure
