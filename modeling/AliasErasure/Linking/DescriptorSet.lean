import AliasErasure.Descriptor.Layout
import AliasErasure.Descriptor.Records
import AliasErasure.Wire.Decode
import AliasErasure.Wire.Encode

set_option autoImplicit false

/-! # Descriptor sets

Descriptors are handed to the linker as one set, in its wire form. All values of a descriptor can be
read back, so what can fail is the nesting alone: messages may be nested in each other until the
limit of the reader is reached. What options mean is not known at this point, so their fields are
skipped, and a skipped field counts as one more level.
-/

namespace AliasErasure

open Wire Descriptor

/-- The layout of descriptors whose options are not looked into. -/
def setLayout : Layout MessageType where
  title := MessageType.title
  fields m := if m.isOptions then [] else m.fields

/-- The record of a set of descriptors. -/
def setRecord (files : List FileProto) : Record :=
  .occurrences 1 (files.map fun f => .record f.toRecord)

/-- Whether a set of descriptors can be read back from its wire form. -/
def isReadableSet (files : List FileProto) : Bool :=
  (decode setLayout .fileSet (encodeRecord (setRecord files))).isOk

end AliasErasure
