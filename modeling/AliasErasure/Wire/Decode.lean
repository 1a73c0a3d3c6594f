import AliasErasure.Wire.DecodeError
import AliasErasure.Wire.Record
import AliasErasure.Wire.Varint

set_option autoImplicit false

/-! # Reading records

A reader is driven by a layout. Occurrences of fields that the layout does not have are skipped.
Lengths are checked against everything that is left of the input, not only against the enclosing
message: a field may reach past the end of its message, and this is noticed when the message ends
(`lengthExceeded`).

Two things bound the recursion. The nesting of sub-messages, and of groups among the skipped
fields, is limited to `recursionLimit`; the readers recurse on what is left of this limit. The
occurrences of one message are read by a loop that consumes at least one byte each time round, so
the number of bytes left bounds its rounds.
-/

namespace AliasErasure.Wire

/-- How deep sub-messages may be nested. -/
def recursionLimit : Nat := 100

/-! ## Single items -/

/-- A base-128 number. -/
def readVarint (input : List UInt8) : Except DecodeCause (UInt64 × List UInt8) :=
  match Varint.decode input with
  | some result => .ok result
  | none => .error .invalidVarint

/-- A field's key: its number and the wire type of the value that follows. -/
def readKey (input : List UInt8) : Except DecodeCause ((Nat × WireType) × List UInt8) := do
  let (key, rest) ← readVarint input
  if key.toNat < 0x100000000 then
    match WireType.ofCode? (key.toNat % 8) with
    | none => .error (.invalidWireType (key.toNat % 8))
    | some wire =>
        if key.toNat / 8 = 0 then .error .invalidTag else .ok ((key.toNat / 8, wire), rest)
  else .error (.invalidKey key)

/-- The next `count` bytes. -/
def readBytes (count : Nat) (input : List UInt8) :
    Except DecodeCause (List UInt8 × List UInt8) :=
  if count ≤ input.length then .ok (input.take count, input.drop count)
  else .error .bufferUnderflow

/-- A length and as many bytes. -/
def readDelimited (input : List UInt8) : Except DecodeCause (List UInt8 × List UInt8) := do
  let (length, rest) ← readVarint input
  readBytes length.toNat rest

/-- The number whose bytes are given, the lowest one first. -/
def ofLittleEndian : List UInt8 → Nat
  | [] => 0
  | b :: rest => b.toNat + 256 * ofLittleEndian rest

/-- The text whose UTF-8 form is given. -/
def decodeText? (bytes : List UInt8) : Option String := String.fromUTF8? ⟨bytes.toArray⟩

/-- A wire type other than the expected one is an error. -/
def expectWire (expected found : WireType) : Except DecodeCause Unit :=
  if found = expected then .ok () else .error (.wireTypeMismatch found expected)

/-! ## Skipped fields -/

/-- Skips the fields of a group up to its end, whose key bears the number of the group. -/
def skipGroup (skip : WireType → Nat → List UInt8 → Except DecodeCause (List UInt8))
    (number : Nat) : (rounds : Nat) → List UInt8 → Except DecodeCause (List UInt8)
  | 0, _ => .error .invalidVarint
  | rounds + 1, input => do
      let ((n, wire), rest) ← readKey input
      if wire = .endGroup then
        if n = number then .ok rest else .error .strayEndGroup
      else
        skipGroup skip number rounds (← skip wire n rest)

/-- Skips the value of a field of which the key has been read. -/
def skipValue : (depth : Nat) → WireType → Nat → List UInt8 → Except DecodeCause (List UInt8)
  | 0, _, _, _ => .error .recursionLimit
  | depth + 1, wire, number, input =>
      match wire with
      | .varint => (readVarint input).map (·.2)
      | .fixed64 => (readBytes 8 input).map (·.2)
      | .fixed32 => (readBytes 4 input).map (·.2)
      | .lengthDelimited => (readDelimited input).map (·.2)
      | .startGroup => skipGroup (skipValue depth) number input.length input
      | .endGroup => .error .strayEndGroup

/-! ## Items up to a limit -/

/-- Collects items until at most `limit` bytes are left. -/
def readUntil {ε α : Type} (item : List UInt8 → Except ε (List α × List UInt8)) (limit : Nat) :
    (rounds : Nat) → List UInt8 → Except ε (List α × List UInt8)
  | 0, input => .ok ([], input)
  | rounds + 1, input =>
      if input.length ≤ limit then .ok ([], input)
      else do
        let (first, rest) ← item input
        let (others, rest) ← readUntil item limit rounds rest
        .ok (first ++ others, rest)

/-- A length, and items that take up exactly as many bytes. -/
def readSection {α : Type} (item : List UInt8 → Except DecodeError (List α × List UInt8))
    (input : List UInt8) : Except DecodeError (List α × List UInt8) := do
  let (length, rest) ← (readVarint input).mapError (⟨·, []⟩)
  if length.toNat ≤ rest.length then
    let limit := rest.length - length.toNat
    let (items, rest) ← readUntil item limit rest.length rest
    if rest.length = limit then .ok (items, rest) else .error ⟨.lengthExceeded, []⟩
  else .error ⟨.bufferUnderflow, []⟩

/-! ## Values and occurrences -/

/-- A value of a scalar type. -/
def readScalar (input : List UInt8) : ScalarType → Except DecodeCause (Value × List UInt8)
  | .int32 => (readVarint input).map fun (n, rest) => (.int32 n.toUInt32.toInt32, rest)
  | .int64 => (readVarint input).map fun (n, rest) => (.int64 n.toInt64, rest)
  | .uint64 => (readVarint input).map fun (n, rest) => (.uint64 n, rest)
  | .bool => (readVarint input).map fun (n, rest) => (.bool (n != 0), rest)
  | .double => (readBytes 8 input).map fun (b, rest) =>
      (.double ⟨(ofLittleEndian b).toUInt64⟩, rest)
  | .text => do
      let (b, rest) ← readDelimited input
      match decodeText? b with
      | some s => .ok (.text s, rest)
      | none => .error .invalidText
  | .bytes => (readDelimited input).map fun (b, rest) => (.bytes b, rest)

/-- One number of a packed list. -/
def readPackedItem (input : List UInt8) : Except DecodeError (List Int32 × List UInt8) :=
  match readVarint input with
  | .ok (n, rest) => .ok ([n.toUInt32.toInt32], rest)
  | .error cause => .error ⟨cause, []⟩

/-- The value of a field of which the key has been read. A repeated field of 32-bit integers also
takes a packed list. `sub` reads a sub-message, its length included. -/
def readValue {M : Type} (sub : M → List UInt8 → Except DecodeError (Record × List UInt8))
    (f : FieldLayout M) (wire : WireType) (input : List UInt8) :
    Except DecodeError (Value × List UInt8) :=
  match f.type with
  | .scalar s =>
      if f.repeated ∧ s = .int32 ∧ wire = .lengthDelimited then
        (readSection readPackedItem input).map fun (ns, rest) => (.int32s ns, rest)
      else
        match expectWire s.wireType wire with
        | .ok _ => (readScalar input s).mapError (⟨·, []⟩)
        | .error cause => .error ⟨cause, []⟩
  | .message m =>
      match expectWire .lengthDelimited wire with
      | .ok _ => (sub m input).map fun (r, rest) => (.record r, rest)
      | .error cause => .error ⟨cause, []⟩

/-- The next occurrence of a field of `m`, as a list that is empty for a skipped one. -/
def readOccurrence {M : Type} (L : Layout M) (depth : Nat)
    (sub : M → List UInt8 → Except DecodeError (Record × List UInt8)) (m : M)
    (input : List UInt8) : Except DecodeError (Record × List UInt8) := do
  let ((number, wire), rest) ← (readKey input).mapError (⟨·, []⟩)
  match L.field? m number with
  | none =>
      let rest ← (skipValue depth wire number rest).mapError (⟨·, []⟩)
      .ok ([], rest)
  | some f =>
      let (value, rest) ← (readValue sub f wire rest).mapError (.within (L.title m) f.name)
      .ok ([(number, value)], rest)

/-- The next occurrence of a field of a message that stands `depth` levels above the limit. -/
def readField {M : Type} (L : Layout M) :
    (depth : Nat) → M → List UInt8 → Except DecodeError (Record × List UInt8)
  | 0 => readOccurrence L 0 fun _ _ => .error ⟨.recursionLimit, []⟩
  | depth + 1 => readOccurrence L (depth + 1) fun m => readSection (readField L depth m)

/-- **The record that `bytes` are the wire form of**, read as a message of type `m`. -/
def decode {M : Type} (L : Layout M) (m : M) (bytes : List UInt8) : Except DecodeError Record :=
  (readUntil (readField L recursionLimit m) 0 bytes.length bytes).map (·.1)

end AliasErasure.Wire
