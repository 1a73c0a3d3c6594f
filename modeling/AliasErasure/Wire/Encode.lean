import AliasErasure.Wire.Layout
import AliasErasure.Wire.Record
import AliasErasure.Wire.Varint

set_option autoImplicit false

/-! # Writing records

Each occurrence is written as a key, which holds the field number and the wire type of the value,
followed by the value. Negative integers are sign-extended to 64 bits. Occurrences are written in
the order they have in the record.
-/

namespace AliasErasure.Wire

/-- The wire type of a value. -/
def Value.wireType : Value → WireType
  | .int32 _ | .int64 _ | .uint64 _ | .bool _ => .varint
  | .double _ => .fixed64
  | .text _ | .bytes _ | .int32s _ | .record _ => .lengthDelimited

/-- The key of a field: its number and, in the three lowest bits, the wire type. -/
def encodeKey (number : Nat) (wire : WireType) : List UInt8 :=
  Varint.encode (number * 8 + wire.code).toUInt64

/-- A 32-bit integer, sign-extended to 64 bits. -/
def encodeInt32 (n : Int32) : List UInt8 := Varint.encode n.toInt64.toUInt64

/-- The lowest `count` bytes of a number, the lowest one first. -/
def littleEndian : (count : Nat) → Nat → List UInt8
  | 0, _ => []
  | count + 1, n => (n % 256).toUInt8 :: littleEndian count (n / 256)

/-- Bytes with their number in front. -/
def encodeDelimited (bytes : List UInt8) : List UInt8 :=
  Varint.encode bytes.length.toUInt64 ++ bytes

/-- The UTF-8 form of a text. -/
def encodeText (s : String) : List UInt8 := s.toByteArray.data.toList

mutual

/-- The bytes of a value, without its key. -/
def encodeValue : Value → List UInt8
  | .int32 n => encodeInt32 n
  | .int64 n => Varint.encode n.toUInt64
  | .uint64 n => Varint.encode n
  | .bool b => Varint.encode (if b then 1 else 0)
  | .double x => littleEndian 8 x.bits.toNat
  | .text s => encodeDelimited (encodeText s)
  | .bytes b => encodeDelimited b
  | .int32s ns => encodeDelimited (ns.flatMap encodeInt32)
  | .record r => encodeDelimited (encodeRecord r)

/-- The bytes of a record. -/
def encodeRecord : List (Nat × Value) → List UInt8
  | [] => []
  | (number, value) :: rest =>
      encodeKey number value.wireType ++ encodeValue value ++ encodeRecord rest

end

end AliasErasure.Wire
