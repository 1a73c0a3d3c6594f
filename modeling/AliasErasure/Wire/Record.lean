set_option autoImplicit false

/-! # Records

A message on the wire is a sequence of field occurrences, each a field number with a value. A
`Record` is this sequence. Nothing is merged in it: that the last occurrence of a scalar wins,
that the occurrences of a sub-message merge, and that a repeated field collects all of its
occurrences is what the views `last?`, `merged?` and `all` say. Appending two records is
therefore the same as merging the messages they stand for.
-/

namespace AliasErasure.Wire

/-- A double-precision number, kept as its IEEE bits. -/
structure Double where
  bits : UInt64
  deriving DecidableEq, Repr

namespace Double

/-- Whether the bits are those of a NaN. -/
def isNaN (x : Double) : Bool := (x.bits &&& 0x7fffffffffffffff) > 0x7ff0000000000000

/-- Whether the bits are those of a zero of either sign. -/
def isZero (x : Double) : Bool := (x.bits &&& 0x7fffffffffffffff) == 0

/-- Numeric equality: a NaN equals nothing, and the two zeros are equal. -/
def same (x y : Double) : Bool :=
  !x.isNaN && !y.isNaN && (x.bits == y.bits || (x.isZero && y.isZero))

end Double

/-- The value of one field occurrence; `int32s` is a packed list. -/
inductive Value where
  | int32 (n : Int32)
  | int64 (n : Int64)
  | uint64 (n : UInt64)
  | bool (b : Bool)
  | double (x : Double)
  | text (s : String)
  | bytes (b : List UInt8)
  | int32s (ns : List Int32)
  | record (occurrences : List (Nat × Value))

instance : Inhabited Value := ⟨.bool false⟩

/-- The field occurrences of a message, in the order they stand on the wire. -/
abbrev Record := List (Nat × Value)

/-! ## Values as the kinds a reader expects -/

namespace Value

def asInt32? : Value → Option Int32
  | .int32 n => some n
  | _ => none

def asInt64? : Value → Option Int64
  | .int64 n => some n
  | _ => none

def asUInt64? : Value → Option UInt64
  | .uint64 n => some n
  | _ => none

def asBool? : Value → Option Bool
  | .bool b => some b
  | _ => none

def asDouble? : Value → Option Double
  | .double x => some x
  | _ => none

def asText? : Value → Option String
  | .text s => some s
  | _ => none

def asBytes? : Value → Option (List UInt8)
  | .bytes b => some b
  | _ => none

def asRecord? : Value → Option Record
  | .record r => some r
  | _ => none

/-- The numbers an occurrence adds to a list of 32-bit integers, packed or not. -/
def int32sOf : Value → List Int32
  | .int32 n => [n]
  | .int32s ns => ns
  | _ => []

end Value

/-! ## Equality of values

Two values are the same when they are equal with numeric equality on doubles, so a record that
holds a NaN is not the same as itself. -/

mutual

def Value.same : Value → Value → Bool
  | .int32 a, .int32 b => a == b
  | .int64 a, .int64 b => a == b
  | .uint64 a, .uint64 b => a == b
  | .bool a, .bool b => a == b
  | .double a, .double b => a.same b
  | .text a, .text b => a == b
  | .bytes a, .bytes b => a == b
  | .int32s a, .int32s b => a == b
  | .record a, .record b => sameOccurrences a b
  | _, _ => false

def sameOccurrences : List (Nat × Value) → List (Nat × Value) → Bool
  | [], [] => true
  | (m, a) :: as, (n, b) :: bs => m == n && a.same b && sameOccurrences as bs
  | _, _ => false

end

/-! ## Views of a record -/

namespace Record

/-- The values of the occurrences of a field, in order. -/
def all (r : Record) (number : Nat) : List Value :=
  r.filterMap fun (n, v) => if n = number then some v else none

/-- The value that counts for a field that may stand once: the last one. -/
def last? {α : Type} (r : Record) (number : Nat) (as? : Value → Option α) : Option α :=
  ((r.all number).filterMap as?).getLast?

/-- The values of a repeated field. -/
def list {α : Type} (r : Record) (number : Nat) (as? : Value → Option α) : List α :=
  (r.all number).filterMap as?

/-- The merged sub-message of a field that may stand once. -/
def merged? (r : Record) (number : Nat) : Option Record :=
  match (r.all number).filterMap Value.asRecord? with
  | [] => none
  | first :: others => some (first ++ others.flatten)

/-- The numbers of a repeated field of 32-bit integers. -/
def int32s (r : Record) (number : Nat) : List Int32 := (r.all number).flatMap Value.int32sOf

/-- The occurrences of a field with the given values. -/
def occurrences (number : Nat) (values : List Value) : Record := values.map fun v => (number, v)

end Record

end AliasErasure.Wire
