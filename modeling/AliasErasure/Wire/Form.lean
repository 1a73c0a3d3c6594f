import AliasErasure.Wire.Layout
import AliasErasure.Wire.Record

set_option autoImplicit false

/-! # Forms

A form says how the values of a type are kept in records: which number each field has, how its
content is written, and how it is read. A form is one of a message type, and it holds the proofs
that the two agree: no form can be made that gives two fields one number, or a field another type
than the layout does.
-/

namespace AliasErasure.Wire

/-! ## Scalars -/

/-- The scalar types, each with the type of what its values hold. -/
inductive Scalar : Type → Type where
  | int32 : Scalar Int32
  | int64 : Scalar Int64
  | uint64 : Scalar UInt64
  | bool : Scalar Bool
  | double : Scalar Double
  | text : Scalar String
  | bytes : Scalar (List UInt8)

namespace Scalar

/-- The scalar type that layouts know. -/
def type {α : Type} : Scalar α → ScalarType
  | int32 => .int32
  | int64 => .int64
  | uint64 => .uint64
  | bool => .bool
  | double => .double
  | text => .text
  | bytes => .bytes

/-- The value that holds a content. -/
def wrap {α : Type} : Scalar α → α → Value
  | int32 => .int32
  | int64 => .int64
  | uint64 => .uint64
  | bool => .bool
  | double => .double
  | text => .text
  | bytes => .bytes

/-- The content of a value, if it is one of the scalar type. -/
def content? {α : Type} : Scalar α → Value → Option α
  | int32 => Value.asInt32?
  | int64 => Value.asInt64?
  | uint64 => Value.asUInt64?
  | bool => Value.asBool?
  | double => Value.asDouble?
  | text => Value.asText?
  | bytes => Value.asBytes?

end Scalar

/-! ## Parts -/

/-- How the content of one field is written, as the values of its occurrences, and read from a
record, where nothing but the occurrences of the field counts. -/
structure Part (M α : Type) where
  type : FieldType M
  isRepeated : Bool
  write : α → List Value
  read : Record → Nat → α
  read_congr : ∀ {r r' : Record} {n : Nat}, r.all n = r'.all n → read r n = read r' n

namespace Part

variable {M α : Type}

/-- A scalar field that may be unset. -/
def one (s : Scalar α) : Part M (Option α) where
  type := .scalar s.type
  isRepeated := false
  write a? := a?.toList.map s.wrap
  read r n := r.last? n s.content?
  read_congr h := by rw [Record.last?, Record.last?, h]

/-- A scalar field that is always set; where it is missing, it reads as the default. -/
def required (s : Scalar α) (default : α) : Part M α where
  type := .scalar s.type
  isRepeated := false
  write a := [s.wrap a]
  read r n := (r.last? n s.content?).getD default
  read_congr h := by rw [Record.last?, Record.last?, h]

/-- A repeated scalar field. -/
def many (s : Scalar α) : Part M (List α) where
  type := .scalar s.type
  isRepeated := true
  write as := as.map s.wrap
  read r n := r.list n s.content?
  read_congr h := by rw [Record.list, Record.list, h]

/-- A list of 32-bit integers that is written one by one. -/
def unpacked : Part M (List Int32) where
  type := .scalar .int32
  isRepeated := true
  write ns := ns.map .int32
  read := Record.int32s
  read_congr h := by rw [Record.int32s, Record.int32s, h]

/-- A list of 32-bit integers that is written in one piece, unless it is empty. -/
def packed : Part M (List Int32) where
  type := .scalar .int32
  isRepeated := true
  write ns := if ns.isEmpty then [] else [.int32s ns]
  read := Record.int32s
  read_congr h := by rw [Record.int32s, Record.int32s, h]

/-- A sub-message that may be unset. -/
def subOf (m : M) (toRecord : α → Record) (ofRecord : Record → α) : Part M (Option α) where
  type := .message m
  isRepeated := false
  write a? := a?.toList.map fun a => .record (toRecord a)
  read r n := (r.merged? n).map ofRecord
  read_congr h := by rw [Record.merged?, Record.merged?, h]

/-- A list of sub-messages. -/
def subsOf (m : M) (toRecord : α → Record) (ofRecord : Record → α) : Part M (List α) where
  type := .message m
  isRepeated := true
  write as := as.map fun a => .record (toRecord a)
  read r n := (r.list n Value.asRecord?).map ofRecord
  read_congr h := by rw [Record.list, Record.list, h]

/-- Whether the part is one for the field. -/
def suits [DecidableEq M] (p : Part M α) (f : FieldLayout M) : Bool :=
  f.type == p.type && f.repeated == p.isRepeated

end Part

/-! ## Fields -/

/-- Fields of the values of a type `S`, from whose contents a value of type `β` is made. -/
inductive Fields (M S : Type) : Type → Type 1 where
  /-- No field: what is made is there already. -/
  | make {β : Type} (made : β) : Fields M S β
  /-- One more field, with its number, and where its content stands in a value of type `S`. -/
  | field {α β : Type} (before : Fields M S (α → β)) (number : Nat) (part : Part M α)
      (get : S → α) : Fields M S β

namespace Fields

variable {M S β : Type}

/-- The numbers of the fields. -/
def numbers {β : Type} : Fields M S β → List Nat
  | make _ => []
  | field before number _ _ => number :: before.numbers

/-- The record of a value. -/
def write {β : Type} : Fields M S β → S → Record
  | make _, _ => []
  | field before number part get, s =>
      before.write s ++ .occurrences number (part.write (get s))

/-- What is made of the contents that are read from a record. -/
def read {β : Type} : Fields M S β → Record → β
  | make made, _ => made
  | field before number part _, r => before.read r (part.read r number)

/-- What is made of the contents that stand in a value. -/
def remake {β : Type} : Fields M S β → S → β
  | make made, _ => made
  | field before _ _ get, s => before.remake s (get s)

/-- The record of the contents that are read from a record. -/
def rewrite {β : Type} : Fields M S β → Record → Record
  | make _, _ => []
  | field before number part _, r =>
      before.rewrite r ++ .occurrences number (part.write (part.read r number))

/-- Whether a message type has these fields. -/
def areOf [DecidableEq M] {β : Type} (L : Layout M) (m : M) : Fields M S β → Bool
  | make _ => true
  | field before number part _ => before.areOf L m && (L.field? m number).any part.suits

end Fields

/-! ## Forms -/

/-- How the values of a type `S` stand for the messages of type `m`. -/
structure Form {M : Type} [DecidableEq M] (L : Layout M) (m : M) (S : Type) where
  fields : Fields M S S
  /-- No two fields have the same number. -/
  distinct : fields.numbers.Nodup := by decide
  /-- The fields are those of the message type. -/
  areOf : fields.areOf L m = true := by rfl
  /-- A value is made of the contents that stand in it. -/
  remake_eq : ∀ s, fields.remake s = s := by intro s; rfl
  /-- In a value stand the contents that it is made of. -/
  rewrite_eq : ∀ r, fields.write (fields.read r) = fields.rewrite r := by intro r; rfl

namespace Form

variable {M S : Type} [DecidableEq M] {L : Layout M} {m : M}

/-- The record of a value. -/
def write (f : Form L m S) (s : S) : Record := f.fields.write s

/-- The value of a record. -/
def read (f : Form L m S) (r : Record) : S := f.fields.read r

end Form

namespace Part

variable {M S : Type} [DecidableEq M] {L : Layout M} {m : M}

/-- A sub-message of the given form that may be unset. -/
abbrev sub (f : Form L m S) : Part M (Option S) := subOf m f.write f.read

/-- A list of sub-messages of the given form. -/
abbrev subs (f : Form L m S) : Part M (List S) := subsOf m f.write f.read

end Part

end AliasErasure.Wire
