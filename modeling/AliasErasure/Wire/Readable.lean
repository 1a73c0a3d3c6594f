import AliasErasure.Wire.Decode

set_option autoImplicit false

/-! # Readable messages

Whether bytes can be read as a message whose declaration is only known when they are read. Only
this matters here, not what they say, so the readers of this module pass over values: each of them
gives what follows a value, or the cause why there is none.

Such a reader differs from `decode` in two points. Fields that a message does not have are kept and
not skipped, so only the groups among them count as levels of nesting. And the entries of a map are
a section of the message around them: they have no level of their own, and the wire type that the
key of such a field bears does not matter.
-/

namespace AliasErasure.Wire

/-! ## Shapes of values -/

/-- How the scalars of a field are framed, and whether they are text. -/
inductive ScalarShape where
  | varint
  | fixed64
  | fixed32
  | text
  | bytes
  deriving DecidableEq, Repr

/-- The wire type of scalars of a shape. -/
def ScalarShape.wireType : ScalarShape → WireType
  | .varint => .varint
  | .fixed64 => .fixed64
  | .fixed32 => .fixed32
  | .text | .bytes => .lengthDelimited

/-- Whether scalars of a shape may be packed. -/
def ScalarShape.isPackable : ScalarShape → Bool
  | .varint | .fixed64 | .fixed32 => true
  | .text | .bytes => false

/-- What the values of a field hold, where messages are known by names of type `M`. An `entry` is a
key with a value, as the named message declares them. -/
inductive ValueShape (M : Type) where
  | scalar (s : ScalarShape)
  | message (m : M)
  | group (m : M)
  | entry (m : M)
  deriving DecidableEq, Repr

/-- What is known of a field when it is read. -/
structure FieldShape (M : Type) where
  shape : ValueShape M
  repeated : Bool
  deriving DecidableEq, Repr

/-- The fields of messages by number. -/
abbrev Shapes (M : Type) := M → Nat → Option (FieldShape M)

/-! ## Sections and fields -/

/-- A reader that passes over the value of a field of which the key, with wire type and number, has
been read. -/
abbrev FieldPasser := WireType → Nat → List UInt8 → Except DecodeCause (List UInt8)

/-- Passes over items until at most `limit` bytes are left. -/
def passUntil (item : List UInt8 → Except DecodeCause (List UInt8)) (limit : Nat) :
    (rounds : Nat) → List UInt8 → Except DecodeCause (List UInt8)
  | 0, input => .ok input
  | rounds + 1, input =>
      if input.length ≤ limit then .ok input
      else do passUntil item limit rounds (← item input)

/-- Passes over a length and items that take up exactly as many bytes. -/
def passSection (item : List UInt8 → Except DecodeCause (List UInt8)) (input : List UInt8) :
    Except DecodeCause (List UInt8) := do
  let (length, rest) ← readVarint input
  if length.toNat ≤ rest.length then
    let limit := rest.length - length.toNat
    let rest ← passUntil item limit rest.length rest
    if rest.length = limit then .ok rest else .error .lengthExceeded
  else .error .bufferUnderflow

/-- Passes over a key and the field that it opens. -/
def passKeyed (field : FieldPasser) (input : List UInt8) : Except DecodeCause (List UInt8) := do
  let ((number, wire), rest) ← readKey input
  field wire number rest

/-! ## Fields that a message does not have -/

/-- Passes over an unknown field. `grouped` passes over the fields of groups, or says that there may
be none. -/
def passPlain (grouped : Except DecodeCause FieldPasser) : FieldPasser := fun wire number input =>
  match wire with
  | .varint => (readVarint input).map (·.2)
  | .fixed64 => (readBytes 8 input).map (·.2)
  | .fixed32 => (readBytes 4 input).map (·.2)
  | .lengthDelimited => (readDelimited input).map (·.2)
  | .startGroup => do skipGroup (← grouped) number input.length input
  | .endGroup => .error .strayEndGroup

/-- Passes over an unknown field of a message that stands `depth` levels above the limit. -/
def passUnknown : (depth : Nat) → FieldPasser
  | 0 => passPlain (.error .recursionLimit)
  | depth + 1 => passPlain (.ok (passUnknown depth))

/-! ## Fields of known shapes -/

/-- Passes over one scalar. -/
def passScalar (input : List UInt8) : ScalarShape → Except DecodeCause (List UInt8)
  | .varint => (readVarint input).map (·.2)
  | .fixed64 => (readBytes 8 input).map (·.2)
  | .fixed32 => (readBytes 4 input).map (·.2)
  | .bytes => (readDelimited input).map (·.2)
  | .text => do
      let (b, rest) ← readDelimited input
      if (decodeText? b).isSome then .ok rest else .error .invalidText

/-- Passes over a field of a message that is one level further in. -/
def passInner {M : Type} (fields : (depth : Nat) → M → FieldPasser) :
    (depth : Nat) → M → Except DecodeCause FieldPasser
  | 0, _ => .error .recursionLimit
  | depth + 1, m => .ok (fields depth m)

/-- Passes over a field of a map entry: number 1 is the key, which is a single scalar, and number 2
the value. All else is skipped. -/
def passEntryField {M : Type} (shapes : Shapes M) (fields : (depth : Nat) → M → FieldPasser)
    (depth : Nat) (m : M) : FieldPasser := fun wire number input =>
  if number = 1 then
    match shapes m 1 with
    | some ⟨.scalar s, _⟩ => do
        expectWire s.wireType wire
        passScalar input s
    | _ => skipValue depth wire number input
  else if number = 2 then fields depth m wire number input
  else skipValue depth wire number input

/-- Passes over a value of a field whose key bears the given wire type. `fields` passes over the
fields of messages and entries inside the value. -/
def passValue {M : Type} (shapes : Shapes M) (fields : (depth : Nat) → M → FieldPasser)
    (depth : Nat) (wire : WireType) (number : Nat) (input : List UInt8) :
    ValueShape M → Except DecodeCause (List UInt8)
  | .scalar s => do
      expectWire s.wireType wire
      passScalar input s
  | .message m => do
      expectWire .lengthDelimited wire
      passSection (passKeyed (← passInner fields depth m)) input
  | .group m => do
      expectWire .startGroup wire
      skipGroup (← passInner fields depth m) number input.length input
  | .entry m => passSection (passKeyed (passEntryField shapes fields depth m)) input

/-- Passes over a field of a message. A repeated field of scalars may be packed. -/
def passOccurrence {M : Type} (shapes : Shapes M) (fields : (depth : Nat) → M → FieldPasser)
    (depth : Nat) (m : M) : FieldPasser := fun wire number input =>
  match shapes m number with
  | none => passUnknown depth wire number input
  | some ⟨.scalar s, repeated⟩ =>
      if repeated ∧ s.isPackable ∧ wire = .lengthDelimited then
        passSection (fun input => passScalar input s) input
      else passValue shapes fields depth wire number input (.scalar s)
  | some ⟨shape, _⟩ => passValue shapes fields depth wire number input shape

/-- Passes over a field of a message that stands `depth` levels above the limit. The first argument
bounds how many messages and entries may stand inside each other; each takes up a byte at least, so
the number of bytes is enough. -/
def passField {M : Type} (shapes : Shapes M) :
    (bound : Nat) → (depth : Nat) → M → FieldPasser
  | 0, _, _ => fun _ _ _ => .error .recursionLimit
  | bound + 1, depth, m => passOccurrence shapes (passField shapes bound) depth m

/-- **Whether bytes can be read as a message.** -/
def isReadable {M : Type} (shapes : Shapes M) (m : M) (bytes : List UInt8) : Bool :=
  let field := passField shapes bytes.length recursionLimit m
  (passUntil (passKeyed field) 0 bytes.length bytes).isOk

end AliasErasure.Wire
