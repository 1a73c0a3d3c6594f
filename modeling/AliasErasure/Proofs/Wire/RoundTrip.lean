import AliasErasure.Proofs.Wire.Fits
import AliasErasure.Wire.Encode

set_option autoImplicit false

/-! # What is written can be read

Each piece that is written is read back from the front of any input, and what follows is left over.
The pieces are numbers, keys, texts and other scalars (`readScalar_encodeValue`), lists of such
pieces, counted by their bytes (`readSection_encodeDelimited`), and so, level by level, the
occurrences of a record (`readField_encodeOccurrence`). A record that fits is read back as it is
(`decode_encodeRecord`); of one that has other fields as well, what is known is read back
(`decode_encodeRecord_known`).

Lengths are written in 64 bits. So byte strings have to be `Addressable`, as all are that fit into
a memory with addresses of 64 bits.
-/

namespace AliasErasure.Wire

/-- The number of bytes can be written in 64 bits. -/
def Addressable (bytes : List UInt8) : Prop := bytes.length < 2 ^ 64

theorem Addressable.of_length_le {a b : List UInt8} (h : Addressable b)
    (hle : a.length ≤ b.length) : Addressable a := Nat.lt_of_le_of_lt hle h

/-! ## Numbers -/

theorem Varint.groups_ne_nil (more n : Nat) : Varint.groups more n ≠ [] := by
  cases more with
  | zero => exact List.cons_ne_nil _ _
  | succ more =>
      rw [Varint.groups]
      split
      · exact List.cons_ne_nil _ _
      · exact List.cons_ne_nil _ _

/-- Groups are read back, as long as the last of them, after `more` others, holds 0 or 1 only. -/
theorem Varint.readGroups_groups {more n : Nat} (h : n < 2 * 128 ^ more) (rest : List UInt8) :
    Varint.readGroups (more + 1) (Varint.groups more n ++ rest) = some (n, rest) := by
  induction more generalizing n with
  | zero =>
      have hn : n.toUInt8.toNat = n := by
        show n % 256 = n
        omega
      have hsmall : n.toUInt8 < 128 := UInt8.lt_iff_toNat_lt.mpr (by rw [hn]; show n < 128; omega)
      have hbit : ¬ 2 ≤ n.toUInt8 := by
        rw [UInt8.le_iff_toNat_le, hn]
        show ¬ 2 ≤ n
        omega
      rw [Varint.groups, List.singleton_append, Varint.readGroups, if_pos hsmall,
        if_neg fun hlast => hbit hlast.2, hn]
  | succ more ih =>
      rw [Varint.groups]
      split
      next hn =>
        have htoNat : n.toUInt8.toNat = n := by
          show n % 256 = n
          omega
        have hsmall : n.toUInt8 < 128 :=
          UInt8.lt_iff_toNat_lt.mpr (by rw [htoNat]; exact hn)
        rw [List.singleton_append, Varint.readGroups, if_pos hsmall,
          if_neg fun hlast => Nat.succ_ne_zero more hlast.1, htoNat]
      next hn =>
        have htoNat : (n % 128 + 128).toUInt8.toNat = n % 128 + 128 := by
          show (n % 128 + 128) % 256 = _
          omega
        have hbig : ¬ (n % 128 + 128).toUInt8 < 128 := by
          rw [UInt8.lt_iff_toNat_lt, htoNat]
          show ¬ n % 128 + 128 < 128
          omega
        have hhigh : n / 128 < 2 * 128 ^ more := by
          rw [Nat.pow_succ, ← Nat.mul_assoc] at h
          exact Nat.div_lt_of_lt_mul (by rw [Nat.mul_comm]; exact h)
        rw [List.cons_append, Varint.readGroups, if_neg hbig, ih hhigh, htoNat]
        show some (n % 128 + 128 - 128 + 128 * (n / 128), rest) = some (n, rest)
        congr 2
        omega

theorem Varint.encode_ne_nil (n : UInt64) : Varint.encode n ≠ [] := Varint.groups_ne_nil 9 n.toNat

theorem Varint.decode_encode (n : UInt64) (rest : List UInt8) :
    Varint.decode (Varint.encode n ++ rest) = some (n, rest) := by
  have hn : n.toNat < 2 * 128 ^ 9 := n.toNat_lt
  rw [Varint.decode, Varint.encode, Varint.readGroups_groups hn]
  simp

theorem readVarint_encode (n : UInt64) (rest : List UInt8) :
    readVarint (Varint.encode n ++ rest) = .ok (n, rest) := by
  rw [readVarint, Varint.decode_encode]

theorem WireType.ofCode?_code (wire : WireType) : WireType.ofCode? wire.code = some wire := by
  cases wire <;> rfl

theorem WireType.code_lt (wire : WireType) : wire.code < 8 := by
  cases wire <;> decide

/-- Numbers that fields can have. -/
def IsFieldNumber (number : Nat) : Prop := 0 < number ∧ number < 2 ^ 29

theorem readKey_encodeKey {number : Nat} (h : IsFieldNumber number) (wire : WireType)
    (rest : List UInt8) :
    readKey (encodeKey number wire ++ rest) = .ok ((number, wire), rest) := by
  obtain ⟨hpos, hlt⟩ := h
  have hcode := wire.code_lt
  have hkey : (number * 8 + wire.code).toUInt64.toNat = number * 8 + wire.code := by
    show (number * 8 + wire.code) % 2 ^ 64 = _
    omega
  have hnumber : (number * 8 + wire.code) / 8 = number := by omega
  have hwire : (number * 8 + wire.code) % 8 = wire.code := by omega
  rw [readKey, encodeKey, readVarint_encode]
  show (if (number * 8 + wire.code).toUInt64.toNat < 0x100000000 then _ else _) = _
  rw [hkey, if_pos (by omega)]
  simp only [hnumber, hwire, WireType.ofCode?_code]
  rw [if_neg (by omega)]

/-! ## Counted bytes -/

theorem readBytes_append (bytes rest : List UInt8) :
    readBytes bytes.length (bytes ++ rest) = .ok (bytes, rest) := by
  rw [readBytes, if_pos (by simp), List.take_left, List.drop_left]

theorem toNat_toUInt64_length {bytes : List UInt8} (h : Addressable bytes) :
    bytes.length.toUInt64.toNat = bytes.length := Nat.mod_eq_of_lt h

theorem readDelimited_encodeDelimited {bytes : List UInt8} (h : Addressable bytes)
    (rest : List UInt8) :
    readDelimited (encodeDelimited bytes ++ rest) = .ok (bytes, rest) := by
  rw [readDelimited, encodeDelimited, List.append_assoc, readVarint_encode]
  show readBytes bytes.length.toUInt64.toNat (bytes ++ rest) = _
  rw [toNat_toUInt64_length h, readBytes_append]

section Sections

variable {α β : Type} {write : β → List UInt8} {out : β → List α} {xs : List β}

/-- **Pieces that can be read one by one are collected**, and what follows them is left. -/
theorem readUntil_flatMap {ε : Type} {item : List UInt8 → Except ε (List α × List UInt8)}
    (hitem : ∀ x ∈ xs, write x ≠ [] ∧ ∀ rest, item (write x ++ rest) = .ok (out x, rest))
    (rest : List UInt8) {rounds : Nat} (hrounds : (xs.flatMap write).length ≤ rounds) :
    readUntil item rest.length rounds (xs.flatMap write ++ rest) = .ok (xs.flatMap out, rest) := by
  induction xs generalizing rounds with
  | nil =>
      cases rounds with
      | zero => rfl
      | succ rounds => exact if_pos (Nat.le_refl _)
  | cons x xs ih =>
      obtain ⟨hne, hread⟩ := hitem x (by simp)
      have hpos : 0 < (write x).length := List.length_pos_iff.mpr hne
      rw [List.flatMap_cons, List.length_append] at hrounds
      rw [List.flatMap_cons, List.flatMap_cons, List.append_assoc]
      cases rounds with
      | zero => omega
      | succ rounds =>
          have hothers : readUntil item rest.length rounds (xs.flatMap write ++ rest)
              = .ok (xs.flatMap out, rest) := ih (fun y hy => hitem y (by simp [hy])) (by omega)
          have hmore : ¬ (write x ++ (xs.flatMap write ++ rest)).length ≤ rest.length := by
            simp only [List.length_append]
            omega
          rw [readUntil, if_neg hmore, hread]
          simp only [bind, Except.bind, hothers]

/-- Pieces that take up exactly as many bytes as are announced. -/
theorem readSection_encodeDelimited
    {item : List UInt8 → Except DecodeError (List α × List UInt8)}
    (hitem : ∀ x ∈ xs, write x ≠ [] ∧ ∀ rest, item (write x ++ rest) = .ok (out x, rest))
    (hsize : Addressable (xs.flatMap write)) (rest : List UInt8) :
    readSection item (encodeDelimited (xs.flatMap write) ++ rest) = .ok (xs.flatMap out, rest) := by
  have hlength : (xs.flatMap write ++ rest).length - (xs.flatMap write).length = rest.length := by
    rw [List.length_append, Nat.add_sub_cancel_left]
  have hfits : (xs.flatMap write).length ≤ (xs.flatMap write ++ rest).length := by simp
  have hitems := readUntil_flatMap hitem rest hfits
  rw [readSection, encodeDelimited, List.append_assoc, readVarint_encode]
  simp only [Except.mapError, bind, Except.bind, toNat_toUInt64_length hsize, if_pos hfits,
    hlength, hitems, if_true]

end Sections

/-! ## Scalars -/

theorem decodeText?_encodeText (s : String) : decodeText? (encodeText s) = some s := by
  rw [decodeText?, encodeText, Array.toArray_toList, String.fromUTF8?, dif_pos s.isValidUTF8]
  rfl

/-- A 32-bit integer is what is left of its 64-bit form without the upper half. -/
theorem toInt32_encodeInt32 (n : Int32) : n.toInt64.toUInt64.toUInt32.toInt32 = n := by
  apply Int32.toBitVec_inj.mp
  show BitVec.setWidth 32 (BitVec.signExtend 64 n.toBitVec) = n.toBitVec
  ext i hi
  have hi' : i < 64 := by omega
  simp [hi', BitVec.getElem_signExtend, hi]

theorem length_littleEndian (count n : Nat) : (littleEndian count n).length = count := by
  induction count generalizing n with
  | zero => rfl
  | succ count ih => rw [littleEndian, List.length_cons, ih]

theorem ofLittleEndian_littleEndian {count n : Nat} (h : n < 256 ^ count) :
    ofLittleEndian (littleEndian count n) = n := by
  induction count generalizing n with
  | zero =>
      rw [Nat.pow_zero, Nat.lt_one_iff] at h
      exact h.symm
  | succ count ih =>
      have hhigh : n / 256 < 256 ^ count := by
        rw [Nat.pow_succ] at h
        exact Nat.div_lt_of_lt_mul (by rw [Nat.mul_comm]; exact h)
      have hlow : (n % 256).toUInt8.toNat = n % 256 := Nat.mod_mod n 256
      rw [littleEndian, ofLittleEndian, ih hhigh, hlow]
      omega

theorem readBytes_littleEndian (n : Nat) (rest : List UInt8) :
    readBytes 8 (littleEndian 8 n ++ rest) = .ok (littleEndian 8 n, rest) := by
  have h := readBytes_append (littleEndian 8 n) rest
  rwa [length_littleEndian] at h

theorem toUInt64_littleEndian (x : Double) :
    (ofLittleEndian (littleEndian 8 x.bits.toNat)).toUInt64 = x.bits := by
  rw [ofLittleEndian_littleEndian x.bits.toNat_lt]
  exact UInt64.ofNat_toNat

theorem readPackedItem_encodeInt32 (n : Int32) (rest : List UInt8) :
    readPackedItem (encodeInt32 n ++ rest) = .ok ([n], rest) := by
  rw [readPackedItem, encodeInt32, readVarint_encode]
  show Except.ok ([n.toInt64.toUInt64.toUInt32.toInt32], rest) = _
  rw [toInt32_encodeInt32]

/-- The type of a scalar value. -/
def Value.scalarType? : Value → Option ScalarType
  | .int32 _ => some .int32
  | .int64 _ => some .int64
  | .uint64 _ => some .uint64
  | .bool _ => some .bool
  | .double _ => some .double
  | .text _ => some .text
  | .bytes _ => some .bytes
  | .int32s _ | .record _ => none

theorem Value.wireType_of_scalarType? {v : Value} {s : ScalarType} (h : v.scalarType? = some s) :
    v.wireType = s.wireType := by
  cases v <;> cases h <;> rfl

theorem length_le_encodeDelimited (bytes : List UInt8) :
    bytes.length ≤ (encodeDelimited bytes).length := by
  rw [encodeDelimited, List.length_append]
  exact Nat.le_add_left _ _

/-- **Scalars are read back.** -/
theorem readScalar_encodeValue {v : Value} {s : ScalarType} (h : v.scalarType? = some s)
    (hsize : Addressable (encodeValue v)) (rest : List UInt8) :
    readScalar (encodeValue v ++ rest) s = .ok (v, rest) := by
  cases v with
  | int32 n =>
      cases h
      rw [encodeValue, encodeInt32, readScalar, readVarint_encode]
      show Except.ok (Value.int32 n.toInt64.toUInt64.toUInt32.toInt32, rest) = _
      rw [toInt32_encodeInt32]
  | int64 n =>
      cases h
      rw [encodeValue, readScalar, readVarint_encode]
      rfl
  | uint64 n =>
      cases h
      rw [encodeValue, readScalar, readVarint_encode]
      rfl
  | bool b =>
      cases h
      rw [encodeValue, readScalar, readVarint_encode]
      cases b <;> rfl
  | double x =>
      cases h
      rw [encodeValue, readScalar, readBytes_littleEndian]
      show Except.ok (Value.double ⟨(ofLittleEndian (littleEndian 8 x.bits.toNat)).toUInt64⟩,
        rest) = _
      rw [toUInt64_littleEndian]
  | text t =>
      cases h
      rw [encodeValue] at hsize ⊢
      rw [readScalar, readDelimited_encodeDelimited
        (hsize.of_length_le (length_le_encodeDelimited _))]
      simp only [bind, Except.bind, decodeText?_encodeText]
  | bytes b =>
      cases h
      rw [encodeValue] at hsize ⊢
      rw [readScalar, readDelimited_encodeDelimited
        (hsize.of_length_le (length_le_encodeDelimited _))]
      rfl
  | int32s ns => cases h
  | record r => cases h

/-! ## Records -/

/-- The bytes of one occurrence. -/
def encodeOccurrence (p : Nat × Value) : List UInt8 :=
  encodeKey p.1 p.2.wireType ++ encodeValue p.2

theorem encodeOccurrence_ne_nil (p : Nat × Value) : encodeOccurrence p ≠ [] := by
  intro h
  exact Varint.encode_ne_nil _ (List.append_eq_nil_iff.mp h).1

theorem encodeRecord_eq_flatMap (r : Record) : encodeRecord r = r.flatMap encodeOccurrence := by
  induction r with
  | nil => rw [encodeRecord, List.flatMap_nil]
  | cons p r ih => rw [encodeRecord, ih, List.flatMap_cons, encodeOccurrence]

theorem encodeRecord_append (a b : Record) :
    encodeRecord (a ++ b) = encodeRecord a ++ encodeRecord b := by
  simp only [encodeRecord_eq_flatMap, List.flatMap_append]

theorem length_encodeValue_le_of_mem {p : Nat × Value} {r : Record} (h : p ∈ r) :
    (encodeValue p.2).length ≤ (encodeRecord r).length := by
  have hle : (encodeOccurrence p).length ≤ (r.map encodeOccurrence).flatten.length :=
    (List.sublist_flatten_of_mem (List.mem_map_of_mem h)).length_le
  rw [encodeRecord_eq_flatMap, List.flatMap_def]
  rw [encodeOccurrence, List.length_append] at hle
  omega

section Values

variable {M : Type} {inner : M → Record → Prop}
  {sub : M → List UInt8 → Except DecodeError (Record × List UInt8)}

/-- **A value that suits a field is read back**, provided the records inside it are. -/
theorem readValue_encodeValue {f : FieldLayout M} {v : Value} (hv : v.Suits inner f)
    (hsub : ∀ m r, inner m r → Addressable (encodeRecord r) →
      ∀ rest, sub m (encodeDelimited (encodeRecord r) ++ rest) = .ok (r, rest))
    (hsize : Addressable (encodeValue v)) (rest : List UInt8) :
    readValue sub f v.wireType (encodeValue v ++ rest) = .ok (v, rest) := by
  cases hs : v.scalarType? with
  | some s =>
      have hf : f.type = .scalar s := by
        cases v <;> cases hs <;> exact hv
      have hunpacked : ¬ (f.repeated = true ∧ s = .int32 ∧ v.wireType = .lengthDelimited) := by
        rw [Value.wireType_of_scalarType? hs]
        rintro ⟨-, rfl, hwire⟩
        cases hwire
      simp only [readValue, hf]
      rw [if_neg hunpacked, Value.wireType_of_scalarType? hs, expectWire, if_pos rfl]
      simp only [readScalar_encodeValue hs hsize, Except.mapError]
  | none =>
      cases v with
      | int32s ns =>
          obtain ⟨hf, hrepeated⟩ := hv
          rw [encodeValue] at hsize ⊢
          have hitems : ∀ n ∈ ns, encodeInt32 n ≠ [] ∧
              ∀ rest, readPackedItem (encodeInt32 n ++ rest) = .ok ([n], rest) :=
            fun n _ => ⟨Varint.encode_ne_nil _, readPackedItem_encodeInt32 n⟩
          have hsection := readSection_encodeDelimited hitems
            (hsize.of_length_le (length_le_encodeDelimited _)) rest
          simp only [readValue, hf]
          rw [if_pos ⟨hrepeated, trivial, rfl⟩, hsection, List.flatMap_singleton']
          rfl
      | record r =>
          obtain ⟨m, hf, hr⟩ := hv
          rw [encodeValue] at hsize ⊢
          simp only [readValue, hf]
          rw [Value.wireType, expectWire, if_pos rfl]
          simp only [hsub m r hr (hsize.of_length_le (length_le_encodeDelimited _)) rest,
            Except.map]
      | _ => cases hs

/-- A value of any kind can be skipped. -/
theorem skipValue_encodeValue {v : Value} (hsize : Addressable (encodeValue v)) (depth number : Nat)
    (rest : List UInt8) :
    skipValue (depth + 1) v.wireType number (encodeValue v ++ rest) = .ok rest := by
  have hdelimited : ∀ bytes, Addressable (encodeDelimited bytes) →
      (readDelimited (encodeDelimited bytes ++ rest)).map (·.2) = .ok rest := by
    intro bytes hbytes
    rw [readDelimited_encodeDelimited (hbytes.of_length_le (length_le_encodeDelimited _))]
    rfl
  cases v with
  | double x =>
      simp only [encodeValue, Value.wireType, skipValue, readBytes_littleEndian, Except.map]
  | text t =>
      rw [encodeValue] at hsize ⊢
      exact hdelimited _ hsize
  | bytes b =>
      rw [encodeValue] at hsize ⊢
      exact hdelimited _ hsize
  | int32s ns =>
      rw [encodeValue] at hsize ⊢
      exact hdelimited _ hsize
  | record r =>
      rw [encodeValue] at hsize ⊢
      exact hdelimited _ hsize
  | _ =>
      simp only [encodeValue, encodeInt32, Value.wireType, skipValue, readVarint_encode, Except.map]

end Values

section Fields

variable {M : Type} {L : Layout M}

/-- The fields of a layout have numbers that fields can have. -/
def Layout.Numbered (L : Layout M) : Prop := ∀ m, ∀ f ∈ L.fields m, IsFieldNumber f.number

theorem Layout.Numbered.isFieldNumber (hL : L.Numbered) {m : M} {number : Nat}
    {f : FieldLayout M} (h : L.field? m number = some f) : IsFieldNumber number := by
  have hnumber : f.number = number := by simpa using List.find?_some h
  exact hnumber ▸ hL m f (List.mem_of_find?_eq_some h)

theorem readOccurrence_encodeOccurrence {inner : M → Record → Prop} {depth : Nat}
    {sub : M → List UInt8 → Except DecodeError (Record × List UInt8)}
    (hsub : ∀ m r, inner m r → Addressable (encodeRecord r) →
      ∀ rest, sub m (encodeDelimited (encodeRecord r) ++ rest) = .ok (r, rest))
    (hL : L.Numbered) {m : M} {p : Nat × Value} {f : FieldLayout M}
    (hf : L.field? m p.1 = some f) (hp : p.2.Suits inner f)
    (hsize : Addressable (encodeValue p.2)) (rest : List UInt8) :
    readOccurrence L depth sub m (encodeOccurrence p ++ rest) = .ok ([p], rest) := by
  rw [readOccurrence, encodeOccurrence, List.append_assoc,
    readKey_encodeKey (hL.isFieldNumber hf)]
  simp only [Except.mapError, bind, Except.bind, hf, readValue_encodeValue hp hsub hsize]

/-- **Occurrences of a record that fits are read back**, whatever level the record stands on. -/
theorem readField_encodeOccurrence (hL : L.Numbered) {depth : Nat} {m : M} {r : Record}
    (h : L.Fits (depth + 1) m r) (hsize : Addressable (encodeRecord r)) {p : Nat × Value}
    (hp : p ∈ r) (rest : List UInt8) :
    readField L depth m (encodeOccurrence p ++ rest) = .ok ([p], rest) := by
  induction depth generalizing m r p rest with
  | zero =>
      obtain ⟨f, hf, hsuits⟩ := h p hp
      exact readOccurrence_encodeOccurrence (fun _ _ hnone => hnone.elim) hL hf hsuits
        (hsize.of_length_le (length_encodeValue_le_of_mem hp)) rest
  | succ depth ih =>
      obtain ⟨f, hf, hsuits⟩ := h p hp
      refine readOccurrence_encodeOccurrence (fun m r hr hr' rest => ?_) hL hf hsuits
        (hsize.of_length_le (length_encodeValue_le_of_mem hp)) rest
      have hitems : ∀ q ∈ r, encodeOccurrence q ≠ [] ∧
          ∀ rest, readField L depth m (encodeOccurrence q ++ rest) = .ok ([q], rest) :=
        fun q hq => ⟨encodeOccurrence_ne_nil q, ih hr hr' hq⟩
      have hflat := encodeRecord_eq_flatMap r
      rw [hflat] at hr' ⊢
      rw [readSection_encodeDelimited hitems hr', List.flatMap_singleton']

/-- A field that the message does not have is passed over. -/
theorem readField_encodeOccurrence_of_unknown {depth : Nat} {m : M} {p : Nat × Value}
    (hnumber : IsFieldNumber p.1) (hp : L.field? m p.1 = none)
    (hsize : Addressable (encodeValue p.2)) (rest : List UInt8) :
    readField L (depth + 1) m (encodeOccurrence p ++ rest) = .ok ([], rest) := by
  rw [readField, readOccurrence, encodeOccurrence, List.append_assoc, readKey_encodeKey hnumber]
  simp only [Except.mapError, bind, Except.bind, hp, skipValue_encodeValue hsize]

/-- What a message type knows of a record: the occurrences of its fields. -/
def Layout.known (L : Layout M) (m : M) (r : Record) : Record :=
  r.filter fun p => (L.field? m p.1).isSome

theorem Layout.known_append (m : M) (a b : Record) :
    L.known m (a ++ b) = L.known m a ++ L.known m b := List.filter_append _ _

theorem Layout.Fits.isSome_field? {levels : Nat} {m : M} {r : Record} (h : L.Fits levels m r)
    {p : Nat × Value} (hp : p ∈ r) : (L.field? m p.1).isSome = true := by
  cases levels with
  | zero => cases h
  | succ levels =>
      obtain ⟨f, hf, -⟩ := h p hp
      rw [hf, Option.isSome_some]

theorem Layout.Fits.known_eq {levels : Nat} {m : M} {r : Record} (h : L.Fits levels m r) :
    L.known m r = r := List.filter_eq_self.mpr fun _ hp => h.isSome_field? hp

theorem Layout.Fits.isFieldNumber {levels : Nat} {m : M} {r : Record} (h : L.Fits levels m r)
    (hL : L.Numbered) {p : Nat × Value} (hp : p ∈ r) : IsFieldNumber p.1 := by
  obtain ⟨f, hf⟩ := Option.isSome_iff_exists.mp (h.isSome_field? hp)
  exact hL.isFieldNumber hf

theorem flatMap_ite_eq_filter {α : Type} (keep : α → Bool) (xs : List α) :
    xs.flatMap (fun x => if keep x then [x] else []) = xs.filter keep := by
  induction xs with
  | nil => rfl
  | cons x xs ih =>
      rw [List.flatMap_cons, ih, List.filter_cons]
      split <;> rfl

/-- **A written record is read as what the message type knows of it.** The occurrences of other
fields are passed over, whatever their values are. -/
theorem decode_encodeRecord_known (hL : L.Numbered) {m : M} {r : Record}
    (hnumbers : ∀ p ∈ r, IsFieldNumber p.1) (h : L.Fits (recursionLimit + 1) m (L.known m r))
    (hsize : Addressable (encodeRecord r)) : decode L m (encodeRecord r) = .ok (L.known m r) := by
  have hknown : (encodeRecord (L.known m r)).length ≤ (encodeRecord r).length := by
    rw [encodeRecord_eq_flatMap, encodeRecord_eq_flatMap]
    exact (List.filter_sublist.flatMap _).length_le
  have hread : ∀ p ∈ r, ∀ rest, readField L recursionLimit m (encodeOccurrence p ++ rest)
      = .ok (if (L.field? m p.1).isSome then [p] else [], rest) := by
    intro p hp rest
    split
    next hfield =>
      exact readField_encodeOccurrence hL h (hsize.of_length_le hknown)
        (List.mem_filter.mpr ⟨hp, hfield⟩) rest
    next hfield =>
      exact readField_encodeOccurrence_of_unknown (hnumbers p hp)
        (Option.not_isSome_iff_eq_none.mp hfield)
        (hsize.of_length_le (length_encodeValue_le_of_mem hp)) rest
  have hitems := readUntil_flatMap (fun p hp => ⟨encodeOccurrence_ne_nil p, hread p hp⟩) []
    (Nat.le_refl (r.flatMap encodeOccurrence).length)
  rw [List.append_nil,
    flatMap_ite_eq_filter fun p : Nat × Value => (L.field? m p.1).isSome] at hitems
  rw [decode, encodeRecord_eq_flatMap]
  show (readUntil _ ([] : List UInt8).length _ _).map _ = _
  rw [hitems]
  rfl

/-- **A record that fits is read back as it is.** -/
theorem decode_encodeRecord (hL : L.Numbered) {m : M} {r : Record}
    (h : L.Fits (recursionLimit + 1) m r) (hsize : Addressable (encodeRecord r)) :
    decode L m (encodeRecord r) = .ok r := by
  have hread := decode_encodeRecord_known hL (fun _ => h.isFieldNumber hL) (h.known_eq.symm ▸ h)
    hsize
  rwa [h.known_eq] at hread

/-- Two message types without a common field number know nothing of each other's records. -/
theorem Layout.Fits.known_eq_nil {levels : Nat} {m m' : M} {r : Record} (h : L.Fits levels m r)
    (hdisjoint : ∀ n, L.field? m n = none ∨ L.field? m' n = none) : L.known m' r = [] := by
  refine List.filter_eq_nil_iff.mpr fun p hp => ?_
  have hfield := h.isSome_field? hp
  rcases hdisjoint p.1 with hnone | hnone
  · rw [hnone] at hfield
    cases hfield
  · rw [hnone]
    exact Bool.false_ne_true

end Fields

end AliasErasure.Wire
