import AliasErasure.Erasure.Oneofs
import AliasErasure.Proofs.Schema.Mirror
import Mathlib.Algebra.Group.Nat.Defs

set_option autoImplicit false

/-! # Fields stay in line with their descriptors

The two changes that are made to a field and to its descriptor side by side keep one a mirror of
the other: writing a field back to its descriptor (`Field.mirrors_synchronize`), and moving oneofs
up after some have been dropped (`Field.Mirrors.renumber`, `Field.MirrorsOneof.renumber`).

Oneofs are the delicate part, because a position is cut down to 32 bits on its way to the
descriptor. Positions below `2 ^ 31` come back unchanged (`oneofPosition_oneofIndexOf`).
-/

namespace AliasErasure

open Descriptor (FieldProto)

/-! ## Numbers -/

theorem Kind.ofProto_toNumber (k : Kind) : Kind.ofProto (some k.toNumber) = k := by
  cases k <;> rfl

theorem Cardinality.ofProto_toNumber (c : Cardinality) :
    Cardinality.ofProto (some c.toNumber) = c := by
  cases c <;> rfl

/-- An index and the position it stands for differ by `2 ^ 64` if the index is negative. -/
theorem toInt_eq_oneofPosition_cond (i : Int32) :
    i.toInt = if 2 * oneofPosition i < 2 ^ 64 then (oneofPosition i : Int)
      else (oneofPosition i : Int) - (2 ^ 64 : Nat) := by
  rw [← Int32.toInt_toInt64, ← Int64.toInt_toBitVec, BitVec.toInt_eq_toNat_cond, oneofPosition,
    ← Int64.toNat_toBitVec]

/-- A position that fits into 31 bits is the index itself. -/
theorem toInt_of_oneofPosition_lt {i : Int32} (h : oneofPosition i < 2 ^ 31) :
    i.toInt = oneofPosition i := by
  rw [toInt_eq_oneofPosition_cond, if_pos (by omega)]

/-- An index that is not negative is the position itself. -/
theorem toInt_eq_oneofPosition {i : Int32} (h : 0 ≤ i.toInt) : i.toInt = oneofPosition i := by
  have hbound : oneofPosition i < 2 ^ 64 := i.toInt64.toUInt64.toNat_lt
  rw [toInt_eq_oneofPosition_cond] at h ⊢
  split at h <;> split <;> omega

/-- A position below `2 ^ 31` survives the descriptor's 32 bits. -/
theorem oneofPosition_oneofIndexOf {n : Nat} (h : n < 2 ^ 31) :
    oneofPosition (oneofIndexOf n) = n := by
  have hint : (oneofIndexOf n).toInt = (n : Int) := by
    rw [oneofIndexOf, Int32.toInt_ofNat_of_lt h]
  -- the number is not negative, so signed and unsigned reading agree
  have hposition := toInt_eq_oneofPosition (i := oneofIndexOf n) (by omega)
  omega

/-- **Every index survives as a position**, also a negative one, since the lowest 32 bits of the
position are those of the index. -/
theorem oneofIndexOf_oneofPosition (i : Int32) : oneofIndexOf (oneofPosition i) = i := by
  have hlt := i.toInt_lt
  have hle := i.le_toInt
  have hcond := toInt_eq_oneofPosition_cond i
  have hsize : Int32.size = 2 ^ 32 := rfl
  rw [← Int32.toInt_inj, oneofIndexOf, Int32.toInt_ofNat', Int.bmod_def, hsize]
  split at hcond <;> split <;> omega

/-! ## Writing a field back -/

theorem nonEmptyOptions_nonEmptyOptions (o : Option Descriptor.FieldOptions) :
    nonEmptyOptions (nonEmptyOptions o) = nonEmptyOptions o := by
  simp [nonEmptyOptions, Option.filter_filter]

/-- A name that is not empty is kept when empty names are dropped. -/
theorem filter_ne_empty {o : Option String} (h : ∀ n, o = some n → n ≠ "") :
    o.filter (· != "") = o := by
  cases o with
  | none => rfl
  | some n => simp [h n rfl]

/-- **A field written back to its descriptor is read again**, provided the descriptor has its
name, number and JSON name already. -/
theorem Field.mirrors_synchronize {f : Field} (hf : f.WellNamed) {r : FieldProto}
    (hname : r.name.getD "" = f.name) (hnumber : r.number.getD 0 = f.number)
    (hjson : r.jsonName = f.jsonName) : f.Mirrors (f.synchronize r) := by
  intro ctx path
  have hkind : Kind.ofProto (some f.kind.toNumber) = f.kind := Kind.ofProto_toNumber f.kind
  refine ⟨hname, hnumber, hkind, Cardinality.ofProto_toNumber f.cardinality, hjson, rfl, ?_, ?_,
    nonEmptyOptions_nonEmptyOptions f.options⟩
  -- the type name that is written stands for the reference that the kind allows
  · show (if Kind.ofProto (some f.kind.toNumber) = .message
        ∨ Kind.ofProto (some f.kind.toNumber) = .group
      then f.typeName?.filter (· != "") else none) = f.message
    rw [hkind]
    by_cases h : f.kind = .message ∨ f.kind = .group
    · have htype : f.typeName? = f.message := by
        rcases h with h | h <;> rw [Field.typeName?, h]
      rw [if_pos h, htype, filter_ne_empty fun n hn => (hf.message n hn).2]
    · rw [if_neg h]
      cases hmessage : f.message with
      | none => rfl
      | some n => exact absurd (hf.message n hmessage).1 h
  · show (if Kind.ofProto (some f.kind.toNumber) = .enum
      then f.typeName?.filter (· != "") else none) = f.enumeration
    rw [hkind]
    by_cases h : f.kind = .enum
    · have htype : f.typeName? = f.enumeration := by rw [Field.typeName?, h]
      rw [if_pos h, htype, filter_ne_empty fun n hn => (hf.enumeration n hn).2]
    · rw [if_neg h]
      cases henum : f.enumeration with
      | none => rfl
      | some n => exact absurd (hf.enumeration n henum).1 h

/-- A field outside every oneof is so in its descriptor. -/
theorem Field.mirrorsOneof_synchronize {f : Field} (h : f.oneof = none) (r : FieldProto) :
    f.MirrorsOneof (f.synchronize r) := by
  intro ctx path
  show (f.oneof.map oneofIndexOf).map oneofPosition = f.oneof
  rw [h]
  rfl

/-! ## Moving oneofs up -/

theorem newPosition?_lt {used : List Bool} {i j : Nat} (h : newPosition? used i = some j) :
    j < used.length := by
  rw [newPosition?] at h
  split at h
  next hused =>
    obtain ⟨hi, hget⟩ := List.getElem?_eq_some_iff.mp hused
    cases h
    have hcount := List.count_le_length (a := true) (l := used.take i)
    rw [List.length_take] at hcount
    omega
  next => cases h

theorem Field.Mirrors.renumber {f : Field} {r : FieldProto} (h : f.Mirrors r)
    (used : List Bool) : (f.renumber used).Mirrors (renumberProto used r) := by
  intro ctx path
  have hread := h ctx path
  exact ⟨hread.name, hread.number, hread.kind, hread.cardinality, hread.jsonName,
    hread.defaultValue, hread.message, hread.enumeration, hread.options⟩

/-- **Oneofs move up alike** in a field and in its descriptor, as long as their number fits into
31 bits. -/
theorem Field.MirrorsOneof.renumber {f : Field} {r : FieldProto} (h : f.MirrorsOneof r)
    {used : List Bool} (hused : used.length ≤ 2 ^ 31) :
    (f.renumber used).MirrorsOneof (renumberProto used r) := by
  intro ctx path
  have hread : r.oneofIndex.map oneofPosition = f.oneof := h ctx path
  show ((r.oneofIndex.bind fun i => newPosition? used (oneofPosition i)).map oneofIndexOf).map
      oneofPosition = f.oneof.bind (newPosition? used)
  rw [← hread]
  cases r.oneofIndex with
  | none => rfl
  | some i =>
      show ((newPosition? used (oneofPosition i)).map oneofIndexOf).map oneofPosition
        = newPosition? used (oneofPosition i)
      cases hnew : newPosition? used (oneofPosition i) with
      | none => rfl
      | some j =>
          have hj := newPosition?_lt hnew
          show some (oneofPosition (oneofIndexOf j)) = some j
          rw [oneofPosition_oneofIndexOf (by omega)]

end AliasErasure
