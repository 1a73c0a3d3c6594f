import AliasErasure.Wire.Decode
import Mathlib

set_option autoImplicit false

/-! # Records that fit a layout

A record fits a message type if every occurrence is that of a field of the type, with a value of
the field's type, and so on for the records inside it. Sub-messages cannot be nested without end,
so fitting is a matter of *levels*: `L.Fits levels m r` says that the record stands for a message
of type `m` that takes up at most so many levels, its own among them.

Whatever a reader gives fits, by as many levels as it was ready to read (`Layout.fits_of_decode`).
-/

namespace AliasErasure.Wire

variable {M : Type}

/-- The value is one for the field; `inner` says which records stand for messages inside it. -/
def Value.Suits (inner : M → Record → Prop) (f : FieldLayout M) : Value → Prop
  | .int32 _ => f.type = .scalar .int32
  | .int64 _ => f.type = .scalar .int64
  | .uint64 _ => f.type = .scalar .uint64
  | .bool _ => f.type = .scalar .bool
  | .double _ => f.type = .scalar .double
  | .text _ => f.type = .scalar .text
  | .bytes _ => f.type = .scalar .bytes
  | .int32s _ => f.type = .scalar .int32 ∧ f.repeated = true
  | .record r => ∃ m, f.type = .message m ∧ inner m r

/-- The record stands for a message of type `m` with at most `levels` levels of nesting. -/
def Layout.Fits (L : Layout M) : (levels : Nat) → M → Record → Prop
  | 0, _, _ => False
  | levels + 1, m, r => ∀ p ∈ r, ∃ f, L.field? m p.1 = some f ∧ p.2.Suits (L.Fits levels) f

theorem Layout.fits_succ_iff {L : Layout M} {levels : Nat} {m : M} {r : Record} :
    L.Fits (levels + 1) m r ↔
      ∀ p ∈ r, ∃ f, L.field? m p.1 = some f ∧ p.2.Suits (L.Fits levels) f := Iff.rfl

theorem Value.Suits.mono {inner inner' : M → Record → Prop} {f : FieldLayout M} {v : Value}
    (h : v.Suits inner f) (hinner : ∀ m r, inner m r → inner' m r) : v.Suits inner' f := by
  cases v with
  | record r =>
      obtain ⟨m, htype, hr⟩ := h
      exact ⟨m, htype, hinner m r hr⟩
  | _ => exact h

section Fits

variable {L : Layout M} {levels : Nat} {m : M}

/-- What fits by some levels fits by more. -/
theorem Layout.Fits.succ {r : Record} (h : L.Fits levels m r) : L.Fits (levels + 1) m r := by
  induction levels generalizing m r with
  | zero => cases h
  | succ levels ih =>
      intro p hp
      obtain ⟨f, hf, hsuits⟩ := h p hp
      exact ⟨f, hf, hsuits.mono fun _ _ => ih⟩

theorem Layout.Fits.mono {r : Record} (h : L.Fits levels m r) {levels' : Nat}
    (hle : levels ≤ levels') : L.Fits levels' m r := by
  induction hle with
  | refl => exact h
  | step _ ih => exact ih.succ

theorem Layout.fits_append_iff {a b : Record} :
    L.Fits levels m (a ++ b) ↔ L.Fits levels m a ∧ L.Fits levels m b := by
  cases levels with
  | zero => simp [Layout.Fits]
  | succ levels => simp only [Layout.Fits, List.forall_mem_append]

/-- Records that fit by some levels fit by as many when they are put together. -/
theorem Layout.fits_flatten {rs : List Record} (hne : rs ≠ [])
    (h : ∀ r ∈ rs, L.Fits levels m r) : L.Fits levels m rs.flatten := by
  cases levels with
  | zero =>
      obtain ⟨r, hr⟩ := List.exists_mem_of_ne_nil rs hne
      exact h r hr
  | succ levels =>
      intro p hp
      obtain ⟨r, hr, hpr⟩ := List.mem_flatten.mp hp
      exact h r hr p hpr

end Fits

/-! ## Results of readers -/

section Result

variable {ε α β : Type}

theorem bind_eq_ok_iff {x : Except ε α} {g : α → Except ε β} {b : β} :
    (x >>= g) = .ok b ↔ ∃ a, x = .ok a ∧ g a = .ok b := by
  cases x <;> simp [bind, Except.bind]

theorem map_eq_ok_iff {x : Except ε α} {g : α → β} {b : β} :
    x.map g = .ok b ↔ ∃ a, x = .ok a ∧ g a = b := by
  cases x <;> simp [Except.map]

theorem mapError_eq_ok_iff {ε' : Type} {x : Except ε α} {g : ε → ε'} {a : α} :
    x.mapError g = .ok a ↔ x = .ok a := by
  cases x <;> simp [Except.mapError]

end Result

/-! ## What readers give -/

/-- What holds of each item holds of all that are collected. -/
theorem forall_mem_of_readUntil {ε α : Type} {P : α → Prop}
    {item : List UInt8 → Except ε (List α × List UInt8)}
    (hitem : ∀ input a rest, item input = .ok (a, rest) → ∀ x ∈ a, P x) {limit rounds : Nat}
    {input : List UInt8} {out : List α} {rest : List UInt8}
    (h : readUntil item limit rounds input = .ok (out, rest)) : ∀ x ∈ out, P x := by
  induction rounds generalizing input out rest with
  | zero =>
      cases h
      exact List.forall_mem_nil P
  | succ rounds ih =>
      rw [readUntil] at h
      split at h
      · cases h
        exact List.forall_mem_nil P
      · obtain ⟨⟨first, middle⟩, hfirst, h⟩ := bind_eq_ok_iff.mp h
        obtain ⟨⟨others, rest⟩, hothers, h⟩ := bind_eq_ok_iff.mp h
        cases h
        exact List.forall_mem_append.mpr ⟨hitem _ _ _ hfirst, ih hothers⟩

theorem forall_mem_of_readSection {α : Type} {P : α → Prop}
    {item : List UInt8 → Except DecodeError (List α × List UInt8)}
    (hitem : ∀ input a rest, item input = .ok (a, rest) → ∀ x ∈ a, P x)
    {input : List UInt8} {out : List α} {rest : List UInt8}
    (h : readSection item input = .ok (out, rest)) : ∀ x ∈ out, P x := by
  obtain ⟨⟨length, body⟩, -, h⟩ := bind_eq_ok_iff.mp h
  dsimp only at h
  split at h
  · obtain ⟨⟨items, rest⟩, hitems, h⟩ := bind_eq_ok_iff.mp h
    dsimp only at h
    split at h
    · cases h
      exact forall_mem_of_readUntil hitem hitems
    · cases h
  · cases h

section Readers

variable {inner : M → Record → Prop} {f : FieldLayout M}

/-- A value that is read as one of a scalar type is one for every field of the type. -/
theorem suits_of_readScalar {s : ScalarType} (hf : f.type = .scalar s) {input : List UInt8}
    {v : Value} {rest : List UInt8} (h : readScalar input s = .ok (v, rest)) :
    v.Suits inner f := by
  cases s with
  | text =>
      obtain ⟨⟨b, middle⟩, -, h⟩ := bind_eq_ok_iff.mp h
      dsimp only at h
      split at h
      · cases h
        exact hf
      · cases h
  | _ =>
      obtain ⟨⟨n, middle⟩, -, h⟩ := map_eq_ok_iff.mp h
      cases h
      exact hf

theorem suits_of_readValue {sub : M → List UInt8 → Except DecodeError (Record × List UInt8)}
    (hsub : ∀ m input r rest, sub m input = .ok (r, rest) → inner m r) {wire : WireType}
    {input : List UInt8} {v : Value} {rest : List UInt8}
    (h : readValue sub f wire input = .ok (v, rest)) : v.Suits inner f := by
  rw [readValue] at h
  split at h
  next s hs =>
    split at h
    next hpacked =>
      obtain ⟨⟨ns, middle⟩, -, h⟩ := map_eq_ok_iff.mp h
      cases h
      exact ⟨hpacked.2.1 ▸ hs, hpacked.1⟩
    next =>
      split at h
      · exact suits_of_readScalar hs (mapError_eq_ok_iff.mp h)
      · cases h
  next m hm =>
    split at h
    · obtain ⟨⟨r, middle⟩, hr, h⟩ := map_eq_ok_iff.mp h
      cases h
      exact ⟨m, hm, hsub m _ r _ hr⟩
    · cases h

end Readers

section Fields

variable {L : Layout M}

theorem forall_mem_of_readOccurrence {inner : M → Record → Prop} {depth : Nat}
    {sub : M → List UInt8 → Except DecodeError (Record × List UInt8)}
    (hsub : ∀ m input r rest, sub m input = .ok (r, rest) → inner m r) {m : M}
    {input : List UInt8} {r : Record} {rest : List UInt8}
    (h : readOccurrence L depth sub m input = .ok (r, rest)) :
    ∀ p ∈ r, ∃ f, L.field? m p.1 = some f ∧ p.2.Suits inner f := by
  obtain ⟨⟨⟨number, wire⟩, body⟩, -, h⟩ := bind_eq_ok_iff.mp h
  dsimp only at h
  split at h
  · obtain ⟨skipped, -, h⟩ := bind_eq_ok_iff.mp h
    cases h
    exact List.forall_mem_nil _
  next f hf =>
    obtain ⟨⟨v, after⟩, hv, h⟩ := bind_eq_ok_iff.mp h
    cases h
    rw [List.forall_mem_singleton]
    exact ⟨f, hf, suits_of_readValue hsub (mapError_eq_ok_iff.mp hv)⟩

theorem fits_of_readField {depth : Nat} {m : M} {input : List UInt8} {r : Record}
    {rest : List UInt8} (h : readField L depth m input = .ok (r, rest)) :
    L.Fits (depth + 1) m r := by
  induction depth generalizing m input r rest with
  | zero =>
      refine forall_mem_of_readOccurrence (fun _ _ _ _ hsub => ?_) h
      cases hsub
  | succ depth ih =>
      refine forall_mem_of_readOccurrence (fun m input r rest hsub => ?_) h
      exact forall_mem_of_readSection (fun _ _ _ hitem => ih hitem) hsub

/-- **Whatever is read fits.** The message that is read takes up one level, and it may hold as many
more as the limit on nesting. -/
theorem Layout.fits_of_decode {m : M} {bytes : List UInt8} {r : Record}
    (h : decode L m bytes = .ok r) : L.Fits (recursionLimit + 1) m r := by
  obtain ⟨⟨out, rest⟩, hout, rfl⟩ := map_eq_ok_iff.mp h
  exact forall_mem_of_readUntil (fun _ _ _ hitem => fits_of_readField hitem) hout

end Fields

end AliasErasure.Wire
