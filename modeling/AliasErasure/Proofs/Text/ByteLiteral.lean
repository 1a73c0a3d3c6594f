import AliasErasure.Text.Bytes
import Mathlib.Tactic.SplitIfs

set_option autoImplicit false

/-! # Byte string literals are read back

The reader of a byte string literal starts after the opening quote and ends at the closing one. It
knows the escapes by a letter, those of the quotes and of the backslash, and `\xHH`; a backslash at
the end of a line joins the line with the next one, whose indentation does not count.

Any bytes are read back from the body that is written for them, whatever the width of its lines
(`readLiteral_literalBody`): each byte by itself (`readLiteral_escapeByte`), and between the lines
nothing is lost, since no byte is written as a bare blank (`readLiteral_continuation`).
-/

namespace AliasErasure.Text.Bytes

/-! ## The reader -/

/-- The blanks that are skipped at the start of a joined line. -/
def isLineBlank (c : Char) : Bool := c = ' ' || c = '\t' || c = '\n' || c = '\r'

/-- The value of a hexadecimal digit. -/
def hexValue? (c : Char) : Option Nat :=
  if '0' ≤ c ∧ c ≤ '9' then some (c.toNat - '0'.toNat)
  else if 'a' ≤ c ∧ c ≤ 'f' then some (c.toNat - 'a'.toNat + 10)
  else if 'A' ≤ c ∧ c ≤ 'F' then some (c.toNat - 'A'.toNat + 10)
  else none

/-- The byte with the given hexadecimal digits. -/
def hexByte? (high low : Char) : Option UInt8 := do
  let h ← hexValue? high
  let l ← hexValue? low
  some (h * 16 + l).toUInt8

/-- The byte that a character stands for after a backslash. -/
def escaped? : Char → Option UInt8
  | 't' => some 0x09
  | 'r' => some 0x0d
  | 'n' => some 0x0a
  | '0' => some 0x00
  | '\'' => some 0x27
  | '"' => some 0x22
  | '\\' => some 0x5c
  | _ => none

/-- The byte that a character stands for by itself: any of ASCII but the quote, which ends the
literal, the backslash, which starts an escape, and the carriage return. -/
def plain? (c : Char) : Option UInt8 :=
  if c.toNat < 0x80 ∧ c ≠ '"' ∧ c ≠ '\\' ∧ c ≠ '\r' then some c.toNat.toUInt8 else none

/-- The next byte of a literal, and the text after it. -/
def readByte : List Char → Option (UInt8 × List Char)
  | [] => none
  | '\\' :: 'x' :: high :: low :: rest => (hexByte? high low).map (·, rest)
  | '\\' :: c :: rest => (escaped? c).map (·, rest)
  | c :: rest => (plain? c).map (·, rest)

theorem length_lt_of_readByte {text rest : List Char} {b : UInt8}
    (h : readByte text = some (b, rest)) : rest.length < text.length := by
  rw [readByte.eq_def] at h
  split at h
  · cases h
  all_goals
    obtain ⟨b, -, heq⟩ := Option.map_eq_some_iff.mp h
    cases heq
    simp only [List.length_cons]
    omega

/-- The bytes of a literal up to its closing quote, and the text that follows the quote. -/
def readLiteral : List Char → Option (List UInt8 × List Char)
  | '"' :: rest => some ([], rest)
  | '\\' :: '\n' :: rest => readLiteral (rest.dropWhile isLineBlank)
  | text =>
      match _h : readByte text with
      | none => none
      | some (b, rest) => (readLiteral rest).map fun (bytes, after) => (b :: bytes, after)
termination_by text => text.length
decreasing_by
  · have hle := (List.dropWhile_sublist isLineBlank (l := rest)).length_le
    simp only [List.length_cons]
    omega
  · exact length_lt_of_readByte ‹_›

/-! ## Single bytes -/

theorem hexValue?_digitChar : ∀ d < 16, hexValue? (Nat.digitChar d) = some d := by decide

theorem hexByte?_digitChars (b : UInt8) :
    hexByte? (Nat.digitChar (b.toNat / 16)) (Nat.digitChar (b.toNat % 16)) = some b := by
  have hb := b.toNat_lt
  rw [hexByte?, hexValue?_digitChar _ (by omega), hexValue?_digitChar _ (by omega)]
  show some (b.toNat / 16 * 16 + b.toNat % 16).toUInt8 = some b
  rw [Nat.div_add_mod']
  exact congrArg some (UInt8.ofNat_toNat)

theorem readByte_of_plain? {c : Char} {b : UInt8} (h : plain? c = some b) (rest : List Char) :
    readByte (c :: rest) = some (b, rest) := by
  have hc : c ≠ '\\' := by
    rintro rfl
    cases h
  have hread : readByte (c :: rest) = (plain? c).map (·, rest) := by
    rw [readByte]
    · exact fun _ _ _ hescape => (hc hescape).elim
    · exact fun _ _ hescape => (hc hescape).elim
  rw [hread, h]
  rfl

/-- A byte between the space and DEL stands for itself, unless it is a quote or a backslash. -/
theorem plain?_ofNat {b : UInt8} (hlow : 0x20 < b) (hhigh : b < 0x7f) (hquote : b ≠ 0x22)
    (hbackslash : b ≠ 0x5c) :
    plain? (Char.ofNat b.toNat) = some b ∧ isLineBlank (Char.ofNat b.toNat) = false := by
  have hall : ∀ n < 127, 32 < n ∧ n ≠ 34 ∧ n ≠ 92 →
      plain? (Char.ofNat n) = some n.toUInt8 ∧ isLineBlank (Char.ofNat n) = false := by
    decide
  have h := hall b.toNat (UInt8.lt_iff_toNat_lt.mp hhigh) ⟨UInt8.lt_iff_toNat_lt.mp hlow,
    fun hn => hquote (UInt8.toNat_inj.mp hn), fun hn => hbackslash (UInt8.toNat_inj.mp hn)⟩
  rwa [show b.toNat.toUInt8 = b from UInt8.ofNat_toNat] at h

/-- **Each byte is read back from what is written for it.** -/
theorem readByte_escapeByte (b : UInt8) (rest : List Char) :
    readByte (escapeByte b ++ rest) = some (b, rest) := by
  unfold escapeByte
  split_ifs with htab hreturn hbreak hsingle hdouble hbackslash hplain
  · subst htab
    rfl
  · subst hreturn
    rfl
  · subst hbreak
    rfl
  · subst hsingle
    rfl
  · subst hdouble
    rfl
  · subst hbackslash
    rfl
  · exact readByte_of_plain? (plain?_ofNat hplain.1 hplain.2 hdouble hbackslash).1 rest
  · show (hexByte? _ _).map (·, rest) = _
    rw [hexByte?_digitChars]
    rfl

/-- What is written for a byte does not start with a blank. -/
theorem exists_escapeByte_eq_cons (b : UInt8) :
    ∃ c cs, escapeByte b = c :: cs ∧ isLineBlank c = false := by
  unfold escapeByte
  split_ifs with htab hreturn hbreak hsingle hdouble hbackslash hplain
  any_goals exact ⟨_, _, rfl, rfl⟩
  exact ⟨_, _, rfl, (plain?_ofNat hplain.1 hplain.2 hdouble hbackslash).2⟩

/-! ## Lines -/

theorem readLiteral_of_readByte {text rest : List Char} {b : UInt8}
    (h : readByte text = some (b, rest)) :
    readLiteral text = (readLiteral rest).map fun (bytes, after) => (b :: bytes, after) := by
  rw [readLiteral]
  · split
    next hnone =>
      rw [hnone] at h
      cases h
    next hsome =>
      rw [hsome] at h
      cases h
      rfl
  · rintro r rfl
    cases h
  · rintro r rfl
    cases h

theorem readLiteral_flatMap_escapeByte (bytes : List UInt8) (rest : List Char) :
    readLiteral (bytes.flatMap escapeByte ++ rest)
      = (readLiteral rest).map fun (others, after) => (bytes ++ others, after) := by
  induction bytes with
  | nil => simp
  | cons b bytes ih =>
      rw [List.flatMap_cons, List.append_assoc, readLiteral_of_readByte (readByte_escapeByte b _),
        ih, Option.map_map]
      rfl

/-- Two lines are joined without a loss, as the second does not start with a blank. -/
theorem readLiteral_continuation (b : UInt8) (rest : List Char) :
    readLiteral (continuation ++ (escapeByte b ++ rest)) = readLiteral (escapeByte b ++ rest) := by
  obtain ⟨c, cs, hb, hc⟩ := exists_escapeByte_eq_cons b
  have hspace : isLineBlank ' ' = true := rfl
  show readLiteral ('\\' :: '\n' :: ' ' :: ' ' :: ' ' :: ' ' :: (escapeByte b ++ rest)) = _
  rw [hb, List.cons_append, readLiteral]
  simp [hspace, hc]

/-- The text of some lines, of which the first is not empty, starts with the text of a byte. -/
theorem exists_lines_eq_append {line : List UInt8} (h : line ≠ []) (others : List (List UInt8)) :
    ∃ b rest, continuation.intercalate ((line :: others).map (·.flatMap escapeByte))
      = escapeByte b ++ rest := by
  obtain ⟨b, bytes, rfl⟩ := List.exists_cons_of_ne_nil h
  rw [List.map_cons, List.flatMap_cons]
  cases others with
  | nil => exact ⟨b, _, List.intercalate_singleton⟩
  | cons next others =>
      rw [List.map_cons, List.intercalate_cons_cons, List.append_assoc, List.append_assoc]
      exact ⟨b, _, rfl⟩

/-- **Lines are read as the bytes on all of them.** -/
theorem readLiteral_intercalate {lines : List (List UInt8)} (h : ∀ line ∈ lines, line ≠ [])
    (rest : List Char) :
    readLiteral (continuation.intercalate (lines.map (·.flatMap escapeByte)) ++ '"' :: rest)
      = some (lines.flatten, rest) := by
  have hend : readLiteral ('"' :: rest) = some ([], rest) := by rw [readLiteral]
  induction lines with
  | nil => exact hend
  | cons line others ih =>
      have hothers := ih fun l hl => h l (List.mem_cons_of_mem _ hl)
      cases others with
      | nil =>
          rw [List.map_singleton, List.intercalate_singleton, readLiteral_flatMap_escapeByte, hend]
          simp
      | cons next others =>
          obtain ⟨b, more, hmore⟩ := exists_lines_eq_append (h next (by simp)) others
          rw [hmore, List.append_assoc, ← readLiteral_continuation] at hothers
          rw [List.map_cons, List.map_cons, List.intercalate_cons_cons, ← List.map_cons, hmore,
            List.append_assoc, List.append_assoc, List.append_assoc,
            readLiteral_flatMap_escapeByte, hothers]
          simp

section Pieces

variable {α : Type} {width : Nat} (hwidth : 0 < width)
include hwidth

theorem flatten_pieces {bound : Nat} {xs : List α} (h : xs.length ≤ bound) :
    (pieces width bound xs).flatten = xs := by
  induction bound generalizing xs with
  | zero => exact (List.length_eq_zero_iff.mp (Nat.le_zero.mp h)).symm
  | succ bound ih =>
      cases xs with
      | nil => rfl
      | cons a rest =>
          have hlength : ((a :: rest).drop width).length ≤ bound := by
            rw [List.length_drop]
            rw [List.length_cons] at h ⊢
            omega
          rw [pieces, List.flatten_cons, ih hlength, List.take_append_drop]

theorem ne_nil_of_mem_pieces {bound : Nat} {xs : List α} :
    ∀ piece ∈ pieces width bound xs, piece ≠ [] := by
  induction bound generalizing xs with
  | zero => exact List.forall_mem_nil _
  | succ bound ih =>
      cases xs with
      | nil => exact List.forall_mem_nil _
      | cons a rest =>
          rw [pieces, List.forall_mem_cons]
          refine ⟨?_, ih⟩
          rw [Ne, List.take_eq_nil_iff, not_or]
          exact ⟨Nat.ne_of_gt hwidth, List.cons_ne_nil a rest⟩

end Pieces

/-- **A literal is read back.** -/
theorem readLiteral_literalBody {width : Nat} (hwidth : 0 < width) (bytes : List UInt8)
    (rest : List Char) :
    readLiteral (literalBody width bytes ++ '"' :: rest) = some (bytes, rest) := by
  rw [literalBody, readLiteral_intercalate (ne_nil_of_mem_pieces hwidth),
    flatten_pieces hwidth (Nat.le_refl _)]

end AliasErasure.Text.Bytes
