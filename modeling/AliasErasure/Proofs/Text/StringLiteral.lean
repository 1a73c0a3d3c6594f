import AliasErasure.Proofs.Text.ByteLiteral
import AliasErasure.Proofs.Text.Escaping
import AliasErasure.Proofs.Wire.RoundTrip

set_option autoImplicit false

/-! # String literals are read back

The reader of a string literal starts after the opening quote and ends at the closing one. A
backslash starts an escape: by a letter, by one to three octal digits, or by `x` and one or two
hexadecimal digits. All other characters stand for themselves, but a line feed or NUL may not stand
in a literal. What a literal stands for is a sequence of bytes, those of its characters in UTF-8.

An escape is longer than the byte that it stands for. So a text that is put between quotes as it is
reads as itself just if there is nothing to escape in it (`standsFor_self_iff`), whereas an escaped
text always does (`standsFor_escape`). By the same count, the value of a text in the C notation is
the text itself just if it has no escape (`unescape?_eq_encodeText_iff`).

An escaped text tells by itself where it ends: the first quote after it that is not escaped is the
closing one, and up to there the text is read back (`escape_selfDelimits`).
-/

namespace AliasErasure.Text.Quoted

open Bytes (hexValue?)
open Wire (decodeText? decodeText?_encodeText encodeText)

/-! ## The reader -/

/-- The byte that a character stands for after a backslash. -/
def escaped? : Char → Option UInt8
  | 'a' => some 0x07
  | 'b' => some 0x08
  | 't' => some 0x09
  | 'n' => some 0x0a
  | 'v' => some 0x0b
  | 'f' => some 0x0c
  | 'r' => some 0x0d
  | '"' => some 0x22
  | '\'' => some 0x27
  | '?' => some 0x3f
  | '\\' => some 0x5c
  | _ => none

/-- The value of an octal digit. -/
def octalValue? (c : Char) : Option Nat :=
  if '0' ≤ c ∧ c ≤ '7' then some (c.toNat - '0'.toNat) else none

/-- The digits that a text starts with, at most `n` of them, and the text after them. -/
def leadingDigits (value? : Char → Option Nat) : Nat → List Char → List Nat × List Char
  | n + 1, c :: rest =>
      match value? c with
      | some d => (d :: (leadingDigits value? n rest).1, (leadingDigits value? n rest).2)
      | none => ([], c :: rest)
  | _, text => ([], text)

/-- The byte with the given digits, of which there is at least one. -/
def byteOfDigits? (base : Nat) (digits : List Nat) : Option UInt8 :=
  let n := digits.foldl (fun n d => n * base + d) 0
  if digits ≠ [] ∧ n < 256 then some n.toUInt8 else none

/-- The byte with the digits that a text starts with, and the text after them. -/
def readDigits (base : Nat) (value? : Char → Option Nat) (most : Nat) (text : List Char) :
    Option (UInt8 × List Char) :=
  (byteOfDigits? base (leadingDigits value? most text).1).map
    (·, (leadingDigits value? most text).2)

/-- The byte that an escape stands for, and the text after it. The backslash has been read. -/
def readEscape : List Char → Option (UInt8 × List Char)
  | [] => none
  | c :: rest =>
      match escaped? c with
      | some b => some (b, rest)
      | none =>
          if c = 'x' then readDigits 16 hexValue? 2 rest else readDigits 8 octalValue? 3 (c :: rest)

/-- The bytes of the first character or escape of a text, and the text after it. -/
def readItem : List Char → Option (List UInt8 × List Char)
  | [] => none
  | c :: rest =>
      if c = '\\' then (readEscape rest).map fun (b, after) => ([b], after)
      else some (String.utf8EncodeChar c, rest)

theorem leadingDigits_append (value? : Char → Option Nat) (n : Nat) (text : List Char) :
    ∃ used, text = used ++ (leadingDigits value? n text).2 ∧
      used.length = (leadingDigits value? n text).1.length := by
  fun_induction leadingDigits value? n text with
  | case1 n c rest d hd ih =>
      obtain ⟨used, htext, hlength⟩ := ih
      refine ⟨c :: used, ?_, ?_⟩
      · simp only [List.cons_append, ← htext]
      · simp only [List.length_cons, hlength]
  | case2 n c rest hnone => exact ⟨[], rfl, rfl⟩
  | case3 n text => exact ⟨[], rfl, rfl⟩

theorem exists_of_readDigits {base most : Nat} {value? : Char → Option Nat}
    {text after : List Char} {b : UInt8} (h : readDigits base value? most text = some (b, after)) :
    ∃ used, text = used ++ after ∧ used ≠ [] := by
  obtain ⟨used, htext, hlength⟩ := leadingDigits_append value? most text
  obtain ⟨b, hb, heq⟩ := Option.map_eq_some_iff.mp h
  cases heq
  refine ⟨used, htext, ?_⟩
  rintro rfl
  have hnil : (leadingDigits value? most text).1 = [] := List.length_eq_zero_iff.mp hlength.symm
  simp [byteOfDigits?, hnil] at hb

/-- An escape takes up some text after the backslash. -/
theorem exists_of_readEscape {text after : List Char} {b : UInt8}
    (h : readEscape text = some (b, after)) : ∃ used, text = used ++ after ∧ used ≠ [] := by
  unfold readEscape at h
  split at h
  · cases h
  · split at h
    · cases h
      exact ⟨[_], rfl, by simp⟩
    · split at h
      · obtain ⟨used, rfl, -⟩ := exists_of_readDigits h
        exact ⟨_ :: used, rfl, by simp⟩
      · exact exists_of_readDigits h

/-- The bytes of a text in UTF-8. -/
def utf8 (text : List Char) : List UInt8 := text.flatMap String.utf8EncodeChar

theorem utf8_append (text after : List Char) : utf8 (text ++ after) = utf8 text ++ utf8 after :=
  List.flatMap_append

theorem encodeText_eq_utf8 (s : String) : encodeText s = utf8 s.toList := by
  have hbytes : s.toByteArray = s.toList.utf8Encode :=
    congrArg String.toByteArray (String.ofList_toList (s := s)).symm
  rw [encodeText, hbytes, List.utf8Encode, List.data_toByteArray]
  rfl

theorem length_le_length_utf8 (text : List Char) : text.length ≤ (utf8 text).length := by
  induction text with
  | nil => exact Nat.le_refl 0
  | cons c rest ih =>
      have hc : 0 < (String.utf8EncodeChar c).length :=
        List.length_pos_iff.mpr String.utf8EncodeChar_ne_nil
      rw [utf8, List.flatMap_cons, List.length_append, List.length_cons]
      rw [utf8] at ih
      omega

/-- **One step of the reader** takes up some text, whose bytes in UTF-8 are not fewer than those
read; there are just as many only if a character was read that stands for itself. -/
theorem exists_of_readItem {text after : List Char} {bytes : List UInt8}
    (h : readItem text = some (bytes, after)) :
    ∃ used, text = used ++ after ∧ used ≠ [] ∧ bytes.length ≤ (utf8 used).length ∧
      ((utf8 used).length ≤ bytes.length → ∃ c, used = [c] ∧ c ≠ '\\') := by
  cases text with
  | nil => cases h
  | cons c rest =>
      rw [readItem] at h
      split at h
      · subst c
        obtain ⟨⟨b, after⟩, hescape, heq⟩ := Option.map_eq_some_iff.mp h
        cases heq
        obtain ⟨used, rfl, hne⟩ := exists_of_readEscape hescape
        have hlength := length_le_length_utf8 ('\\' :: used)
        have hused := List.length_pos_iff.mpr hne
        rw [List.length_cons] at hlength
        refine ⟨'\\' :: used, rfl, by simp, ?_, fun hle => ?_⟩
        · rw [List.length_singleton]
          omega
        · rw [List.length_singleton] at hle
          omega
      · next hc =>
        cases h
        refine ⟨[c], rfl, by simp, ?_, fun _ => ⟨c, rfl, hc⟩⟩
        simp [utf8]

/-- The bytes of the characters and escapes up to a character that satisfies `stops`, or to the end
of the text, and the text from there on. -/
def readItems (stops : Char → Bool) : List Char → Option (List UInt8 × List Char)
  | [] => some ([], [])
  | c :: rest =>
      if stops c then some ([], c :: rest)
      else
        match _h : readItem (c :: rest) with
        | none => none
        | some (bytes, after) =>
            (readItems stops after).map fun (others, last) => (bytes ++ others, last)
termination_by text => text.length
decreasing_by
  obtain ⟨used, htext, hne, -, -⟩ := exists_of_readItem ‹_›
  rw [htext, List.length_append]
  have := List.length_pos_iff.mpr hne
  omega

/-- The characters at which the reader of a literal stops. -/
def isLimit (c : Char) : Bool := c = '"' || c = '\n' || c = '\x00'

/-- The bytes that a literal stands for, up to its closing quote, and the text after the quote. -/
def readLiteral (text : List Char) : Option (List UInt8 × List Char) :=
  match readItems isLimit text with
  | some (bytes, '"' :: after) => some (bytes, after)
  | _ => none

/-- The bytes that a text in the C notation stands for. -/
def unescape? (text : List Char) : Option (List UInt8) :=
  (readItems (fun _ => false) text).map (·.1)

/-- Between quotes, a text stands for some bytes: the closing quote ends the literal, whatever
comes after it. -/
def StandsFor (body : String) (bytes : List UInt8) : Prop :=
  ∀ after, readLiteral (body.toList ++ '"' :: after) = some (bytes, after)

/-- Nothing is to be escaped in a text. -/
def Plain (s : String) : Prop := ∀ c ∈ s.toList, c ≠ '\\' ∧ isLimit c = false

/-! ## Reading texts as they are -/

section Items

variable {stops : Char → Bool} {text after : List Char} {bytes : List UInt8}

theorem readItems_of_readItem {c : Char} {rest : List Char} (hstops : stops c = false)
    (h : readItem (c :: rest) = some (bytes, after)) :
    readItems stops (c :: rest)
      = (readItems stops after).map fun (others, last) => (bytes ++ others, last) := by
  rw [readItems, if_neg (by simp [hstops])]
  split
  next hnone =>
    rw [hnone] at h
    cases h
  next hsome =>
    rw [hsome] at h
    cases h
    rfl

/-- **Escapes make a text longer**: what is taken up has at least as many bytes in UTF-8 as are
read from it, and just as many only if all of it was read as it is. -/
theorem exists_of_readItems (h : readItems stops text = some (bytes, after)) :
    ∃ used, text = used ++ after ∧ bytes.length ≤ (utf8 used).length ∧
      ((utf8 used).length ≤ bytes.length → ∀ c ∈ used, c ≠ '\\' ∧ stops c = false) := by
  fun_induction readItems stops text generalizing bytes after with
  | case1 =>
      cases h
      exact ⟨[], rfl, Nat.le_refl _, fun _ => List.forall_mem_nil _⟩
  | case2 c rest hc =>
      cases h
      exact ⟨[], rfl, Nat.le_refl _, fun _ => List.forall_mem_nil _⟩
  | case3 c rest hc hnone => cases h
  | case4 c rest hc bytes₁ after₁ hread ih =>
      obtain ⟨⟨bytes₂, last⟩, hmore, heq⟩ := Option.map_eq_some_iff.mp h
      cases heq
      obtain ⟨used₁, htext₁, -, hle₁, hplain₁⟩ := exists_of_readItem hread
      obtain ⟨used₂, rfl, hle₂, hplain₂⟩ := ih hmore
      refine ⟨used₁ ++ used₂, by rw [htext₁, List.append_assoc], ?_, fun hle => ?_⟩
      · rw [utf8_append, List.length_append, List.length_append]
        omega
      · rw [utf8_append, List.length_append, List.length_append] at hle
        obtain ⟨d, rfl, hd⟩ := hplain₁ (by omega)
        obtain ⟨rfl, -⟩ := List.cons.inj htext₁
        rw [List.singleton_append, List.forall_mem_cons]
        exact ⟨⟨hd, by simpa using hc⟩, hplain₂ (by omega)⟩

theorem readItems_append_of_plain {cs : List Char} (h : ∀ c ∈ cs, c ≠ '\\' ∧ stops c = false)
    (rest : List Char) :
    readItems stops (cs ++ rest)
      = (readItems stops rest).map fun (others, last) => (utf8 cs ++ others, last) := by
  induction cs with
  | nil => simp [utf8]
  | cons c cs ih =>
      rw [List.forall_mem_cons] at h
      have hitem : readItem (c :: (cs ++ rest)) = some (String.utf8EncodeChar c, cs ++ rest) := by
        rw [readItem, if_neg h.1.1]
      rw [List.cons_append, readItems_of_readItem h.1.2 hitem, ih h.2, Option.map_map]
      simp [Function.comp_def, utf8]

theorem readItems_nil : readItems stops [] = some ([], []) := by rw [readItems]

theorem readItems_of_stops {c : Char} (h : stops c = true) (rest : List Char) :
    readItems stops (c :: rest) = some ([], c :: rest) := by
  rw [readItems, if_pos h]

end Items

/-! ## Reading escaped texts -/

theorem utf8EncodeChar_of_lt {c : Char} (h : c.toNat < 0x80) :
    String.utf8EncodeChar c = [c.toNat.toUInt8] := by
  have hval : c.val.toNat ≤ 0x7f := Nat.le_of_lt_succ h
  rw [String.utf8EncodeChar]
  exact if_pos hval

theorem leadingDigits_hexPair {n : Nat} (h : n < 256) (rest : List Char) :
    leadingDigits hexValue? 2 (hexPair n ++ rest) = ([n / 16, n % 16], rest) := by
  have hhigh := Bytes.hexValue?_digitChar (n / 16) (by omega)
  have hlow := Bytes.hexValue?_digitChar (n % 16) (by omega)
  simp [hexPair, leadingDigits, hhigh, hlow]

theorem byteOfDigits?_hexPair {n : Nat} (h : n < 256) :
    byteOfDigits? 16 [n / 16, n % 16] = some n.toUInt8 := by
  have hvalue : n / 16 * 16 + n % 16 = n := Nat.div_add_mod' n 16
  simp [byteOfDigits?, hvalue, h]

/-- **What is written for a character reads as it.** -/
theorem readItem_escapeChar (c : Char) (rest : List Char) :
    readItem (escapeChar c ++ rest) = some (String.utf8EncodeChar c, rest) := by
  unfold escapeChar
  split_ifs with hbackslash hquote hbreak hreturn htab hcontrol
  · subst hbackslash
    rfl
  · subst hquote
    rfl
  · subst hbreak
    rfl
  · subst hreturn
    rfl
  · subst htab
    rfl
  · have hlt := lt_of_isControl hcontrol
    show (readDigits 16 hexValue? 2 (hexPair c.toNat ++ rest)).map _ = _
    rw [readDigits, leadingDigits_hexPair (by omega), byteOfDigits?_hexPair (by omega),
      utf8EncodeChar_of_lt hlt]
    rfl
  · rw [List.singleton_append, readItem, if_neg hbackslash]

/-- **An escaped text is read as the text**, by a reader that stops at quotes and control characters
only. -/
theorem readItems_escape {stops : Char → Bool}
    (hstops : ∀ c, stops c = true → c = '"' ∨ isControl c = true) (cs rest : List Char) :
    readItems stops (cs.flatMap escapeChar ++ rest)
      = (readItems stops rest).map fun (others, last) => (utf8 cs ++ others, last) := by
  induction cs with
  | nil => simp [utf8]
  | cons c cs ih =>
      obtain ⟨d, ds, hc, hquote, hcontrol⟩ := (spelling_escapeChar c).exists_eq_cons
      have hd : stops d = false := by
        rw [Bool.eq_false_iff]
        intro hd
        rcases hstops d hd with h | h
        · exact hquote h
        · rw [hcontrol] at h
          cases h
      have hitem := readItem_escapeChar c (cs.flatMap escapeChar ++ rest)
      rw [hc, List.cons_append] at hitem
      rw [List.flatMap_cons, List.append_assoc, hc, List.cons_append,
        readItems_of_readItem hd hitem, ih, Option.map_map]
      simp [Function.comp_def, utf8]

/-! ## Literals -/

theorem isControl_of_isLimit {c : Char} (h : isLimit c = true) : c = '"' ∨ isControl c = true := by
  simp only [isLimit, Bool.or_eq_true, decide_eq_true_eq] at h
  rcases h with (rfl | rfl) | rfl
  · exact Or.inl rfl
  · exact Or.inr rfl
  · exact Or.inr rfl

theorem readItems_quote (after : List Char) :
    readItems isLimit ('"' :: after) = some ([], '"' :: after) := readItems_of_stops rfl after

/-- **An escaped text stands for the text.** -/
theorem standsFor_escape (s : String) : StandsFor (escape s) (encodeText s) := by
  intro after
  rw [readLiteral, escape, String.toList_ofList,
    readItems_escape (fun _ => isControl_of_isLimit), readItems_quote, encodeText_eq_utf8]
  simp

/-- **A text stands for itself just if nothing is to be escaped in it.** -/
theorem standsFor_self_iff {s : String} : StandsFor s (encodeText s) ↔ Plain s := by
  constructor
  · intro h
    -- all of the text is taken up before the closing quote, and as many bytes are read
    have hread := h []
    unfold readLiteral at hread
    split at hread
    · next bytes after hitems =>
      cases hread
      obtain ⟨used, htext, -, hplain⟩ := exists_of_readItems hitems
      have hused : s.toList = used := List.append_cancel_right htext
      rw [Plain, hused]
      exact hplain (Nat.le_of_eq (by rw [encodeText_eq_utf8, hused]))
    · cases hread
  · intro h after
    rw [readLiteral, readItems_append_of_plain h, readItems_quote, encodeText_eq_utf8]
    simp

/-- **A text in the C notation stands for itself just if it has no escape.** -/
theorem unescape?_eq_encodeText_iff {s : String} :
    unescape? s.toList = some (encodeText s) ↔ ∀ c ∈ s.toList, c ≠ '\\' := by
  rw [unescape?, encodeText_eq_utf8]
  constructor
  · intro h
    obtain ⟨⟨bytes, after⟩, hitems, rfl⟩ := Option.map_eq_some_iff.mp h
    obtain ⟨used, htext, hle, hplain⟩ := exists_of_readItems hitems
    have hlength : (utf8 s.toList).length = (utf8 used).length + (utf8 after).length := by
      rw [htext, utf8_append, List.length_append]
    have hafter := length_le_length_utf8 after
    have hnil : after = [] := List.length_eq_zero_iff.mp (by omega)
    rw [htext, hnil, List.append_nil]
    exact fun c hc => (hplain (by omega) c hc).1
  · intro h
    have hplain : ∀ c ∈ s.toList, c ≠ '\\' ∧ (fun _ => false) c = false := fun c hc => ⟨h c hc, rfl⟩
    have hitems := readItems_append_of_plain hplain []
    rw [List.append_nil, readItems_nil] at hitems
    rw [hitems]
    simp

/-! ## Where escaped texts end -/

/-- The text up to the first quote that is not escaped, or up to the end, and what is left. -/
def readText? (text : List Char) : Option (String × List Char) :=
  (readItems (· = '"') text).bind fun (bytes, rest) => (decodeText? bytes).map (·, rest)

theorem readText?_escape_append (s : String) {rest : List Char}
    (hrest : readItems (· = '"') rest = some ([], rest)) :
    readText? ((escape s).toList ++ rest) = some (s, rest) := by
  have hstops : ∀ c : Char, decide (c = '"') = true → c = '"' ∨ isControl c = true :=
    fun c hc => Or.inl (of_decide_eq_true hc)
  have hitems : readItems (· = '"') ((escape s).toList ++ rest) = some (encodeText s, rest) := by
    rw [escape, String.toList_ofList, readItems_escape hstops, hrest, encodeText_eq_utf8]
    simp
  rw [readText?, hitems]
  show (decodeText? (encodeText s)).map (·, rest) = some (s, rest)
  rw [decodeText?_encodeText, Option.map_some]

/-- **Escaping can be undone, and an escaped text delimits itself.** It has no control characters.
Each quote in it is escaped, but a quote after it is not. It is read back as the text, up to its end
or to the quote that closes it. -/
theorem escape_selfDelimits (s : String) :
    (∀ c ∈ (escape s).toList, 0x20 ≤ c.toNat ∧ c.toNat ≠ 0x7f) ∧
      (∀ before after, (escape s).toList = before ++ '"' :: after → OpensEscape before) ∧
      ¬ OpensEscape (escape s).toList ∧
      readText? (escape s).toList = some (s, []) ∧
      ∀ after, readText? ((escape s).toList ++ '"' :: after) = some (s, '"' :: after) := by
  have htext : (escape s).toList = s.toList.flatMap escapeChar := String.toList_ofList
  refine ⟨fun c hc => ?_, fun before after h => ?_, ?_, ?_, fun after => ?_⟩
  · rw [htext] at hc
    exact isControl_eq_false_iff.mp (isControl_of_mem_flatMap_escapeChar hc)
  · rw [htext] at h
    exact opensEscape_of_quote h
  · rw [htext]
    exact not_opensEscape_flatMap_escapeChar s.toList
  · have hread := readText?_escape_append s readItems_nil
    rwa [List.append_nil] at hread
  · exact readText?_escape_append s (readItems_of_stops rfl after)

/-- A control character before a hexadecimal digit, a quote, and a backslash at the end. -/
def bellText : String := "\x07f\"\\"

theorem escape_bellText : escape bellText = "\\x07f\\\"\\\\" := rfl

theorem escape_selfDelimits_bell :
    ('f' ∈ (escape bellText).toList ∧ 0x20 ≤ 'f'.toNat ∧ 'f'.toNat ≠ 0x7f) ∧
      ((escape bellText).toList = "\\x07f\\".toList ++ '"' :: "\\\\".toList ∧
        OpensEscape "\\x07f\\".toList) ∧
      ¬ OpensEscape (escape bellText).toList ∧
      readText? (escape bellText).toList = some (bellText, []) ∧
      readText? ((escape bellText).toList ++ ['"', ';']) = some (bellText, ['"', ';']) := by
  obtain ⟨hcontrol, hquotes, hend, hread, hclosed⟩ := escape_selfDelimits bellText
  have hmem : 'f' ∈ (escape bellText).toList := by
    rw [escape_bellText]
    decide
  have hsplit : (escape bellText).toList = "\\x07f\\".toList ++ '"' :: "\\\\".toList := by
    rw [escape_bellText]
    rfl
  exact ⟨⟨hmem, hcontrol 'f' hmem⟩, ⟨hsplit, hquotes _ _ hsplit⟩, hend, hread, hclosed _⟩

end AliasErasure.Text.Quoted
