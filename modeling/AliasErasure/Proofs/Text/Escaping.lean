import AliasErasure.Text.Quoted
import Mathlib.Algebra.Ring.Parity
import Mathlib.Data.List.DropRight
import Mathlib.Tactic.SplitIfs

set_option autoImplicit false

/-! # What is written for a text inside a literal

What is written for a character has one of four forms (`Spelling`): the character alone, a backslash
or a quote after a backslash, or a code of letters and digits after a backslash. All that is known
about an escaped text follows from these forms. It has no control characters
(`isControl_of_mem_flatMap_escapeChar`).

Whether a quote in a text is escaped shows in the backslashes right before it. They pair up to
escaped backslashes from the left, so that one of them is left for the quote just if their number is
odd (`OpensEscape`). This is so at every quote of an escaped text (`opensEscape_of_quote`), and not
at its end (`not_opensEscape_flatMap_escapeChar`), where the closing quote comes.
-/

namespace AliasErasure.Text.Quoted

/-! ## Characters -/

/-- Nothing is to be escaped in a character. -/
def IsBare (c : Char) : Prop := c ≠ '\\' ∧ c ≠ '"' ∧ isControl c = false

instance : DecidablePred IsBare := fun c =>
  inferInstanceAs (Decidable (c ≠ '\\' ∧ c ≠ '"' ∧ isControl c = false))

/-- The forms of what is written for a character. -/
inductive Spelling : Char → List Char → Prop where
  | bare {c : Char} (hc : IsBare c) : Spelling c [c]
  | backslash : Spelling '\\' ['\\', '\\']
  | quote : Spelling '"' ['\\', '"']
  /-- A letter, or `x` and digits, after a backslash. -/
  | coded {c : Char} {code : List Char} (hne : code ≠ []) (hcode : ∀ d ∈ code, IsBare d) :
      Spelling c ('\\' :: code)

theorem isControl_eq_false_iff {c : Char} :
    isControl c = false ↔ 0x20 ≤ c.toNat ∧ c.toNat ≠ 0x7f := by
  simp [isControl]

theorem lt_of_isControl {c : Char} (h : isControl c = true) : c.toNat < 0x80 := by
  simp only [isControl, Bool.or_eq_true, decide_eq_true_eq, beq_iff_eq] at h
  omega

theorem isBare_digitChar : ∀ d < 16, IsBare (Nat.digitChar d) := by decide

theorem isBare_of_mem_hexPair {n : Nat} (h : n < 256) : ∀ d ∈ hexPair n, IsBare d := by
  have hhigh := isBare_digitChar (n / 16) (by omega)
  have hlow := isBare_digitChar (n % 16) (by omega)
  simp [hexPair, hhigh, hlow]

/-- **Each character is written in one of the forms.** -/
theorem spelling_escapeChar (c : Char) : Spelling c (escapeChar c) := by
  have hletter : ∀ d, IsBare d → Spelling c ['\\', d] := fun d hd =>
    .coded (List.cons_ne_nil d []) (List.forall_mem_singleton.mpr hd)
  unfold escapeChar
  split_ifs with hbackslash hquote hbreak hreturn htab hcontrol
  · subst hbackslash
    exact .backslash
  · subst hquote
    exact .quote
  · exact hletter 'n' (by decide)
  · exact hletter 'r' (by decide)
  · exact hletter 't' (by decide)
  · have hlt := lt_of_isControl hcontrol
    refine .coded (List.cons_ne_nil _ _) ?_
    rw [List.forall_mem_cons]
    exact ⟨by decide, isBare_of_mem_hexPair (by omega)⟩
  · exact .bare ⟨hbackslash, hquote, by simpa using hcontrol⟩

section Spelling

variable {c d : Char} {text before after : List Char}

theorem Spelling.isControl_of_mem (h : Spelling c text) (hd : d ∈ text) : isControl d = false := by
  cases h with
  | bare hc =>
      obtain rfl := List.mem_singleton.mp hd
      exact hc.2.2
  | backslash =>
      rcases List.mem_pair.mp hd with rfl | rfl
      · rfl
      · rfl
  | quote =>
      rcases List.mem_pair.mp hd with rfl | rfl
      · rfl
      · rfl
  | coded hne hcode =>
      rcases List.mem_cons.mp hd with rfl | hd
      · rfl
      · exact (hcode d hd).2.2

theorem Spelling.exists_eq_cons (h : Spelling c text) :
    ∃ d ds, text = d :: ds ∧ d ≠ '"' ∧ isControl d = false := by
  cases h with
  | bare hc => exact ⟨c, [], rfl, hc.2⟩
  | backslash => exact ⟨'\\', ['\\'], rfl, by decide, rfl⟩
  | quote => exact ⟨'\\', ['"'], rfl, by decide, rfl⟩
  | coded hne hcode => exact ⟨'\\', _, rfl, by decide, rfl⟩

/-- A quote stands after a backslash that is written for the same character. -/
theorem Spelling.eq_of_quote (h : Spelling c (before ++ '"' :: after)) : before = ['\\'] := by
  have hmem : '"' ∈ before ++ '"' :: after := List.mem_append_right _ List.mem_cons_self
  generalize htext : before ++ '"' :: after = text at h hmem
  cases h with
  | bare hc =>
      obtain rfl := List.mem_singleton.mp hmem
      exact (hc.2.1 rfl).elim
  | backslash => exact absurd hmem (by decide)
  | quote =>
      cases before with
      | nil => cases htext
      | cons b before =>
          obtain ⟨rfl, hrest⟩ := List.cons.inj htext
          rcases List.append_eq_singleton_iff.mp hrest with ⟨rfl, -⟩ | ⟨-, hnil⟩
          · rfl
          · cases hnil
  | coded hne hcode =>
      rcases List.mem_cons.mp hmem with hquote | hquote
      · cases hquote
      · exact ((hcode _ hquote).2.1 rfl).elim

/-! ## Backslashes before a quote -/

/-- After the text, a quote would be escaped: the backslashes at the end are odd in number. -/
def OpensEscape (text : List Char) : Prop := Odd (text.rtakeWhile (· = '\\')).length

instance : DecidablePred OpensEscape := fun text =>
  inferInstanceAs (Decidable (Odd (text.rtakeWhile (· = '\\')).length))

theorem opensEscape_append_singleton_iff :
    OpensEscape (text ++ [c]) ↔ c = '\\' ∧ ¬ OpensEscape text := by
  rw [OpensEscape, OpensEscape, List.rtakeWhile_concat]
  by_cases hc : c = '\\'
  · simp [hc, Nat.odd_add_one]
  · simp [hc]

/-- What is written for a character leaves no backslash over. -/
theorem Spelling.not_opensEscape_append (h : Spelling c text) (hbefore : ¬ OpensEscape before) :
    ¬ OpensEscape (before ++ text) := by
  cases h with
  | bare hc =>
      rw [opensEscape_append_singleton_iff]
      exact fun hopens => hc.1 hopens.1
  | backslash =>
      -- the second backslash pairs up with the first
      rw [List.append_cons, opensEscape_append_singleton_iff, opensEscape_append_singleton_iff]
      exact fun hopens => hopens.2 ⟨rfl, hbefore⟩
  | quote =>
      rw [List.append_cons, opensEscape_append_singleton_iff]
      exact fun hopens => absurd hopens.1 (by decide)
  | coded hne hcode =>
      obtain ⟨init, d, rfl⟩ := (List.eq_nil_or_concat' _).resolve_left hne
      rw [List.append_cons, ← List.append_assoc, opensEscape_append_singleton_iff]
      have hd : IsBare d := hcode d (List.mem_append_right init List.mem_cons_self)
      exact fun hopens => hd.1 hopens.1

end Spelling

/-! ## Texts -/

theorem isControl_of_mem_flatMap_escapeChar {cs : List Char} {d : Char}
    (hd : d ∈ cs.flatMap escapeChar) : isControl d = false := by
  obtain ⟨c, -, hd⟩ := List.mem_flatMap.mp hd
  exact (spelling_escapeChar c).isControl_of_mem hd

/-- **The closing quote is not escaped**, whatever text is before it. -/
theorem not_opensEscape_flatMap_escapeChar (cs : List Char) :
    ¬ OpensEscape (cs.flatMap escapeChar) := by
  induction cs using List.reverseRecOn with
  | nil => decide
  | append_singleton cs c ih =>
      rw [List.flatMap_append, List.flatMap_singleton]
      exact (spelling_escapeChar c).not_opensEscape_append ih

/-- What stands before a quote is written for some text, save for one backslash. -/
theorem exists_of_flatMap_escapeChar_eq {cs before after : List Char}
    (h : cs.flatMap escapeChar = before ++ '"' :: after) :
    ∃ ds : List Char, before = ds.flatMap escapeChar ++ ['\\'] := by
  induction cs generalizing before with
  | nil => simp at h
  | cons c cs ih =>
      rw [List.flatMap_cons] at h
      rcases List.append_eq_append_iff.mp h with ⟨more, rfl, hcs⟩ | ⟨more, hc, hmore⟩
      · obtain ⟨ds, rfl⟩ := ih hcs
        exact ⟨c :: ds, by rw [List.flatMap_cons, List.append_assoc]⟩
      · cases more with
        | nil =>
            -- what is written for the next character would start with the quote
            have hcs : cs.flatMap escapeChar = [] ++ '"' :: after := hmore.symm
            obtain ⟨ds, hds⟩ := ih hcs
            simp at hds
        | cons d more =>
            obtain ⟨rfl, -⟩ := List.cons.inj hmore
            have hspelling := spelling_escapeChar c
            rw [hc] at hspelling
            exact ⟨[], hspelling.eq_of_quote⟩

/-- **Each quote is escaped** in an escaped text. -/
theorem opensEscape_of_quote {cs before after : List Char}
    (h : cs.flatMap escapeChar = before ++ '"' :: after) : OpensEscape before := by
  obtain ⟨ds, rfl⟩ := exists_of_flatMap_escapeChar_eq h
  exact opensEscape_append_singleton_iff.mpr ⟨rfl, not_opensEscape_flatMap_escapeChar ds⟩

end AliasErasure.Text.Quoted
