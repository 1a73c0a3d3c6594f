import AliasErasure.Text.Split
import Mathlib.Tactic

set_option autoImplicit false

/-! # Cut texts

Cutting at every separator is the library's `List.splitOn` (`Text.splitAt_eq_splitOn`), so most of
its laws come from there. Cutting at the first separator yields a part before it that has none, and
all the rest (`Text.cut?_append_cons`).
-/

namespace AliasErasure.Text

variable {sep : Char} {text before after : List Char}

theorem splitAt_eq_splitOn (sep : Char) (text : List Char) :
    splitAt sep text = text.splitOn sep := by
  induction text with
  | nil => rfl
  | cons c text ih =>
      obtain ⟨first, others, hsplit⟩ := List.exists_cons_of_ne_nil (List.splitOn_ne_nil sep text)
      rw [splitAt, List.splitOn_cons_eq_if_modifyHead, ih]
      by_cases hc : c = sep
      · simp [hc]
      · simp [hc, hsplit]

/-- A separator divides the parts before it from those after it. -/
theorem splitAt_append_cons (sep : Char) (before after : List Char) :
    splitAt sep (before ++ sep :: after) = splitAt sep before ++ splitAt sep after := by
  simp only [splitAt_eq_splitOn, List.splitOn_append_cons_self]

theorem splitAt_of_not_mem (h : sep ∉ text) : splitAt sep text = [text] := by
  rw [splitAt_eq_splitOn, List.splitOn_eq_singleton h]

theorem splitAt_append (h : sep ∉ text) (rest : List Char) :
    splitAt sep (text ++ sep :: rest) = text :: splitAt sep rest := by
  rw [splitAt_append_cons, splitAt_of_not_mem h, List.singleton_append]

/-- What follows without a separator belongs to the last part. -/
theorem splitAt_append_of_not_mem (h : sep ∉ after) (before : List Char) :
    ∃ parts last, splitAt sep before = parts ++ [last] ∧
      splitAt sep (before ++ after) = parts ++ [last ++ after] := by
  induction before with
  | nil => exact ⟨[], [], rfl, splitAt_of_not_mem h⟩
  | cons c before ih =>
      obtain ⟨parts, last, hbefore, hboth⟩ := ih
      rw [List.cons_append, splitAt, splitAt, hbefore, hboth]
      by_cases hc : c = sep
      · exact ⟨[] :: parts, last, by simp [hc], by simp [hc]⟩
      · cases parts with
        | nil => exact ⟨[], c :: last, by simp [hc], by simp [hc]⟩
        | cons first parts => exact ⟨(c :: first) :: parts, last, by simp [hc], by simp [hc]⟩

theorem not_mem_of_mem_splitAt {part : List Char} (h : part ∈ splitAt sep text) : sep ∉ part := by
  induction text generalizing part with
  | nil =>
      rw [splitAt, List.mem_singleton] at h
      simp [h]
  | cons c rest ih =>
      rw [splitAt] at h
      split at h
      · rcases List.mem_cons.mp h with rfl | hrest
        · exact List.not_mem_nil
        · exact ih hrest
      · next hc =>
        split at h
        · rw [List.mem_singleton] at h
          simp [h, Ne.symm hc]
        · next first others hsplit =>
          rw [hsplit] at ih
          rcases List.mem_cons.mp h with rfl | hothers
          · have hfirst := ih List.mem_cons_self
            simp [hfirst, Ne.symm hc]
          · exact ih (List.mem_cons_of_mem _ hothers)

theorem cut?_of_not_mem (h : sep ∉ text) : cut? sep text = none := by
  induction text with
  | nil => rfl
  | cons c text ih =>
      rw [List.mem_cons, not_or] at h
      rw [cut?, if_neg (Ne.symm h.1), ih h.2, Option.map_none]

theorem cut?_append_cons (h : sep ∉ before) (after : List Char) :
    cut? sep (before ++ sep :: after) = some (before, after) := by
  induction before with
  | nil => rw [List.nil_append, cut?, if_pos rfl]
  | cons c before ih =>
      rw [List.mem_cons, not_or] at h
      rw [List.cons_append, cut?, if_neg (Ne.symm h.1), ih h.2, Option.map_some]

end AliasErasure.Text
