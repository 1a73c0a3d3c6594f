import AliasErasure.Output.Path
import AliasErasure.Proofs.Text.Split

set_option autoImplicit false

/-! # Paths by their segments

What is done to the text of a path is told by its segments: a slash between two texts puts their
segments one after the other, and what follows without a slash belongs to the last segment. From
this the parts of a joined path and of the path of a parent folder are read off.
-/

namespace AliasErasure.Path

/-! ## Segments -/

theorem segments_append_slash (a b : String) :
    segments (a ++ "/" ++ b) = segments a ++ segments b := by
  have htext : (a ++ "/" ++ b).toList = a.toList ++ '/' :: b.toList := by simp
  rw [segments, htext, Text.splitAt_append_cons, List.map_append, segments, segments]

theorem segments_of_not_mem {name : String} (h : '/' ∉ name.toList) : segments name = [name] := by
  rw [segments, Text.splitAt_of_not_mem h, List.map_singleton, String.ofList_toList]

theorem not_mem_of_mem_segments {path segment : String} (h : segment ∈ segments path) :
    '/' ∉ segment.toList := by
  obtain ⟨cs, hcs, rfl⟩ := List.mem_map.mp h
  rw [String.toList_ofList]
  exact Text.not_mem_of_mem_splitAt hcs

/-- The last segment of a path. -/
def lastSegment (path : String) : String := (segments path).getLastD ""

/-- What follows without a slash belongs to the last segment. -/
theorem segments_append {ending : String} (h : '/' ∉ ending.toList) (path : String) :
    segments (path ++ ending) = (segments path).dropLast ++ [lastSegment path ++ ending] := by
  obtain ⟨parts, last, hpath, hboth⟩ := Text.splitAt_append_of_not_mem h path.toList
  rw [lastSegment, segments, segments, String.toList_append, hpath, hboth]
  simp

theorem lastSegment_append {ending : String} (h : '/' ∉ ending.toList) (path : String) :
    lastSegment (path ++ ending) = lastSegment path ++ ending := by
  rw [lastSegment, segments_append h, List.getLastD_concat]

theorem segments_eq (path : String) :
    segments path = (segments path).dropLast ++ [lastSegment path] := by
  have h := @segments_append "" (by simp) path
  rwa [String.append_empty, String.append_empty] at h

theorem lastSegment_mem (path : String) : lastSegment path ∈ segments path := by
  rw [segments_eq]
  simp

theorem segments_intercalate {l : List String} (h : ∀ s ∈ l, '/' ∉ s.toList) (hne : l ≠ []) :
    segments ("/".intercalate l) = l := by
  have hparts : ∀ cs ∈ l.map String.toList, '/' ∉ cs := by simpa using h
  rw [segments, String.toList_intercalate, Text.splitAt_eq_splitOn]
  show List.map String.ofList ((['/'].intercalate (l.map String.toList)).splitOn '/') = l
  rw [List.splitOn_intercalate '/' hparts (by simpa using hne)]
  simp

/-! ## Parts -/

theorem mem_parts_iff {path part : String} :
    part ∈ parts path ↔ part ∈ segments path ∧ isNeutral part = false := by
  simp [parts]

theorem up_mem_parts_iff {path : String} : ".." ∈ parts path ↔ ".." ∈ segments path := by
  have hup : isNeutral ".." = false := by decide
  simp [mem_parts_iff, hup]

theorem parts_append_slash (a b : String) : parts (a ++ "/" ++ b) = parts a ++ parts b := by
  rw [parts, segments_append_slash, List.filter_append, parts, parts]

theorem parts_empty : parts "" = [] := by decide

/-- **The parts of a joined path** are those of the directory, followed by those of the name. -/
theorem parts_join (directory name : String) :
    parts (join directory name) = parts directory ++ parts name := by
  rw [join]
  split
  · next h =>
    rcases h with rfl | hslash
    · rw [parts_empty, String.empty_append, List.nil_append]
    · -- the slash at the end of the directory is the one between the two
      obtain ⟨front, hfront⟩ := List.getLast?_eq_some_iff.mp hslash
      obtain rfl : directory = String.ofList front ++ "/" := by
        rw [← String.toList_inj, hfront]
        simp
      have hdirectory := parts_append_slash (String.ofList front) ""
      rw [String.append_empty, parts_empty, List.append_nil] at hdirectory
      rw [parts_append_slash, hdirectory]
  · exact parts_append_slash directory name

example : parts (join "out/" "./a//x.proto") = ["out", "a", "x.proto"] := by decide

theorem isRooted_append {a : String} (h : a ≠ "") (b : String) :
    isRooted (a ++ b) = isRooted a := by
  obtain ⟨c, rest, hrest⟩ := List.exists_cons_of_ne_nil (String.toList_eq_nil_iff.not.mpr h)
  rw [isRooted, isRooted, String.toList_append, hrest]
  rfl

/-- A name that does not start at the root leaves the start of the path to the directory. -/
theorem isRooted_join (directory : String) {name : String} (h : isRooted name = false) :
    isRooted (join directory name) = isRooted directory := by
  by_cases hempty : directory = ""
  · rw [join, if_pos (Or.inl hempty), hempty, String.empty_append, h]
    rfl
  · rw [join]
    split
    · exact isRooted_append hempty name
    · rw [String.append_assoc, isRooted_append hempty]

theorem parts_intercalate {l : List String} (h : ∀ s ∈ l, '/' ∉ s.toList) :
    parts ("/".intercalate l) = l.filter fun s => !isNeutral s := by
  by_cases hne : l = []
  · subst hne
    decide
  · rw [parts, segments_intercalate h hne]

theorem filter_trimNeutral (l : List String) :
    (trimNeutral l).filter (fun s => !isNeutral s) = l.filter fun s => !isNeutral s := by
  have hdrop : ∀ l : List String, (l.dropWhile isNeutral).filter (fun s => !isNeutral s)
      = l.filter fun s => !isNeutral s := by
    intro l
    induction l with
    | nil => rfl
    | cons s l ih =>
        by_cases hs : isNeutral s = true
        · rw [List.dropWhile_cons_of_pos hs, ih, List.filter_cons_of_neg (by simp [hs])]
        · rw [List.dropWhile_cons_of_neg hs]
  rw [trimNeutral, List.filter_reverse, hdrop, ← List.filter_reverse, List.reverse_reverse]

/-- After trimming, the last segment is a part. -/
theorem filter_dropLast_trimNeutral (l : List String) :
    (trimNeutral l).dropLast.filter (fun s => !isNeutral s)
      = (l.filter fun s => !isNeutral s).dropLast := by
  rw [← filter_trimNeutral l]
  rcases List.eq_nil_or_concat' (trimNeutral l) with hnil | ⟨front, last, hlast⟩
  · rw [hnil]
    rfl
  · have hpart : isNeutral last = false := by
      have hdrop : l.reverse.dropWhile isNeutral = last :: front.reverse := by
        rw [← List.reverse_reverse (l.reverse.dropWhile isNeutral), ← trimNeutral, hlast]
        simp
      have hhead := List.head?_dropWhile_not isNeutral l.reverse
      simpa [hdrop] using hhead
    rw [hlast, List.dropLast_concat, List.filter_append]
    simp [hpart]

theorem mem_of_mem_trimNeutral {l : List String} {s : String} (h : s ∈ trimNeutral l) : s ∈ l := by
  rw [trimNeutral, List.mem_reverse] at h
  exact List.mem_reverse.mp (List.dropWhile_subset _ h)

/-- **The parts of the parent** are those of the path without the last. -/
theorem parts_parent (path : String) : parts (parent path) = (parts path).dropLast := by
  have hslashless : ∀ s ∈ trimNeutral (trimNeutral (segments path)).dropLast,
      '/' ∉ s.toList := by
    intro s hs
    have hmem := mem_of_mem_trimNeutral (List.dropLast_subset _ (mem_of_mem_trimNeutral hs))
    exact not_mem_of_mem_segments hmem
  calc parts (parent path)
      = (trimNeutral (trimNeutral (segments path)).dropLast).filter (fun s => !isNeutral s) :=
        parts_intercalate hslashless
    _ = (trimNeutral (segments path)).dropLast.filter (fun s => !isNeutral s) :=
        filter_trimNeutral _
    _ = (parts path).dropLast := filter_dropLast_trimNeutral _

end AliasErasure.Path
