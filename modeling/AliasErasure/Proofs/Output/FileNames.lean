import AliasErasure.Output.FileName
import AliasErasure.Proofs.Output.Paths

set_option autoImplicit false

/-! # Names of generated files, taken apart

The name of a generated file is a stem and an ending (`File.outputName_eq`). The stem is the name of
the schema file without its ending, put into the directory for Go packages if there is one. What an
ending is added to can become no segment that means nothing or goes up, so names are as safe as what
they are made from (`File.not_leadsOut_outputName`).
-/

namespace AliasErasure

/-! ## Endings -/

/-- The ending of a file name: it has no slash, and is too long for a segment of its own that
means nothing or goes up. -/
structure IsEnding (ending : String) : Prop where
  slashless : '/' ∉ ending.toList
  long : 2 < ending.length

/-- The endings of generated files. -/
def outputEndings : List String := [".resolved.proto", ".desc.rs"]

theorem isEnding_of_mem {ending : String} (h : ending ∈ outputEndings) : IsEnding ending := by
  simp only [outputEndings, List.mem_cons, List.not_mem_nil, or_false] at h
  rcases h with rfl | rfl
  · exact ⟨by decide, by decide⟩
  · exact ⟨by decide, by decide⟩

theorem isEnding_proto : IsEnding ".proto" := ⟨by decide, by decide⟩

section Ending

variable {ending : String}

theorem IsEnding.append_ne (h : IsEnding ending) (text : String) {s : String}
    (hs : s.length ≤ 2) : text ++ ending ≠ s := by
  rintro rfl
  have hlong := h.long
  rw [String.length_append] at hs
  omega

theorem IsEnding.isNeutral_append (h : IsEnding ending) (text : String) :
    Path.isNeutral (text ++ ending) = false := by
  have hempty := h.append_ne text (s := "") (by decide)
  have hdot := h.append_ne text (s := ".") (by decide)
  simp [Path.isNeutral, hempty, hdot]

/-- The last part of what an ending is added to. -/
theorem IsEnding.baseName?_append (h : IsEnding ending) (stem : String) :
    Path.baseName? (stem ++ ending) = some (Path.lastSegment stem ++ ending) := by
  have hparts : Path.parts (stem ++ ending)
      = (Path.segments stem).dropLast.filter (fun s => !Path.isNeutral s)
        ++ [Path.lastSegment stem ++ ending] := by
    rw [Path.parts, Path.segments_append h.slashless, List.filter_append]
    simp [h.isNeutral_append]
  -- it is a part, and does not go up, because it is too long
  have hup := h.append_ne (Path.lastSegment stem) (s := "..") (by decide)
  rw [Path.baseName?, hparts, List.getLast?_concat]
  simp [hup]

end Ending

/-! ## Stems -/

theorem schemaStem_append (stem : String) : schemaStem (stem ++ ".proto") = stem := by
  have hsuffix : ".proto".toList.isSuffixOf (stem ++ ".proto").toList = true := by
    rw [List.isSuffixOf_iff_suffix, String.toList_append]
    exact List.suffix_append _ _
  rw [schemaStem, if_pos hsuffix]
  simp

/-- The stem of a name is the name without the ending, or the name itself. -/
theorem eq_schemaStem_append_or (name : String) :
    name = schemaStem name ++ ".proto" ∨ schemaStem name = name := by
  by_cases h : ".proto".toList.isSuffixOf name.toList = true
  · left
    obtain ⟨front, hfront⟩ := List.isSuffixOf_iff_suffix.mp h
    obtain rfl : name = String.ofList front ++ ".proto" := by
      rw [← String.toList_inj, ← hfront]
      simp
    rw [schemaStem_append]
  · right
    rw [schemaStem, if_neg h]

/-! ## Directories -/

/-- The directory that a descriptor declares for Go packages, which may be empty. -/
def Descriptor.FileProto.goDirectory (p : FileProto) : String :=
  ((p.options.bind (·.goPackage)).map importPath).getD ""

/-- Where a name is put: its last segment goes to the directory, if import paths count and there
is a directory. -/
def placed (importPaths : Bool) (directory name : String) : String :=
  if importPaths ∧ directory ≠ "" then directory ++ "/" ++ Path.lastSegment name else name

theorem placed_append {ending : String} (h : IsEnding ending) (importPaths : Bool)
    (directory stem : String) :
    placed importPaths directory (stem ++ ending) = placed importPaths directory stem ++ ending := by
  rw [placed, placed, Path.lastSegment_append h.slashless]
  split
  · exact (String.append_assoc ..).symm
  · rfl

/-- **Names are stems with endings**, and the stems do not depend on the endings. -/
theorem File.outputName_eq (f : File) (importPaths : Bool) {ending : String}
    (h : IsEnding ending) :
    f.outputName importPaths ending
      = placed importPaths f.proto.goDirectory (schemaStem f.name) ++ ending := by
  rw [← placed_append h, placed, Path.lastSegment_append h.slashless, File.outputName,
    h.baseName?_append]
  rfl

/-! ## Where names lead -/

/-- A name may lead out of a directory: it is empty, starts at the root, or goes up. -/
def Path.LeadsOut (name : String) : Prop :=
  name = "" ∨ name.toList.head? = some '/' ∨ ".." ∈ Path.segments name

/-- A path that does not start at the root, and does not go up. -/
structure Path.Descends (path : String) : Prop where
  relative : path.toList.head? ≠ some '/'
  down : ".." ∉ Path.segments path

theorem Path.not_leadsOut_iff {name : String} :
    ¬ Path.LeadsOut name ↔ name ≠ "" ∧ Path.Descends name := by
  rw [Path.LeadsOut, not_or, not_or]
  exact ⟨fun h => ⟨h.1, h.2.1, h.2.2⟩, fun h => ⟨h.1, h.2.relative, h.2.down⟩⟩

theorem Path.isRooted_eq_false_iff {path : String} :
    Path.isRooted path = false ↔ path.toList.head? ≠ some '/' := by
  simp [Path.isRooted]

/-- With an ending, only what stands before the last segment matters. -/
theorem IsEnding.not_leadsOut_append {ending stem : String} (h : IsEnding ending)
    (hrelative : stem.toList.head? ≠ some '/') (hdown : ".." ∉ (Path.segments stem).dropLast) :
    ¬ Path.LeadsOut (stem ++ ending) := by
  refine Path.not_leadsOut_iff.mpr ⟨h.append_ne stem (by decide), ?_, ?_⟩
  · rw [String.toList_append, List.head?_append]
    cases hhead : stem.toList.head? with
    | some c =>
        rw [Option.some_or, ← hhead]
        exact hrelative
    | none =>
        rw [Option.none_or]
        intro hslash
        exact h.slashless (List.mem_of_head? hslash)
  · rw [Path.segments_append h.slashless, List.mem_append, List.mem_singleton, not_or]
    exact ⟨hdown, (h.append_ne _ (by decide)).symm⟩

/-- What a stem needs of the name that it is taken from. -/
theorem Path.Descends.schemaStem {name : String} (h : Path.Descends name) :
    (schemaStem name).toList.head? ≠ some '/' ∧
      ".." ∉ (Path.segments (AliasErasure.schemaStem name)).dropLast := by
  rcases eq_schemaStem_append_or name with hname | hname
  · obtain ⟨hrelative, hdown⟩ := h
    rw [hname, String.toList_append, List.head?_append] at hrelative
    rw [hname, Path.segments_append isEnding_proto.slashless, List.mem_append, not_or] at hdown
    refine ⟨fun hslash => hrelative ?_, hdown.1⟩
    rw [hslash, Option.some_or]
  · rw [hname]
    exact ⟨h.relative, fun hup => h.down (List.dropLast_subset _ hup)⟩

/-- **Names of generated files stay inside** if the name of the schema file and the directory for
Go packages do. -/
theorem File.not_leadsOut_outputName {f : File} (hname : Path.Descends f.name)
    (hdirectory : Path.Descends f.proto.goDirectory) (importPaths : Bool) {ending : String}
    (h : IsEnding ending) : ¬ Path.LeadsOut (f.outputName importPaths ending) := by
  rw [f.outputName_eq importPaths h, placed]
  split
  next hdir =>
    have hlast : '/' ∉ (Path.lastSegment (schemaStem f.name)).toList :=
      Path.not_mem_of_mem_segments (Path.lastSegment_mem _)
    apply h.not_leadsOut_append
    · -- the path starts as the directory does, which is not empty
      have hrooted := Path.isRooted_append hdir.2 ("/" ++ Path.lastSegment (schemaStem f.name))
      rw [← String.append_assoc, Path.isRooted_eq_false_iff.mpr hdirectory.relative] at hrooted
      exact Path.isRooted_eq_false_iff.mp hrooted
    · rw [Path.segments_append_slash, Path.segments_of_not_mem hlast, List.dropLast_concat]
      exact hdirectory.down
  next =>
    obtain ⟨hrelative, hdown⟩ := hname.schemaStem
    exact h.not_leadsOut_append hrelative hdown

end AliasErasure
