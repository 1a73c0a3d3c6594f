import AliasErasure.Proofs.Output.FileNames
import AliasErasure.Proofs.Run.Requests

set_option autoImplicit false

/-! # When generated files get the same name

A run names its files after schema files, with one ending for each generator. The endings tell the
generators apart, so two files have the same name only if what they are named after goes to the same
place: its *destination*, which is the name of the schema file, or the import path for Go packages
with the last segment of that name. With import paths schema files of one package and of different
directories may go to the same place; without them, destinations are the names themselves, and all
generated files are told apart (`outputNames_nodup_iff`).
-/

namespace AliasErasure

open Descriptor (FileProto Request)

/-! ## Endings of a run -/

/-- The ending of what a generator makes, if it makes anything. -/
def Generator.ending? (config : OutputConfig) : Generator → Option String
  | .source => some ".resolved.proto"
  | .embedding => if config.stripNonfunctional then none else some ".desc.rs"

/-- The endings of what is generated for a file. -/
def Options.endings (o : Options) : List String :=
  o.emit.generators.filterMap (Generator.ending? o.output)

theorem Generator.map_name_run (config : OutputConfig) (f : File) (g : Generator) :
    (g.run config f).map (·.name)
      = (g.ending? config).toList.map (f.outputName config.importPaths) := by
  cases g with
  | source => rfl
  | embedding =>
      rw [Generator.run, embed, Generator.ending?]
      split <;> rfl

theorem Options.map_name_outputOf (o : Options) (f : File) :
    (o.outputOf f).map (·.name) = o.endings.map (f.outputName o.output.importPaths) := by
  rw [Options.outputOf, Options.endings, List.map_flatMap, List.filterMap_eq_flatMap_toList,
    List.map_flatMap]
  simp only [Generator.map_name_run]

theorem Options.mem_outputEndings {o : Options} {ending : String} (h : ending ∈ o.endings) :
    ending ∈ outputEndings := by
  obtain ⟨g, -, hg⟩ := List.mem_filterMap.mp h
  cases g with
  | source =>
      cases hg
      decide
  | embedding =>
      rw [Generator.ending?] at hg
      split at hg
      · cases hg
      · cases hg
        decide

theorem Options.nodup_endings (o : Options) : o.endings.Nodup := by
  rw [Options.endings]
  cases o.emit <;> cases hstrip : o.output.stripNonfunctional <;>
    simp [Emit.generators, Generator.ending?, hstrip]

/-- Nothing is generated if only descriptors are to be embedded, and are to be left out. -/
theorem Options.endings_eq_nil_iff {o : Options} :
    o.endings = [] ↔ o.emit = .embedding ∧ o.output.stripNonfunctional = true := by
  rw [Options.endings]
  cases o.emit <;> cases hstrip : o.output.stripNonfunctional <;>
    simp [Emit.generators, Generator.ending?, hstrip]

/-! ## Stems and endings -/

/-- The endings have different last characters. -/
theorem ending_eq_of_getLast? {e e' : String} (he : e ∈ outputEndings) (he' : e' ∈ outputEndings)
    (h : e.toList.getLast? = e'.toList.getLast?) : e = e' := by
  simp only [outputEndings, List.mem_cons, List.not_mem_nil, or_false] at he he'
  rcases he with rfl | rfl <;> rcases he' with rfl | rfl
  · rfl
  · exact absurd h (by decide)
  · exact absurd h (by decide)
  · rfl

/-- A name says which ending it has, and what stands before it. -/
theorem append_ending_inj {a b e e' : String} (he : e ∈ outputEndings) (he' : e' ∈ outputEndings)
    (h : a ++ e = b ++ e') : a = b ∧ e = e' := by
  have htext : a.toList ++ e.toList = b.toList ++ e'.toList := by
    rw [← String.toList_append, h, String.toList_append]
  have hlast : ∀ (stem : String) {e : String}, e ∈ outputEndings →
      (stem.toList ++ e.toList).getLast? = e.toList.getLast? := by
    intro stem e he
    have hne : e.toList ≠ [] := by
      rintro hnil
      have hlong := (isEnding_of_mem he).long
      rw [← String.length_toList, hnil] at hlong
      cases hlong
    exact List.getLast?_append_of_ne_nil _ hne
  have hends : e = e' := by
    apply ending_eq_of_getLast? he he'
    rw [← hlast a he, htext, hlast b he']
  subst hends
  exact ⟨String.toList_inj.mp (List.append_cancel_right htext), rfl⟩

/-- Names with several endings are distinct if and only if the stems are. -/
theorem nodup_flatMap_endings {endings : List String} (hknown : ∀ e ∈ endings, e ∈ outputEndings)
    (hendings : endings.Nodup) (stems : List String) :
    (stems.flatMap fun stem => endings.map (stem ++ ·)).Nodup ↔ endings = [] ∨ stems.Nodup := by
  have hown : ∀ stem ∈ stems, (endings.map (stem ++ ·)).Nodup := by
    intro stem _
    refine List.Nodup.map_on (fun e he e' he' h => ?_) hendings
    exact (append_ending_inj (hknown e he) (hknown e' he') h).2
  rw [List.nodup_flatMap, and_iff_right hown]
  cases endings with
  | nil =>
      exact iff_of_true (List.pairwise_of_forall fun _ _ => List.disjoint_nil_left _) (Or.inl rfl)
  | cons first endings =>
      rw [or_iff_right (by simp), List.nodup_iff_pairwise_ne]
      -- two stems share a name, with the first ending for one, if and only if they are equal
      refine List.Pairwise.iff fun a b => ⟨?_, ?_⟩
      · rintro hdisjoint rfl
        exact hdisjoint (List.mem_map_of_mem List.mem_cons_self)
          (List.mem_map_of_mem List.mem_cons_self)
      · intro hne name ha hb
        obtain ⟨e, he, rfl⟩ := List.mem_map.mp ha
        obtain ⟨e', he', h⟩ := List.mem_map.mp hb
        exact hne (append_ending_inj (hknown e' he') (hknown e he) h).1.symm

/-! ## Destinations -/

/-- Where the output for a schema file goes, said by a name for the schema file itself. -/
def destination (importPaths : Bool) (p : FileProto) : String :=
  placed importPaths p.goDirectory (p.name.getD "")

/-- The descriptors of the files that output is asked for, in order. -/
def Descriptor.Request.asked (r : Request) : List FileProto :=
  r.protoFile.filter fun p => r.fileToGenerate.contains (p.name.getD "")

/-- The stems of what is generated, one for each file that output is asked for. -/
def outputStems (o : Options) (r : Request) : List String :=
  r.asked.map fun p => placed o.output.importPaths p.goDirectory (schemaStem (p.name.getD ""))

/-- Resolving leaves alone what names are made from. -/
theorem Schema.outputName_resolved (s : Schema) (f : File) (importPaths : Bool) (ending : String) :
    (s.resolved f).outputName importPaths ending = f.outputName importPaths ending := rfl

theorem requestDelivered_eq (o : Options) (r : Request) :
    requestDelivered o r
      = r.asked.map fun p => (requestSchema o r).resolved (buildFile o.marker true p) := by
  show (List.filter _ (r.protoFile.map (requestFile o r))).map _ = _
  rw [List.filter_map, List.map_map]
  refine List.map_congr_left fun p hp => ?_
  have hasked : r.fileToGenerate.contains (p.name.getD "") = true := (List.mem_filter.mp hp).2
  rw [Function.comp_apply, requestFile, hasked]

/-- The names of what is generated for a file are its stem with the endings. -/
theorem map_name_outputOf_resolved (o : Options) (s : Schema) (p : FileProto) :
    (o.outputOf (s.resolved (buildFile o.marker true p))).map (·.name)
      = o.endings.map
          (placed o.output.importPaths p.goDirectory (schemaStem (p.name.getD "")) ++ ·) := by
  rw [Options.map_name_outputOf]
  refine List.map_congr_left fun ending hending => ?_
  rw [Schema.outputName_resolved,
    File.outputName_eq _ _ (isEnding_of_mem (Options.mem_outputEndings hending))]
  rfl

/-- **The names of a run** are its stems, each with all endings. -/
theorem map_name_files {o : Options} {r : Request} {g : Generation} (h : runRequest o r = .ok g) :
    g.files.map (·.name) = (outputStems o r).flatMap fun stem => o.endings.map (stem ++ ·) := by
  obtain rfl := eq_outcome_of_runRequest o r h
  calc ((requestDelivered o r).flatMap o.outputOf).map (·.name)
      = r.asked.flatMap fun p =>
          (o.outputOf ((requestSchema o r).resolved (buildFile o.marker true p))).map (·.name) := by
        rw [requestDelivered_eq, List.map_flatMap, List.flatMap_map]
    _ = r.asked.flatMap fun p => o.endings.map
          (placed o.output.importPaths p.goDirectory (schemaStem (p.name.getD "")) ++ ·) :=
        List.flatMap_congr fun p _ => map_name_outputOf_resolved o _ p
    _ = (outputStems o r).flatMap fun stem => o.endings.map (stem ++ ·) := by
        rw [outputStems, List.flatMap_map]

/-- The stems are distinct if and only if the destinations are, which have one ending more. -/
theorem nodup_outputStems_iff {o : Options} {r : Request}
    (hproto : ∀ p ∈ r.protoFile, ∃ stem, p.name.getD "" = stem ++ ".proto") :
    (outputStems o r).Nodup ↔ (r.asked.map (destination o.output.importPaths)).Nodup := by
  have hdestinations : r.asked.map (destination o.output.importPaths)
      = (outputStems o r).map (· ++ ".proto") := by
    rw [outputStems, List.map_map]
    refine List.map_congr_left fun p hp => ?_
    obtain ⟨stem, hstem⟩ := hproto p (List.mem_of_mem_filter hp)
    rw [Function.comp_apply, destination, hstem, schemaStem_append,
      placed_append isEnding_proto]
  rw [hdestinations, List.nodup_map_iff]
  intro a b h
  have htext := congrArg String.toList h
  rw [String.toList_append, String.toList_append] at htext
  exact String.toList_inj.mp (List.append_cancel_right htext)

/-- **Generated files have the same name only where schema files have the same destination.** In a
request whose files have distinct names, all with the ending of schema files, the names of the files
of a run are distinct if and only if nothing is generated at all, or the files that output is asked
for have distinct destinations. Without import paths this is always so. -/
theorem outputNames_nodup_iff {o : Options} {r : Request} {g : Generation}
    (hrun : runRequest o r = .ok g) (names : (r.protoFile.map fun p => p.name.getD "").Nodup)
    (hproto : ∀ p ∈ r.protoFile, ∃ stem, p.name.getD "" = stem ++ ".proto") :
    ((g.files.map (·.name)).Nodup ↔
      (o.emit = .embedding ∧ o.output.stripNonfunctional = true) ∨
        (r.asked.map (destination o.output.importPaths)).Nodup) ∧
    (o.output.importPaths = false → (g.files.map (·.name)).Nodup) := by
  have hiff : (g.files.map (·.name)).Nodup ↔
      (o.emit = .embedding ∧ o.output.stripNonfunctional = true) ∨
        (r.asked.map (destination o.output.importPaths)).Nodup := by
    rw [map_name_files hrun, ← nodup_outputStems_iff hproto, ← Options.endings_eq_nil_iff]
    exact nodup_flatMap_endings (fun _ => Options.mem_outputEndings) o.nodup_endings _
  refine ⟨hiff, fun hbeside => hiff.mpr (Or.inr ?_)⟩
  rw [hbeside]
  have hnames : r.asked.map (destination false) = r.asked.map fun p => p.name.getD "" := by
    refine List.map_congr_left fun p _ => ?_
    rw [destination, placed, if_neg (by simp)]
  rw [hnames]
  exact names.sublist ((List.filter_sublist).map _)

/-- A file of the Go package `shop/depots`. -/
def depotsProto (region : String) : FileProto where
  name := some (region ++ "/depots.proto")
  package := some ("shop." ++ region)
  syntaxName := some "proto3"
  messageType :=
    [{ name := some "Depot"
       field := [{ name := some "city", number := some 1, label := some 1, type := some 9 }] }]
  options := some { goPackage := some "shop/depots" }

/-- A request for two files of one Go package, in different directories. -/
def depotsRequest : Request where
  fileToGenerate := ["north/depots.proto", "south/depots.proto"]
  protoFile := [depotsProto "north", depotsProto "south"]

theorem depotsRequest_names : (depotsRequest.protoFile.map fun p => p.name.getD "").Nodup := by
  decide

theorem depotsRequest_proto :
    ∀ p ∈ depotsRequest.protoFile, ∃ stem, p.name.getD "" = stem ++ ".proto" := by
  simp only [depotsRequest, List.forall_mem_cons]
  exact ⟨⟨"north/depots", by decide⟩, ⟨"south/depots", by decide⟩, by simp⟩

theorem runRequest_depots (o : Options) (hvalidate : o.validate = false) :
    ∃ g, runRequest o depotsRequest = .ok g := by
  rw [runRequest_eq, hvalidate]
  exact ⟨_, rfl⟩

theorem outputNames_nodup_iff_depots :
    ∃ g, runRequest { emit := .source } depotsRequest = .ok g ∧
      (depotsRequest.protoFile.map fun p => p.name.getD "").Nodup ∧
      (∀ p ∈ depotsRequest.protoFile, ∃ stem, p.name.getD "" = stem ++ ".proto") ∧
      ((g.files.map (·.name)).Nodup ↔
        (depotsRequest.asked.map (destination true)).Nodup) := by
  obtain ⟨g, hg⟩ := runRequest_depots { emit := .source } rfl
  have h := outputNames_nodup_iff hg depotsRequest_names depotsRequest_proto
  refine ⟨g, hg, depotsRequest_names, depotsRequest_proto, h.1.trans ?_⟩
  exact or_iff_right (by simp)

/-- **Two schema files of one Go package are given one name**, and one of their outputs overwrites
the other. -/
theorem outputNames_collide_depots :
    ∃ g, runRequest {} depotsRequest = .ok g ∧
      (depotsRequest.protoFile.map fun p => p.name.getD "").Nodup ∧
      (∀ p ∈ depotsRequest.protoFile, ∃ stem, p.name.getD "" = stem ++ ".proto") ∧
      g.files.map (·.name) =
        ["shop/depots/depots.resolved.proto", "shop/depots/depots.desc.rs",
          "shop/depots/depots.resolved.proto", "shop/depots/depots.desc.rs"] ∧
      ¬ (g.files.map (·.name)).Nodup := by
  obtain ⟨g, hg⟩ := runRequest_depots {} rfl
  have hnames : g.files.map (·.name) =
      ["shop/depots/depots.resolved.proto", "shop/depots/depots.desc.rs",
        "shop/depots/depots.resolved.proto", "shop/depots/depots.desc.rs"] := by
    rw [map_name_files hg]
    decide
  refine ⟨g, hg, depotsRequest_names, depotsRequest_proto, hnames, ?_⟩
  rw [hnames]
  decide

end AliasErasure
