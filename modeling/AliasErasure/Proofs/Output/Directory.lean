import AliasErasure.Output.Directory
import AliasErasure.Proofs.Output.FileNames

set_option autoImplicit false

/-! # Writing stays below the output directory

What a step of the file system does is said by what stands at every path afterwards: folders are
made on the way to a path (`Directory.makeFolders_spec`), and a file is put where no folder is
(`Directory.writeFile_eq_ok`). The path that a generated file is written to has the parts of the
output directory and then those of the name, none of which goes up, so writing a file changes
nothing but the way there and the file itself (`Directory.write_below`). A name that might lead
elsewhere is refused before anything happens. Along the way no path gets two entries, so the list
of regular files says what stands where (`Directory.Proper.mem_regularFiles_iff`).
-/

namespace AliasErasure

namespace Directory

variable {d d' : Directory} {path : List String}

/-! ## Folders -/

theorem hasFolder_iff :
    d.hasFolder path = true ↔ path = [] ∨ ∃ folder ∈ d.folders, path <+: folder := by
  simp [hasFolder]

theorem hasFolder_addFolder_iff {folder : List String} :
    (d.addFolder folder).hasFolder path = true ↔ d.hasFolder path = true ∨ path <+: folder := by
  rw [addFolder]
  by_cases h : d.hasFolder folder = true
  · rw [if_pos h]
    -- the folder is there already, and so are those around it
    refine ⟨Or.inl, fun hor => hor.elim id fun hprefix => ?_⟩
    rcases hasFolder_iff.mp h with rfl | ⟨other, hother, hfolder⟩
    · exact hasFolder_iff.mpr (Or.inl (List.prefix_nil.mp hprefix))
    · exact hasFolder_iff.mpr (Or.inr ⟨other, hother, hprefix.trans hfolder⟩)
  · rw [if_neg h, hasFolder_iff, hasFolder_iff]
    constructor
    · rintro (hnil | ⟨other, hother, hprefix⟩)
      · exact Or.inl (Or.inl hnil)
      · rcases List.mem_cons.mp hother with rfl | hmem
        · exact Or.inr hprefix
        · exact Or.inl (Or.inr ⟨other, hmem, hprefix⟩)
    · rintro ((hnil | ⟨other, hother, hprefix⟩) | hprefix)
      · exact Or.inl hnil
      · exact Or.inr ⟨other, List.mem_cons_of_mem _ hother, hprefix⟩
      · exact Or.inr ⟨folder, List.mem_cons_self, hprefix⟩

theorem files_addFolder (folder : List String) : (d.addFolder folder).files = d.files := by
  rw [addFolder]
  split <;> rfl

theorem get?_eq_folder_iff : d.get? path = some .folder ↔ d.hasFolder path = true := by
  rw [get?]
  by_cases h : d.hasFolder path = true
  · simp [h]
  · simp [h]

/-- A new folder stands there with those around it, whatever stood there before. -/
theorem get?_addFolder (folder path : List String) :
    (d.addFolder folder).get? path = if path <+: folder then some .folder else d.get? path := by
  by_cases h : path <+: folder
  · rw [if_pos h, get?_eq_folder_iff]
    exact hasFolder_addFolder_iff.mpr (Or.inr h)
  · have hsame : (d.addFolder folder).hasFolder path = d.hasFolder path := by
      rw [Bool.eq_iff_iff, hasFolder_addFolder_iff]
      simp [h]
    rw [if_neg h, get?, get?, hsame, files_addFolder]

theorem get?_nil (d : Directory) : d.get? [] = some .folder :=
  get?_eq_folder_iff.mpr (hasFolder_iff.mpr (Or.inl rfl))

/-- Folders can be made as far as there is no regular file on the way. -/
structure Reaches (d : Directory) (goal reached : List String) : Prop where
  onWay : reached <+: goal
  free : ∀ path, path <+: reached → ∀ content, d.get? path ≠ some (.regular content)

theorem reaches_of_reach {base rest reached : List String} {refusal : Option Refusal}
    (h : d.reach base rest = (reached, refusal)) (hbase : d.Reaches base base) :
    d.Reaches (base ++ rest) reached := by
  induction rest generalizing base with
  | nil =>
      cases h
      rwa [List.append_nil]
  | cons part rest ih =>
      have hstop : d.Reaches (base ++ part :: rest) base :=
        ⟨List.prefix_append _ _, hbase.free⟩
      -- one part further, if nothing but a folder stands there
      have hnext : (∀ content, d.get? (base ++ [part]) ≠ some (.regular content)) →
          d.Reaches (base ++ [part]) (base ++ [part]) := by
        intro hfree
        refine ⟨List.prefix_refl _, fun path hpath => ?_⟩
        rcases List.prefix_concat_iff.mp hpath with rfl | hshort
        · exact hfree
        · exact hbase.free path hshort
      have happend : base ++ part :: rest = base ++ [part] ++ rest := by simp
      simp only [reach] at h
      split at h
      · next hfolder =>
        rw [happend]
        exact ih h (hnext (by simp [hfolder]))
      · next content hregular =>
        cases h
        exact hstop
      · next hnone =>
        split at h
        · cases h
          exact hstop
        · rw [happend]
          exact ih h (hnext (by simp [hnone]))

/-- **Making folders** makes those on the way to some point, and nothing else. -/
theorem makeFolders_spec {text : String} {refusal : Option Refusal}
    (h : d.makeFolders text = (d', refusal)) :
    ∃ reached, d.Reaches (Path.parts text) reached ∧ d' = d.addFolder reached := by
  have hroot : d.Reaches [] [] := by
    refine ⟨List.prefix_refl _, fun path hpath content => ?_⟩
    rw [List.prefix_nil.mp hpath, get?_nil]
    simp
  have hnothing : d.addFolder [] = d := by rw [addFolder, if_pos (hasFolder_iff.mpr (Or.inl rfl))]
  have hrefused : ∀ r : Refusal, (d, some r) = (d', refusal) →
      ∃ reached, d.Reaches (Path.parts text) reached ∧ d' = d.addFolder reached := by
    rintro r hr
    cases hr
    exact ⟨[], ⟨List.nil_prefix, hroot.free⟩, hnothing.symm⟩
  rw [makeFolders] at h
  split at h
  · exact hrefused _ h
  · split at h
    · exact hrefused _ h
    · cases hreach : d.reach [] (Path.parts text) with
      | mk reached refusal' =>
          rw [hreach] at h
          cases h
          exact ⟨reached, reaches_of_reach hreach hroot, rfl⟩

/-- Folders that can be made leave alone whatever stands there already. -/
theorem Reaches.get?_addFolder {goal reached : List String} (h : d.Reaches goal reached)
    (path : List String) :
    (d.addFolder reached).get? path = d.get? path ∨
      path <+: goal ∧ d.get? path = none ∧ (d.addFolder reached).get? path = some .folder := by
  rw [Directory.get?_addFolder]
  split
  next hpath =>
    cases hnode : d.get? path with
    | none => exact Or.inr ⟨hpath.trans h.onWay, rfl, rfl⟩
    | some node =>
        cases node with
        | folder => exact Or.inl rfl
        | regular content => exact (h.free path hpath content hnode).elim
  next => exact Or.inl rfl

/-! ## Files -/

theorem lookup_filter_ne {path other : List String} (h : other ≠ path)
    (files : List (List String × String)) :
    (files.filter fun f => f.1 != path).lookup other = files.lookup other := by
  induction files with
  | nil => rfl
  | cons f files ih =>
      obtain ⟨p, content⟩ := f
      by_cases hp : p = path
      · subst hp
        have hne : (other == p) = false := by simpa using h
        rw [List.filter_cons_of_neg (by simp), List.lookup_cons, hne, ih]
      · rw [List.filter_cons_of_pos (by simpa using hp), List.lookup_cons, List.lookup_cons, ih]

/-- A file that is put where no folder is stands there, and nothing else changes. -/
theorem get?_putFile {target : List String} (h : d.get? target ≠ some .folder) (content : String)
    (path : List String) :
    (d.putFile target content).get? path
      = if path = target then some (.regular content) else d.get? path := by
  have hfolders : (d.putFile target content).hasFolder path = d.hasFolder path := rfl
  rw [get?, get?, hfolders]
  by_cases hpath : path = target
  · subst hpath
    rw [if_pos rfl, if_neg (mt get?_eq_folder_iff.mpr h)]
    simp [putFile]
  · have hne : (path == target) = false := by simpa using hpath
    rw [if_neg hpath, putFile, List.lookup_cons, hne, lookup_filter_ne hpath]

theorem writeFile_eq_ok {text content : String} (h : d.writeFile text content = .ok d') :
    d.get? (Path.parts text) ≠ some .folder ∧ d' = d.putFile (Path.parts text) content := by
  rw [writeFile] at h
  split_ifs at h with hnul hlong hdot hslash hpart hfolder
  all_goals cases h
  exact ⟨hfolder, rfl⟩

/-! ## Generated files -/

/-- What writing a file does to a directory, step by step. -/
theorem write_eq (d : Directory) (output : String) (f : GeneratedFile) :
    d.write output f =
      if f.isRefused then (d, .error (.pathTraversal f.name))
      else
        let path := Path.join output f.name
        let parent := Path.parent path
        match d.makeFolders parent with
        | (d, some refusal) => (d, .error (.directoryCreate parent refusal.message))
        | (d, none) =>
            match d.writeFile path f.content with
            | .error refusal => (d, .error (.fileWrite path refusal.message))
            | .ok d => (d, .ok path) := by
  rw [write, FileSystem.write]
  by_cases h : f.isRefused = true
  · rw [if_pos h, if_pos h]
    rfl
  · rw [if_neg h, if_neg h]
    dsimp only [fileSystem, bind, StateT.bind]
    cases hfolders : d.makeFolders (Path.parent (Path.join output f.name)) with
    | mk d₁ refusal =>
      cases refusal with
      | some refusal => rfl
      | none =>
          dsimp only [Option.map, StateT.bind]
          cases d₁.writeFile (Path.join output f.name) f.content with
          | error refusal => rfl
          | ok d₂ => rfl

theorem isRefused_iff {f : GeneratedFile} : f.isRefused = true ↔ Path.LeadsOut f.name := by
  simp only [GeneratedFile.isRefused, Path.escapes, Path.isRooted, Bool.or_eq_true, beq_iff_eq,
    decide_eq_true_eq, List.contains_iff_mem, Path.up_mem_parts_iff, Path.LeadsOut]

/-- Writing a file whose name stays inside makes folders on the way to its parent. Then there is an
error, or the file is put where no folder is. -/
theorem write_cases (d : Directory) (output : String) {f : GeneratedFile}
    (h : ¬ Path.LeadsOut f.name) :
    ∃ reached, d.Reaches (Path.parts (Path.parent (Path.join output f.name))) reached ∧
      ((∃ e, d.write output f = (d.addFolder reached, .error e) ∧
          ((∃ cause, e = .fileWrite (Path.join output f.name) cause) ∨
            ∃ cause, e = .directoryCreate (Path.parent (Path.join output f.name)) cause)) ∨
        (d.addFolder reached).get? (Path.parts (Path.join output f.name)) ≠ some .folder ∧
          d.write output f =
            ((d.addFolder reached).putFile (Path.parts (Path.join output f.name)) f.content,
              .ok (Path.join output f.name))) := by
  rw [write_eq, if_neg (mt isRefused_iff.mp h)]
  dsimp only
  cases hfolders : d.makeFolders (Path.parent (Path.join output f.name)) with
  | mk d₁ refusal =>
    obtain ⟨reached, hreaches, rfl⟩ := makeFolders_spec hfolders
    refine ⟨reached, hreaches, ?_⟩
    cases refusal with
    | some refusal => exact Or.inl ⟨_, rfl, Or.inr ⟨_, rfl⟩⟩
    | none =>
        dsimp only
        cases hfile : (d.addFolder reached).writeFile (Path.join output f.name) f.content with
        | error refusal => exact Or.inl ⟨_, rfl, Or.inl ⟨_, rfl⟩⟩
        | ok d₂ =>
            obtain ⟨hfree, rfl⟩ := writeFile_eq_ok hfile
            exact Or.inr ⟨hfree, rfl⟩

/-- What writing a file below `output` comes to, if its name stays inside: a directory, and the
path of the file or an error. -/
structure WritesBelow (d : Directory) (output : String) (f : GeneratedFile)
    (outcome : Directory × Except Error String) : Prop where
  /-- The path has the parts of the output directory, and then those of the name. -/
  parts : Path.parts (Path.join output f.name) = Path.parts output ++ Path.parts f.name
  rooted : Path.isRooted (Path.join output f.name) = Path.isRooted output
  /-- The name does not go up. -/
  down : ".." ∉ Path.parts f.name
  /-- The answer is the path, or an error of the file system about it or about its parent. -/
  answer : outcome.2 = .ok (Path.join output f.name) ∨
    (∃ cause, outcome.2 = .error (.fileWrite (Path.join output f.name) cause)) ∨
    ∃ cause, outcome.2 = .error (.directoryCreate (Path.parent (Path.join output f.name)) cause)
  /-- If there is no error, the file stands there. -/
  written : (∃ path, outcome.2 = .ok path) →
    outcome.1.get? (Path.parts output ++ Path.parts f.name) = some (.regular f.content)
  /-- All other paths are left alone, but for folders on the way that were not there. -/
  others : ∀ path, outcome.1.get? path = d.get? path ∨
    (path <+: Path.parts output ++ Path.parts f.name ∧ d.get? path = none ∧
      outcome.1.get? path = some .folder) ∨
    (path = Path.parts output ++ Path.parts f.name ∧ ∃ path, outcome.2 = .ok path)

/-- **A generated file is written below the output directory**, if its name stays inside. -/
theorem write_below (d : Directory) (output : String) {f : GeneratedFile}
    (h : ¬ Path.LeadsOut f.name) : d.WritesBelow output f (d.write output f) := by
  obtain ⟨hne, hdescends⟩ := Path.not_leadsOut_iff.mp h
  have hparts := Path.parts_join output f.name
  have hrooted := Path.isRooted_join output (Path.isRooted_eq_false_iff.mpr hdescends.relative)
  have hdown : ".." ∉ Path.parts f.name := mt Path.up_mem_parts_iff.mp hdescends.down
  obtain ⟨reached, hreaches, hcases⟩ := write_cases d output h
  have hothers : ∀ path, (d.addFolder reached).get? path = d.get? path ∨
      path <+: Path.parts output ++ Path.parts f.name ∧ d.get? path = none ∧
        (d.addFolder reached).get? path = some .folder := by
    -- folders are made for the parent, whose parts are those of the path but for the last
    have hparent : Path.parts (Path.parent (Path.join output f.name))
        <+: Path.parts output ++ Path.parts f.name := by
      rw [Path.parts_parent, hparts]
      exact List.dropLast_prefix _
    exact fun path => (hreaches.get?_addFolder path).imp_right (And.imp_left (·.trans hparent))
  rcases hcases with ⟨e, hwrite, he⟩ | ⟨hfree, hwrite⟩
  · rw [hwrite]
    refine ⟨hparts, hrooted, hdown, Or.inr ?_, by simp,
      fun path => (hothers path).imp_right Or.inl⟩
    simpa only [Except.error.injEq] using he
  · rw [hparts] at hfree hwrite
    rw [hwrite]
    refine ⟨hparts, hrooted, hdown, Or.inl rfl, fun _ => ?_, fun path => ?_⟩
    · dsimp only
      rw [get?_putFile hfree, if_pos rfl]
    · dsimp only
      rw [get?_putFile hfree]
      split
      next hpath => exact Or.inr (Or.inr ⟨hpath, _, rfl⟩)
      next => exact (hothers path).imp_right Or.inl

theorem write_of_leadsOut (d : Directory) (output : String) {f : GeneratedFile}
    (h : Path.LeadsOut f.name) : d.write output f = (d, .error (.pathTraversal f.name)) := by
  rw [write_eq, if_pos (isRefused_iff.mpr h)]

theorem WritesBelow.not_pathTraversal {output : String} {f : GeneratedFile}
    {outcome : Directory × Except Error String} (h : d.WritesBelow output f outcome)
    (name : String) : outcome.2 ≠ .error (.pathTraversal name) := by
  intro hrefused
  rcases h.answer with hanswer | ⟨cause, hanswer⟩ | ⟨cause, hanswer⟩
  · rw [hanswer] at hrefused
    cases hrefused
  · rw [hanswer] at hrefused
    cases hrefused
  · rw [hanswer] at hrefused
    cases hrefused

/-- **A file is refused if and only if its name leads out.** -/
theorem write_eq_pathTraversal_iff {output name : String} {f : GeneratedFile} :
    (d.write output f).2 = .error (.pathTraversal name) ↔
      name = f.name ∧ Path.LeadsOut f.name := by
  constructor
  · intro h
    by_cases hout : Path.LeadsOut f.name
    · rw [write_of_leadsOut d output hout] at h
      cases h
      exact ⟨rfl, hout⟩
    · exact ((write_below d output hout).not_pathTraversal name h).elim
  · rintro ⟨rfl, hout⟩
    rw [write_of_leadsOut d output hout]

/-! ## What is listed -/

/-- Every path of a regular file is listed once, and is no folder. -/
structure Proper (d : Directory) : Prop where
  distinct : (d.files.map (·.1)).Nodup
  apart : ∀ f ∈ d.files, d.hasFolder f.1 ≠ true

theorem proper_empty : ({} : Directory).Proper := ⟨List.nodup_nil, by simp⟩

theorem Proper.get?_eq_regular_iff (h : d.Proper) {content : String} :
    d.get? path = some (.regular content) ↔ (path, content) ∈ d.files := by
  constructor
  · intro hget
    rw [get?] at hget
    split at hget
    · cases hget
    · simp only [Option.map_eq_some_iff, Node.regular.injEq, exists_eq_right] at hget
      obtain ⟨before, after, hfiles, -⟩ := List.lookup_eq_some_iff.mp hget
      rw [hfiles]
      exact List.mem_append_right _ List.mem_cons_self
  · intro hmem
    have hfirst : d.files.lookup path = some content := by
      obtain ⟨before, after, hfiles⟩ := List.append_of_mem hmem
      have hdistinct := h.distinct
      rw [hfiles, List.map_append, List.map_cons, List.nodup_middle, List.nodup_cons] at hdistinct
      refine List.lookup_eq_some_iff.mpr ⟨before, after, hfiles, fun f hf => ?_⟩
      rw [bne_iff_ne]
      rintro rfl
      exact hdistinct.1 (List.mem_append_left _ (List.mem_map.mpr ⟨f, hf, rfl⟩))
    rw [get?, if_neg (h.apart _ hmem), hfirst]
    rfl

theorem Proper.addFolder {goal reached : List String} (h : d.Proper)
    (hreaches : d.Reaches goal reached) : (d.addFolder reached).Proper := by
  refine ⟨by rw [files_addFolder]; exact h.distinct, fun f hf hfolder => ?_⟩
  rw [files_addFolder] at hf
  rcases hasFolder_addFolder_iff.mp hfolder with hthere | hway
  · exact h.apart f hf hthere
  · -- folders are made only where no regular file stands
    exact hreaches.free f.1 hway f.2 (h.get?_eq_regular_iff.mpr hf)

theorem Proper.putFile {target : List String} (h : d.Proper) (hfree : d.get? target ≠ some .folder)
    (content : String) : (d.putFile target content).Proper := by
  constructor
  · rw [Directory.putFile, List.map_cons, List.nodup_cons]
    refine ⟨fun hmem => ?_, h.distinct.sublist (List.Sublist.map _ List.filter_sublist)⟩
    obtain ⟨f, hf, htarget⟩ := List.mem_map.mp hmem
    rw [List.mem_filter, bne_iff_ne] at hf
    exact hf.2 htarget
  · intro f hf
    rcases List.mem_cons.mp hf with rfl | hold
    · exact fun hfolder => hfree (get?_eq_folder_iff.mpr hfolder)
    · exact h.apart f (List.mem_filter.mp hold).1

/-- Writing a file keeps what is listed apart. -/
theorem Proper.write (h : d.Proper) (output : String) (f : GeneratedFile) :
    (d.write output f).1.Proper := by
  by_cases hout : Path.LeadsOut f.name
  · rw [write_of_leadsOut d output hout]
    exact h
  · obtain ⟨reached, hreaches, hcases⟩ := write_cases d output hout
    have hmade := h.addFolder hreaches
    rcases hcases with ⟨e, hwrite, -⟩ | ⟨hfree, hwrite⟩
    · rw [hwrite]
      exact hmade
    · rw [hwrite]
      exact hmade.putFile hfree f.content

/-- **The regular files that are listed** are those that there are, with the texts of their
paths. -/
theorem Proper.mem_regularFiles_iff (h : d.Proper) {text content : String} :
    (text, content) ∈ d.regularFiles ↔
      ∃ path, "/".intercalate path = text ∧ d.get? path = some (.regular content) := by
  rw [regularFiles, List.mem_mergeSort, List.mem_map]
  simp only [h.get?_eq_regular_iff, Prod.exists, Prod.mk.injEq]
  constructor
  · rintro ⟨path, _, hmem, rfl, rfl⟩
    exact ⟨path, rfl, hmem⟩
  · rintro ⟨path, rfl, hmem⟩
    exact ⟨path, content, hmem, rfl, rfl⟩

end Directory

/-- **Generated files stay below the output directory.** A file whose name is empty, starts at the
root or goes up is refused, and nothing is made; any other is written below the output directory,
as far as the file system allows. The names that are given to generated files are never refused, if
the name of the schema file and the directory for Go packages, which may be empty, neither start
at the root nor go up. -/
theorem write_staysBelow :
    (∀ (d : Directory) (output : String) (f : GeneratedFile),
      (∀ name, (d.write output f).2 = .error (.pathTraversal name) ↔ name = f.name ∧
        (f.name = "" ∨ f.name.toList.head? = some '/' ∨ ".." ∈ Path.segments f.name)) ∧
      (∀ name, (d.write output f).2 = .error (.pathTraversal name) →
        (d.write output f).1 = d) ∧
      ((∀ name, (d.write output f).2 ≠ .error (.pathTraversal name)) →
        d.WritesBelow output f (d.write output f))) ∧
    ∀ f : File, Path.Descends f.name → Path.Descends f.proto.goDirectory →
      ∀ importPaths, ∀ ending ∈ outputEndings, ∀ (d : Directory) (output content name : String),
        (d.write output ⟨f.outputName importPaths ending, content⟩).2
          ≠ .error (.pathTraversal name) := by
  constructor
  · intro d output f
    refine ⟨fun name => Directory.write_eq_pathTraversal_iff, fun name h => ?_, fun h => ?_⟩
    · have hout := (Directory.write_eq_pathTraversal_iff.mp h).2
      rw [Directory.write_of_leadsOut d output hout]
    · apply Directory.write_below
      intro hout
      exact h f.name (Directory.write_eq_pathTraversal_iff.mpr ⟨rfl, hout⟩)
  · intro f hname hdirectory importPaths ending hending d output content name h
    have hout := (Directory.write_eq_pathTraversal_iff.mp h).2
    exact f.not_leadsOut_outputName hname hdirectory importPaths (isEnding_of_mem hending) hout

/-- A schema file that declares a directory for Go packages. -/
def stockFile : File where
  name := "shop/stock.proto"
  proto := { options := some { goPackage := some "shop.example/stock;stock" } }

theorem write_staysBelow_stock :
    (({} : Directory).write "out" ⟨"a/../../stock.rs", "text"⟩
        = ({}, .error (.pathTraversal "a/../../stock.rs")) ∧
      ".." ∈ Path.segments "a/../../stock.rs") ∧
    (({} : Directory).write "out" ⟨"shop//stock.rs", "text"⟩
        = (⟨[["out", "shop"]], [(["out", "shop", "stock.rs"], "text")]⟩,
          .ok "out/shop//stock.rs") ∧
      ({} : Directory).WritesBelow "out" ⟨"shop//stock.rs", "text"⟩
        (({} : Directory).write "out" ⟨"shop//stock.rs", "text"⟩)) ∧
    Path.Descends stockFile.name ∧ Path.Descends stockFile.proto.goDirectory ∧
    stockFile.outputName true ".desc.rs" = "shop.example/stock/stock.desc.rs" ∧
    ∀ (d : Directory) (output content name : String),
      (d.write output ⟨stockFile.outputName true ".desc.rs", content⟩).2
        ≠ .error (.pathTraversal name) := by
  have hname : Path.Descends stockFile.name := ⟨by decide, by decide⟩
  have hdirectory : Path.Descends stockFile.proto.goDirectory := ⟨by decide, by decide⟩
  have hwritten : ({} : Directory).write "out" ⟨"shop//stock.rs", "text"⟩
      = (⟨[["out", "shop"]], [(["out", "shop", "stock.rs"], "text")]⟩,
        .ok "out/shop//stock.rs") := by
    decide
  refine ⟨⟨by decide, by decide⟩, ⟨hwritten, ?_⟩, hname, hdirectory, by decide, ?_⟩
  · apply (write_staysBelow.1 {} "out" ⟨"shop//stock.rs", "text"⟩).2.2
    rw [hwritten]
    simp
  · exact write_staysBelow.2 stockFile hname hdirectory true ".desc.rs" (by decide)

end AliasErasure
