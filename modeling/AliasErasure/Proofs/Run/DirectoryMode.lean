import AliasErasure.Proofs.Output.Directory
import AliasErasure.Proofs.Run.Destinations
import AliasErasure.Proofs.Run.Responses
import AliasErasure.Run.Command

set_option autoImplicit false

/-! # Two ways to hand over the output

The command answers with a response, or writes the files to a directory. Both start from the same
run (`plannedOutput_eq_ok_iff`), and no file of a run fails, so the response reports an error only
if there is no result at all. Then nothing is written.

Otherwise each file that is written leaves the others in place, as long as no two have the same
path (`writeFiles_regular`). So if all can be written, the directory holds what the response does
(`writeOutputs_agrees`). Whatever happens, what is listed of the directory is what is in it
(`mem_regularFiles_writeOutputs`).
-/

namespace AliasErasure

open Descriptor (Request Response ResponseFile)

/-! ## Writing files one after another -/

section Write

variable {d d' : Directory} {output : String}

theorem Directory.writesBelow_of_write_eq_ok {f : GeneratedFile} {path : String}
    (h : d.write output f = (d', .ok path)) : d.WritesBelow output f (d', .ok path) := by
  rw [← h]
  apply Directory.write_below
  intro hout
  rw [Directory.write_of_leadsOut d output hout] at h
  cases h

theorem writeFiles_nil (output : String) (d : Directory) :
    writeFiles output d [] = { directory := d } := rfl

/-- What writing several files does to a directory, file by file. -/
theorem writeFiles_cons (output : String) (d : Directory) (f : GeneratedFile)
    (rest : List GeneratedFile) :
    writeFiles output d (f :: rest) =
      match d.write output f with
      | (d, .error e) => { directory := d, report := some (unwritableFile f.name e) }
      | (d, .ok path) =>
          let later := writeFiles output d rest
          { later with written := path :: later.written } := by
  rw [writeFiles, FileSystem.writeFiles, Directory.write]
  dsimp only [bind, StateT.bind]
  obtain ⟨answer, d₁⟩ := Directory.fileSystem.write output f d
  cases answer with
  | error e => rfl
  | ok path => rfl

/-- A file that can be written stands at its path. -/
theorem Directory.get?_of_write_eq_ok {f : GeneratedFile} {path : String}
    (h : d.write output f = (d', .ok path)) :
    d'.get? (Path.parts output ++ Path.parts f.name) = some (.regular f.content) :=
  (Directory.writesBelow_of_write_eq_ok h).written ⟨path, rfl⟩

/-- At other paths the same regular files stand as before. -/
theorem Directory.regular_iff_of_write_eq_ok {f : GeneratedFile} {path : String}
    (h : d.write output f = (d', .ok path)) {place : List String}
    (hplace : Path.parts f.name ≠ place) (content : String) :
    d'.get? (Path.parts output ++ place) = some (.regular content) ↔
      d.get? (Path.parts output ++ place) = some (.regular content) := by
  rcases (Directory.writesBelow_of_write_eq_ok h).others (Path.parts output ++ place) with
    hsame | ⟨-, hnone, hfolder⟩ | ⟨hthere, -⟩
  · rw [hsame]
  · rw [hnone, hfolder]
    simp
  · exact (hplace (List.append_cancel_left hthere).symm).elim

/-- **Files with distinct paths that can all be written** stand there afterwards, and all other
regular files as before. -/
theorem writeFiles_regular {fs : List GeneratedFile}
    (hall : (writeFiles output d fs).report = none)
    (hdistinct : (fs.map fun f => Path.parts f.name).Nodup) (place : List String)
    (content : String) :
    (writeFiles output d fs).directory.get? (Path.parts output ++ place)
        = some (.regular content) ↔
      (∃ f ∈ fs, Path.parts f.name = place ∧ f.content = content) ∨
        (∀ f ∈ fs, Path.parts f.name ≠ place) ∧
          d.get? (Path.parts output ++ place) = some (.regular content) := by
  induction fs generalizing d with
  | nil => simp [writeFiles_nil]
  | cons f rest ih =>
      rw [writeFiles_cons] at hall ⊢
      rw [List.map_cons, List.nodup_cons] at hdistinct
      cases hwrite : d.write output f with
      | mk d₁ answer =>
        rw [hwrite] at hall
        cases answer with
        | error e => cases hall
        | ok path =>
            dsimp only at hall ⊢
            rw [ih hall hdistinct.2, List.forall_mem_cons]
            simp only [List.mem_cons, or_and_right, exists_or, exists_eq_left]
            by_cases hplace : Path.parts f.name = place
            · subst hplace
              -- no later file has this path, so what was written now stays
              have hlater : ∀ g ∈ rest, Path.parts g.name ≠ Path.parts f.name :=
                fun g hg heq => hdistinct.1 (List.mem_map.mpr ⟨g, hg, heq⟩)
              have hnone : ¬ ∃ g ∈ rest,
                  Path.parts g.name = Path.parts f.name ∧ g.content = content :=
                fun ⟨g, hg, heq, _⟩ => hlater g hg heq
              rw [Directory.get?_of_write_eq_ok hwrite, or_iff_right hnone, and_iff_right hlater]
              simp [hnone]
            · rw [Directory.regular_iff_of_write_eq_ok hwrite hplace]
              simp [hplace]

theorem proper_writeFiles (h : d.Proper) (fs : List GeneratedFile) :
    (writeFiles output d fs).directory.Proper := by
  induction fs generalizing d with
  | nil => exact h
  | cons f rest ih =>
      rw [writeFiles_cons]
      have hwritten := h.write output f
      cases hwrite : d.write output f with
      | mk d₁ answer =>
        rw [hwrite] at hwritten
        cases answer with
        | error e => exact hwritten
        | ok path => exact ih hwritten

end Write

/-! ## Both from one run -/

section Agree

variable {input : List UInt8} {parameter : Option String}

/-- What is to be written is the result of the run that the response is about. -/
theorem plannedOutput_eq_ok_iff {g : Generation} :
    plannedOutput input parameter = .ok g ↔ runInput input parameter = .ok g := by
  rw [plannedOutput, runInput]
  cases loadRequest input parameter with
  | error e => simp
  | ok loaded =>
      dsimp only
      cases runRequest loaded.1 loaded.2 with
      | error e => simp
      | ok g' => simp

/-- No file of a run fails. -/
theorem finalReport?_of_runInput {g : Generation} (h : runInput input parameter = .ok g) :
    g.finalReport? = none := by
  obtain ⟨r, o, -, -, hrun⟩ := exists_of_runInput h
  obtain rfl := eq_outcome_of_runRequest o r hrun
  rfl

/-- What a run that writes to a directory comes to. -/
theorem writeOutputs_eq (output : String) (d : Directory) (input : List UInt8)
    (parameter : Option String) :
    writeOutputs output d input parameter =
      match plannedOutput input parameter with
      | .error report => { directory := d, report := some report }
      | .ok g =>
          let outcome := writeFiles output d g.files
          match outcome.report with
          | some _ => outcome
          | none => { outcome with report := g.finalReport? } := by
  rw [writeOutputs, FileSystem.writeOutputs]
  cases plannedOutput input parameter with
  | error report => rfl
  | ok g =>
      dsimp only [bind, StateT.bind, writeFiles]
      obtain ⟨done, d₁⟩ := Directory.fileSystem.writeFiles output g.files d
      dsimp only
      cases done.report with
      | some report => rfl
      | none => rfl

theorem writeOutputs_of_run (output : String) (d : Directory) {g : Generation}
    (h : runInput input parameter = .ok g) :
    writeOutputs output d input parameter = writeFiles output d g.files := by
  rw [writeOutputs_eq, plannedOutput_eq_ok_iff.mpr h]
  dsimp only
  rw [finalReport?_of_runInput h]
  cases hreport : (writeFiles output d g.files).report with
  | some report => rfl
  | none =>
      dsimp only
      rw [← hreport]

theorem writeOutputs_of_refused (output : String) (d : Directory)
    (h : ∀ g, runInput input parameter ≠ .ok g) :
    ∃ report, writeOutputs output d input parameter =
      { directory := d, report := some report } := by
  rw [writeOutputs_eq]
  cases hplanned : plannedOutput input parameter with
  | error report => exact ⟨report, rfl⟩
  | ok g => exact (h g (plannedOutput_eq_ok_iff.mp hplanned)).elim

/-- **After any run in an empty directory** the regular files that are listed are those that there
are. -/
theorem mem_regularFiles_writeOutputs {output text content : String} :
    (text, content) ∈ (writeOutputs output {} input parameter).directory.regularFiles ↔
      ∃ path, "/".intercalate path = text ∧
        (writeOutputs output {} input parameter).directory.get? path = some (.regular content) := by
  apply Directory.Proper.mem_regularFiles_iff
  cases hrun : runInput input parameter with
  | error e =>
      have hrefused : ∀ g, runInput input parameter ≠ .ok g := by simp [hrun]
      obtain ⟨report, hreport⟩ := writeOutputs_of_refused output {} hrefused
      rw [hreport]
      exact Directory.proper_empty
  | ok g =>
      rw [writeOutputs_of_run output {} hrun]
      exact proper_writeFiles Directory.proper_empty g.files

end Agree

/-- The regular files of a directory below `output` are the files of a response: there is one with
this content at a path if and only if the response has one with this content and a name of this
path. -/
def Directory.Holds (d : Directory) (output : String) (files : List ResponseFile) : Prop :=
  ∀ place content, d.get? (Path.parts output ++ place) = some (.regular content) ↔
    ∃ f ∈ files, ∃ name, f.name = some name ∧ Path.parts name = place ∧ f.content = some content

/-- **Both ways hand over the same.** There is no regular file below `output` at first, and the
files of the run, if it has a result, have distinct paths. If the command can write all of them,
the response reports no error, and the regular files below `output` are the files of the response.
If the response reports an error, the command fails as well, and writes nothing. -/
theorem writeOutputs_agrees (output : String) (d : Directory) (input : List UInt8)
    (parameter : Option String)
    (hempty : ∀ place content, d.get? (Path.parts output ++ place) ≠ some (.regular content))
    (hdistinct : ∀ g, runInput input parameter = .ok g →
      (g.files.map fun f => Path.parts f.name).Nodup) :
    ∃ answer, respond input parameter = encodeResponse answer ∧
      (Wire.Addressable (respond input parameter) →
        Response.decode (respond input parameter) = .ok answer) ∧
      ((writeOutputs output d input parameter).report = none →
        answer.error = none ∧
          (writeOutputs output d input parameter).directory.Holds output answer.file) ∧
      (answer.error ≠ none →
        (writeOutputs output d input parameter).report ≠ none ∧
          (writeOutputs output d input parameter).written = [] ∧
          (writeOutputs output d input parameter).directory = d) := by
  refine ⟨inputResponse input parameter, rfl, decode_encodeResponse, ?_⟩
  cases hrun : runInput input parameter with
  | error e =>
      have hrefused : ∀ g, runInput input parameter ≠ .ok g := by simp [hrun]
      obtain ⟨report, hreport⟩ := writeOutputs_of_refused output d hrefused
      rw [hreport]
      exact ⟨fun h => (nomatch h), fun _ => ⟨by simp, rfl, rfl⟩⟩
  | ok g =>
      obtain ⟨r, o, -, -, hg⟩ := exists_of_runInput hrun
      have hanswer : inputResponse input parameter = g.response := by
        rw [inputResponse, hrun]
      rw [writeOutputs_of_run output d hrun, hanswer]
      refine ⟨fun hall => ⟨response_of_runRequest hg, fun place content => ?_⟩,
        fun herror => (herror (response_of_runRequest hg)).elim⟩
      rw [writeFiles_regular hall (hdistinct g hrun)]
      simp [Generation.response, hempty]

/-- The one file of the run for `notesRequest`. -/
theorem files_notesRequest {g : Generation} (h : runInput notesRequest.encode none = .ok g) :
    ∃ content, g.files = [⟨"notes.desc.rs", content⟩] := by
  rw [runInput_notesRequest] at h
  have hnames : g.files.map (·.name) = ["notes.desc.rs"] := by
    rw [map_name_files h]
    decide
  obtain ⟨f, hfiles, hname⟩ := List.map_eq_singleton_iff.mp hnames
  exact ⟨f.content, by rw [hfiles, ← hname]⟩

/-- It can be written to an empty directory. -/
theorem report_writeFiles_notes (content : String) :
    (writeFiles "out" {} [⟨"notes.desc.rs", content⟩]).report = none := by
  have hinside : GeneratedFile.isRefused ⟨"notes.desc.rs", content⟩ ≠ true := by
    show ("notes.desc.rs" == "" || Path.escapes "notes.desc.rs") ≠ true
    decide
  have hparent : Path.parent (Path.join "out" "notes.desc.rs") = "out" := by decide
  have hfolders : ({} : Directory).makeFolders "out" = ({ folders := [["out"]] }, none) := by
    decide
  have hfile : ∃ d', ({ folders := [["out"]] } : Directory).writeFile
      (Path.join "out" "notes.desc.rs") content = .ok d' := by
    rw [Directory.writeFile, if_neg (by decide), if_neg (by decide), if_neg (by decide),
      if_neg (by decide), if_neg (by decide), if_neg (by decide)]
    exact ⟨_, rfl⟩
  obtain ⟨d', hd'⟩ := hfile
  rw [writeFiles_cons, Directory.write_eq, if_neg hinside]
  dsimp only
  rw [hparent, hfolders]
  dsimp only
  rw [hd']
  rfl

theorem writeOutputs_agrees_notes :
    (∀ place content, ({} : Directory).get? (Path.parts "out" ++ place)
        ≠ some (.regular content)) ∧
      (∀ g, runInput notesRequest.encode none = .ok g →
        (g.files.map fun f => Path.parts f.name).Nodup) ∧
      (writeOutputs "out" {} notesRequest.encode none).report = none ∧
      ∃ answer, respond notesRequest.encode none = encodeResponse answer ∧ answer.error = none ∧
        (writeOutputs "out" {} notesRequest.encode none).directory.Holds "out" answer.file := by
  have hempty : ∀ place content, ({} : Directory).get? (Path.parts "out" ++ place)
      ≠ some (.regular content) := by
    intro place content
    rw [Directory.get?]
    split <;> simp
  have hdistinct : ∀ g, runInput notesRequest.encode none = .ok g →
      (g.files.map fun f => Path.parts f.name).Nodup := by
    intro g hg
    obtain ⟨content, hfiles⟩ := files_notesRequest hg
    rw [hfiles]
    exact List.nodup_singleton _
  have hreport : (writeOutputs "out" {} notesRequest.encode none).report = none := by
    cases hrun : runInput notesRequest.encode none with
    | error e => exact (not_refused_notesRequest e (runInput_eq_error_iff.mp hrun)).elim
    | ok g =>
        obtain ⟨content, hfiles⟩ := files_notesRequest hrun
        rw [writeOutputs_of_run _ _ hrun, hfiles, report_writeFiles_notes]
  obtain ⟨answer, hanswer, -, hok, -⟩ := writeOutputs_agrees "out" {} _ none hempty hdistinct
  exact ⟨hempty, hdistinct, hreport, answer, hanswer, hok hreport⟩

end AliasErasure
