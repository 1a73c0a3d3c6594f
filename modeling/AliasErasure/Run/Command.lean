import AliasErasure.Output.Directory
import AliasErasure.Run.Respond

set_option autoImplicit false

/-! # The command

The command reads one encoded request. It either answers with the encoded response, or writes the
generated files below a directory and lists their paths. A failure is reported as what was being
done, followed by its causes. What is written is decided over any file system, and a `Directory` is
one of them.
-/

namespace AliasErasure

/-- The version of the command. -/
def commandVersion : String := "0.1.0"

/-! ## Reports -/

/-- A text whose further lines are indented. -/
def indentLines (indent : String) (text : String) : String :=
  ("\n" ++ indent).intercalate ((Text.splitAt '\n' text.toList).map String.ofList)

/-- A cause of a failure, with its number if there are several. -/
def causeText (several : Bool) (number : Nat) (cause : String) : String :=
  if several then "    " ++ toString number ++ ": " ++ indentLines "       " cause
  else "    " ++ indentLines "    " cause

/-- The report of a failure. -/
def failureReport (doing : String) (causes : List String) : String :=
  let texts := causes.mapIdx fun i c => causeText (causes.length > 1) i c
  let below := if causes.isEmpty then "" else
    "\nCaused by:\n" ++ String.join (texts.map (· ++ "\n"))
  "Error: " ++ doing ++ "\n" ++ below

/-- An error and what caused it. -/
def Error.causes (e : Error) : List String := e.message :: e.source?.toList

/-- The report of a request that cannot be read. -/
def unreadableRequest (path : String) (cause : String) : String :=
  failureReport ("Failed to read request: " ++ path) [cause]

/-- The report of a file that cannot be written. -/
def unwritableFile (name : String) (e : Error) : String :=
  failureReport ("Failed to write " ++ name) e.causes

/-! ## Writing to a directory -/

/-- What is to be written, or the report of why nothing is. -/
def plannedOutput (input : List UInt8) (parameter : Option String) : Except String Generation :=
  match loadRequest input parameter with
  | .error e => .error (failureReport "Invalid request" e.causes)
  | .ok (o, r) =>
      match runRequest o r with
      | .error e => .error (failureReport "Generation failed" e.causes)
      | .ok g => .ok g

/-- The report at the end of a run with failures. -/
def Generation.finalReport? (g : Generation) : Option String :=
  if g.failures.isEmpty then none
  else some (failureReport s!"{g.failures.length} file(s) failed to generate" [])

/-- What a run that writes files tells about them. -/
structure WriteReport where
  /-- The paths of the files that were written, in order. -/
  written : List String := []
  /-- The report of the failure that ended the run, if one did. -/
  report : Option String := none

/-- The text on standard output after files have been written. -/
def WriteReport.listing (done : WriteReport) : String :=
  String.join (done.written.map fun path => s!"Wrote {path}\n")

section FileSystem

variable {m : Type → Type} [Monad m]

/-- Writes files one after another, up to the first that cannot be written. -/
def FileSystem.writeFiles (fs : FileSystem m) (output : String) :
    List GeneratedFile → m WriteReport
  | [] => return {}
  | f :: rest => do
      match ← fs.write output f with
      | .error e => return { report := some (unwritableFile f.name e) }
      | .ok path =>
          let later ← fs.writeFiles output rest
          return { later with written := path :: later.written }

/-- **Runs an encoded request and writes the generated files below `output`.** -/
def FileSystem.writeOutputs (fs : FileSystem m) (output : String) (input : List UInt8)
    (parameter : Option String) : m WriteReport := do
  match plannedOutput input parameter with
  | .error report => return { report := some report }
  | .ok g =>
      let done ← fs.writeFiles output g.files
      match done.report with
      | some _ => return done
      | none => return { done with report := g.finalReport? }

end FileSystem

/-- What is left of a run that writes to a directory. -/
structure WriteOutcome extends WriteReport where
  directory : Directory

/-- Writes files one after another to a directory. -/
def writeFiles (output : String) (d : Directory) (files : List GeneratedFile) : WriteOutcome :=
  let (done, d) := Directory.fileSystem.writeFiles output files d
  { done with directory := d }

/-- Runs an encoded request and writes the generated files to a directory. -/
def writeOutputs (output : String) (d : Directory) (input : List UInt8)
    (parameter : Option String) : WriteOutcome :=
  let (done, d) := Directory.fileSystem.writeOutputs output input parameter d
  { done with directory := d }

/-! ## Events -/

/-- What is reported when a request has been read. -/
def readEvents (input : List UInt8) : List Event :=
  [Event.debug s!"Read {input.length} byte request"]

/-- What is reported during the run for an encoded request. -/
def inputEvents (input : List UInt8) (parameter : Option String) : List Event :=
  match loadRequest input parameter with
  | .error _ => []
  | .ok (o, r) => requestEvents o r

/-- What is reported while a request is answered. -/
def respondEvents (input : List UInt8) (parameter : Option String) : List Event :=
  inputEvents input parameter ++
    match runInput input parameter with
    | .error e => [Event.error e.message]
    | .ok _ => []

/-- What is reported at the end of a run whose files have all been written. -/
def Generation.finalEvents (g : Generation) : List Event :=
  if g.failures.isEmpty then [Event.info s!"Wrote {g.files.length} file(s)"]
  else g.failures.map fun (file, e) => Event.error s!"{file}: {e.message}"

/-- What is reported during a run that writes files and has done what is told. -/
def WriteReport.events (done : WriteReport) (input : List UInt8) (parameter : Option String) :
    List Event :=
  inputEvents input parameter ++
    done.written.flatMap (fun path => Directory.writeEvents (.ok path)) ++
    match plannedOutput input parameter with
    | .error _ => []
    | .ok g => if done.written.length = g.files.length then g.finalEvents else []

end AliasErasure
