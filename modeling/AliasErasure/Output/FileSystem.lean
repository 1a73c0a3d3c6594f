import AliasErasure.Error
import AliasErasure.Output.Config
import AliasErasure.Output.Path

set_option autoImplicit false

/-! # Writing generated files

A generated file is written below an output directory, and the folders on the way are made. What
is written where is decided here once, over any file system that can make folders and write files:
the one of the machine (`Main`), or a state that says what stands where (`Output/Directory`). A
name that would lead out of the output directory is refused before anything is made.
-/

namespace AliasErasure

/-- Whether a generated file may not be written, because its name is empty or might lead out of the
output directory. -/
def GeneratedFile.isRefused (f : GeneratedFile) : Bool := f.name == "" || Path.escapes f.name

/-- What writing needs of a file system that acts in `m`. An operation that is refused answers with
the reason. -/
structure FileSystem (m : Type → Type) where
  /-- Makes the folders of a path that do not exist yet. -/
  makeFolders : String → m (Option String)
  /-- Writes a file at a path, whose folder exists. -/
  writeFile : String → String → m (Option String)

/-- **Writes a generated file below the folder `output`.** The result is the path of the file. If
writing fails, there may still be more folders than before. -/
def FileSystem.write {m : Type → Type} [Monad m] (fs : FileSystem m) (output : String)
    (f : GeneratedFile) : m (Except Error String) := do
  if f.isRefused then return .error (.pathTraversal f.name)
  let path := Path.join output f.name
  let parent := Path.parent path
  match ← fs.makeFolders parent with
  | some cause => return .error (.directoryCreate parent cause)
  | none =>
      match ← fs.writeFile path f.content with
      | some cause => return .error (.fileWrite path cause)
      | none => return .ok path

end AliasErasure
