import AliasErasure.Event
import AliasErasure.Output.FileSystem

set_option autoImplicit false

/-! # The output directory

A `Directory` is a state of the file system as far as writing generated files concerns it: the
folders and regular files that there are. Its operations change the state or are refused, the way
Linux refuses them.
-/

namespace AliasErasure

/-- What stands at a path. -/
inductive Node where
  | folder
  | regular (content : String)
  deriving DecidableEq, Repr

/-- The folders and regular files that there are, each with the parts of its path. A folder implies
those around it, and the empty path is a folder always. -/
structure Directory where
  folders : List (List String) := []
  files : List (List String × String) := []
  deriving DecidableEq, Repr

/-- Why the file system refuses an operation. -/
inductive Refusal where
  | notFound
  | exists
  | notFolder
  | isFolder
  | nameTooLong
  | nulInName
  deriving DecidableEq, Repr

/-- The text of a refusal. -/
def Refusal.message : Refusal → String
  | .notFound => "No such file or directory (os error 2)"
  | .exists => "File exists (os error 17)"
  | .notFolder => "Not a directory (os error 20)"
  | .isFolder => "Is a directory (os error 21)"
  | .nameTooLong => "File name too long (os error 36)"
  | .nulInName => "file name contained an unexpected NUL byte"

namespace Directory

/-- Whether there is a folder at a path. -/
def hasFolder (d : Directory) (path : List String) : Bool :=
  path.isEmpty || d.folders.any path.isPrefixOf

/-- What stands at a path. -/
def get? (d : Directory) (path : List String) : Option Node :=
  if d.hasFolder path then some .folder else (d.files.lookup path).map .regular

/-- The directory with a folder at a path. -/
def addFolder (d : Directory) (path : List String) : Directory :=
  if d.hasFolder path then d else { d with folders := path :: d.folders }

/-- The directory with a regular file at a path, in place of one that stands there. -/
def putFile (d : Directory) (path : List String) (content : String) : Directory :=
  { d with files := (path, content) :: d.files.filter fun f => f.1 != path }

/-- Whether a text holds a NUL, which no name may. -/
def hasNul (text : String) : Bool := text.toList.contains '\x00'

/-- Whether a part of a path is longer than the 255 bytes that a name may have. -/
def isTooLong (part : String) : Bool := part.utf8ByteSize > 255

/-- Whether a path is longer than the 4095 bytes that a path may have. -/
def isPathTooLong (path : String) : Bool := path.utf8ByteSize > 4095

/-- How far folders can be made from `base` along the given parts, and why no further. -/
def reach (d : Directory) (base : List String) : List String → List String × Option Refusal
  | [] => (base, none)
  | part :: rest =>
      let path := base ++ [part]
      match d.get? path with
      | some .folder => d.reach path rest
      | some (.regular _) => (base, some (if rest.isEmpty then .exists else .notFolder))
      | none => if isTooLong part then (base, some .nameTooLong) else d.reach path rest

/-- Makes the folders of a path that do not exist yet. -/
def makeFolders (d : Directory) (path : String) : Directory × Option Refusal :=
  if hasNul path then (d, some .nulInName)
  else if isPathTooLong path then (d, some .nameTooLong)
  else
    let (reached, refusal) := d.reach [] (Path.parts path)
    (d.addFolder reached, refusal)

/-- Why no file can be written at a path whose last segment is a dot or that has no segment: what
stands there, or how it is missing. -/
def dotRefusal (d : Directory) (path : List String) : Refusal :=
  match d.get? path with
  | some .folder => .isFolder
  | some (.regular _) => .notFolder
  | none => if path.getLast?.any isTooLong then .nameTooLong else .notFound

/-- Writes a file at a path that is not empty and whose folder exists. -/
def writeFile (d : Directory) (path : String) (content : String) : Except Refusal Directory :=
  let parts := Path.parts path
  if hasNul path then .error .nulInName
  else if isPathTooLong path then .error .nameTooLong
  else if Path.endsInDot path then .error (d.dotRefusal parts)
  else if Path.endsInSlash path then .error .isFolder
  else if parts.getLast?.any isTooLong then .error .nameTooLong
  else if d.get? parts = some .folder then .error .isFolder
  else .ok (d.putFile parts content)

/-- The file system whose state is a directory. -/
def fileSystem : FileSystem (StateM Directory) where
  makeFolders path := fun d =>
    let (d, refusal) := d.makeFolders path
    (refusal.map Refusal.message, d)
  writeFile path content := fun d =>
    match d.writeFile path content with
    | .error refusal => (some refusal.message, d)
    | .ok d => (none, d)

/-- **Writes a generated file below the folder `output`.** The result is the path of the file, with
the directory afterwards, which may have more folders even if writing fails. -/
def write (d : Directory) (output : String) (f : GeneratedFile) :
    Directory × Except Error String :=
  let (answer, d) := fileSystem.write output f d
  (d, answer)

/-- What is reported when a file has been written. -/
def writeEvents : Except Error String → List Event
  | .ok path => [Event.trace s!"Wrote {path}"]
  | .error _ => []

/-- The regular files with their paths, in the order of the paths. -/
def regularFiles (d : Directory) : List (String × String) :=
  (d.files.map fun (path, content) => ("/".intercalate path, content)).mergeSort fun a b =>
    decide (a.1 ≤ b.1)

end Directory

end AliasErasure
