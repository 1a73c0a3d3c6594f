import AliasErasure.Output.Path
import AliasErasure.Schema.Types

set_option autoImplicit false

/-! # Names of generated files

A generated file is named after its schema file, with another ending. It lies beside the schema
file, or in the directory of the import path that the file declares for Go packages.
-/

namespace AliasErasure

/-- The name without the ending of schema files. -/
def schemaStem (name : String) : String :=
  if ".proto".toList.isSuffixOf name.toList then
    String.ofList (name.toList.take (name.toList.length - 6))
  else name

/-- The import path of a Go package option, which a package name may follow after a semicolon. -/
def importPath (goPackage : String) : String :=
  String.ofList (goPackage.toList.takeWhile (· != ';'))

/-- The name of the file with the given ending that is generated for `f`. -/
def File.outputName (f : File) (importPaths : Bool) (ending : String) : String :=
  let beside := schemaStem f.name ++ ending
  let directory := ((f.proto.options.bind (·.goPackage)).map importPath).getD ""
  if importPaths ∧ directory ≠ "" then
    directory ++ "/" ++ (Path.baseName? beside).getD beside
  else beside

end AliasErasure
