import AliasErasure.Descriptor.Codec
import AliasErasure.Event
import AliasErasure.Output.Config
import AliasErasure.Text.Bytes

set_option autoImplicit false

/-! # Embedded descriptors

The descriptor of a file as a byte string literal, for reflection at run time. Source locations
are left out: reflection does not need them, and their paths do not survive the removal of
messages.
-/

namespace AliasErasure

open Descriptor (FileProto)

/-- How many bytes stand on a line of the literal. -/
def bytesPerLine : Nat := 24

/-- The descriptor that is embedded. -/
def File.embeddedProto (f : File) : FileProto := { f.proto with sourceCodeInfo := none }

/-- What stands before the body of the literal. -/
def literalOpening : String := "pub static FILE_DESCRIPTOR: &[u8] = b\""

/-- What stands after the body of the literal. -/
def literalClosing : String := "\";\n"

/-- The lines above the literal. -/
def embeddingHeader (name : String) (size : Nat) : String :=
  s!"// {generatedHeader}\n// source: {name}\n\n" ++
    s!"/// Encoded `FileDescriptorProto` for `{name}` with aliases resolved ({size} bytes).\n"

/-- The text of the generated file. -/
def File.embedding (f : File) : String :=
  let bytes := f.embeddedProto.encode
  embeddingHeader f.name bytes.length ++ literalOpening ++
    String.ofList (Text.Bytes.literalBody bytesPerLine bytes) ++ literalClosing

/-- The generated files: one, unless such output is to be left out. -/
def embed (config : OutputConfig) (f : File) : List GeneratedFile :=
  if config.stripNonfunctional then []
  else [⟨f.outputName config.importPaths ".desc.rs", f.embedding⟩]

/-- What is reported while a descriptor is embedded. -/
def embedEvents (config : OutputConfig) (f : File) : List Event :=
  if config.stripNonfunctional then [Event.debug s!"{f.name}: skipping embedded descriptor"]
  else []

end AliasErasure
