import AliasErasure.Erasure.Report
import AliasErasure.Linking.Check
import AliasErasure.Output.Embedding
import AliasErasure.Output.Source
import AliasErasure.Run.Options

set_option autoImplicit false

/-! # A run

All files that output is asked for are resolved. A file that does not correspond to its descriptor
is a failure of its own and does not hold up the others. If the options ask for it, the resolved
descriptors must then link. Last, the output of every resolved file is generated.
-/

namespace AliasErasure

open Descriptor (FileProto Request)

/-! ## Generators -/

/-- A generator of output files. -/
inductive Generator where
  | source
  | embedding
  deriving DecidableEq, Repr

namespace Generator

/-- The name of a generator in reports. -/
def name : Generator → String
  | .source => "source"
  | .embedding => "embed"

/-- The files that a generator makes of a resolved file. -/
def run (config : OutputConfig) (f : File) : Generator → List GeneratedFile
  | .source => renderSource config f
  | .embedding => embed config f

/-- What a generator reports. -/
def events (config : OutputConfig) (f : File) : Generator → List Event
  | .source => []
  | .embedding => embedEvents config f

end Generator

/-- The generators that are to run, in order. -/
def Emit.generators : Emit → List Generator
  | .source => [.source]
  | .embedding => [.embedding]
  | .all => [.source, .embedding]

/-- The output of a resolved file. -/
def Options.outputOf (o : Options) (f : File) : List GeneratedFile :=
  o.emit.generators.flatMap (Generator.run o.output f)

/-! ## Results -/

/-- The result of a run. -/
structure Generation where
  /-- The output of all resolved files. -/
  files : List GeneratedFile := []
  /-- The resolved files, in the order of the schema. -/
  resolved : List File := []
  /-- The files that could not be resolved, each with the reason. -/
  failures : List (String × Error) := []

/-- Resolves files one after another. An error that concerns its file only is noted as a failure,
and the other files go on; any other error ends the run. -/
def Schema.attempt (s : Schema) : List File → Except Error Generation
  | [] => .ok {}
  | f :: rest =>
      match s.resolve f with
      | .ok resolved =>
          (s.attempt rest).map fun g => { g with resolved := resolved :: g.resolved }
      | .error e =>
          if e.isFileScoped then
            (s.attempt rest).map fun g => { g with failures := (f.name, e) :: g.failures }
          else .error e

/-- The descriptors of all files of a schema, those of resolved files in their place. -/
def Schema.linkedProtos (s : Schema) (resolved : List File) : List FileProto :=
  s.files.map fun f =>
    match resolved.find? fun r => r.name == f.name with
    | some r => r.proto
    | none => f.proto

/-- **The run over a schema.** -/
def generate (o : Options) (s : Schema) : Except Error Generation :=
  match s.attempt s.filesToGenerate with
  | .error e => .error e
  | .ok g =>
      let generation : Generation := { g with files := g.resolved.flatMap o.outputOf }
      if o.validate then (link (s.linkedProtos g.resolved)).map fun _ => generation
      else .ok generation

/-- The schema of a request. -/
def requestSchema (o : Options) (r : Request) : Schema :=
  Schema.ofProtos o.marker r.fileToGenerate r.protoFile

/-- The run for a request whose options are known. -/
def runRequest (o : Options) (r : Request) : Except Error Generation :=
  generate o (requestSchema o r)

/-- The options of a request. -/
def requestOptions (r : Request) : Except Error Options := Options.parse (r.parameter.getD "")

/-! ## Events -/

/-- What is reported about one file while files are resolved. -/
def Schema.attemptEvents (s : Schema) (f : File) : List Event :=
  s.resolveEvents f ++
    match s.resolve f with
    | .ok _ => []
    | .error e => [Event.warn s!"Skipping {f.name}: {e.message}"]

/-- What is reported while the output of a resolved file is generated. -/
def Options.outputEvents (o : Options) (f : File) : List Event :=
  o.emit.generators.flatMap fun g =>
    let count := (g.run o.output f).length
    g.events o.output f ++
      [Event.debug s!"{f.name}: {g.name} generator produced {count} file(s)"]

/-- What is reported during the run over a schema. -/
def generateEvents (o : Options) (s : Schema) : List Event :=
  let linking := match s.attempt s.filesToGenerate with
    | .ok g => if o.validate then linkEvents (s.linkedProtos g.resolved) else []
    | .error _ => []
  s.filesToGenerate.flatMap s.attemptEvents ++ linking ++
    match generate o s with
    | .error _ => []
    | .ok g =>
        let counts := s!"{g.files.length} file(s) from {g.resolved.length} input(s)"
        g.resolved.flatMap o.outputEvents ++
          [Event.info s!"Generated {counts}, {g.failures.length} failed"]

/-- What is reported during the run for a request. -/
def requestEvents (o : Options) (r : Request) : List Event :=
  let s := requestSchema o r
  Schema.protosEvents r.protoFile s ++ generateEvents o s

end AliasErasure
