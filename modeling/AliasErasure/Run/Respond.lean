import AliasErasure.Run.Generation

set_option autoImplicit false

/-! # Responses

The answer to the compiler holds the generated files, and an error text if anything failed. Two
fields that bound the supported editions are appended to its wire form; a message on the wire is
the sequence of its fields, so the bytes stay those of one message.
-/

namespace AliasErasure

open Descriptor (EditionRange Request Response)

/-- The features that every response declares: `optional` of proto3, and editions. -/
def supportedFeatures : UInt64 := 3

/-- The oldest edition that is accepted. -/
def minimumEdition : Int32 := 998

/-- The newest edition that is accepted. -/
def maximumEdition : Int32 := 1000

/-- The range of accepted editions. -/
def editionRange : EditionRange := ⟨some minimumEdition, some maximumEdition⟩

/-- The error text of a run: a line for each file that failed, if any did. -/
def Generation.error? (g : Generation) : Option String :=
  if g.failures.isEmpty then none
  else some ("\n".intercalate (g.failures.map fun (file, e) => s!"{file}: {e.message}"))

/-- The response for a run. -/
def Generation.response (g : Generation) : Response where
  error := g.error?
  supportedFeatures := some supportedFeatures
  file := g.files.map fun f => ⟨some f.name, none, some f.content⟩

/-- The response that only reports an error. -/
def errorResponse (e : Error) : Response where
  error := some e.message
  supportedFeatures := some supportedFeatures

/-- The wire form of a response. -/
def encodeResponse (r : Response) : List UInt8 := r.encode ++ editionRange.encode

/-- The request with another parameter text, if one is given. -/
def withParameter (parameter : Option String) (r : Request) : Request :=
  match parameter with
  | some p => { r with parameter := some p }
  | none => r

/-- The request that `input` is the wire form of, with its options. A given parameter text takes
the place of the request's own. -/
def loadRequest (input : List UInt8) (parameter : Option String) :
    Except Error (Options × Request) :=
  match Request.decode input with
  | .error e => .error (.undecodable e)
  | .ok r =>
      let r := withParameter parameter r
      (requestOptions r).map fun o => (o, r)

/-- The run for an encoded request. -/
def runInput (input : List UInt8) (parameter : Option String) : Except Error Generation :=
  match loadRequest input parameter with
  | .error e => .error e
  | .ok (o, r) => runRequest o r

/-- **The encoded response to an encoded request.** Errors are reported inside the response. -/
def respond (input : List UInt8) (parameter : Option String) : List UInt8 :=
  encodeResponse <|
    match runInput input parameter with
    | .ok g => g.response
    | .error e => errorResponse e

end AliasErasure
