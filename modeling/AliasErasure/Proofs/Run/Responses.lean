import AliasErasure.Proofs.Descriptor.Codec
import AliasErasure.Proofs.Run.Requests
import AliasErasure.Run.Respond

set_option autoImplicit false

/-! # Responses

The bytes of a response are those of two messages of different types, one after the other. A reader
of either type passes over the fields of the other, so both messages are read back from the same
bytes (`encodeResponse_decodes`).

Hence the answer to an input can be read, and what it says follows from what the run for the input
gives. An input can be refused in three ways, `Refused`; then the answer is the text of the one
error, and otherwise it holds the files of the run (`respond_answers`).
-/

namespace AliasErasure

open Descriptor (EditionRange FileProto MessageProto Request Response layout layout_numbered)
open Wire (Addressable IsFieldNumber encodeRecord recursionLimit)

/-! ## Two messages in one -/

/-- A response and an edition range have no field number in common. -/
theorem field?_response_or_editionRange (n : Nat) :
    layout.field? .response n = none ∨ layout.field? .editionRange n = none := by
  by_cases hn : n = 3 ∨ n = 4
  · left
    rcases hn with rfl | rfl <;> rfl
  · right
    rw [not_or] at hn
    refine List.find?_eq_none.mpr fun f hf => ?_
    rcases List.mem_pair.mp hf with rfl | rfl
    · simpa using fun h => hn.1 h.symm
    · simpa using fun h => hn.2 h.symm

theorem Descriptor.Response.fits_limit (r : Response) :
    layout.Fits (recursionLimit + 1) .response r.toRecord := r.fits

theorem Descriptor.EditionRange.fits_limit (r : EditionRange) :
    layout.Fits (recursionLimit + 1) .editionRange r.toRecord := r.fits

/-- The record of an encoded response: its own fields, and those of the edition range. -/
def answerRecord (r : Response) : Wire.Record := r.toRecord ++ editionRange.toRecord

theorem encodeResponse_eq (r : Response) : encodeResponse r = encodeRecord (answerRecord r) :=
  (Wire.encodeRecord_append _ _).symm

theorem isFieldNumber_of_mem_answerRecord (r : Response) :
    ∀ p ∈ answerRecord r, IsFieldNumber p.1 := by
  refine List.forall_mem_append.mpr ⟨fun p hp => ?_, fun p hp => ?_⟩
  · exact r.fits_limit.isFieldNumber layout_numbered hp
  · exact editionRange.fits_limit.isFieldNumber layout_numbered hp

theorem known_response_answerRecord (r : Response) :
    layout.known .response (answerRecord r) = r.toRecord := by
  rw [answerRecord, Wire.Layout.known_append, r.fits_limit.known_eq,
    editionRange.fits_limit.known_eq_nil fun n => (field?_response_or_editionRange n).symm,
    List.append_nil]

theorem known_editionRange_answerRecord (r : Response) :
    layout.known .editionRange (answerRecord r) = editionRange.toRecord := by
  rw [answerRecord, Wire.Layout.known_append, editionRange.fits_limit.known_eq,
    r.fits_limit.known_eq_nil field?_response_or_editionRange, List.nil_append]

theorem decode_encodeResponse {r : Response} (hsize : Addressable (encodeResponse r)) :
    Response.decode (encodeResponse r) = .ok r := by
  have hknown := known_response_answerRecord r
  rw [encodeResponse_eq] at hsize ⊢
  rw [Response.decode, Wire.decode_encodeRecord_known layout_numbered
    (isFieldNumber_of_mem_answerRecord r) (hknown.symm ▸ r.fits_limit) hsize, hknown]
  exact congrArg Except.ok (Response.codes.ofRecord_toRecord r)

theorem editionRange_decode_encodeResponse {r : Response}
    (hsize : Addressable (encodeResponse r)) :
    EditionRange.decode (encodeResponse r) = .ok editionRange := by
  have hknown := known_editionRange_answerRecord r
  rw [encodeResponse_eq] at hsize ⊢
  rw [EditionRange.decode, Wire.decode_encodeRecord_known layout_numbered
    (isFieldNumber_of_mem_answerRecord r) (hknown.symm ▸ editionRange.fits_limit) hsize, hknown]
  exact congrArg Except.ok (EditionRange.codes.ofRecord_toRecord editionRange)

/-- **Responses and edition ranges are read back from the same bytes.** Whatever a response says,
its encoded form is read as the response itself, and as the range of accepted editions, provided
the bytes are addressable. -/
theorem encodeResponse_decodes (r : Response) (hsize : Addressable (encodeResponse r)) :
    Response.decode (encodeResponse r) = .ok r ∧
      EditionRange.decode (encodeResponse r) = .ok ⟨some 998, some 1000⟩ :=
  ⟨decode_encodeResponse hsize, editionRange_decode_encodeResponse hsize⟩

/-- A response with a file whose content looks like the fields of an edition range. -/
def decoyResponse : Response where
  supportedFeatures := some supportedFeatures
  file := [{ name := some "decoy.desc.rs", content := some "\x18\x01\x20\x02" }]

theorem encodeResponse_decodes_decoy :
    Addressable (encodeResponse decoyResponse) ∧
      Response.decode (encodeResponse decoyResponse) = .ok decoyResponse ∧
      EditionRange.decode (encodeResponse decoyResponse) = .ok ⟨some 998, some 1000⟩ := by
  have hsize : Addressable (encodeResponse decoyResponse) := by
    rw [Addressable]
    cbv
  exact ⟨hsize, encodeResponse_decodes decoyResponse hsize⟩

/-! ## Refused inputs -/

/-- The parameter text that counts: the one that is given, else that of the request. -/
def effectiveParameter (parameter : Option String) (r : Request) : String :=
  (parameter.or r.parameter).getD ""

/-- The input is refused for this error: it is not the wire form of a request, its options cannot
be read, or the resolved descriptors do not link although they are to. -/
inductive Refused (input : List UInt8) (parameter : Option String) : Error → Prop
  | undecodable {cause : Wire.DecodeError} (hinput : Request.decode input = .error cause) :
      Refused input parameter (.undecodable cause)
  | options {r : Request} {e : Error} (hinput : Request.decode input = .ok r)
      (hoptions : Options.parse (effectiveParameter parameter r) = .error e) :
      Refused input parameter e
  | unlinked {r : Request} {o : Options} {resolved : List File} {e : Error}
      (hinput : Request.decode input = .ok r)
      (hoptions : Options.parse (effectiveParameter parameter r) = .ok o)
      (hvalidate : o.validate = true) (hresolved : (requestSchema o r).Delivers resolved)
      (hlink : link ((requestSchema o r).linkedProtos resolved) = .error e) :
      Refused input parameter e

theorem runInput_eq (input : List UInt8) (parameter : Option String) :
    runInput input parameter =
      match Request.decode input with
      | .error cause => .error (.undecodable cause)
      | .ok r =>
          match Options.parse (effectiveParameter parameter r) with
          | .error e => .error e
          | .ok o => runRequest o r := by
  rw [runInput, loadRequest]
  cases Request.decode input with
  | error cause => rfl
  | ok r =>
      have hoptions : requestOptions (withParameter parameter r)
          = Options.parse (effectiveParameter parameter r) := by
        cases parameter <;> rfl
      dsimp only
      rw [hoptions]
      cases Options.parse (effectiveParameter parameter r) with
      | error e => rfl
      | ok o => cases parameter <;> rfl

/-- A run for an input ends in an error exactly if the input is refused for it. -/
theorem runInput_eq_error_iff {input : List UInt8} {parameter : Option String} {e : Error} :
    runInput input parameter = .error e ↔ Refused input parameter e := by
  have hdelivers : ∀ o r resolved, (requestSchema o r).Delivers resolved ↔
      resolved = requestDelivered o r := fun o r _ => (requestSchema_built o r).delivers_iff
  rw [runInput_eq]
  constructor
  · intro h
    split at h
    next cause hinput =>
      cases h
      exact .undecodable hinput
    next r hinput =>
      split at h
      next e' hoptions =>
        cases h
        exact .options hinput hoptions
      next o hoptions =>
        obtain ⟨hvalidate, hlink⟩ := (runRequest_eq_error_iff o r).mp h
        exact .unlinked hinput hoptions hvalidate ((hdelivers o r _).mpr rfl) hlink
  · intro h
    cases h with
    | undecodable hinput => rw [hinput]
    | options hinput hoptions => simp only [hinput, hoptions]
    | unlinked hinput hoptions hvalidate hresolved hlink =>
        obtain rfl := (hdelivers _ _ _).mp hresolved
        simp only [hinput, hoptions]
        exact (runRequest_eq_error_iff _ _).mpr ⟨hvalidate, hlink⟩

theorem exists_of_runInput {input : List UInt8} {parameter : Option String} {g : Generation}
    (h : runInput input parameter = .ok g) :
    ∃ r o, Request.decode input = .ok r ∧
      Options.parse (effectiveParameter parameter r) = .ok o ∧ runRequest o r = .ok g := by
  rw [runInput_eq] at h
  split at h
  · cases h
  next r hinput =>
    split at h
    · cases h
    next o hoptions => exact ⟨r, o, hinput, hoptions, h⟩

/-! ## Answers -/

/-- The response in an answer: the files of the run, or the error that the input is refused for. -/
def inputResponse (input : List UInt8) (parameter : Option String) : Response :=
  match runInput input parameter with
  | .ok g => g.response
  | .error e => errorResponse e

theorem supportedFeatures_inputResponse (input : List UInt8) (parameter : Option String) :
    (inputResponse input parameter).supportedFeatures = some supportedFeatures := by
  rw [inputResponse]
  split <;> rfl

theorem inputResponse_of_refused {input : List UInt8} {parameter : Option String} {e : Error}
    (h : Refused input parameter e) : inputResponse input parameter = errorResponse e := by
  rw [inputResponse, runInput_eq_error_iff.mpr h]

/-- No file of a run fails, so its response reports no error. -/
theorem response_of_runRequest {o : Options} {r : Request} {g : Generation}
    (h : runRequest o r = .ok g) : g.response.error = none := by
  obtain rfl := eq_outcome_of_runRequest o r h
  rfl

/-- **Every input is answered by a response that can be read**, provided its bytes are addressable.
The response declares the supported features. If the input is refused, it holds the text of the
error that the input is refused for, and no files; if not, it holds no error, and the files of the
run in their order. To give a parameter text is the same as to encode it into the request. -/
theorem respond_answers (input : List UInt8) (parameter : Option String) :
    (Addressable (respond input parameter) →
      ∃ answer, Response.decode (respond input parameter) = .ok answer ∧
        answer.supportedFeatures = some 3 ∧
        (∀ e, Refused input parameter e →
          answer.error = some e.message ∧ answer.file = []) ∧
        ((∀ e, ¬ Refused input parameter e) →
          answer.error = none ∧
          ∃ r o g, Request.decode input = .ok r ∧
            Options.parse (effectiveParameter parameter r) = .ok o ∧ runRequest o r = .ok g ∧
            answer.file = g.files.map fun f => ⟨some f.name, none, some f.content⟩)) ∧
    ∀ r p, Request.decode input = .ok r → Addressable { r with parameter := some p }.encode →
      respond input (some p) = respond { r with parameter := some p }.encode none := by
  constructor
  · intro hsize
    refine ⟨inputResponse input parameter, decode_encodeResponse hsize,
      supportedFeatures_inputResponse input parameter, fun e he => ?_, fun hnone => ?_⟩
    · rw [inputResponse_of_refused he]
      exact ⟨rfl, rfl⟩
    · cases hrun : runInput input parameter with
      | error e => exact (hnone e (runInput_eq_error_iff.mp hrun)).elim
      | ok g =>
          obtain ⟨r, o, hinput, hoptions, hg⟩ := exists_of_runInput hrun
          rw [inputResponse, hrun]
          exact ⟨response_of_runRequest hg, r, o, g, hinput, hoptions, hg, rfl⟩
  · intro r p hinput hsize
    have hread : Request.decode { r with parameter := some p }.encode
        = .ok { r with parameter := some p } :=
      Descriptor.Request.decode_encode
        (Descriptor.Request.fits_withParameter (Descriptor.Request.fits_of_decode hinput) _) hsize
    have hload : loadRequest input (some p)
        = loadRequest { r with parameter := some p }.encode none := by
      rw [loadRequest, loadRequest, hinput, hread]
      rfl
    rw [respond, respond, runInput, runInput, hload]

/-- A file without aliases. -/
def notesProto : FileProto where
  name := some "notes.proto"
  syntaxName := some "proto3"
  messageType :=
    [{ name := some "Note"
       field := [{ name := some "text", number := some 1, label := some 1, type := some 9 }] }]

/-- A request for the embedded descriptor of `notesProto`. -/
def notesRequest : Request where
  fileToGenerate := ["notes.proto"]
  parameter := some "emit=embed"
  protoFile := [notesProto]

theorem fits_notesRequest : layout.Fits 7 .request notesRequest.toRecord := by
  simp [Request.fits_iff, FileProto.fits_iff, MessageProto.fits_iff, notesRequest, notesProto]

theorem decode_encode_notesRequest : Request.decode notesRequest.encode = .ok notesRequest := by
  refine Request.decode_encode (fits_notesRequest.mono (by decide)) ?_
  rw [Addressable]
  decide +kernel

theorem runInput_notesRequest :
    runInput notesRequest.encode none = runRequest { emit := .embedding } notesRequest := by
  have hoptions : Options.parse (effectiveParameter none notesRequest)
      = .ok { emit := .embedding } := by
    cbv
  rw [runInput_eq, decode_encode_notesRequest]
  dsimp only
  rw [hoptions]

theorem addressable_respond_notesRequest : Addressable (respond notesRequest.encode none) := by
  rw [respond, runInput_notesRequest, runRequest_eq, Addressable]
  decide +kernel

theorem not_refused_notesRequest (e : Error) : ¬ Refused notesRequest.encode none e := by
  rw [← runInput_eq_error_iff, runInput_notesRequest, runRequest_eq_error_iff]
  rintro ⟨hvalidate, -⟩
  cases hvalidate

theorem respond_answers_notes :
    Addressable (respond notesRequest.encode none) ∧
      (∀ e, ¬ Refused notesRequest.encode none e) ∧
      (∃ answer, Response.decode (respond notesRequest.encode none) = .ok answer ∧
        answer.supportedFeatures = some 3 ∧ answer.error = none) ∧
      Request.decode notesRequest.encode = .ok notesRequest ∧
      Addressable { notesRequest with parameter := some "emit=proto" }.encode ∧
      respond notesRequest.encode (some "emit=proto")
        = respond { notesRequest with parameter := some "emit=proto" }.encode none := by
  have h := respond_answers notesRequest.encode none
  obtain ⟨answer, hanswer, hfeatures, -, haccepted⟩ := h.1 addressable_respond_notesRequest
  have hsize : Addressable { notesRequest with parameter := some "emit=proto" }.encode := by
    rw [Addressable]
    decide +kernel
  exact ⟨addressable_respond_notesRequest, not_refused_notesRequest,
    ⟨answer, hanswer, hfeatures, (haccepted not_refused_notesRequest).1⟩,
    decode_encode_notesRequest, hsize, h.2 _ _ decode_encode_notesRequest hsize⟩

end AliasErasure
