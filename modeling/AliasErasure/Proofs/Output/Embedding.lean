import AliasErasure.Proofs.Descriptor.Codec
import AliasErasure.Proofs.Run.Requests
import AliasErasure.Proofs.Text.ByteLiteral
import AliasErasure.Run.Respond

set_option autoImplicit false

/-! # Embedded descriptors are the resolved ones

What is embedded for a file is the wire form of its descriptor, and the literal denotes these very
bytes. The bytes can be read again: the descriptors of a request that has been read take up no more
levels than a reader is ready to read, and resolving them puts in nothing but fields and oneofs,
for which there are levels enough (`Schema.fits_resolved`).
-/

namespace AliasErasure

open Descriptor (FieldProto FileProto MessageProto Request layout)
open Text.Bytes (readLiteral)
open Wire (Addressable recursionLimit)

/-! ## The text -/

theorem literalClosing_eq : literalClosing = String.ofList ('"' :: ";\n".toList) := rfl

/-- The literal of an embedding is read as the wire form of the embedded descriptor. -/
theorem File.embedding_eq (f : File) :
    ∃ body, f.embedding =
        embeddingHeader f.name f.embeddedProto.encode.length ++ literalOpening ++ body ∧
      readLiteral body.toList = some (f.embeddedProto.encode, ";\n".toList) := by
  refine ⟨String.ofList (Text.Bytes.literalBody bytesPerLine f.embeddedProto.encode) ++
    literalClosing, ?_, ?_⟩
  · rw [File.embedding, String.append_assoc]
  · rw [literalClosing_eq, ← String.ofList_append, String.toList_ofList]
    exact Text.Bytes.readLiteral_literalBody (by decide) _ _

/-! ## Levels -/

/-- Resolving a file takes no more levels, if there are enough for any field of a message. -/
theorem Schema.fits_resolved {levels : Nat} (s : Schema) {f : File}
    (h : layout.Fits (levels + 6) .fileProto f.proto.toRecord) :
    layout.Fits (levels + 6) .fileProto (s.resolved f).embeddedProto.toRecord := by
  refine FileProto.fits_withMessages h fun m hm => ?_
  obtain ⟨p, hp, rfl⟩ := List.mem_map.mp hm
  have hraw : p.2 ∈ f.proto.messageType := (List.of_mem_zip (List.mem_of_mem_filter hp)).2
  rw [s.resolveMessage_frame_raw]
  exact MessageProto.fits_withFields (FileProto.fits_of_mem_messageType h hraw) _ _

/-- What a request that has been read delivers can be embedded and read again. -/
theorem fits_of_mem_requestDelivered {input : List UInt8} {r : Request}
    (hinput : Request.decode input = .ok r) (o : Options) {f' : File}
    (hf' : f' ∈ requestDelivered o r) :
    layout.Fits (recursionLimit + 1) .fileProto f'.embeddedProto.toRecord := by
  obtain ⟨f, hf, rfl⟩ := List.mem_map.mp hf'
  obtain ⟨proto, hproto, hbuilt⟩ := List.mem_map.mp (List.mem_of_mem_filter hf)
  have hlevels : recursionLimit = 94 + 6 := rfl
  have hfits := Descriptor.Request.fits_of_mem_protoFile
    (Descriptor.Request.fits_of_decode hinput) hproto
  have hraw : f.proto = proto := by rw [← hbuilt]; rfl
  rw [hlevels, ← hraw] at hfits
  rw [hlevels]
  exact ((requestSchema o r).fits_resolved hfits).succ

theorem decode_of_loadRequest {input : List UInt8} {o : Options} {r : Request}
    (h : loadRequest input none = .ok (o, r)) : Request.decode input = .ok r := by
  rw [loadRequest] at h
  split at h
  · cases h
  next r' hinput =>
    obtain ⟨o', -, heq⟩ := Wire.map_eq_ok_iff.mp h
    obtain ⟨-, rfl⟩ := Prod.mk.inj heq
    exact hinput

/-- **What is embedded is the resolved descriptor.** Take any input that is accepted, and any file
that its run resolves. Unless such output is to be left out, one file is generated, in which a
literal follows `literalOpening`. Read as a byte string it ends at the quote before the semicolon,
and it denotes the wire form of the resolved descriptor without its source locations. Read as a
descriptor, these bytes give it back, provided they are addressable. -/
theorem embedding_reads {input : List UInt8} {o : Options} {r : Request} {g : Generation}
    {f' : File} (hload : loadRequest input none = .ok (o, r)) (hrun : runRequest o r = .ok g)
    (hf' : f' ∈ g.resolved) :
    (∀ config : OutputConfig, config.stripNonfunctional = false →
      ∃ name header body, embed config f' = [⟨name, header ++ literalOpening ++ body⟩] ∧
        readLiteral body.toList
          = some ({ f'.proto with sourceCodeInfo := none }.encode, ";\n".toList)) ∧
    (Addressable { f'.proto with sourceCodeInfo := none }.encode →
      FileProto.decode { f'.proto with sourceCodeInfo := none }.encode
        = .ok { f'.proto with sourceCodeInfo := none }) := by
  constructor
  · intro config hconfig
    obtain ⟨body, hbody, hread⟩ := f'.embedding_eq
    refine ⟨f'.outputName config.importPaths ".desc.rs",
      embeddingHeader f'.name f'.embeddedProto.encode.length, body, ?_, hread⟩
    rw [embed, hconfig, if_neg Bool.false_ne_true, hbody]
  · intro hsize
    obtain rfl := eq_outcome_of_runRequest o r hrun
    exact FileProto.decode_encode
      (fits_of_mem_requestDelivered (decode_of_loadRequest hload) o hf') hsize

/-- A file with an alias, `Meters`, and a field with a name that has to be escaped. -/
def unitsProto : FileProto where
  name := some "units.proto"
  syntaxName := some "proto3"
  messageType :=
    [{ name := some "Meters"
       field := [{ name := some "value", number := some 1, label := some 1, type := some 1 }] },
     { name := some "Trip"
       field := [{ name := some "route", number := some 1, label := some 1, type := some 9
                   jsonName := some "\"the route\"\n\\" }] }]
  sourceCodeInfo := some
    { location := [{ path := [4, 0], leadingComments := some " protobuf:alias\n" }] }

def unitsRequest : Request where
  fileToGenerate := ["units.proto"]
  protoFile := [unitsProto]

def unitsFile : File :=
  (requestSchema {} unitsRequest).resolved (requestFile {} unitsRequest unitsProto)

theorem fits_unitsRequest : layout.Fits 7 .request unitsRequest.toRecord := by
  simp [Request.fits_iff, FileProto.fits_iff, MessageProto.fits_iff, unitsRequest, unitsProto]

theorem loadRequest_units : loadRequest unitsRequest.encode none = .ok ({}, unitsRequest) := by
  have hsize : Addressable unitsRequest.encode := by
    rw [Addressable]
    decide +kernel
  rw [loadRequest, Request.decode_encode (fits_unitsRequest.mono (by decide)) hsize]
  cbv

theorem runRequest_units : runRequest {} unitsRequest = .ok (Options.outcome {} [unitsFile]) := by
  have hdelivered : requestDelivered {} unitsRequest = [unitsFile] := by
    show (requestSchema {} unitsRequest).delivered [requestFile {} unitsRequest unitsProto] = _
    rw [Schema.delivered_cons_of_generate _ _ rfl]
    rfl
  rw [runRequest_eq, hdelivered]
  rfl

theorem embedding_reads_units :
    loadRequest unitsRequest.encode none = .ok ({}, unitsRequest) ∧
      ∃ g, runRequest {} unitsRequest = .ok g ∧ unitsFile ∈ g.resolved ∧
        (∀ config : OutputConfig, config.stripNonfunctional = false →
          ∃ name header body, embed config unitsFile = [⟨name, header ++ literalOpening ++ body⟩] ∧
            readLiteral body.toList
              = some ({ unitsFile.proto with sourceCodeInfo := none }.encode, ";\n".toList)) ∧
        FileProto.decode { unitsFile.proto with sourceCodeInfo := none }.encode
          = .ok { unitsFile.proto with sourceCodeInfo := none } := by
  have hmem : unitsFile ∈ (Options.outcome {} [unitsFile]).resolved := List.mem_singleton_self _
  have hsize : Addressable { unitsFile.proto with sourceCodeInfo := none }.encode := by
    rw [Addressable]
    decide +kernel
  obtain ⟨htext, hread⟩ := embedding_reads loadRequest_units runRequest_units hmem
  exact ⟨loadRequest_units, _, runRequest_units, hmem, htext, hread hsize⟩

end AliasErasure
