import AliasErasure.Descriptor.Codec
import AliasErasure.Proofs.Descriptor.Records
import AliasErasure.Proofs.Wire.RoundTrip

set_option autoImplicit false

/-! # Descriptors that are written can be read

A descriptor is read back from its wire form if its record fits the layout of descriptors, by no
more levels than a reader is ready to read. The levels matter for messages only, which are nested in
one another. What has been read from some bytes fits, since its record has no more levels than the
bytes had. So requests that have been read can be written and read again (`Request.decode_encode`),
and so can their files (`FileProto.decode_encode`).
-/

namespace AliasErasure.Descriptor

open Wire Wire.Layout

theorem layout_numbered : layout.Numbered := by
  intro m
  cases m <;> simp only [IsFieldNumber] <;> decide

variable {levels : Nat}

/-! ## Descriptors that always fit

Fields and oneofs of messages hold nothing that can be nested without end, nor do source locations
and responses. -/

@[simp] theorem NamePart.fits (m : NamePart) :
    layout.Fits (levels + 1) .namePart (form.write m) :=
  form.fits_write_iff.mpr (by simp [form])

@[simp] theorem UninterpretedOption.fits (m : UninterpretedOption) :
    layout.Fits (levels + 2) .uninterpretedOption (form.write m) :=
  form.fits_write_iff.mpr (by simp [form])

@[simp] theorem FieldOptions.fits (m : FieldOptions) :
    layout.Fits (levels + 3) .fieldOptions m.toRecord :=
  form.fits_write_iff.mpr (by simp [form])

@[simp] theorem FieldProto.fits (m : FieldProto) :
    layout.Fits (levels + 4) .fieldProto m.toRecord :=
  form.fits_write_iff.mpr (by simp [form])

@[simp] theorem OneofOptions.fits (m : OneofOptions) :
    layout.Fits (levels + 3) .oneofOptions (form.write m) :=
  form.fits_write_iff.mpr (by simp [form])

@[simp] theorem OneofProto.fits (m : OneofProto) :
    layout.Fits (levels + 4) .oneofProto (form.write m) :=
  form.fits_write_iff.mpr (by simp [form])

@[simp] theorem Location.fits (m : Location) :
    layout.Fits (levels + 1) .location (form.write m) :=
  form.fits_write_iff.mpr (by simp [form])

@[simp] theorem SourceInfo.fits (m : SourceInfo) :
    layout.Fits (levels + 2) .sourceInfo (form.write m) :=
  form.fits_write_iff.mpr (by simp [form])

@[simp] theorem ResponseFile.fits (m : ResponseFile) :
    layout.Fits (levels + 1) .responseFile (form.write m) :=
  form.fits_write_iff.mpr (by simp [form])

theorem Response.fits (m : Response) : layout.Fits (levels + 2) .response m.toRecord :=
  form.fits_write_iff.mpr (by simp [form])

theorem EditionRange.fits (m : EditionRange) :
    layout.Fits (levels + 1) .editionRange m.toRecord :=
  form.fits_write_iff.mpr (by simp [form])

/-! ## Descriptors that fit if their contents do -/

theorem Request.fits_iff {r : Request} : layout.Fits (levels + 1) .request r.toRecord ↔
    (∀ v ∈ r.compilerVersion, layout.Fits levels .version (Version.form.write v)) ∧
      ∀ f ∈ r.protoFile, layout.Fits levels .fileProto f.toRecord :=
  form.fits_write_iff.trans (by simp [form])

theorem FileProto.fits_iff {f : FileProto} : layout.Fits (levels + 1) .fileProto f.toRecord ↔
    (∀ m ∈ f.messageType, layout.Fits levels .messageProto m.toRecord) ∧
      (∀ e ∈ f.enumType, layout.Fits levels .enumProto (EnumProto.form.write e)) ∧
      (∀ s ∈ f.service, layout.Fits levels .serviceProto (ServiceProto.form.write s)) ∧
      (∀ x ∈ f.extension, layout.Fits levels .fieldProto x.toRecord) ∧
      (∀ o ∈ f.options, layout.Fits levels .fileOptions o.toRecord) ∧
      ∀ i ∈ f.sourceCodeInfo, layout.Fits levels .sourceInfo (SourceInfo.form.write i) :=
  form.fits_write_iff.trans (by simp [form, and_assoc])

theorem MessageProto.fits_iff {m : MessageProto} :
    layout.Fits (levels + 1) .messageProto m.toRecord ↔
      (∀ x ∈ m.field, layout.Fits levels .fieldProto x.toRecord) ∧
        (∀ n ∈ m.nestedType, layout.Fits levels .messageProto n.toRecord) ∧
        (∀ e ∈ m.enumType, layout.Fits levels .enumProto (EnumProto.form.write e)) ∧
        (∀ r ∈ m.extensionRange,
          layout.Fits levels .extensionRange (ExtensionRange.form.write r)) ∧
        (∀ x ∈ m.extension, layout.Fits levels .fieldProto x.toRecord) ∧
        (∀ o ∈ m.options, layout.Fits levels .messageOptions o.toRecord) ∧
        (∀ o ∈ m.oneofDecl, layout.Fits levels .oneofProto (OneofProto.form.write o)) ∧
        ∀ r ∈ m.reservedRange, layout.Fits levels .reservedRange (ReservedRange.form.write r) := by
  rw [← form_write]
  exact form.fits_write_iff.trans (by simp [form, fields, and_assoc])

/-! ## Descriptors with other contents -/

theorem Request.fits_of_mem_protoFile {r : Request}
    (h : layout.Fits (levels + 1) .request r.toRecord) {f : FileProto} (hf : f ∈ r.protoFile) :
    layout.Fits levels .fileProto f.toRecord :=
  (fits_iff.mp h).2 f hf

/-- A request still fits with another parameter text. -/
theorem Request.fits_withParameter {r : Request}
    (h : layout.Fits (levels + 1) .request r.toRecord) (parameter : Option String) :
    layout.Fits (levels + 1) .request { r with parameter := parameter }.toRecord := by
  rw [fits_iff] at h ⊢
  exact h

/-- A message still fits with other fields and oneofs, if there are levels enough for any field. -/
theorem MessageProto.fits_withFields {m : MessageProto}
    (h : layout.Fits (levels + 5) .messageProto m.toRecord) (fields : List FieldProto)
    (oneofs : List OneofProto) :
    layout.Fits (levels + 5) .messageProto
      { m with field := fields, oneofDecl := oneofs }.toRecord := by
  obtain ⟨-, hnested, henums, hranges, hextensions, hoptions, -, hreserved⟩ := fits_iff.mp h
  exact fits_iff.mpr ⟨fun x _ => x.fits, hnested, henums, hranges, hextensions, hoptions,
    fun o _ => o.fits, hreserved⟩

section FileProto

variable {f : FileProto} (h : layout.Fits (levels + 1) .fileProto f.toRecord)
include h

theorem FileProto.fits_of_mem_messageType {m : MessageProto} (hm : m ∈ f.messageType) :
    layout.Fits levels .messageProto m.toRecord :=
  (fits_iff.mp h).1 m hm

/-- A file still fits with other messages that fit, and without source locations. -/
theorem FileProto.fits_withMessages {messages : List MessageProto}
    (hmessages : ∀ m ∈ messages, layout.Fits levels .messageProto m.toRecord) :
    layout.Fits (levels + 1) .fileProto
      { f with messageType := messages, sourceCodeInfo := none }.toRecord := by
  obtain ⟨-, henums, hservices, hextensions, hoptions, -⟩ := fits_iff.mp h
  refine fits_iff.mpr ⟨hmessages, henums, hservices, hextensions, hoptions, ?_⟩
  exact fun _ hi => nomatch hi

end FileProto

/-! ## Wire forms -/

theorem FileProto.decode_encode {f : FileProto}
    (h : layout.Fits (recursionLimit + 1) .fileProto f.toRecord) (hsize : Addressable f.encode) :
    decode f.encode = .ok f := by
  rw [decode, encode, decode_encodeRecord layout_numbered h hsize]
  exact congrArg Except.ok (codes.ofRecord_toRecord f)

theorem Request.decode_encode {r : Request}
    (h : layout.Fits (recursionLimit + 1) .request r.toRecord) (hsize : Addressable r.encode) :
    decode r.encode = .ok r := by
  rw [decode, encode, decode_encodeRecord layout_numbered h hsize]
  exact congrArg Except.ok (codes.ofRecord_toRecord r)

/-- A request that has been read fits. -/
theorem Request.fits_of_decode {input : List UInt8} {r : Request} (h : decode input = .ok r) :
    layout.Fits (recursionLimit + 1) .request r.toRecord := by
  obtain ⟨record, hrecord, rfl⟩ := map_eq_ok_iff.mp h
  exact Request.codes.refits _ record (Layout.fits_of_decode hrecord)

end AliasErasure.Descriptor
