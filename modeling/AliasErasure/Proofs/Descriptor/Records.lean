import AliasErasure.Descriptor.Records
import AliasErasure.Proofs.Schema.Built
import AliasErasure.Proofs.Wire.Form

set_option autoImplicit false

/-! # Descriptors read back from their records

Every descriptor is read back from its record as it is, and what has been read from a record that
fits its message type is written as one that fits (`Layout.Codes`). A form has this from its parts,
so the lemmas follow the types from the innermost ones outwards. Messages are nested in one another
and need an induction: on the message for what is read back, and on the levels for what fits.
-/

namespace AliasErasure.Descriptor

open Wire

/-! ## Options -/

@[simp] theorem NamePart.codes : layout.Codes .namePart form.write form.read :=
  form.codes (by simp [form])

@[simp] theorem UninterpretedOption.codes :
    layout.Codes .uninterpretedOption form.write form.read :=
  form.codes (by simp [form])

@[simp] theorem FileOptions.codes : layout.Codes .fileOptions form.write form.read :=
  form.codes (by simp [form])

@[simp] theorem MessageOptions.codes : layout.Codes .messageOptions form.write form.read :=
  form.codes (by simp [form])

@[simp] theorem FieldOptions.codes : layout.Codes .fieldOptions toRecord ofRecord :=
  form.codes (by simp [form])

@[simp] theorem OneofOptions.codes : layout.Codes .oneofOptions form.write form.read :=
  form.codes (by simp [form])

@[simp] theorem EnumOptions.codes : layout.Codes .enumOptions form.write form.read :=
  form.codes (by simp [form])

@[simp] theorem EnumValueOptions.codes : layout.Codes .enumValueOptions form.write form.read :=
  form.codes (by simp [form])

@[simp] theorem ServiceOptions.codes : layout.Codes .serviceOptions form.write form.read :=
  form.codes (by simp [form])

@[simp] theorem MethodOptions.codes : layout.Codes .methodOptions form.write form.read :=
  form.codes (by simp [form])

@[simp] theorem ExtensionRangeOptions.codes :
    layout.Codes .extensionRangeOptions form.write form.read :=
  form.codes (by simp [form])

/-! ## Declarations -/

@[simp] theorem FieldProto.codes : layout.Codes .fieldProto toRecord ofRecord :=
  form.codes (by simp [form])

@[simp] theorem OneofProto.codes : layout.Codes .oneofProto form.write form.read :=
  form.codes (by simp [form])

@[simp] theorem EnumValueProto.codes : layout.Codes .enumValueProto form.write form.read :=
  form.codes (by simp [form])

@[simp] theorem EnumReservedRange.codes : layout.Codes .enumReservedRange form.write form.read :=
  form.codes (by simp [form])

@[simp] theorem EnumProto.codes : layout.Codes .enumProto form.write form.read :=
  form.codes (by simp [form])

@[simp] theorem ExtensionRange.codes : layout.Codes .extensionRange form.write form.read :=
  form.codes (by simp [form])

@[simp] theorem ReservedRange.codes : layout.Codes .reservedRange form.write form.read :=
  form.codes (by simp [form])

/-! ## Messages -/

theorem nestedValues_eq (nested : List MessageProto) :
    nestedValues nested = nested.map fun m => .record m.toRecord := by
  induction nested with
  | nil => rw [nestedValues, List.map_nil]
  | cons m rest ih => rw [nestedValues, ih, List.map_cons]

theorem nestedOfRecord_eq (r : Record) :
    nestedOfRecord r = (r.list 3 Value.asRecord?).map MessageProto.ofRecord := by
  fun_induction nestedOfRecord r with
  | case1 => rfl
  | case2 r rest _ ih => exact congrArg (MessageProto.ofRecord r :: ·) ih
  | case3 p rest hother ih =>
      obtain ⟨n, v⟩ := p
      rw [ih, Record.list, Record.list, Record.all_cons]
      split
      next hn =>
        cases v with
        | record r => exact (hother r (congrArg (·, Value.record r) hn)).elim
        | _ => rfl
      next => rfl

namespace MessageProto

theorem form_write (m : MessageProto) : form.write m = m.toRecord := by
  cases m
  simp only [toRecord, nestedValues_eq]
  rfl

theorem form_read (r : Record) : form.read r = ofRecord r := by
  rw [ofRecord, nestedOfRecord_eq]
  rfl

/-- All parts of a message are lawful, save for the one that its nested messages are left to. -/
theorem fields_all {P : ∀ {α : Type}, Part MessageType α → (MessageProto → α) → Prop}
    {nested : Part MessageType (List MessageProto)} (hnested : P nested (·.nestedType))
    (hlawful : ∀ {α : Type} {p : Part MessageType α} {get : MessageProto → α},
      p.Lawful layout → P p get) : (fields nested).All P := by
  simp [fields, hnested, hlawful]

@[simp] theorem codes : layout.Codes .messageProto toRecord ofRecord where
  ofRecord_toRecord m := by
    induction m using nestedInduction with
    | step m ih =>
        rw [← form_write, ← form_read]
        exact form.read_write (fields_all (Part.readsBack_subsOf ih) fun h => h.readsBack _)
  refits levels := by
    induction levels with
    | zero => exact fun _ h => h
    | succ levels ih =>
        intro r hr
        rw [← form_write, ← form_read]
        exact form.fits_write_read (fields_all (Part.refits_subsOf ih) fun h => h.refits levels) hr

end MessageProto

/-! ## Files -/

@[simp] theorem MethodProto.codes : layout.Codes .methodProto form.write form.read :=
  form.codes (by simp [form])

@[simp] theorem ServiceProto.codes : layout.Codes .serviceProto form.write form.read :=
  form.codes (by simp [form])

@[simp] theorem Location.codes : layout.Codes .location form.write form.read :=
  form.codes (by simp [form])

@[simp] theorem SourceInfo.codes : layout.Codes .sourceInfo form.write form.read :=
  form.codes (by simp [form])

@[simp] theorem FileProto.codes : layout.Codes .fileProto toRecord ofRecord :=
  form.codes (by simp [form])

/-! ## Requests and responses -/

@[simp] theorem Version.codes : layout.Codes .version form.write form.read :=
  form.codes (by simp [form])

@[simp] theorem Request.codes : layout.Codes .request toRecord ofRecord :=
  form.codes (by simp [form])

@[simp] theorem ResponseFile.codes : layout.Codes .responseFile form.write form.read :=
  form.codes (by simp [form])

@[simp] theorem Response.codes : layout.Codes .response toRecord ofRecord :=
  form.codes (by simp [form])

@[simp] theorem EditionRange.codes : layout.Codes .editionRange toRecord ofRecord :=
  form.codes (by simp [form])

end AliasErasure.Descriptor
