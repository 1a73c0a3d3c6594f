import AliasErasure.Proofs.Erasure.Settled

set_option autoImplicit false

/-! # What resolving leaves alone in a descriptor

A descriptor is changed in three steps: the descriptors of fields that take over a payload are
written anew, those of all fields follow their oneofs, and whole messages are taken out. None of
the steps asks whether a message has as many fields as its descriptor, so positions are all that
is to be compared: the descriptor at a position of the result comes from the one at this position
before, and from the field there if there is one (`Schema.getElem?_field_resolveMessage`).

Everything else in the descriptor of a file is what it was (`resolve_frame`).
-/

namespace AliasErasure

open Descriptor (FieldProto MessageProto)

/-! ## Descriptors of one field -/

/-- Two descriptors of one field, whatever its type: they agree on everything that is not part of
the type. -/
structure SameField (r r' : FieldProto) : Prop where
  name : r'.name = r.name
  number : r'.number = r.number
  jsonName : r'.jsonName = r.jsonName
  extendee : r'.extendee = r.extendee

theorem SameField.refl (r : FieldProto) : SameField r r := ⟨rfl, rfl, rfl, rfl⟩

/-- A descriptor goes on describing its field when its oneof moves. -/
theorem SameField.renumberProto {r r' : FieldProto} (h : SameField r r') (used : List Bool) :
    SameField r (renumberProto used r') := ⟨h.name, h.number, h.jsonName, h.extendee⟩

theorem Schema.sameField_resolveFieldProto (s : Schema) (x : Field) (r : FieldProto) :
    SameField r (s.resolveFieldProto x r) := by
  rw [Schema.resolveFieldProto]
  split
  · exact ⟨rfl, rfl, rfl, rfl⟩
  · exact SameField.refl r

/-! ## Positions -/

/-- The descriptor of a field, resolved by the field at its position; one beyond the last field
stays as it is. -/
def Schema.resolveAgainst (s : Schema) (x? : Option Field) (r : FieldProto) : FieldProto :=
  match x? with
  | some x => s.resolveFieldProto x r
  | none => r

theorem Schema.sameField_resolveAgainst (s : Schema) (x? : Option Field) (r : FieldProto) :
    SameField r (s.resolveAgainst x? r) := by
  cases x? with
  | none => exact SameField.refl r
  | some x => exact s.sameField_resolveFieldProto x r

/-- Where no field that refers to an alias stands, a descriptor is left alone. -/
theorem Schema.resolveAgainst_eq_self {s : Schema} {x? : Option Field}
    (h : ∀ x, x? = some x → s.refersToAlias x = false) (r : FieldProto) :
    s.resolveAgainst x? r = r := by
  cases x? with
  | none => rfl
  | some x =>
      show s.resolveFieldProto x r = r
      rw [Schema.resolveFieldProto, h x rfl, if_neg Bool.false_ne_true]

theorem Schema.getElem?_resolveFieldProtos (s : Schema) (xs : List Field) (rs : List FieldProto)
    (j : Nat) :
    (s.resolveFieldProtos xs rs)[j]? = (rs[j]?).map (s.resolveAgainst xs[j]?) := by
  induction xs generalizing rs j with
  | nil =>
      have hself : s.resolveFieldProtos [] rs = rs := by cases rs <;> rfl
      rw [hself, List.getElem?_nil]
      cases rs[j]? <;> rfl
  | cons x xs ih =>
      cases rs with
      | nil => rfl
      | cons r rs =>
          rw [Schema.resolveFieldProtos]
          cases j with
          | zero => rfl
          | succ j =>
              rw [List.getElem?_cons_succ, List.getElem?_cons_succ, List.getElem?_cons_succ]
              exact ih rs j

section ResolveMessage

variable (s : Schema) (m : Message) (raw : MessageProto)

/-- The descriptor at a position of a message, once the message has been resolved. -/
def Schema.settleFieldProto (j : Nat) (r : FieldProto) : FieldProto :=
  match s.pruning? m with
  | none => s.resolveAgainst m.fields[j]? r
  | some used => renumberProto used (s.resolveAgainst m.fields[j]? r)

/-- **Descriptors of fields keep their positions**, and each is settled by what stands there. -/
theorem Schema.getElem?_field_resolveMessage (j : Nat) :
    (s.resolveMessage m raw).2.field[j]? = (raw.field[j]?).map (s.settleFieldProto m j) := by
  cases h : s.pruning? m with
  | none =>
      have hsettle : s.settleFieldProto m j = s.resolveAgainst m.fields[j]? := by
        funext r
        rw [Schema.settleFieldProto, h]
      rw [s.resolveMessage_of_pruning?_eq_none m raw h, hsettle]
      exact s.getElem?_resolveFieldProtos m.fields raw.field j
  | some used =>
      have hsettle : s.settleFieldProto m j
          = renumberProto used ∘ s.resolveAgainst m.fields[j]? := by
        funext r
        rw [Schema.settleFieldProto, h]
        rfl
      rw [s.resolveMessage_of_pruning?_eq_some m raw h, hsettle, List.getElem?_map,
        s.getElem?_resolveFieldProtos m.fields raw.field j, Option.map_map]

theorem Schema.length_field_resolveMessage :
    (s.resolveMessage m raw).2.field.length = raw.field.length := by
  have hnone : ∀ j : Nat,
      (s.resolveMessage m raw).2.field[j]? = none ↔ raw.field[j]? = none := by
    intro j
    rw [s.getElem?_field_resolveMessage m raw j, Option.map_eq_none_iff]
  simp only [List.getElem?_eq_none_iff] at hnone
  have hle := (hnone raw.field.length).mpr (Nat.le_refl _)
  have hge := (hnone (s.resolveMessage m raw).2.field.length).mp (Nat.le_refl _)
  omega

end ResolveMessage

section SettleFieldProto

variable {s : Schema} {m : Message} {j : Nat}

theorem Schema.sameField_settleFieldProto (s : Schema) (m : Message) (j : Nat) (r : FieldProto) :
    SameField r (s.settleFieldProto m j r) := by
  have hsame := s.sameField_resolveAgainst m.fields[j]? r
  rw [Schema.settleFieldProto]
  cases s.pruning? m with
  | none => exact hsame
  | some used => exact hsame.renumberProto used

/-- Where no payload is taken over, only the oneof can change. -/
theorem Schema.settleFieldProto_eq
    (h : ∀ x, m.fields[j]? = some x → s.refersToAlias x = false) (r : FieldProto) :
    s.settleFieldProto m j r = { r with oneofIndex := (s.settleFieldProto m j r).oneofIndex } := by
  rw [Schema.settleFieldProto, Schema.resolveAgainst_eq_self h]
  cases s.pruning? m <;> rfl

/-- If no field leaves a oneof, not even that changes. -/
theorem Schema.settleFieldProto_eq_self (hkeeps : s.emptiesOneofs m = false)
    (h : ∀ x, m.fields[j]? = some x → s.refersToAlias x = false) (r : FieldProto) :
    s.settleFieldProto m j r = r := by
  have hnone : s.pruning? m = none := by simp [Schema.pruning?, hkeeps]
  rw [Schema.settleFieldProto, hnone]
  exact Schema.resolveAgainst_eq_self h r

end SettleFieldProto

/-! ## Messages -/

/-- What becomes of the descriptor `raw` of a message `m` that stays; `raw'` is the resolved one,
and the two may have any number of fields. -/
structure Schema.FramesMessage (s : Schema) (m : Message) (raw raw' : MessageProto) : Prop where
  /-- Everything but fields and oneofs stays as it is. -/
  frame : raw' = { raw with field := raw'.field, oneofDecl := raw'.oneofDecl }
  /-- Every field is described as the field that it was. -/
  same : List.Forall₂ SameField raw.field raw'.field
  /-- Where no field takes over a payload, at most the oneof of the descriptor changes. -/
  other : ∀ (j : Nat) r r', raw.field[j]? = some r → raw'.field[j]? = some r' →
    (∀ x, m.fields[j]? = some x → s.refersToAlias x = false) →
      r' = { r with oneofIndex := r'.oneofIndex }
  /-- If in addition no field that takes over a payload was in a oneof, nothing changes. -/
  untouched : (∀ x ∈ m.fields, s.refersToAlias x = true → x.oneof = none) →
    ∀ (j : Nat) r r', raw.field[j]? = some r → raw'.field[j]? = some r' →
      (∀ x, m.fields[j]? = some x → s.refersToAlias x = false) → r' = r

theorem Schema.framesMessage_resolveMessage (s : Schema) (m : Message) (raw : MessageProto) :
    s.FramesMessage m raw (s.resolveMessage m raw).2 := by
  have hsettled : ∀ (j : Nat) r r', raw.field[j]? = some r →
      (s.resolveMessage m raw).2.field[j]? = some r' → r' = s.settleFieldProto m j r := by
    intro j r r' hr hr'
    rw [s.getElem?_field_resolveMessage m raw j, hr] at hr'
    exact (Option.some.inj hr').symm
  refine ⟨s.resolveMessage_frame_raw m raw, ?_, ?_, ?_⟩
  · rw [List.forall₂_iff_get]
    refine ⟨(s.length_field_resolveMessage m raw).symm, fun j hj hj' => ?_⟩
    have heq := hsettled j _ _ (List.getElem?_eq_getElem hj) (List.getElem?_eq_getElem hj')
    rw [List.get_eq_getElem, List.get_eq_getElem, heq]
    exact s.sameField_settleFieldProto m j _
  · intro j r r' hr hr' hplain
    obtain rfl := hsettled j r r' hr hr'
    exact Schema.settleFieldProto_eq hplain r
  · intro honeofs j r r' hr hr' hplain
    have hkeeps : s.emptiesOneofs m = false := by
      simp only [Schema.emptiesOneofs, List.any_eq_false, Bool.and_eq_true, not_and]
      intro x hx hrefers
      simp [honeofs x hx hrefers]
    obtain rfl := hsettled j r r' hr hr'
    exact Schema.settleFieldProto_eq_self hkeeps hplain r

/-! ## Files -/

/-- In a file without a mismatch messages and descriptors are equally many. -/
theorem Schema.length_eq_of_mismatch?_eq_none {s : Schema} {f : File}
    (h : s.mismatch? f = none) : f.messages.length = f.proto.messageType.length := by
  by_contra hne
  rw [Schema.mismatch?, if_pos hne] at h
  cases h

/-- **Resolving touches nothing else in a descriptor.** Whatever the schema and the file, if the
file resolves, its descriptor is kept but for its messages and source locations. `pairs` are the
messages that stay, with their descriptors, and `consumed` those that go, which join the aliases
of the file: the resolved descriptors are those of `pairs`, in order and each within its frame,
and source locations are dropped exactly if something goes. -/
theorem resolve_frame (s : Schema) (f f' : File) (h : s.resolve f = .ok f') :
    ∃ (pairs : List (Message × MessageProto)) (consumed : List Message),
      pairs.Sublist (f.messages.zip f.proto.messageType) ∧
      (pairs.map (·.2)).Sublist f.proto.messageType ∧
      List.Forall₂ (fun p raw' => s.FramesMessage p.1 p.2 raw') pairs f'.proto.messageType ∧
      f'.aliases = f.aliases ++ consumed ∧
      pairs.length + consumed.length = f.messages.length ∧
      f'.proto = { f.proto with
        messageType := f'.proto.messageType
        sourceCodeInfo := if consumed = [] then f.proto.sourceCodeInfo else none } := by
  obtain ⟨hmismatch, rfl⟩ := Schema.resolve_eq_ok_iff.mp h
  have hlength := Schema.length_eq_of_mismatch?_eq_none hmismatch
  have hsublist : (s.kept f).Sublist (f.messages.zip f.proto.messageType) :=
    List.filter_sublist
  refine ⟨s.kept f, (s.gone f).map fun p => (s.resolvePair p).1, hsublist, ?_, ?_, rfl, ?_, ?_⟩
  · have hmap := hsublist.map (·.2)
    rwa [List.map_snd_zip (Nat.le_of_eq hlength.symm)] at hmap
  · show List.Forall₂ _ _ (List.map _ _)
    rw [List.forall₂_map_right_iff, List.forall₂_same]
    exact fun p _ => s.framesMessage_resolveMessage p.1 p.2
  · have hzip : (f.messages.zip f.proto.messageType).length = f.messages.length := by
      rw [List.length_zip, ← hlength, Nat.min_self]
    have hsplit := List.length_eq_length_filter_add (l := f.messages.zip f.proto.messageType)
      fun p => s.consumes p.1
    rw [List.length_map, Schema.kept, Schema.gone]
    omega
  · simp [Schema.resolved, List.isEmpty_iff]

theorem resolve_frame_prices :
    ∃ f', pricesSchema.resolve pricesFile = .ok f' ∧
      ∃ (pairs : List (Message × MessageProto)) (consumed : List Message),
        pairs.Sublist (pricesFile.messages.zip pricesFile.proto.messageType) ∧
        (pairs.map (·.2)).Sublist pricesFile.proto.messageType ∧
        List.Forall₂ (fun p raw' => pricesSchema.FramesMessage p.1 p.2 raw') pairs
          f'.proto.messageType ∧
        f'.aliases = pricesFile.aliases ++ consumed ∧
        pairs.length + consumed.length = pricesFile.messages.length ∧
        f'.proto = { pricesFile.proto with
          messageType := f'.proto.messageType
          sourceCodeInfo :=
            if consumed = [] then pricesFile.proto.sourceCodeInfo else none } := by
  have hbuilt : pricesFile.IsBuilt := ⟨defaultMarker, true, rfl⟩
  have hresolve := hbuilt.resolve_eq_ok pricesSchema
  exact ⟨_, hresolve, resolve_frame pricesSchema pricesFile _ hresolve⟩

end AliasErasure
