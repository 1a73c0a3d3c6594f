import AliasErasure.Proofs.Erasure.Oneofs

set_option autoImplicit false

/-! # Source locations

A source location names a declaration by a path, in which positions alternate with the fields of
the descriptor format that hold the lists (`Descriptor.FileProto.declAt?`). The locations of a file
are dropped when one of its messages goes, since all later messages move up then. What stays in
place apart from that is shown here for every sort of declaration: messages, fields and enums do,
but a oneof does not, if it or one before it is left without members
(`Schema.oneofAfter?_eq_self_iff`). In a file that only refers to aliases of other files the
locations are kept all the same, and then lead to another oneof or to none
(`locations_lead_iff`).
-/

namespace AliasErasure

open Descriptor (FieldProto FileProto MessageProto)

/-! ## Paths -/

/-- The sorts of declarations that paths lead to. -/
inductive Descriptor.DeclSort where
  | message
  | field
  | enum
  | oneof
  deriving DecidableEq, Repr

/-- What a path leads to. -/
structure Descriptor.Decl where
  sort : DeclSort
  name : String
  deriving DecidableEq, Repr

open Descriptor (Decl)

/-- The element at a position of a path. -/
def elementAt? {α : Type} (l : List α) (i : Int32) : Option α :=
  if 0 ≤ i.toInt then l[i.toInt.toNat]? else none

/-- The member of a message, other than a nested message, that the last step of a path leads to. -/
def Descriptor.MessageProto.memberAt? (raw : MessageProto) (step i : Int32) : Option Decl :=
  if step = 2 then (elementAt? raw.field i).map fun r => ⟨.field, r.name.getD ""⟩
  else if step = 4 then (elementAt? raw.enumType i).map fun e => ⟨.enum, e.name.getD ""⟩
  else if step = 8 then (elementAt? raw.oneofDecl i).map fun o => ⟨.oneof, o.name.getD ""⟩
  else none

/-- What a path leads to from a message. -/
def Descriptor.MessageProto.declAt? : MessageProto → List Int32 → Option Decl
  | raw, [] => some ⟨.message, raw.name.getD ""⟩
  | _, [_] => none
  | raw, step :: i :: rest =>
      if step = 3 then
        match elementAt? raw.nestedType i with
        | some inner => inner.declAt? rest
        | none => none
      else if rest = [] then raw.memberAt? step i
      else none

/-- What a path leads to in a file. -/
def Descriptor.FileProto.declAt? (proto : FileProto) : List Int32 → Option Decl
  | step :: i :: rest =>
      if step = 4 then (elementAt? proto.messageType i).bind (·.declAt? rest)
      else if step = 5 ∧ rest = [] then
        (elementAt? proto.enumType i).map fun e => ⟨.enum, e.name.getD ""⟩
      else none
  | _ => none

/-- The path to the oneof at position `k` of the message at position `i`. -/
def oneofPath (i k : Int32) : List Int32 := [4, i, 8, k]

theorem elementAt?_map {α β : Type} (g : α → β) (l : List α) (i : Int32) :
    elementAt? (l.map g) i = (elementAt? l i).map g := by
  rw [elementAt?, elementAt?]
  split
  · rw [List.getElem?_map]
  · rfl

theorem elementAt?_eq_some_iff {α : Type} {l : List α} {i : Int32} {a : α} :
    elementAt? l i = some a ↔ 0 ≤ i.toInt ∧ l[i.toInt.toNat]? = some a := by
  rw [elementAt?]
  split
  next h => simp [h]
  next h => simp [h]

theorem Descriptor.MessageProto.declAt?_oneof (raw : MessageProto) (k : Int32) :
    raw.declAt? [8, k] = (elementAt? raw.oneofDecl k).map fun o => ⟨.oneof, o.name.getD ""⟩ := by
  have hstep : (8 : Int32) ≠ 3 ∧ (8 : Int32) ≠ 2 ∧ (8 : Int32) ≠ 4 := by decide
  simp [MessageProto.declAt?, MessageProto.memberAt?, hstep]

/-! ## Positions of oneofs -/

/-- All of the first `k` bits are counted exactly if all of them are set. -/
theorem count_take_eq_iff {used : List Bool} {k : Nat} (hk : k ≤ used.length) :
    (used.take k).count true = k ↔ ∀ b ∈ used.take k, true = b := by
  have hlen : (used.take k).length = k := by rw [List.length_take, Nat.min_eq_left hk]
  rw [← List.count_eq_length, hlen]

/-- **A position stays** if everything up to it is kept. -/
theorem newPosition?_eq_self_iff {used : List Bool} {k : Nat} :
    newPosition? used k = some k ↔ ∀ i ≤ k, used[i]? = some true := by
  rw [newPosition?_eq_some_iff]
  constructor
  · rintro ⟨hk, hcount⟩ i hi
    obtain ⟨hlt, -⟩ := List.getElem?_eq_some_iff.mp hk
    have hall := (count_take_eq_iff (Nat.le_of_lt hlt)).mp hcount
    rcases Nat.lt_or_eq_of_le hi with h | rfl
    · have hget : (used.take k)[i]? = some used[i] := by
        rw [List.getElem?_take_of_lt h, List.getElem?_eq_getElem (by omega)]
      rw [List.getElem?_eq_getElem (by omega), ← hall _ (List.mem_of_getElem? hget)]
    · exact hk
  · intro h
    have hk := h k (Nat.le_refl k)
    obtain ⟨hlt, -⟩ := List.getElem?_eq_some_iff.mp hk
    refine ⟨hk, (count_take_eq_iff (Nat.le_of_lt hlt)).mpr fun b hb => ?_⟩
    obtain ⟨i, hi⟩ := List.mem_iff_getElem?.mp hb
    have hik : i < k := by
      obtain ⟨hi', -⟩ := List.getElem?_eq_some_iff.mp hi
      rw [List.length_take] at hi'
      omega
    rw [List.getElem?_take_of_lt hik, h i (Nat.le_of_lt hik)] at hi
    exact Option.some.inj hi

section Moves

variable {s : Schema} {m : Message}

/-- The oneof at position `k` moves or is dropped: a field leaves a oneof of the message, and some
oneof up to this position is left without members. -/
def Schema.MovesOneof (s : Schema) (m : Message) (k : Nat) : Prop :=
  s.emptiesOneofs m = true ∧ ∃ i ≤ k, ∀ x ∈ m.fields, x.oneof = some i → s.refersToAlias x = true

theorem Schema.resolveField_oneof_eq_some_iff {x : Field} {i : Nat} :
    (s.resolveField x).oneof = some i ↔ s.refersToAlias x = false ∧ x.oneof = some i := by
  rw [Schema.refersToAlias, Schema.resolveField]
  cases s.aliasTarget? x with
  | none => simp
  | some target => simp [Field.substitute]

/-- The oneofs that are still used are those with a field that does not refer to an alias. -/
theorem Schema.getElem?_used_iff {i : Nat} (hi : i < m.oneofs.length) :
    (usedOneofs m.oneofs.length (m.fields.map s.resolveField))[i]? = some true ↔
      ∃ x ∈ m.fields, x.oneof = some i ∧ s.refersToAlias x = false := by
  rw [getElem?_usedOneofs_eq_true_iff]
  simp only [List.mem_map, exists_exists_and_eq_and, Schema.resolveField_oneof_eq_some_iff]
  constructor
  · rintro ⟨-, x, hx, hrefers, honeof⟩
    exact ⟨x, hx, honeof, hrefers⟩
  · rintro ⟨x, hx, honeof, hrefers⟩
    exact ⟨hi, x, hx, hrefers, honeof⟩

/-- If fields leave oneofs, a oneof stays where it is as long as none up to it is emptied. -/
theorem Schema.movesOneof_iff (h : s.emptiesOneofs m = true) {k : Nat}
    (hk : k < m.oneofs.length) :
    s.MovesOneof m k ↔
      ¬ ∀ i ≤ k, (usedOneofs m.oneofs.length (m.fields.map s.resolveField))[i]? = some true := by
  rw [Schema.MovesOneof, not_forall]
  simp only [h, true_and]
  refine exists_congr fun i => ?_
  rw [Classical.not_imp]
  refine and_congr_right fun hi => ?_
  rw [Schema.getElem?_used_iff (by omega)]
  simp only [not_exists, not_and, Bool.not_eq_false]

/-- **Which oneofs stay where they are.** -/
theorem Schema.oneofAfter?_eq_self_iff {k : Nat} (hk : k < m.oneofs.length) :
    s.oneofAfter? m k = some k ↔ ¬ s.MovesOneof m k := by
  by_cases hempties : s.emptiesOneofs m = true
  · rw [Schema.movesOneof_iff hempties hk, not_not, Schema.oneofAfter?, Schema.pruning?]
    by_cases hall : (usedOneofs m.oneofs.length (m.fields.map s.resolveField)).all id = true
    · -- nothing is dropped, since every oneof is still used
      simp only [hempties, hall, Bool.true_eq_false, and_false, if_false, true_iff]
      intro i hi
      have hlt : i < (usedOneofs m.oneofs.length (m.fields.map s.resolveField)).length := by
        rw [usedOneofs, List.length_map, List.length_range]
        omega
      rw [List.getElem?_eq_getElem hlt]
      exact congrArg some (List.all_eq_true.mp hall _ (List.getElem_mem hlt))
    · simp only [hempties, hall, and_self, if_true]
      exact newPosition?_eq_self_iff
  · have hstays : s.oneofAfter? m k = some k := by
      simp [Schema.oneofAfter?, Schema.pruning?, hempties]
    simp [hstays, Schema.MovesOneof, hempties]

end Moves

/-! ## Resolved messages -/

section ResolveMessage

variable (s : Schema) (m : Message) (raw : MessageProto)

theorem Schema.map_name_resolveFieldProtos (fs : List Field) (rs : List FieldProto) :
    (s.resolveFieldProtos fs rs).map (·.name) = rs.map (·.name) := by
  induction fs generalizing rs with
  | nil => rfl
  | cons x fs ih =>
      cases rs with
      | nil => rfl
      | cons r rs =>
          have hname : (s.resolveFieldProto x r).name = r.name := by
            rw [Schema.resolveFieldProto]
            split <;> rfl
          show (s.resolveFieldProto x r).name :: (s.resolveFieldProtos fs rs).map (·.name)
            = r.name :: rs.map (·.name)
          rw [hname, ih]

/-- Fields keep their names and places. -/
theorem Schema.map_name_resolveMessage :
    (s.resolveMessage m raw).2.field.map (·.name) = raw.field.map (·.name) := by
  cases hp : s.pruning? m with
  | none =>
      rw [s.resolveMessage_of_pruning?_eq_none m raw hp]
      exact s.map_name_resolveFieldProtos m.fields raw.field
  | some used =>
      rw [s.resolveMessage_of_pruning?_eq_some m raw hp]
      show ((s.resolveFieldProtos m.fields raw.field).map (renumberProto used)).map (·.name) = _
      rw [List.map_map, ← s.map_name_resolveFieldProtos m.fields raw.field]
      rfl

/-- **Whatever is not a oneof is found where it was.** -/
theorem Schema.declAt?_resolveMessage {path : List Int32} (h : ∀ k, path ≠ [8, k]) :
    (s.resolveMessage m raw).2.declAt? path = raw.declAt? path := by
  have hfields : ∀ i, (elementAt? (s.resolveMessage m raw).2.field i).map (·.name)
      = (elementAt? raw.field i).map (·.name) := by
    intro i
    rw [← elementAt?_map, ← elementAt?_map, s.map_name_resolveMessage]
  have hfieldDecl : ∀ i, (elementAt? (s.resolveMessage m raw).2.field i).map
        (fun r => (⟨.field, r.name.getD ""⟩ : Decl))
      = (elementAt? raw.field i).map fun r => ⟨.field, r.name.getD ""⟩ := by
    intro i
    have hmap := congrArg (Option.map fun n => (⟨.field, n.getD ""⟩ : Decl)) (hfields i)
    rwa [Option.map_map, Option.map_map] at hmap
  rw [s.resolveMessage_frame_raw] at hfieldDecl ⊢
  match path with
  | [] => rfl
  | [_] => rfl
  | step :: i :: rest =>
      simp only [MessageProto.declAt?, MessageProto.memberAt?, hfieldDecl]
      by_cases honeof : step = 8 ∧ rest = []
      · obtain ⟨rfl, rfl⟩ := honeof
        exact absurd rfl (h i)
      · grind

/-- The same oneof stands at the new position of the descriptor. -/
theorem Schema.getElem?_oneofDecl_resolveMessage {i j : Nat} (h : s.oneofAfter? m i = some j) :
    (s.resolveMessage m raw).2.oneofDecl[j]? = raw.oneofDecl[i]? := by
  rw [Schema.oneofAfter?] at h
  cases hp : s.pruning? m with
  | none =>
      rw [hp] at h
      cases h
      rw [s.resolveMessage_of_pruning?_eq_none m raw hp]
  | some used =>
      rw [hp] at h
      rw [s.resolveMessage_of_pruning?_eq_some m raw hp]
      exact getElem?_keepUsed h raw.oneofDecl

/-- Every oneof of a resolved descriptor stands at the new position of some oneof. -/
theorem Schema.exists_oneofAfter?_eq_some {j : Nat}
    (hj : j < (s.resolveMessage m raw).2.oneofDecl.length) : ∃ i, s.oneofAfter? m i = some j := by
  rw [Schema.oneofAfter?]
  cases hp : s.pruning? m with
  | none => exact ⟨j, rfl⟩
  | some used =>
      rw [s.resolveMessage_of_pruning?_eq_some m raw hp] at hj
      exact exists_newPosition?_eq_some hj

/-- **A oneof that moves is not found where it was**, given that oneofs have different names. -/
theorem Schema.getElem?_oneofDecl_ne {k : Nat} {o : Descriptor.OneofProto}
    (ho : raw.oneofDecl[k]? = some o)
    (distinct : (raw.oneofDecl.map fun o => o.name.getD "").Nodup)
    (hmoves : s.oneofAfter? m k ≠ some k) {o' : Descriptor.OneofProto}
    (ho' : (s.resolveMessage m raw).2.oneofDecl[k]? = some o') :
    o'.name.getD "" ≠ o.name.getD "" := by
  intro hname
  obtain ⟨hk', -⟩ := List.getElem?_eq_some_iff.mp ho'
  -- what now stands at `k` has come from a position with the same name
  obtain ⟨i, hi⟩ := s.exists_oneofAfter?_eq_some m raw hk'
  have hi' : raw.oneofDecl[i]? = some o' := by
    rw [← s.getElem?_oneofDecl_resolveMessage m raw hi, ho']
  have heq : k = i := by
    obtain ⟨hk, -⟩ := List.getElem?_eq_some_iff.mp ho
    refine (List.getElem?_inj (by simpa using hk) distinct).mp ?_
    rw [List.getElem?_map, List.getElem?_map, ho, hi', Option.map_some, Option.map_some, hname]
  exact hmoves (heq ▸ hi)

end ResolveMessage

theorem Message.BuiltFrom.oneofAfter?_eq_self_iff {s : Schema} {ctx : FileContext} {m : Message}
    {raw : MessageProto} (h : m.BuiltFrom ctx raw) {k : Nat} {o : Descriptor.OneofProto}
    (ho : raw.oneofDecl[k]? = some o) : s.oneofAfter? m k = some k ↔ ¬ s.MovesOneof m k := by
  have hlen : m.oneofs.length = raw.oneofDecl.length := by
    simpa using congrArg List.length h.mirrors.oneofs
  obtain ⟨hk, -⟩ := List.getElem?_eq_some_iff.mp ho
  exact Schema.oneofAfter?_eq_self_iff (hlen ▸ hk)

/-- What a path leads to from a message stays there, unless it is a oneof that moves. -/
theorem Message.BuiltFrom.declAt?_resolveMessage {s : Schema} {ctx : FileContext} {m : Message}
    {raw : MessageProto} (h : m.BuiltFrom ctx raw) {path : List Int32} {d : Decl}
    (hd : raw.declAt? path = some d)
    (hstays : ∀ k, path = [8, k] → ¬ s.MovesOneof m k.toInt.toNat) :
    (s.resolveMessage m raw).2.declAt? path = some d := by
  by_cases honeof : ∃ k, path = [8, k]
  · obtain ⟨k, rfl⟩ := honeof
    rw [MessageProto.declAt?_oneof] at hd ⊢
    obtain ⟨o, ho, rfl⟩ := Option.map_eq_some_iff.mp hd
    obtain ⟨hk, ho⟩ := elementAt?_eq_some_iff.mp ho
    have hself := (h.oneofAfter?_eq_self_iff ho).mpr (hstays k rfl)
    have ho' := (s.getElem?_oneofDecl_resolveMessage m raw hself).trans ho
    rw [elementAt?_eq_some_iff.mpr ⟨hk, ho'⟩, Option.map_some]
  · rw [s.declAt?_resolveMessage m raw fun k hk => honeof ⟨k, hk⟩]
    exact hd

/-! ## Resolved files -/

/-- The path leads to a oneof that moves or is dropped. -/
def Schema.MovesTarget (s : Schema) (f : File) (path : List Int32) : Prop :=
  ∃ i k m, path = oneofPath i k ∧ elementAt? f.messages i = some m ∧
    s.MovesOneof m k.toInt.toNat

section Resolved

variable {s : Schema} {f : File}

/-- Messages stay where they are if none of them goes. -/
theorem Schema.elementAt?_resolved (hgone : s.gone f = []) {i : Int32} {m : Message}
    {raw : MessageProto} (hm : elementAt? f.messages i = some m)
    (hraw : elementAt? f.proto.messageType i = some raw) :
    elementAt? (s.resolved f).proto.messageType i = some (s.resolveMessage m raw).2 := by
  obtain ⟨hi, hm⟩ := elementAt?_eq_some_iff.mp hm
  obtain ⟨-, hraw⟩ := elementAt?_eq_some_iff.mp hraw
  refine elementAt?_eq_some_iff.mpr ⟨hi, ?_⟩
  show ((s.kept f).map fun p => (s.resolveMessage p.1 p.2).2)[i.toInt.toNat]? = _
  have hpair : (f.messages.zip f.proto.messageType)[i.toInt.toNat]? = some (m, raw) :=
    List.getElem?_zip_eq_some.mpr ⟨hm, hraw⟩
  rw [Schema.kept_eq_zip hgone, List.getElem?_map, hpair, Option.map_some]

/-- The message that a descriptor at some position was read into. -/
theorem File.IsBuilt.exists_elementAt? (hf : f.IsBuilt) {i : Int32} {raw : MessageProto}
    (hraw : elementAt? f.proto.messageType i = some raw) :
    ∃ ctx m, elementAt? f.messages i = some m ∧ m.BuiltFrom ctx raw := by
  obtain ⟨ctx, hmessages⟩ := hf.messages
  obtain ⟨hi, hget⟩ := elementAt?_eq_some_iff.mp hraw
  obtain ⟨hlt, -⟩ := List.getElem?_eq_some_iff.mp hget
  have hlt' : i.toInt.toNat < f.messages.length := hmessages.length_eq ▸ hlt
  have hm := List.getElem?_eq_getElem hlt'
  exact ⟨ctx, _, elementAt?_eq_some_iff.mpr ⟨hi, hm⟩, rel_of_getElem? hmessages hm hget⟩

/-- **What a path leads to stays there**, unless it is a oneof that moves. -/
theorem Schema.declAt?_resolved (hf : f.IsBuilt) (hgone : s.gone f = []) {path : List Int32}
    {d : Decl} (hd : f.proto.declAt? path = some d) (hstays : ¬ s.MovesTarget f path) :
    (s.resolved f).proto.declAt? path = some d := by
  match path with
  | [] => cases hd
  | [_] => cases hd
  | step :: i :: rest =>
      rw [FileProto.declAt?] at hd ⊢
      by_cases hstep : step = 4
      · rw [if_pos hstep] at hd ⊢
        obtain ⟨raw, hraw, hd⟩ := Option.bind_eq_some_iff.mp hd
        obtain ⟨ctx, m, hm, hfrom⟩ := hf.exists_elementAt? hraw
        rw [Schema.elementAt?_resolved hgone hm hraw, Option.bind_some]
        refine hfrom.declAt?_resolveMessage hd fun k hk hmoves => hstays ?_
        exact ⟨i, k, m, by rw [hstep, hk]; rfl, hm, hmoves⟩
      · rw [if_neg hstep] at hd ⊢
        exact hd

/-- **A oneof that moves is not found at its path any more**, given that the oneofs of each message
have different names. -/
theorem Schema.declAt?_resolved_ne (hf : f.IsBuilt) (hgone : s.gone f = [])
    (distinct : ∀ raw ∈ f.proto.messageType,
      (raw.oneofDecl.map fun o => o.name.getD "").Nodup) {path : List Int32} {d : Decl}
    (hd : f.proto.declAt? path = some d) (hmoves : s.MovesTarget f path) :
    (s.resolved f).proto.declAt? path ≠ some d := by
  obtain ⟨i, k, m, rfl, hm, hmoves⟩ := hmoves
  intro hd'
  rw [oneofPath, FileProto.declAt?, if_pos rfl] at hd hd'
  obtain ⟨raw, hraw, hd⟩ := Option.bind_eq_some_iff.mp hd
  obtain ⟨ctx, m', hm', hfrom⟩ := hf.exists_elementAt? hraw
  rw [hm] at hm'
  cases hm'
  rw [Schema.elementAt?_resolved hgone hm hraw, Option.bind_some] at hd'
  rw [MessageProto.declAt?_oneof] at hd hd'
  obtain ⟨o, ho, rfl⟩ := Option.map_eq_some_iff.mp hd
  obtain ⟨o', ho', heq⟩ := Option.map_eq_some_iff.mp hd'
  obtain ⟨-, ho⟩ := elementAt?_eq_some_iff.mp ho
  obtain ⟨-, ho'⟩ := elementAt?_eq_some_iff.mp ho'
  have hself : s.oneofAfter? m k.toInt.toNat ≠ some k.toInt.toNat := by
    rw [Ne, hfrom.oneofAfter?_eq_self_iff ho, not_not]
    exact hmoves
  have hraw' : raw ∈ f.proto.messageType :=
    List.mem_of_getElem? (elementAt?_eq_some_iff.mp hraw).2
  exact s.getElem?_oneofDecl_ne m raw ho (distinct raw hraw') hself ho' (Decl.mk.inj heq).2

/-- A file that still has source locations has lost no message. -/
theorem Schema.gone_eq_nil_of_locations {info : Descriptor.SourceInfo}
    (h : (s.resolved f).proto.sourceCodeInfo = some info) : s.gone f = [] := by
  have hinfo : (if (s.gone f).isEmpty then f.proto.sourceCodeInfo else none) = some info := h
  split at hinfo
  next hempty => exact List.isEmpty_iff.mp hempty
  next => cases hinfo

end Resolved

/-- **Where source locations lead.** Every file of a schema made of descriptors resolves. If the
result still has source locations, each of them leads to the declaration it led to before, unless
this is a oneof that has moved or is dropped; and then it does not, as long as the oneofs of each
message have different names. -/
theorem locations_lead_iff (marker : String) (generate : List String) (protos : List FileProto)
    {f : File} (hf : f ∈ (Schema.ofProtos marker generate protos).files) :
    ∃ f', (Schema.ofProtos marker generate protos).resolve f = .ok f' ∧
      ∀ info, f'.proto.sourceCodeInfo = some info → ∀ l ∈ info.location, ∀ d,
        f.proto.declAt? l.path = some d →
          (¬ (Schema.ofProtos marker generate protos).MovesTarget f l.path →
            f'.proto.declAt? l.path = some d) ∧
          ((Schema.ofProtos marker generate protos).MovesTarget f l.path →
            (∀ raw ∈ f.proto.messageType,
              (raw.oneofDecl.map fun o => o.name.getD "").Nodup) →
            f'.proto.declAt? l.path ≠ some d) := by
  have hbuilt := (Schema.built_ofProtos marker generate protos).files f hf
  refine ⟨_, hbuilt.resolve_eq_ok _, fun info hinfo l _ d hd => ?_⟩
  have hgone := Schema.gone_eq_nil_of_locations hinfo
  refine ⟨fun hstays => Schema.declAt?_resolved hbuilt hgone hd hstays, fun hmoves distinct => ?_⟩
  exact Schema.declAt?_resolved_ne hbuilt hgone distinct hd hmoves

/-- A file with an alias, `UserId`. -/
def userIdsProto : FileProto where
  name := some "user_ids.proto"
  package := some "shop"
  syntaxName := some "proto3"
  messageType :=
    [{ name := some "UserId"
       field := [{ name := some "value", number := some 1, label := some 1, type := some 3 }] }]
  sourceCodeInfo := some
    { location := [{ path := [4, 0], leadingComments := some " protobuf:alias\n" }] }

/-- A file in which the only member of the first oneof of `Login` refers to `UserId`; both oneofs
have a source location. -/
def loginsProto : FileProto where
  name := some "logins.proto"
  package := some "shop"
  dependency := ["user_ids.proto"]
  syntaxName := some "proto3"
  messageType :=
    [{ name := some "Login"
       field :=
        [{ name := some "id", number := some 1, label := some 1, type := some 11
           typeName := some ".shop.UserId", oneofIndex := some 0 },
         { name := some "phone", number := some 2, label := some 1, type := some 9
           oneofIndex := some 1 }]
       oneofDecl := [{ name := some "user" }, { name := some "device" }] }]
  sourceCodeInfo := some
    { location :=
        [{ path := [4, 0, 8, 0], leadingComments := some " Who logs in.\n" },
         { path := [4, 0, 8, 1], leadingComments := some " From where.\n" }] }

/-- The schema of both files. -/
def loginsSchema : Schema :=
  Schema.ofProtos defaultMarker ["logins.proto"] [userIdsProto, loginsProto]

/-- The file of `loginsProto` in `loginsSchema`. -/
def loginsFile : File := buildFile defaultMarker true loginsProto

theorem loginsSchema_built : loginsSchema.Built := Schema.built_ofProtos _ _ _

theorem loginsSchema_files :
    loginsSchema.files = [buildFile defaultMarker false userIdsProto, loginsFile] := by
  simp [loginsSchema, Schema.ofProtos, Schema.ofFiles, userIdsProto, loginsProto, loginsFile]

theorem loginsFile_mem : loginsFile ∈ loginsSchema.files := by simp [loginsSchema_files]

theorem loginsFile_distinct : ∀ raw ∈ loginsFile.proto.messageType,
    (raw.oneofDecl.map fun o => o.name.getD "").Nodup := by
  simp [loginsFile, buildFile, loginsProto]

theorem locations_lead_iff_logins :
    loginsFile ∈ loginsSchema.files ∧
      (∀ raw ∈ loginsFile.proto.messageType,
        (raw.oneofDecl.map fun o => o.name.getD "").Nodup) ∧
      ∃ f', loginsSchema.resolve loginsFile = .ok f' ∧
        ∀ info, f'.proto.sourceCodeInfo = some info → ∀ l ∈ info.location, ∀ d,
          loginsFile.proto.declAt? l.path = some d →
            (¬ loginsSchema.MovesTarget loginsFile l.path → f'.proto.declAt? l.path = some d) ∧
            (loginsSchema.MovesTarget loginsFile l.path →
              (∀ raw ∈ loginsFile.proto.messageType,
                (raw.oneofDecl.map fun o => o.name.getD "").Nodup) →
              f'.proto.declAt? l.path ≠ some d) :=
  ⟨loginsFile_mem, loginsFile_distinct, locations_lead_iff _ _ _ loginsFile_mem⟩

/-- `UserId` can be erased. -/
theorem loginsSchema_userId : ∃ t, loginsSchema.message? ".shop.UserId" = some t ∧
    ∃ q, t.erasablePayload? = some q := by
  rw [Schema.message?_eq_getLast? loginsSchema_built.indexed, Schema.allMessages,
    loginsSchema_files]
  exact ⟨_, rfl, _, rfl⟩

/-- The only field of the oneof `user` refers to `UserId`. -/
theorem logins_movesOneof {m : Message} (hm : loginsFile.messages[0]? = some m) (k : Nat) :
    loginsSchema.MovesOneof m k := by
  obtain ⟨t, ht, q, hq⟩ := loginsSchema_userId
  have hrefers : ∀ x ∈ m.fields, x.oneof = some 0 → loginsSchema.refersToAlias x = true := by
    intro x hx honeof
    have htarget : loginsSchema.aliasTarget? x = some (t, q) := by
      cases hm
      rcases List.mem_pair.mp hx with rfl | rfl
      · exact Schema.aliasTarget?_eq_some_iff.mpr ⟨rfl, rfl, ht, hq⟩
      · exact absurd honeof (by decide)
    rw [Schema.refersToAlias, htarget]
    rfl
  have hfirst : ∃ x ∈ m.fields, x.oneof = some 0 := by
    cases hm
    exact ⟨_, List.mem_of_getElem? (i := 0) rfl, rfl⟩
  refine ⟨?_, 0, Nat.zero_le k, hrefers⟩
  obtain ⟨x, hx, honeof⟩ := hfirst
  exact Schema.emptiesOneofs_iff.mpr ⟨x, hx, hrefers x hx honeof, by rw [honeof]; rfl⟩

/-- **Locations do lead elsewhere**: the resolved file still has its source locations, but the one
of the oneof `device` does not lead to it any more. -/
theorem locations_lead_elsewhere_logins :
    loginsFile ∈ loginsSchema.files ∧
      ∃ f', loginsSchema.resolve loginsFile = .ok f' ∧
        ∃ info, f'.proto.sourceCodeInfo = some info ∧ ∃ l ∈ info.location,
          loginsFile.proto.declAt? l.path = some ⟨.oneof, "device"⟩ ∧
            f'.proto.declAt? l.path ≠ some ⟨.oneof, "device"⟩ := by
  have hbuilt := loginsSchema_built.files _ loginsFile_mem
  have hgone : loginsSchema.gone loginsFile = [] := rfl
  have hinfo : (loginsSchema.resolved loginsFile).proto.sourceCodeInfo
      = loginsProto.sourceCodeInfo := by
    show (if (loginsSchema.gone loginsFile).isEmpty then loginsFile.proto.sourceCodeInfo
      else none) = _
    rw [hgone]
    rfl
  have hpath : loginsFile.proto.declAt? (oneofPath 0 1) = some ⟨.oneof, "device"⟩ := by decide
  refine ⟨loginsFile_mem, _, hbuilt.resolve_eq_ok _, _, hinfo.trans rfl, _,
    List.mem_of_getElem? (i := 1) rfl, hpath, ?_⟩
  exact Schema.declAt?_resolved_ne hbuilt hgone loginsFile_distinct hpath
    ⟨0, 1, _, rfl, rfl, logins_movesOneof rfl _⟩

end AliasErasure
