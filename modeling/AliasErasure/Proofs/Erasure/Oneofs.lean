import AliasErasure.Proofs.Erasure.Agreement

set_option autoImplicit false

/-! # Membership in oneofs

Fields name their oneof by its position, and when oneofs are dropped all later ones move up. A
position is moved to the number of kept ones before it (`newPosition?`), which is where the kept
list has the same oneof (`getElem?_keepUsed`); positions keep their order, so no two oneofs fall
together (`newPosition?_strictMono`, `newPosition?_inj`).

A oneof is dropped only if all its members have taken over payloads. So every other field stays in
the oneof it was in, in the message and in its descriptor, and what is left has members
(`resolve_settlesOneofs`).
-/

namespace AliasErasure

open Descriptor (FieldProto FileProto MessageProto)

/-! ## New positions -/

theorem newPosition?_eq_some_iff {used : List Bool} {i j : Nat} :
    newPosition? used i = some j ↔ used[i]? = some true ∧ (used.take i).count true = j := by
  rw [newPosition?]
  split
  next h => simp [h]
  next h => simp [h]

theorem newPosition?_cons_zero (keep : Bool) (used : List Bool) :
    newPosition? (keep :: used) 0 = if keep then some 0 else none := by
  cases keep <;> rfl

/-- A position moves up by one more if the first oneof is dropped. -/
theorem newPosition?_cons_succ (keep : Bool) (used : List Bool) (i : Nat) :
    newPosition? (keep :: used) (i + 1) = (newPosition? used i).map (· + keep.toNat) := by
  rw [newPosition?, newPosition?, List.getElem?_cons_succ, List.take_succ_cons, List.count_cons]
  split
  · cases keep <;> rfl
  · rfl

/-- **New positions keep the order.** -/
theorem newPosition?_strictMono {used : List Bool} {i j k l : Nat}
    (hi : newPosition? used i = some j) (hk : newPosition? used k = some l) (h : i < k) :
    j < l := by
  obtain ⟨htrue, rfl⟩ := newPosition?_eq_some_iff.mp hi
  obtain ⟨-, rfl⟩ := newPosition?_eq_some_iff.mp hk
  have hsucc : (used.take (i + 1)).count true = (used.take i).count true + 1 := by
    rw [List.take_add_one, htrue, List.count_append]
    rfl
  have hle : (used.take (i + 1)).count true ≤ (used.take k).count true :=
    (List.take_prefix_take_left h).sublist.count_le true
  omega

/-- Different positions stay different. -/
theorem newPosition?_inj {used : List Bool} {i j k : Nat} (hi : newPosition? used i = some j)
    (hk : newPosition? used k = some j) : i = k := by
  rcases Nat.lt_trichotomy i k with h | h | h
  · exact absurd (newPosition?_strictMono hi hk h) (Nat.lt_irrefl j)
  · exact h
  · exact absurd (newPosition?_strictMono hk hi h) (Nat.lt_irrefl j)

/-! ## Lists without their unused elements -/

section KeepUsed

variable {α : Type}

theorem keepUsed_nil (as : List α) : keepUsed [] as = [] := by
  simp [keepUsed]

theorem keepUsed_cons (keep : Bool) (used : List Bool) (a : α) (as : List α) :
    keepUsed (keep :: used) (a :: as)
      = if keep then a :: keepUsed used as else keepUsed used as := by
  cases keep <;> rfl

theorem keepUsed_sublist (used : List Bool) (as : List α) : (keepUsed used as).Sublist as := by
  induction used generalizing as with
  | nil =>
      rw [keepUsed_nil]
      exact List.nil_sublist as
  | cons keep used ih =>
      cases as with
      | nil => exact List.Sublist.slnil
      | cons a as =>
          rw [keepUsed_cons]
          split
          · exact (ih as).cons_cons a
          · exact (ih as).cons a

/-- **An element is found at its new position.** -/
theorem getElem?_keepUsed {used : List Bool} {i j : Nat} (h : newPosition? used i = some j)
    (as : List α) : (keepUsed used as)[j]? = as[i]? := by
  induction used generalizing i j as with
  | nil => cases h
  | cons keep used ih =>
      cases as with
      | nil => rfl
      | cons a as =>
          rw [keepUsed_cons]
          cases i with
          | zero =>
              rw [newPosition?_cons_zero] at h
              cases keep with
              | false => cases h
              | true =>
                  cases h
                  rfl
          | succ i =>
              rw [newPosition?_cons_succ] at h
              obtain ⟨k, hk, rfl⟩ := Option.map_eq_some_iff.mp h
              have htail := ih hk as
              cases keep with
              | false => exact htail
              | true => exact htail

/-- Every position of what is left is the new one of some position. -/
theorem exists_newPosition?_eq_some {used : List Bool} {as : List α} {j : Nat}
    (h : j < (keepUsed used as).length) : ∃ i, newPosition? used i = some j := by
  induction used generalizing as j with
  | nil =>
      rw [keepUsed_nil] at h
      exact absurd h (Nat.not_lt_zero j)
  | cons keep used ih =>
      cases as with
      | nil => exact absurd h (Nat.not_lt_zero j)
      | cons a as =>
          rw [keepUsed_cons] at h
          cases keep with
          | false =>
              obtain ⟨i, hi⟩ := ih h
              exact ⟨i + 1, by rw [newPosition?_cons_succ, hi]; rfl⟩
          | true =>
              cases j with
              | zero => exact ⟨0, rfl⟩
              | succ j =>
                  obtain ⟨i, hi⟩ := ih (Nat.lt_of_succ_lt_succ h)
                  exact ⟨i + 1, by rw [newPosition?_cons_succ, hi]; rfl⟩

end KeepUsed

/-- A oneof is used if a field is in it. -/
theorem getElem?_usedOneofs_eq_true_iff {count : Nat} {fields : List Field} {i : Nat} :
    (usedOneofs count fields)[i]? = some true ↔ i < count ∧ ∃ f ∈ fields, f.oneof = some i := by
  by_cases h : i < count
  · simp [usedOneofs, h]
  · simp [usedOneofs, h]

/-! ## Positions in a resolved message -/

/-- Where the oneof at a position of a message stands once the message has been resolved. -/
def Schema.oneofAfter? (s : Schema) (m : Message) : Nat → Option Nat :=
  match s.pruning? m with
  | none => some
  | some used => newPosition? used

section OneofAfter

variable {s : Schema} {m : Message}

theorem Schema.oneofAfter?_inj {i j k : Nat} (hi : s.oneofAfter? m i = some j)
    (hk : s.oneofAfter? m k = some j) : i = k := by
  rw [Schema.oneofAfter?] at hi hk
  cases hp : s.pruning? m with
  | none =>
      rw [hp] at hi hk
      cases hi
      cases hk
      rfl
  | some used =>
      rw [hp] at hi hk
      exact newPosition?_inj hi hk

/-- The same oneof stands at the new position. -/
theorem Schema.getElem?_oneofs_resolveMessage {i j : Nat} (h : s.oneofAfter? m i = some j)
    (raw : MessageProto) : (s.resolveMessage m raw).1.oneofs[j]? = m.oneofs[i]? := by
  rw [Schema.oneofAfter?] at h
  cases hp : s.pruning? m with
  | none =>
      rw [hp] at h
      cases h
      rw [s.resolveMessage_of_pruning?_eq_none m raw hp]
  | some used =>
      rw [hp] at h
      rw [s.resolveMessage_of_pruning?_eq_some m raw hp]
      exact getElem?_keepUsed h m.oneofs

/-- A field that does not refer to an alias moves along with its oneof. -/
theorem Schema.settleField_oneof {x : Field} (h : s.aliasTarget? x = none) :
    (s.settleField m x).oneof = x.oneof.bind (s.oneofAfter? m) := by
  have hself : s.resolveField x = x := by rw [Schema.resolveField, h]
  rw [Schema.settleField, hself, Schema.oneofAfter?]
  cases s.pruning? m with
  | none =>
      show x.oneof = x.oneof.bind some
      cases x.oneof <;> rfl
  | some used => rfl

/-- **A oneof stays as long as a field of it does not refer to an alias.** -/
theorem Schema.exists_oneofAfter? {x : Field} (hx : x ∈ m.fields) (h : s.aliasTarget? x = none)
    {i : Nat} (hi : x.oneof = some i) (hrange : i < m.oneofs.length) :
    ∃ j, s.oneofAfter? m i = some j := by
  rw [Schema.oneofAfter?]
  cases hp : s.pruning? m with
  | none => exact ⟨i, rfl⟩
  | some used =>
      have hself : s.resolveField x = x := by rw [Schema.resolveField, h]
      have hused : used[i]? = some true := by
        rw [Schema.pruning?] at hp
        split at hp
        · cases hp
          rw [getElem?_usedOneofs_eq_true_iff]
          exact ⟨hrange, s.resolveField x, List.mem_map_of_mem hx, hself.symm ▸ hi⟩
        · cases hp
      exact ⟨_, newPosition?_eq_some_iff.mpr ⟨hused, rfl⟩⟩

theorem Schema.oneofs_resolveMessage_sublist (s : Schema) (m : Message) (raw : MessageProto) :
    (s.resolveMessage m raw).1.oneofs.Sublist m.oneofs := by
  cases hp : s.pruning? m with
  | none =>
      rw [s.resolveMessage_of_pruning?_eq_none m raw hp]
  | some used =>
      rw [s.resolveMessage_of_pruning?_eq_some m raw hp]
      exact keepUsed_sublist used m.oneofs

theorem Schema.oneofDecl_resolveMessage_sublist (s : Schema) (m : Message) (raw : MessageProto) :
    (s.resolveMessage m raw).2.oneofDecl.Sublist raw.oneofDecl := by
  cases hp : s.pruning? m with
  | none =>
      rw [s.resolveMessage_of_pruning?_eq_none m raw hp]
  | some used =>
      rw [s.resolveMessage_of_pruning?_eq_some m raw hp]
      exact keepUsed_sublist used raw.oneofDecl

/-- If a field leaves a oneof, all oneofs that are left have members. -/
theorem Schema.exists_member_resolveMessage (h : s.emptiesOneofs m = true) (raw : MessageProto)
    {j : Nat} (hj : j < (s.resolveMessage m raw).1.oneofs.length) :
    ∃ x ∈ (s.resolveMessage m raw).1.fields, x.oneof = some j := by
  cases hp : s.pruning? m with
  | none =>
      rw [s.resolveMessage_of_pruning?_eq_none m raw hp] at hj ⊢
      -- nothing was dropped, because every oneof still has a member
      have hall : (usedOneofs m.oneofs.length (m.fields.map s.resolveField)).all id = true := by
        rw [Schema.pruning?] at hp
        simpa [h] using hp
      have hlen : j < (usedOneofs m.oneofs.length (m.fields.map s.resolveField)).length := by
        simpa [usedOneofs] using hj
      have htrue := List.all_eq_true.mp hall _ (List.getElem_mem hlen)
      have hused := (List.getElem?_eq_getElem hlen).trans (congrArg some htrue)
      exact (getElem?_usedOneofs_eq_true_iff.mp hused).2
  | some used =>
      rw [s.resolveMessage_of_pruning?_eq_some m raw hp] at hj ⊢
      obtain ⟨i, hi⟩ := exists_newPosition?_eq_some hj
      have hused : used = usedOneofs m.oneofs.length (m.fields.map s.resolveField) := by
        rw [Schema.pruning?] at hp
        split at hp
        · exact (Option.some.inj hp).symm
        · cases hp
      have htrue := (newPosition?_eq_some_iff.mp hi).1
      rw [hused] at htrue
      obtain ⟨-, y, hy, hyi⟩ := getElem?_usedOneofs_eq_true_iff.mp htrue
      refine ⟨y.renumber used, List.mem_map_of_mem hy, ?_⟩
      show y.oneof.bind (newPosition? used) = some j
      rw [hyi, Option.bind_some, hi]

end OneofAfter

/-! ## Membership -/

/-- The oneof that a field of a message is in. -/
def Message.oneofOf? (m : Message) (x : Field) : Option Oneof := x.oneof.bind fun i => m.oneofs[i]?

/-- The oneof that a descriptor of a field is in. -/
def Descriptor.MessageProto.oneofOf? (raw : MessageProto) (r : FieldProto) :
    Option Descriptor.OneofProto :=
  r.oneofIndex.bind fun i => raw.oneofDecl[oneofPosition i]?

/-- Every oneof that a field names is there, and positions fit into 31 bits. -/
structure Message.OneofsInRange (m : Message) : Prop where
  count : m.oneofs.length < 2 ^ 31
  fields : ∀ x ∈ m.fields, ∀ i, x.oneof = some i → i < m.oneofs.length

/-- The field `x` of `m` has become `x'` in `m'`, with the descriptor `r'` in `raw'`: all of them
stand at one position. -/
def FieldBecomes (m m' : Message) (raw' : MessageProto) (x x' : Field) (r' : FieldProto) : Prop :=
  ∃ j : Nat, m.fields[j]? = some x ∧ m'.fields[j]? = some x' ∧ raw'.field[j]? = some r'

/-- What becomes of the oneofs of a message `m` with descriptor `raw`, where `m'` and `raw'` are
the resolved ones. -/
structure Schema.OneofsSettle (s : Schema) (m m' : Message) (raw raw' : MessageProto) : Prop where
  /-- Every field has a counterpart in the message and in the descriptor. -/
  becomes : m'.fields.length = m.fields.length ∧ raw'.field.length = m.fields.length
  /-- Every oneof that a field names is there. -/
  inRange : ∀ x' ∈ m'.fields, ∀ i, x'.oneof = some i → i < m'.oneofs.length
  /-- Every oneof that a descriptor names is there. -/
  inRangeRaw : ∀ r' ∈ raw'.field, ∀ i, r'.oneofIndex = some i →
    0 ≤ i.toInt ∧ i.toInt < raw'.oneofDecl.length
  /-- A field that has taken over a payload stands outside every oneof. -/
  replaced : ∀ x x' r', FieldBecomes m m' raw' x x' r' → s.refersToAlias x = true →
    x'.oneof = none ∧ r'.oneofIndex = none
  /-- Any other field is in the oneof it was in, if it was in one. -/
  other : ∀ x x' r', FieldBecomes m m' raw' x x' r' → s.refersToAlias x = false →
    x'.oneof.isSome = x.oneof.isSome ∧ m'.oneofOf? x' = m.oneofOf? x ∧
      (raw'.oneofOf? r').map (fun o => o.name.getD "") = (m.oneofOf? x).map (·.name)
  /-- Two such fields share a oneof exactly if they did before. -/
  shared : ∀ x x' r' y y' q', FieldBecomes m m' raw' x x' r' → FieldBecomes m m' raw' y y' q' →
    s.refersToAlias x = false → s.refersToAlias y = false →
      (x'.oneof = y'.oneof ↔ x.oneof = y.oneof)
  /-- Oneofs keep their order. -/
  order : m'.oneofs.Sublist m.oneofs ∧ raw'.oneofDecl.Sublist raw.oneofDecl
  /-- If a field has left a oneof, every oneof that is left has a member. -/
  members : (∃ x ∈ m.fields, s.refersToAlias x = true ∧ x.oneof.isSome = true) →
    ∀ i < m'.oneofs.length, ∃ x' ∈ m'.fields, x'.oneof = some i
  /-- If none has, the oneofs are those from before. -/
  unchanged : (∀ x ∈ m.fields, s.refersToAlias x = true → x.oneof = none) →
    m'.oneofs = m.oneofs ∧ raw'.oneofDecl = raw.oneofDecl

theorem Schema.emptiesOneofs_iff {s : Schema} {m : Message} :
    s.emptiesOneofs m = true ↔
      ∃ x ∈ m.fields, s.refersToAlias x = true ∧ x.oneof.isSome = true := by
  simp only [Schema.emptiesOneofs, List.any_eq_true, Bool.and_eq_true]

/-- A message and its descriptor put a field into oneofs of one name. -/
theorem Message.Mirrors.oneofOf?_name {m : Message} {raw : MessageProto} (h : m.Mirrors raw)
    {x : Field} {r : FieldProto} (hx : x.MirrorsOneof r) :
    (raw.oneofOf? r).map (fun o => o.name.getD "") = (m.oneofOf? x).map (·.name) := by
  have hread : r.oneofIndex.map oneofPosition = x.oneof := hx ⟨[], .proto2, ""⟩ []
  rw [MessageProto.oneofOf?, Message.oneofOf?, ← hread]
  cases r.oneofIndex with
  | none => rfl
  | some i =>
      show (raw.oneofDecl[oneofPosition i]?).map _ = (m.oneofs[oneofPosition i]?).map _
      rw [← List.getElem?_map, ← List.getElem?_map, h.oneofs]

section OneofsSettle

variable {s : Schema} {m : Message}

/-- A field that does not refer to an alias is in no oneof, before and after, or moves along with
its oneof. -/
theorem Schema.settleField_oneof_cases (hm : m.OneofsInRange) {x : Field} (hx : x ∈ m.fields)
    (h : s.refersToAlias x = false) :
    (x.oneof = none ∧ (s.settleField m x).oneof = none) ∨
      ∃ i j, x.oneof = some i ∧ i < m.oneofs.length ∧ (s.settleField m x).oneof = some j ∧
        s.oneofAfter? m i = some j := by
  have hnone : s.aliasTarget? x = none := Schema.refersToAlias_eq_false_iff.mp h
  rw [Schema.settleField_oneof hnone]
  cases hi : x.oneof with
  | none => exact Or.inl ⟨rfl, rfl⟩
  | some i =>
      have hrange : i < m.oneofs.length := hm.fields x hx i hi
      obtain ⟨j, hj⟩ := Schema.exists_oneofAfter? hx hnone hi hrange
      exact Or.inr ⟨i, j, rfl, hrange, hj, hj⟩

/-- A field that has taken over a payload is in no oneof. -/
theorem Schema.settleField_oneof_of_refers {x : Field} (h : s.refersToAlias x = true) :
    (s.settleField m x).oneof = none := by
  obtain ⟨target, ht⟩ := Option.isSome_iff_exists.mp h
  rw [Schema.settleField_of_alias m ht]
  rfl

/-- A oneof that a resolved field names is there. -/
theorem Schema.settleField_oneof_lt (hm : m.OneofsInRange) {x : Field} (hx : x ∈ m.fields)
    {j : Nat} (hj : (s.settleField m x).oneof = some j) (raw : MessageProto) :
    j < (s.resolveMessage m raw).1.oneofs.length := by
  cases h : s.refersToAlias x with
  | true =>
      rw [Schema.settleField_oneof_of_refers h] at hj
      cases hj
  | false =>
      rcases Schema.settleField_oneof_cases hm hx h with ⟨-, hnone⟩ | ⟨i, k, -, hi, hk, hafter⟩
      · rw [hnone] at hj
        cases hj
      · rw [hk] at hj
        cases hj
        have hget := Schema.getElem?_oneofs_resolveMessage hafter raw
        rw [List.getElem?_eq_getElem hi] at hget
        exact (List.getElem?_eq_some_iff.mp hget).1

/-- The oneof of a field that does not refer to an alias is the one from before. -/
theorem Schema.oneofOf?_settleField (hm : m.OneofsInRange) {x : Field} (hx : x ∈ m.fields)
    (h : s.refersToAlias x = false) (raw : MessageProto) :
    (s.settleField m x).oneof.isSome = x.oneof.isSome ∧
      (s.resolveMessage m raw).1.oneofOf? (s.settleField m x) = m.oneofOf? x := by
  rw [Message.oneofOf?, Message.oneofOf?]
  rcases Schema.settleField_oneof_cases hm hx h with ⟨hi, hj⟩ | ⟨i, j, hi, -, hj, hafter⟩
  · rw [hi, hj]
    exact ⟨rfl, rfl⟩
  · rw [hi, hj]
    exact ⟨rfl, Schema.getElem?_oneofs_resolveMessage hafter raw⟩

/-- Fields that do not refer to an alias share a oneof exactly if they did before. -/
theorem Schema.settleField_oneof_eq_iff (hm : m.OneofsInRange) {x y : Field} (hx : x ∈ m.fields)
    (hy : y ∈ m.fields) (hrx : s.refersToAlias x = false) (hry : s.refersToAlias y = false) :
    (s.settleField m x).oneof = (s.settleField m y).oneof ↔ x.oneof = y.oneof := by
  rcases Schema.settleField_oneof_cases hm hx hrx with ⟨hi, hj⟩ | ⟨i, j, hi, -, hj, hij⟩
  · rcases Schema.settleField_oneof_cases hm hy hry with ⟨hk, hl⟩ | ⟨k, l, hk, -, hl, -⟩
    · rw [hi, hj, hk, hl]
    · simp [hi, hj, hk, hl]
  · rcases Schema.settleField_oneof_cases hm hy hry with ⟨hk, hl⟩ | ⟨k, l, hk, -, hl, hkl⟩
    · simp [hi, hj, hk, hl]
    · -- both have moved, and no two oneofs fall together
      rw [hi, hj, hk, hl]
      constructor
      · intro h
        cases h
        rw [Schema.oneofAfter?_inj hij hkl]
      · intro h
        cases h
        rw [hij] at hkl
        exact hkl

end OneofsSettle

/-- **Membership is kept in every message** that was read from a descriptor. -/
theorem Schema.Built.oneofsSettle {s : Schema} (hs : s.Built) {ctx : FileContext} {m : Message}
    {raw : MessageProto} (h : m.BuiltFrom ctx raw) (hm : m.OneofsInRange) :
    s.OneofsSettle m (s.resolveMessage m raw).1 raw (s.resolveMessage m raw).2 := by
  have hmirrors := hs.resolveMessage_mirrors h.mirrors
  have honeofs := Schema.resolveMessage_mirrorsOneofs (s := s) h.mirrorsOneofs
    (Nat.le_of_lt hm.count)
  have hfields := s.resolveMessage_fields m raw
  have hlen : (s.resolveMessage m raw).1.oneofs.length
      = (s.resolveMessage m raw).2.oneofDecl.length := by
    simpa using congrArg List.length hmirrors.oneofs
  have hrange : ∀ x' ∈ (s.resolveMessage m raw).1.fields, ∀ i, x'.oneof = some i →
      i < (s.resolveMessage m raw).1.oneofs.length := by
    intro x' hx' i hi
    rw [hfields] at hx'
    obtain ⟨x, hx, rfl⟩ := List.mem_map.mp hx'
    exact Schema.settleField_oneof_lt hm hx hi raw
  have hbecomes : ∀ x x' r', FieldBecomes m (s.resolveMessage m raw).1
      (s.resolveMessage m raw).2 x x' r' →
      x ∈ m.fields ∧ x' = s.settleField m x ∧ x'.MirrorsOneof r' := by
    rintro x x' r' ⟨j, hx, hx', hr'⟩
    refine ⟨List.mem_of_getElem? hx, ?_, rel_of_getElem? honeofs hx' hr'⟩
    rw [hfields, List.getElem?_map, hx] at hx'
    exact (Option.some.inj hx').symm
  refine
    { becomes := ?_
      inRange := hrange
      inRangeRaw := ?_
      replaced := ?_
      other := ?_
      shared := ?_
      order := ⟨s.oneofs_resolveMessage_sublist m raw, s.oneofDecl_resolveMessage_sublist m raw⟩
      members := fun hleft i hi =>
        Schema.exists_member_resolveMessage (Schema.emptiesOneofs_iff.mpr hleft) raw hi
      unchanged := ?_ }
  · have hcount : (s.resolveMessage m raw).1.fields.length = m.fields.length := by
      rw [hfields, List.length_map]
    exact ⟨hcount, hmirrors.fields.length_eq.symm.trans hcount⟩
  · intro r' hr' i hi
    obtain ⟨x', hx', hread⟩ := exists_rel_of_mem_right honeofs hr'
    have hposition : x'.oneof = some (oneofPosition i) := by
      rw [← hread ⟨[], .proto2, ""⟩ []]
      show r'.oneofIndex.map oneofPosition = _
      rw [hi, Option.map_some]
    have hlt := hrange x' hx' (oneofPosition i) hposition
    have hle := (s.oneofs_resolveMessage_sublist m raw).length_le
    have hcount := hm.count
    have hint : i.toInt = oneofPosition i := toInt_of_oneofPosition_lt (by omega)
    omega
  · intro x x' r' hx h
    obtain ⟨-, rfl, hr'⟩ := hbecomes x x' r' hx
    have hnone := Schema.settleField_oneof_of_refers (m := m) h
    have hread : r'.oneofIndex.map oneofPosition = (s.settleField m x).oneof :=
      hr' ⟨[], .proto2, ""⟩ []
    rw [hnone] at hread
    exact ⟨hnone, Option.map_eq_none_iff.mp hread⟩
  · intro x x' r' hx h
    obtain ⟨hmem, rfl, hr'⟩ := hbecomes x x' r' hx
    obtain ⟨hsome, hsame⟩ := Schema.oneofOf?_settleField hm hmem h raw
    exact ⟨hsome, hsame, hsame ▸ hmirrors.oneofOf?_name hr'⟩
  · intro x x' r' y y' q' hx hy hrx hry
    obtain ⟨hxm, rfl, -⟩ := hbecomes x x' r' hx
    obtain ⟨hym, rfl, -⟩ := hbecomes y y' q' hy
    exact Schema.settleField_oneof_eq_iff hm hxm hym hrx hry
  · intro hstays
    have hleft : s.emptiesOneofs m = false := by
      rw [← Bool.not_eq_true]
      intro h
      obtain ⟨x, hx, hrefers, hsome⟩ := Schema.emptiesOneofs_iff.mp h
      rw [hstays x hx hrefers] at hsome
      cases hsome
    have hnone : s.pruning? m = none := by simp [Schema.pruning?, hleft]
    rw [s.resolveMessage_of_pruning?_eq_none m raw hnone]
    exact ⟨rfl, rfl⟩

/-- **Membership in oneofs is kept.** Every file of a schema made of descriptors resolves, and in
each message that stays, if all its oneofs are in range, fields that have not taken over a payload
stay in their oneofs, and only oneofs left without members are dropped. -/
theorem resolve_settlesOneofs (marker : String) (generate : List String) (protos : List FileProto)
    {f : File} (hf : f ∈ (Schema.ofProtos marker generate protos).files) :
    ∃ f', (Schema.ofProtos marker generate protos).resolve f = .ok f' ∧
      List.Forall₂ (fun p p' => p.1.OneofsInRange →
          (Schema.ofProtos marker generate protos).OneofsSettle p.1 p'.1 p.2 p'.2)
        ((Schema.ofProtos marker generate protos).kept f)
        (f'.messages.zip f'.proto.messageType) := by
  have hs := Schema.built_ofProtos marker generate protos
  have hbuilt := hs.files f hf
  refine ⟨_, hbuilt.resolve_eq_ok _, ?_⟩
  show List.Forall₂ _ _ (List.zip (List.map _ _) (List.map _ _))
  rw [List.zip_map', List.forall₂_map_right_iff, List.forall₂_same]
  intro p hp hrange
  obtain ⟨ctx, hfrom⟩ := hbuilt.builtFrom_of_mem_kept hp
  exact hs.oneofsSettle hfrom hrange

/-- The oneofs of `ordersFile` are in range: `Order` has two, with one field in each. -/
theorem ordersFile_oneofsInRange : ∀ m ∈ ordersFile.messages, m.OneofsInRange := by
  have hcheck : ordersFile.messages.all (fun m => m.oneofs.length < 2 ^ 31 &&
      m.fields.all fun x => x.oneof.all fun i => i < m.oneofs.length) = true := by
    decide
  intro m hm
  have hboth := List.all_eq_true.mp hcheck m hm
  rw [Bool.and_eq_true, decide_eq_true_eq] at hboth
  refine ⟨hboth.1, fun x hx i hi => ?_⟩
  have hfield := List.all_eq_true.mp hboth.2 x hx
  rw [hi] at hfield
  simpa using hfield

theorem resolve_settlesOneofs_orders :
    ordersFile ∈ ordersSchema.files ∧
      (∀ p ∈ ordersSchema.kept ordersFile, p.1.OneofsInRange) ∧
      ∃ f', ordersSchema.resolve ordersFile = .ok f' ∧
        List.Forall₂ (fun p p' => p.1.OneofsInRange → ordersSchema.OneofsSettle p.1 p'.1 p.2 p'.2)
          (ordersSchema.kept ordersFile) (f'.messages.zip f'.proto.messageType) := by
  refine ⟨ordersFile_mem, fun p hp => ?_, resolve_settlesOneofs _ _ _ ordersFile_mem⟩
  exact ordersFile_oneofsInRange p.1 (List.of_mem_zip (List.mem_filter.mp hp).1).1

end AliasErasure
