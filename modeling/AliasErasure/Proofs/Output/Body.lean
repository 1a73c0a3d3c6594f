import AliasErasure.Proofs.Output.Presence

set_option autoImplicit false

/-! # Every field is written exactly once

The body of a message is written in one pass over its fields: a field stands on its own or, at the
first member of a oneof, the block of the oneof with all its members. The pass remembers the oneofs
that it has written, and passes over their other members.

A message may have fields that are equal, so the account below is of fields together with their
positions. `bodyParts` is the pass with positions. What it needs to know of the fields before is
only that none of them is a member of a oneof that is still to come (`Message.Fresh`): so the block
of such a oneof consists of members ahead, and starts with the field at hand. That each field is
written once, where it belongs (`Message.ArrangedAs`), follows by induction on the fields ahead.
There is only one such arrangement (`Message.ArrangedAs.unique`). So to write it at every depth is
what the printer does, and all that it does (`written_iff_eq_messageLines`).
-/

namespace AliasErasure

/-! ## Parts of a body -/

/-- A part of the body of a message: a field on its own, or the block of a oneof. Fields come with
their positions among those of the message. -/
inductive BodyPart where
  | plain (x : Field × Nat)
  | block (i : Nat) (members : List (Field × Nat))

namespace BodyPart

/-- The fields that are written. -/
def entries : BodyPart → List (Field × Nat)
  | plain x => [x]
  | block _ members => members

/-- The oneof that is written. -/
def oneof? : BodyPart → Option Nat
  | plain _ => none
  | block i _ => some i

/-- The first field of one part stands before the first field of the other. -/
def Precedes (a b : BodyPart) : Prop :=
  ∀ x ∈ a.entries.head?, ∀ y ∈ b.entries.head?, x.2 < y.2

/-- The lines of a part: fields and members of blocks are written in their ways, one after the
other. -/
def lines (dialect : Dialect) (level : Nat) (m : Message) : BodyPart → List Line
  | plain x => fieldLines dialect level m x.1
  | block i members =>
      .code level ("oneof " ++ (m.oneofs[i]?.map (·.name)).getD "" ++ " \x7b") ::
        members.flatMap (fun x => commentLines (level + 1) x.1.comments ++
          [.code (level + 1) (memberText dialect x.1)]) ++
        [.code level "\x7d"]

end BodyPart

/-- A oneof is written unless it is synthetic. -/
def Message.WritesOneof (m : Message) (i : Nat) : Prop :=
  ∀ o, m.oneofs[i]? = some o → o.synthetic = false

/-- The fields in the oneof at position `i`, with their positions. -/
def Message.membersAt (m : Message) (i : Nat) : List (Field × Nat) :=
  m.fields.zipIdx.filter fun x => x.1.oneof == some i

/-- The fields of a message are arranged in parts. -/
structure Message.ArrangedAs (m : Message) (parts : List BodyPart) : Prop where
  /-- Every field is written exactly once. -/
  once : (parts.flatMap (·.entries)).Perm m.fields.zipIdx
  /-- A field is written in a block if and only if it is in a oneof that is written. -/
  inBlock_iff : ∀ x ∈ m.fields.zipIdx, ∀ i,
    (∃ members, .block i members ∈ parts ∧ x ∈ members) ↔ x.1.oneof = some i ∧ m.WritesOneof i
  /-- No oneof has two blocks. -/
  distinct : (parts.filterMap (·.oneof?)).Nodup
  /-- A block holds exactly the members of its oneof, in order, of which there are some. -/
  members : ∀ i members, .block i members ∈ parts → members = m.membersAt i ∧ members ≠ []
  /-- Each part stands where its first field stands. -/
  ordered : parts.Pairwise BodyPart.Precedes

theorem Message.mem_membersAt_iff {m : Message} {i : Nat} {x : Field × Nat} :
    x ∈ m.membersAt i ↔ x ∈ m.fields.zipIdx ∧ x.1.oneof = some i := by
  rw [Message.membersAt, List.mem_filter, beq_iff_eq]

theorem writtenOneof?_eq_some_iff {m : Message} {f : Field} {i : Nat} :
    writtenOneof? m f = some i ↔ f.oneof = some i ∧ m.WritesOneof i := by
  rw [writtenOneof?, Option.filter_eq_some_iff, Message.WritesOneof]
  refine and_congr_right fun _ => ?_
  cases m.oneofs[i]? <;> simp

/-! ## The pass over the fields -/

/-- The pass over the fields ahead, when the blocks of the oneofs `seen` are written already. -/
def bodyParts (m : Message) (seen : List Nat) : List (Field × Nat) → List BodyPart
  | [] => []
  | x :: rest =>
      match writtenOneof? m x.1 with
      | none => .plain x :: bodyParts m seen rest
      | some i =>
          if i ∈ seen then bodyParts m seen rest
          else .block i (m.membersAt i) :: bodyParts m (i :: seen) rest

/-- Of all oneofs that are still to be written, the members are ahead. -/
def Message.Fresh (m : Message) (seen : List Nat) (ahead : List (Field × Nat)) : Prop :=
  ∀ i, i ∉ seen → m.WritesOneof i → m.membersAt i = ahead.filter fun x => x.1.oneof == some i

/-- The field is still to be written when the blocks of the oneofs `seen` are. -/
def Message.pending (m : Message) (seen : List Nat) (x : Field × Nat) : Bool :=
  (writtenOneof? m x.1).all fun i => decide (i ∉ seen)

/-- Where a part comes from that is put down when the fields `ahead` are passed. -/
def BodyPart.StandsIn (m : Message) (seen : List Nat) (ahead : List (Field × Nat)) :
    BodyPart → Prop
  | plain x => x ∈ ahead ∧ writtenOneof? m x.1 = none
  | block i members => members = m.membersAt i ∧ i ∉ seen ∧
      ∃ x ∈ ahead, writtenOneof? m x.1 = some i

section Pass

variable {m : Message} {seen : List Nat} {x : Field × Nat} {rest : List (Field × Nat)}

theorem Message.fresh_nil (m : Message) : m.Fresh [] m.fields.zipIdx := fun _ _ _ => rfl

/-- **One step of the pass**: members stay ahead when a field is passed, if its own oneof counts as
written from then on. -/
theorem Message.Fresh.tail (h : m.Fresh seen (x :: rest)) {seen' : List Nat}
    (hseen : ∀ i ∈ seen, i ∈ seen') (hx : ∀ i, writtenOneof? m x.1 = some i → i ∈ seen') :
    m.Fresh seen' rest := by
  intro i hi hwrites
  have hne : x.1.oneof ≠ some i := fun hxi =>
    hi (hx i (writtenOneof?_eq_some_iff.mpr ⟨hxi, hwrites⟩))
  rw [h i (fun hmem => hi (hseen i hmem)) hwrites, List.filter_cons_of_neg (by simpa using hne)]

/-- The block of a oneof starts with the first member that is met. -/
theorem Message.Fresh.head?_membersAt (h : m.Fresh seen (x :: rest)) {i : Nat} (hi : i ∉ seen)
    (hx : writtenOneof? m x.1 = some i) : (m.membersAt i).head? = some x := by
  obtain ⟨hxi, hwrites⟩ := writtenOneof?_eq_some_iff.mp hx
  rw [h i hi hwrites, List.filter_cons_of_pos (by simpa using hxi), List.head?_cons]

/-- The block of a oneof holds what is ahead and written in it. -/
theorem Message.Fresh.membersAt_eq (h : m.Fresh seen rest) {i : Nat} (hi : i ∉ seen)
    (hwrites : m.WritesOneof i) :
    m.membersAt i = rest.filter fun x => writtenOneof? m x.1 == some i := by
  rw [h i hi hwrites]
  apply List.filter_congr
  intro x _
  rw [Bool.eq_iff_iff, beq_iff_eq, beq_iff_eq, writtenOneof?_eq_some_iff]
  exact (and_iff_left hwrites).symm

/-- What is pending is written in the block of a oneof, or still pending after that. -/
theorem Message.filter_pending_perm (m : Message) (seen : List Nat) {i : Nat} (hi : i ∉ seen)
    (xs : List (Field × Nat)) :
    (xs.filter (fun x => writtenOneof? m x.1 == some i) ++ xs.filter (m.pending (i :: seen))).Perm
      (xs.filter (m.pending seen)) := by
  have hin : xs.filter (fun x => writtenOneof? m x.1 == some i)
      = (xs.filter (m.pending seen)).filter fun x => writtenOneof? m x.1 == some i := by
    rw [List.filter_filter]
    apply List.filter_congr
    intro x _
    by_cases hx : writtenOneof? m x.1 = some i
    · simp [Message.pending, hx, hi]
    · simp [hx]
  have hout : xs.filter (m.pending (i :: seen))
      = (xs.filter (m.pending seen)).filter fun x => !(writtenOneof? m x.1 == some i) := by
    rw [List.filter_filter]
    apply List.filter_congr
    intro x _
    cases hx : writtenOneof? m x.1 with
    | none => simp [Message.pending, hx]
    | some j =>
        by_cases hj : j = i
        · simp [Message.pending, hx, hj]
        · simp [Message.pending, hx, hj]
  rw [hin, hout]
  exact List.filter_append_perm _ _

/-- **What the pass writes** is what is pending, each field once. -/
theorem flatMap_entries_bodyParts_perm (h : m.Fresh seen rest) :
    ((bodyParts m seen rest).flatMap (·.entries)).Perm (rest.filter (m.pending seen)) := by
  fun_induction bodyParts m seen rest with
  | case1 => exact List.Perm.nil
  | case2 seen x rest hx ih =>
      rw [List.flatMap_cons, List.filter_cons_of_pos (by simp [Message.pending, hx])]
      refine List.Perm.cons x (ih (h.tail (fun _ hi => hi) ?_))
      simp [hx]
  | case3 seen x rest i hx hi ih =>
      rw [List.filter_cons_of_neg (by simp [Message.pending, hx, hi])]
      refine ih (h.tail (fun _ hj => hj) ?_)
      simpa [hx] using hi
  | case4 seen x rest i hx hi ih =>
      have hwrites : m.WritesOneof i := (writtenOneof?_eq_some_iff.mp hx).2
      have hrest : m.Fresh (i :: seen) rest :=
        h.tail (fun j hj => List.mem_cons_of_mem i hj) (by simp [hx])
      -- `x` is written in the block, so it is not pending any more
      have hx' : (x :: rest).filter (m.pending (i :: seen)) = rest.filter (m.pending (i :: seen)) :=
        List.filter_cons_of_neg (by simp [Message.pending, hx])
      rw [List.flatMap_cons]
      refine List.Perm.trans ?_ (m.filter_pending_perm seen hi (x :: rest))
      rw [hx', ← h.membersAt_eq hi hwrites]
      exact (ih hrest).append_left (m.membersAt i)

theorem BodyPart.StandsIn.cons {a : BodyPart} {seen' : List Nat} (h : a.StandsIn m seen' rest)
    (hseen : ∀ i ∈ seen, i ∈ seen') : a.StandsIn m seen (x :: rest) := by
  cases a with
  | plain y => exact ⟨List.mem_cons_of_mem x h.1, h.2⟩
  | block i members =>
      obtain ⟨hmembers, hi, y, hy, hwritten⟩ := h
      exact ⟨hmembers, fun hmem => hi (hseen i hmem), y, List.mem_cons_of_mem x hy, hwritten⟩

/-- **What the pass puts down**, part by part. -/
theorem standsIn_of_mem_bodyParts {a : BodyPart} (ha : a ∈ bodyParts m seen rest) :
    a.StandsIn m seen rest := by
  fun_induction bodyParts m seen rest with
  | case1 => cases ha
  | case2 seen x rest hx ih =>
      rcases List.mem_cons.mp ha with rfl | hrest
      · exact ⟨List.mem_cons_self, hx⟩
      · exact (ih hrest).cons fun _ hi => hi
  | case3 seen x rest i hx hi ih => exact (ih ha).cons fun _ hj => hj
  | case4 seen x rest i hx hi ih =>
      rcases List.mem_cons.mp ha with rfl | hrest
      · exact ⟨rfl, hi, x, List.mem_cons_self, hx⟩
      · exact (ih hrest).cons fun j hj => List.mem_cons_of_mem i hj

/-- The pass writes no block of a oneof twice. -/
theorem nodup_oneof?_bodyParts : ((bodyParts m seen rest).filterMap (·.oneof?)).Nodup := by
  fun_induction bodyParts m seen rest with
  | case1 => exact List.nodup_nil
  | case2 seen x rest hx ih => simpa only [List.filterMap_cons, BodyPart.oneof?] using ih
  | case3 seen x rest i hx hi ih => exact ih
  | case4 seen x rest i hx hi ih =>
      simp only [List.filterMap_cons, BodyPart.oneof?, List.nodup_cons]
      refine ⟨fun hmem => ?_, ih⟩
      obtain ⟨a, ha, hai⟩ := List.mem_filterMap.mp hmem
      have hstands := standsIn_of_mem_bodyParts ha
      cases a with
      | plain y => cases hai
      | block j members =>
          cases hai
          exact hstands.2.1 List.mem_cons_self

/-- The pass puts each part down where its first field stands. -/
theorem ordered_bodyParts (h : m.Fresh seen rest) (hrest : rest.Pairwise fun x y => x.2 < y.2) :
    (bodyParts m seen rest).Pairwise BodyPart.Precedes := by
  -- whatever is put down later is ahead, and so are its fields
  have hlater : ∀ {seen : List Nat} {x : Field × Nat} {rest : List (Field × Nat)} {a : BodyPart},
      m.Fresh seen rest → (x :: rest).Pairwise (fun x y => x.2 < y.2) →
        a.entries.head? = some x → ∀ b ∈ bodyParts m seen rest, a.Precedes b := by
    intro seen x rest a hfresh hascends ha b hb y hy z hz
    rw [ha, Option.mem_some_iff] at hy
    have hzmem : z ∈ (bodyParts m seen rest).flatMap (·.entries) :=
      List.mem_flatMap.mpr ⟨b, hb, List.mem_of_mem_head? hz⟩
    have hzrest := List.mem_of_mem_filter ((flatMap_entries_bodyParts_perm hfresh).mem_iff.mp hzmem)
    rw [← hy]
    exact (List.pairwise_cons.mp hascends).1 z hzrest
  fun_induction bodyParts m seen rest with
  | case1 => exact List.Pairwise.nil
  | case2 seen x rest hx ih =>
      have htail : m.Fresh seen rest := h.tail (fun _ hi => hi) (by simp [hx])
      exact List.Pairwise.cons (hlater htail hrest rfl) (ih htail hrest.tail)
  | case3 seen x rest i hx hi ih =>
      exact ih (h.tail (fun _ hj => hj) (by simpa [hx] using hi)) hrest.tail
  | case4 seen x rest i hx hi ih =>
      have htail : m.Fresh (i :: seen) rest :=
        h.tail (fun j hj => List.mem_cons_of_mem i hj) (by simp [hx])
      exact List.Pairwise.cons (hlater htail hrest (h.head?_membersAt hi hx)) (ih htail hrest.tail)

end Pass

/-! ## The whole body -/

/-- The parts of the body of a message. -/
def Message.bodyParts (m : Message) : List BodyPart :=
  AliasErasure.bodyParts m [] m.fields.zipIdx

theorem Message.pairwise_positions (m : Message) :
    m.fields.zipIdx.Pairwise fun x y => x.2 < y.2 := by
  have hrange : (m.fields.zipIdx.map (·.2)).Pairwise (· < ·) := by
    rw [List.zipIdx_map_snd]
    exact List.pairwise_lt_range'
  exact List.pairwise_map.mp hrange

theorem Message.flatMap_entries_bodyParts_perm (m : Message) :
    (m.bodyParts.flatMap (·.entries)).Perm m.fields.zipIdx := by
  -- at the start, all fields are pending
  have hall : m.fields.zipIdx.filter (m.pending []) = m.fields.zipIdx := by
    apply List.filter_eq_self.mpr
    intro x _
    rw [Message.pending]
    cases writtenOneof? m x.1 <;> simp
  have hperm := AliasErasure.flatMap_entries_bodyParts_perm m.fresh_nil
  rwa [hall] at hperm

theorem Message.block_mem_bodyParts {m : Message} {i : Nat} {members : List (Field × Nat)}
    (h : .block i members ∈ m.bodyParts) :
    members = m.membersAt i ∧ m.WritesOneof i ∧ members ≠ [] := by
  obtain ⟨rfl, -, x, hx, hwritten⟩ := standsIn_of_mem_bodyParts h
  obtain ⟨hxi, hwrites⟩ := writtenOneof?_eq_some_iff.mp hwritten
  exact ⟨rfl, hwrites, List.ne_nil_of_mem (Message.mem_membersAt_iff.mpr ⟨hx, hxi⟩)⟩

/-- **The pass arranges the fields**, whatever the order in which they come. -/
theorem Message.bodyParts_arranged (m : Message) : m.ArrangedAs m.bodyParts := by
  constructor
  case once => exact m.flatMap_entries_bodyParts_perm
  case inBlock_iff =>
    intro x hx i
    constructor
    · rintro ⟨members, hi, hxm⟩
      obtain ⟨rfl, hwrites, -⟩ := Message.block_mem_bodyParts hi
      exact ⟨(Message.mem_membersAt_iff.mp hxm).2, hwrites⟩
    · rintro ⟨hxi, hwrites⟩
      -- `x` is written somewhere, and it could not be written elsewhere
      obtain ⟨a, ha, hxa⟩ :=
        List.mem_flatMap.mp (m.flatMap_entries_bodyParts_perm.mem_iff.mpr hx)
      cases a with
      | plain y =>
          have hnone := (standsIn_of_mem_bodyParts ha).2
          rw [← List.mem_singleton.mp hxa, writtenOneof?_eq_some_iff.mpr ⟨hxi, hwrites⟩] at hnone
          cases hnone
      | block j members =>
          obtain ⟨rfl, -, -⟩ := Message.block_mem_bodyParts ha
          obtain ⟨-, hxj⟩ := Message.mem_membersAt_iff.mp hxa
          obtain rfl : i = j := Option.some.inj (hxi.symm.trans hxj)
          exact ⟨_, ha, hxa⟩
  case distinct => exact nodup_oneof?_bodyParts
  case members =>
    intro i members hi
    obtain ⟨hmembers, -, hne⟩ := Message.block_mem_bodyParts hi
    exact ⟨hmembers, hne⟩
  case ordered => exact ordered_bodyParts m.fresh_nil m.pairwise_positions

/-! ## No other arrangement

An arrangement has the parts that it must have, and their order is that of their first fields. -/

section Unique

variable {m : Message} {parts others : List BodyPart}

theorem Message.ArrangedAs.block_mem_iff (h : m.ArrangedAs parts) {i : Nat}
    {members : List (Field × Nat)} : .block i members ∈ parts ↔
      members = m.membersAt i ∧ m.WritesOneof i ∧ members ≠ [] := by
  constructor
  · intro hi
    obtain ⟨rfl, hne⟩ := h.members i members hi
    obtain ⟨x, hx⟩ := List.exists_mem_of_ne_nil _ hne
    obtain ⟨hxm, -⟩ := Message.mem_membersAt_iff.mp hx
    exact ⟨rfl, ((h.inBlock_iff x hxm i).mp ⟨_, hi, hx⟩).2, hne⟩
  · rintro ⟨rfl, hwrites, hne⟩
    obtain ⟨x, hx⟩ := List.exists_mem_of_ne_nil _ hne
    obtain ⟨hxm, hxi⟩ := Message.mem_membersAt_iff.mp hx
    obtain ⟨members, hi, -⟩ := (h.inBlock_iff x hxm i).mpr ⟨hxi, hwrites⟩
    rwa [← (h.members i members hi).1]

theorem Message.ArrangedAs.nodup_entries (h : m.ArrangedAs parts) :
    (parts.flatMap (·.entries)).Nodup := by
  apply h.once.nodup_iff.mpr
  apply m.pairwise_positions.imp
  rintro x y hxy rfl
  exact Nat.lt_irrefl _ hxy

theorem Message.ArrangedAs.plain_mem_iff (h : m.ArrangedAs parts) {x : Field × Nat} :
    .plain x ∈ parts ↔ x ∈ m.fields.zipIdx ∧ writtenOneof? m x.1 = none := by
  have hmem : x ∈ m.fields.zipIdx ↔ ∃ a ∈ parts, x ∈ a.entries := by
    rw [← h.once.mem_iff, List.mem_flatMap]
  constructor
  · intro hx
    have hxm : x ∈ m.fields.zipIdx := hmem.mpr ⟨_, hx, List.mem_singleton_self x⟩
    refine ⟨hxm, Option.eq_none_iff_forall_ne_some.mpr fun i hi => ?_⟩
    obtain ⟨members, hblock, hxb⟩ :=
      (h.inBlock_iff x hxm i).mpr (writtenOneof?_eq_some_iff.mp hi)
    -- no field is written by two parts
    cases eq_of_nodup_flatMap h.nodup_entries hx hblock (List.mem_singleton_self x) hxb
  · rintro ⟨hxm, hnone⟩
    obtain ⟨a, ha, hxa⟩ := hmem.mp hxm
    cases a with
    | plain y =>
        rw [List.mem_singleton.mp hxa]
        exact ha
    | block i members =>
        have hi := writtenOneof?_eq_some_iff.mpr ((h.inBlock_iff x hxm i).mp ⟨members, ha, hxa⟩)
        rw [hnone] at hi
        cases hi

/-- A part has a first field. -/
theorem Message.ArrangedAs.exists_head (h : m.ArrangedAs parts) {a : BodyPart} (ha : a ∈ parts) :
    ∃ x, a.entries.head? = some x := by
  cases a with
  | plain x => exact ⟨x, rfl⟩
  | block i members => exact ⟨_, List.head?_eq_some_head (h.members i members ha).2⟩

theorem Message.ArrangedAs.not_precedes (h : m.ArrangedAs parts) {a b : BodyPart}
    (ha : a ∈ parts) (hb : b ∈ others) (h' : m.ArrangedAs others) (hab : a.Precedes b) :
    ¬ b.Precedes a := by
  intro hba
  obtain ⟨x, hx⟩ := h.exists_head ha
  obtain ⟨y, hy⟩ := h'.exists_head hb
  have hxy : x.2 < y.2 := hab x hx y hy
  have hyx : y.2 < x.2 := hba y hy x hx
  omega

theorem Message.ArrangedAs.nodup (h : m.ArrangedAs parts) : parts.Nodup := by
  apply h.ordered.imp_of_mem
  rintro a b ha hb hab rfl
  exact h.not_precedes ha hb h hab hab

/-- **There is one arrangement of the fields of a message.** -/
theorem Message.ArrangedAs.unique (h : m.ArrangedAs parts) (h' : m.ArrangedAs others) :
    parts = others := by
  have hmem : ∀ a, a ∈ parts ↔ a ∈ others := by
    intro a
    cases a with
    | plain x => rw [h.plain_mem_iff, h'.plain_mem_iff]
    | block i members => rw [h.block_mem_iff, h'.block_mem_iff]
  have hperm : parts.Perm others := (List.perm_ext_iff_of_nodup h.nodup h'.nodup).mpr hmem
  refine hperm.eq_of_pairwise ?_ h.ordered h'.ordered
  intro a b ha hb hab hba
  exact absurd hba (h.not_precedes ha hb h' hab)

end Unique

/-! ## The lines of a message -/

section Lines

variable (dialect : Dialect) (level : Nat)

/-- Without positions, the pass is the one that writes the items of the body. -/
theorem flatMap_bodyItemLines (m : Message) (seen : List Nat) (rest : List (Field × Nat)) :
    (bodyItems m seen (rest.map (·.1))).flatMap (bodyItemLines dialect level m)
      = (bodyParts m seen rest).flatMap (·.lines dialect level m) := by
  -- the members of a oneof are those of the block, and so are their lines
  have hmembers : ∀ i, oneofMembers m i = (m.membersAt i).map (·.1) := by
    intro i
    calc oneofMembers m i
      _ = (m.fields.zipIdx.map (·.1)).filter fun f => f.oneof == some i := by
          rw [List.zipIdx_map_fst, oneofMembers]
      _ = (m.membersAt i).map (·.1) := List.filter_map ..
  fun_induction bodyParts m seen rest with
  | case1 => rfl
  | case2 seen x rest hx ih =>
      rw [List.map_cons, bodyItems, hx]
      exact congrArg (fieldLines dialect level m x.1 ++ ·) ih
  | case3 seen x rest i hx hi ih =>
      rw [List.map_cons, bodyItems, hx]
      simpa only [if_pos hi] using ih
  | case4 seen x rest i hx hi ih =>
      have hblock : bodyItemLines dialect level m (.oneof i)
          = (BodyPart.block i (m.membersAt i)).lines dialect level m := by
        simp only [bodyItemLines, oneofLines, BodyPart.lines, hmembers, List.flatMap_map]
      rw [List.map_cons, bodyItems, hx]
      simp only [if_neg hi, List.flatMap_cons, hblock, ih]

/-- The lines of the parts are the lines of the items. -/
theorem Message.flatMap_bodyParts_lines (m : Message) :
    m.bodyParts.flatMap (·.lines dialect level m)
      = (bodyItems m [] m.fields).flatMap (bodyItemLines dialect level m) := by
  have hpass := flatMap_bodyItemLines dialect level m [] m.fields.zipIdx
  rw [List.zipIdx_map_fst] at hpass
  exact hpass.symm

/-- Nested messages are written one after the other, except for the entries of maps. -/
theorem nestedLines_eq (ms : List Message) :
    nestedLines dialect level ms
      = (ms.filter fun x => !x.mapEntry).flatMap (messageLines dialect level) := by
  induction ms with
  | nil => simp [nestedLines]
  | cons x rest ih =>
      rw [nestedLines, ih]
      by_cases hx : x.mapEntry = true
      · simp [hx]
      · simp [hx]

/-- The nested messages that are written, each with its lines. -/
def Message.nestedWithLines (m : Message) : List (Message × List Line) :=
  (m.nested.filter fun x => !x.mapEntry).map fun x => (x, messageLines dialect level x)

theorem Message.map_fst_nestedWithLines (m : Message) :
    (m.nestedWithLines dialect level).map (·.1) = m.nested.filter fun x => !x.mapEntry := by
  rw [Message.nestedWithLines, List.map_map]
  exact List.map_id _

theorem Message.flatMap_nestedWithLines (m : Message) :
    (m.nestedWithLines dialect level).flatMap (·.2) = nestedLines dialect level m.nested := by
  rw [Message.nestedWithLines, List.flatMap_map, nestedLines_eq]

end Lines

/-- How a message is written: between the lines that open and close it stand the messages and the
enums that are nested in it, then the fields, arranged in parts. -/
inductive Message.Written (dialect : Dialect) : Nat → Message → List Line → Prop where
  | intro {level : Nat} {m : Message} {inner : List (Message × List Line)} {parts : List BodyPart}
      (nested : inner.map (·.1) = m.nested.filter fun x => !x.mapEntry)
      (deeper : ∀ x ∈ inner, Message.Written dialect (level + 1) x.1 x.2)
      (body : m.ArrangedAs parts) :
      Message.Written dialect level m
        (commentLines level m.comments ++ .code level ("message " ++ m.name ++ " \x7b") ::
          inner.flatMap (·.2) ++
          m.enums.flatMap (enumLines (level + 1)) ++
          parts.flatMap (·.lines dialect (level + 1) m) ++
          closingLines level)

/-- What is written as described is what the printer writes, since the fields have no other
arrangement. -/
theorem Message.Written.eq_messageLines {dialect : Dialect} {level : Nat} {m : Message}
    {lines : List Line} (h : m.Written dialect level lines) :
    lines = messageLines dialect level m := by
  induction h with
  | @intro level m inner parts nested deeper body ih =>
      have hnested : inner.flatMap (·.2) = nestedLines dialect (level + 1) m.nested :=
        calc inner.flatMap (·.2)
          _ = inner.flatMap fun x => messageLines dialect (level + 1) x.1 :=
              List.flatMap_congr ih
          _ = (inner.map (·.1)).flatMap (messageLines dialect (level + 1)) :=
              (List.flatMap_map ..).symm
          _ = nestedLines dialect (level + 1) m.nested := by rw [nested, nestedLines_eq]
      rw [messageLines_eq, hnested, body.unique m.bodyParts_arranged, m.flatMap_bodyParts_lines]

/-- The printer writes a message as described. -/
theorem Message.written_messageLines (dialect : Dialect) (level : Nat) (m : Message) :
    m.Written dialect level (messageLines dialect level m) := by
  induction m using Message.nestedInduction generalizing level with
  | step m ih =>
      have hdeeper : ∀ y ∈ m.nestedWithLines dialect (level + 1),
          y.1.Written dialect (level + 1) y.2 := by
        intro y hy
        obtain ⟨x, hx, rfl⟩ := List.mem_map.mp hy
        exact ih x (List.mem_of_mem_filter hx) (level + 1)
      rw [messageLines_eq, ← m.flatMap_nestedWithLines, ← m.flatMap_bodyParts_lines]
      exact .intro (m.map_fst_nestedWithLines dialect (level + 1)) hdeeper m.bodyParts_arranged

/-- **Every field of a message is written exactly once**, on its own or in the block of its oneof,
and so it is for all messages nested in it. The printer writes this and nothing else. -/
theorem written_iff_eq_messageLines (dialect : Dialect) (level : Nat) (m : Message)
    (lines : List Line) :
    m.Written dialect level lines ↔ lines = messageLines dialect level m := by
  constructor
  · exact Message.Written.eq_messageLines
  · rintro rfl
    exact m.written_messageLines dialect level

end AliasErasure
