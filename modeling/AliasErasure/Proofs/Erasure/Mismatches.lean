import AliasErasure.Proofs.Erasure.Oneofs
import Mathlib.Data.Nat.Find

set_option autoImplicit false

/-! # What keeps a file from being resolved

A file and its descriptor are made to correspond by position, and resolving only looks at the
positions that it has to change. So there are few ways in which it can fail: the messages are not
equally many; a message that stays has another name than its descriptor; a field that refers to an
alias has no counterpart of its name; or a field leaves a oneof and the oneofs are not equally
many (`File.Uneven`, `Schema.Offends`).

When several of these hold, `Schema.Reports` says which of them is reported, and in what words.
Both searches, for a message and for a field of it, stop at the first position at fault
(`findSome?_zipIdx_eq_some_iff`); so resolving fails exactly in these ways and reports exactly this
(`Schema.resolve_fails_iff`).
-/

namespace AliasErasure

open Descriptor (MessageProto)

/-! ## Ways to fail -/

/-- Messages and descriptors are not equally many. -/
def File.Uneven (f : File) : Prop := f.messages.length ≠ f.proto.messageType.length

/-- The field at position `j` refers to an alias, and the descriptor has no field there or one of
another name. -/
def Schema.LacksField (s : Schema) (m : Message) (raw : MessageProto) (j : Nat) : Prop :=
  ∃ x, m.fields[j]? = some x ∧ s.refersToAlias x = true ∧
    ∀ r, raw.field[j]? = some r → r.name.getD "" ≠ x.name

/-- A field that refers to an alias stands in a oneof, and oneofs and their descriptors are not
equally many. -/
def Schema.MiscountsOneofs (s : Schema) (m : Message) (raw : MessageProto) : Prop :=
  (∃ x ∈ m.fields, s.refersToAlias x = true ∧ x.oneof.isSome = true) ∧
    m.oneofs.length ≠ raw.oneofDecl.length

/-- A message and its descriptor do not correspond where this matters. -/
def Schema.Offends (s : Schema) (m : Message) (raw : MessageProto) : Prop :=
  raw.name.getD "" ≠ m.name ∨ (∃ j, s.LacksField m raw j) ∨ s.MiscountsOneofs m raw

/-- At position `i` stands a message that cannot be erased and does not correspond to its
descriptor. -/
def Schema.OffendsAt (s : Schema) (f : File) (i : Nat) (m : Message) (raw : MessageProto) : Prop :=
  f.messages[i]? = some m ∧ f.proto.messageType[i]? = some raw ∧ m.isErasable = false ∧
    s.Offends m raw

/-! ## What is reported -/

/-- What is said about the field that the descriptor has, or lacks, at position `j`. -/
def Descriptor.MessageProto.fieldDetails (raw : MessageProto) (j : Nat) : String :=
  match raw.field[j]? with
  | some r => "raw field is named '" ++ r.name.getD "" ++ "'"
  | none => s!"raw message has {raw.field.length} field(s)"

/-- The mismatch reported about the message `m` at position `i`: the name comes first, then the
first field, then the oneofs. -/
inductive Schema.MessageReports (s : Schema) (file : String) (m : Message) (i : Nat)
    (raw : MessageProto) : Mismatch → Prop
  | name (h : raw.name.getD "" ≠ m.name) :
      s.MessageReports file m i raw
        ⟨file, (m.name, i), none, "raw message is named '" ++ raw.name.getD "" ++ "'"⟩
  | field {j : Nat} {x : Field} (named : raw.name.getD "" = m.name) (h : s.LacksField m raw j)
      (first : ∀ k < j, ¬ s.LacksField m raw k) (hx : m.fields[j]? = some x) :
      s.MessageReports file m i raw
        ⟨file, (m.name, i), some (x.name, j), raw.fieldDetails j⟩
  | oneofs (named : raw.name.getD "" = m.name) (matched : ∀ j, ¬ s.LacksField m raw j)
      (h : s.MiscountsOneofs m raw) :
      s.MessageReports file m i raw
        ⟨file, (m.name, i), none,
          s!"{m.oneofs.length} semantic oneofs but {raw.oneofDecl.length} raw oneofs"⟩

/-- The mismatch reported about a file: the number of messages comes first, then the first message
that offends. -/
inductive Schema.Reports (s : Schema) (f : File) : Mismatch → Prop
  | count (h : f.Uneven) :
      s.Reports f (messageCountMismatch f.name f.messages.length f.proto.messageType.length)
  | message {i : Nat} {m : Message} {raw : MessageProto} {mismatch : Mismatch}
      (even : ¬ f.Uneven) (h : s.OffendsAt f i m raw)
      (first : ∀ k < i, ∀ x r, ¬ s.OffendsAt f k x r)
      (report : s.MessageReports f.name m i raw mismatch) : s.Reports f mismatch

theorem Schema.Reports.file {s : Schema} {f : File} {mismatch : Mismatch}
    (h : s.Reports f mismatch) : mismatch.file = f.name := by
  cases h with
  | count => rfl
  | message _ _ _ report => cases report <;> rfl

/-! ## Searching by position -/

/-- The first element of a list, searched along with the positions from `n` on, for which `g` has
a result. -/
theorem findSome?_zipIdx_eq_some_iff {α β : Type} {g : α × Nat → Option β} {b : β} (l : List α) :
    ∀ n, (l.zipIdx n).findSome? g = some b ↔
      ∃ j a, l[j]? = some a ∧ g (a, n + j) = some b ∧
        ∀ k < j, ∀ x, l[k]? = some x → g (x, n + k) = none := by
  induction l with
  | nil => simp
  | cons a rest ih =>
      intro n
      rw [List.zipIdx_cons, List.findSome?_cons]
      cases hg : g (a, n) with
      | some b' =>
          constructor
          · rintro h
            exact ⟨0, a, rfl, hg.trans h, fun k hk => absurd hk (Nat.not_lt_zero k)⟩
          · rintro ⟨j, x, hx, hb, hbefore⟩
            cases j with
            | zero =>
                cases hx
                exact hg.symm.trans hb
            | succ j =>
                have hnone := hbefore 0 (Nat.succ_pos j) a rfl
                rw [Nat.add_zero, hg] at hnone
                cases hnone
      | none =>
          -- nothing at `n`, so positions are counted from the next one on
          have hshift : ∀ k, n + (k + 1) = n + 1 + k := fun k => by omega
          simp only [ih (n + 1)]
          constructor
          · rintro ⟨j, x, hx, hb, hbefore⟩
            refine ⟨j + 1, x, hx, by rwa [hshift], fun k hk y hy => ?_⟩
            cases k with
            | zero =>
                cases hy
                exact hg
            | succ k => rw [hshift]; exact hbefore k (by omega) y hy
          · rintro ⟨j, x, hx, hb, hbefore⟩
            cases j with
            | zero =>
                cases hx
                rw [Nat.add_zero, hg] at hb
                cases hb
            | succ j =>
                refine ⟨j, x, hx, by rwa [← hshift], fun k hk y hy => ?_⟩
                rw [← hshift]
                exact hbefore (k + 1) (by omega) y hy

/-- A search along with the positions finds nothing if `g` has no result anywhere. -/
theorem findSome?_zipIdx_eq_none_iff {α β : Type} {g : α × Nat → Option β} {l : List α} :
    l.zipIdx.findSome? g = none ↔ ∀ j a, l[j]? = some a → g (a, j) = none := by
  rw [List.findSome?_eq_none_iff]
  constructor
  · intro h j a ha
    exact h (a, j) (List.mem_zipIdx_iff_getElem?.mpr ha)
  · rintro h ⟨a, j⟩ hmem
    exact h j a (List.mem_zipIdx_iff_getElem?.mp hmem)

/-! ## Fields -/

section Message

variable {s : Schema} {file : String} {m : Message} {i : Nat} {raw : MessageProto}

/-- Resolving finds fault with a field exactly if the descriptor lacks it. -/
theorem Schema.fieldMismatch?_eq_some_iff {x : Field} {j : Nat} (hx : m.fields[j]? = some x)
    {mismatch : Mismatch} :
    s.fieldMismatch? file m i raw x j = some mismatch ↔
      s.LacksField m raw j ∧
        mismatch = ⟨file, (m.name, i), some (x.name, j), raw.fieldDetails j⟩ := by
  have hlacks : s.LacksField m raw j ↔ s.refersToAlias x = true ∧
      ∀ r, raw.field[j]? = some r → r.name.getD "" ≠ x.name := by
    simp [Schema.LacksField, hx]
  rw [Schema.fieldMismatch?, hlacks, MessageProto.fieldDetails]
  cases s.refersToAlias x with
  | false => simp
  | true =>
      cases raw.field[j]? with
      | none => simp [eq_comm]
      | some r =>
          by_cases hname : r.name.getD "" = x.name
          · simp [hname]
          · simp only [hname, if_true, if_false, Option.some.injEq, forall_eq', ne_eq,
              not_false_eq_true, true_and]
            exact eq_comm

theorem Schema.fieldMismatch?_eq_none_iff {x : Field} {j : Nat} (hx : m.fields[j]? = some x) :
    s.fieldMismatch? file m i raw x j = none ↔ ¬ s.LacksField m raw j := by
  rw [Option.eq_none_iff_forall_ne_some]
  constructor
  · intro h hlacks
    exact h _ ((Schema.fieldMismatch?_eq_some_iff hx).mpr ⟨hlacks, rfl⟩)
  · intro h mismatch heq
    exact h ((Schema.fieldMismatch?_eq_some_iff hx).mp heq).1

/-- A field that is lacking is one of the message. -/
theorem Schema.LacksField.exists_field {j : Nat} (h : s.LacksField m raw j) :
    ∃ x, m.fields[j]? = some x := by
  obtain ⟨x, hx, -⟩ := h
  exact ⟨x, hx⟩

/-- The search for a field at fault. -/
theorem Schema.findSome?_fieldMismatch?_eq_some_iff {mismatch : Mismatch} :
    (m.fields.zipIdx.findSome? fun (x, j) => s.fieldMismatch? file m i raw x j) = some mismatch ↔
      ∃ j x, s.LacksField m raw j ∧ (∀ k < j, ¬ s.LacksField m raw k) ∧ m.fields[j]? = some x ∧
        mismatch = ⟨file, (m.name, i), some (x.name, j), raw.fieldDetails j⟩ := by
  rw [findSome?_zipIdx_eq_some_iff]
  simp only [Nat.zero_add]
  constructor
  · rintro ⟨j, x, hx, hfound, hbefore⟩
    obtain ⟨hlacks, hmismatch⟩ := (Schema.fieldMismatch?_eq_some_iff hx).mp hfound
    refine ⟨j, x, hlacks, fun k hk hlacks' => ?_, hx, hmismatch⟩
    obtain ⟨y, hy⟩ := hlacks'.exists_field
    exact (Schema.fieldMismatch?_eq_none_iff hy).mp (hbefore k hk y hy) hlacks'
  · rintro ⟨j, x, hlacks, hfirst, hx, hmismatch⟩
    refine ⟨j, x, hx, (Schema.fieldMismatch?_eq_some_iff hx).mpr ⟨hlacks, hmismatch⟩, ?_⟩
    intro k hk y hy
    exact (Schema.fieldMismatch?_eq_none_iff hy).mpr (hfirst k hk)

theorem Schema.findSome?_fieldMismatch?_eq_none_iff :
    (m.fields.zipIdx.findSome? fun (x, j) => s.fieldMismatch? file m i raw x j) = none ↔
      ∀ j, ¬ s.LacksField m raw j := by
  rw [findSome?_zipIdx_eq_none_iff]
  constructor
  · intro h j hlacks
    obtain ⟨x, hx⟩ := hlacks.exists_field
    exact (Schema.fieldMismatch?_eq_none_iff hx).mp (h j x hx) hlacks
  · intro h j x hx
    exact (Schema.fieldMismatch?_eq_none_iff hx).mpr (h j)

/-! ## Messages -/

theorem Schema.miscountsOneofs_iff :
    s.MiscountsOneofs m raw ↔
      s.emptiesOneofs m = true ∧ raw.oneofDecl.length ≠ m.oneofs.length := by
  rw [Schema.MiscountsOneofs, Schema.emptiesOneofs_iff, ne_comm]

/-- **What is reported about a message** is the first of its faults. -/
theorem Schema.messageMismatch?_eq_some_iff {mismatch : Mismatch} :
    s.messageMismatch? file m i raw = some mismatch ↔
      s.MessageReports file m i raw mismatch := by
  rw [Schema.messageMismatch?]
  by_cases hname : raw.name.getD "" = m.name
  · rw [if_neg (not_not.mpr hname)]
    cases hsearch : m.fields.zipIdx.findSome? fun (x, j) => s.fieldMismatch? file m i raw x j with
    | some found =>
        obtain ⟨j, x, hlacks, hfirst, hx, hfound⟩ :=
          Schema.findSome?_fieldMismatch?_eq_some_iff.mp hsearch
        constructor
        · intro h
          cases h
          rw [hfound]
          exact Schema.MessageReports.field hname hlacks hfirst hx
        · intro h
          cases h with
          | name h => exact absurd hname h
          | field _ hlacks' hfirst' hx' =>
              -- the search has one result only
              exact hsearch.symm.trans (Schema.findSome?_fieldMismatch?_eq_some_iff.mpr
                ⟨_, _, hlacks', hfirst', hx', rfl⟩)
          | oneofs _ hmatched => exact absurd hlacks (hmatched j)
    | none =>
        have hmatched := Schema.findSome?_fieldMismatch?_eq_none_iff.mp hsearch
        constructor
        · intro h
          dsimp only at h
          split at h
          next hcounts =>
            cases h
            exact Schema.MessageReports.oneofs hname hmatched
              (Schema.miscountsOneofs_iff.mpr hcounts)
          next => cases h
        · intro h
          cases h with
          | name h => exact absurd hname h
          | field _ hlacks => exact absurd hlacks (hmatched _)
          | oneofs _ _ hcounts => exact if_pos (Schema.miscountsOneofs_iff.mp hcounts)
  · rw [if_pos hname]
    constructor
    · intro h
      cases h
      exact Schema.MessageReports.name hname
    · intro h
      cases h with
      | name => rfl
      | field hnamed => exact absurd hnamed hname
      | oneofs hnamed => exact absurd hnamed hname

/-- Something is reported about a message exactly if it offends. -/
theorem Schema.offends_iff (file : String) (i : Nat) :
    s.Offends m raw ↔ ∃ mismatch, s.MessageReports file m i raw mismatch := by
  constructor
  · intro h
    by_cases hname : raw.name.getD "" = m.name
    · by_cases hlacks : ∃ j, s.LacksField m raw j
      · classical
        obtain ⟨x, hx⟩ := (Nat.find_spec hlacks).exists_field
        exact ⟨_, Schema.MessageReports.field hname (Nat.find_spec hlacks)
          (fun k hk => Nat.find_min hlacks hk) hx⟩
      · rcases h with h | h | h
        · exact absurd hname h
        · exact absurd h hlacks
        · exact ⟨_, Schema.MessageReports.oneofs hname (not_exists.mp hlacks) h⟩
    · exact ⟨_, Schema.MessageReports.name hname⟩
  · rintro ⟨mismatch, h⟩
    cases h with
    | name h => exact Or.inl h
    | field _ h => exact Or.inr (Or.inl ⟨_, h⟩)
    | oneofs _ _ h => exact Or.inr (Or.inr h)

end Message

/-! ## Files -/

section File

variable {s : Schema} {f : File}

/-- A pair of a message and its descriptor offends, in terms of the pairs of a file. -/
theorem Schema.pairMismatch?_eq_some_iff {m : Message} {raw : MessageProto} {i : Nat}
    {mismatch : Mismatch} :
    s.pairMismatch? f.name ((m, raw), i) = some mismatch ↔
      m.isErasable = false ∧ s.MessageReports f.name m i raw mismatch := by
  rw [Schema.pairMismatch?]
  cases m.isErasable with
  | true => simp
  | false => simp [Schema.messageMismatch?_eq_some_iff]

/-- The pair at position `i` is found faulty exactly if the message there offends. -/
theorem Schema.offendsAt_iff {i : Nat} {m : Message} {raw : MessageProto} :
    s.OffendsAt f i m raw ↔
      (f.messages.zip f.proto.messageType)[i]? = some (m, raw) ∧
        s.pairMismatch? f.name ((m, raw), i) ≠ none := by
  rw [Option.ne_none_iff_exists', Schema.OffendsAt, List.getElem?_zip_eq_some, and_assoc]
  simp only [Schema.pairMismatch?_eq_some_iff, exists_and_left,
    Schema.offends_iff f.name i]

/-- **What is reported about a file.** -/
theorem Schema.mismatch?_eq_some_iff {mismatch : Mismatch} :
    s.mismatch? f = some mismatch ↔ s.Reports f mismatch := by
  rw [Schema.mismatch?]
  by_cases huneven : f.Uneven
  · rw [if_pos (show f.messages.length ≠ f.proto.messageType.length from huneven)]
    constructor
    · intro h
      cases h
      exact Schema.Reports.count huneven
    · intro h
      cases h with
      | count => rfl
      | message heven => exact absurd huneven heven
  · rw [if_neg (show ¬ f.messages.length ≠ f.proto.messageType.length from huneven), File.pairs,
      findSome?_zipIdx_eq_some_iff]
    constructor
    · rintro ⟨i, ⟨m, raw⟩, hpair, hfound, hbefore⟩
      rw [Nat.zero_add] at hfound
      refine Schema.Reports.message huneven
        (Schema.offendsAt_iff.mpr ⟨hpair, by rw [hfound]; exact Option.some_ne_none _⟩) ?_
        (Schema.pairMismatch?_eq_some_iff.mp hfound).2
      intro k hk x r hoffends
      obtain ⟨hpair', hne⟩ := Schema.offendsAt_iff.mp hoffends
      refine hne ?_
      have hnone := hbefore k hk (x, r) hpair'
      rwa [Nat.zero_add] at hnone
    · intro h
      cases h with
      | count h => exact absurd h huneven
      | @message i m raw _ _ hoffends hfirst hreport =>
          obtain ⟨hpair, -⟩ := Schema.offendsAt_iff.mp hoffends
          refine ⟨i, (m, raw), hpair, ?_, fun k hk p hp => ?_⟩
          · rw [Nat.zero_add]
            exact Schema.pairMismatch?_eq_some_iff.mpr ⟨hoffends.2.2.1, hreport⟩
          · rw [Nat.zero_add]
            by_contra hne
            exact hfirst k hk p.1 p.2 (Schema.offendsAt_iff.mpr ⟨hp, hne⟩)

/-- Something is reported about a file exactly if its messages are not equally many or one of them
offends. -/
theorem Schema.exists_reports_iff :
    (∃ mismatch, s.Reports f mismatch) ↔ f.Uneven ∨ ∃ i m raw, s.OffendsAt f i m raw := by
  constructor
  · rintro ⟨mismatch, h⟩
    cases h with
    | count h => exact Or.inl h
    | message _ h => exact Or.inr ⟨_, _, _, h⟩
  · intro h
    by_cases huneven : f.Uneven
    · exact ⟨_, Schema.Reports.count huneven⟩
    · have hsome := h.resolve_left huneven
      classical
      obtain ⟨m, raw, hoffends⟩ := Nat.find_spec hsome
      obtain ⟨mismatch, hreport⟩ := (Schema.offends_iff f.name _).mp hoffends.2.2.2
      refine ⟨mismatch, Schema.Reports.message huneven hoffends ?_ hreport⟩
      intro k hk x r hoffends'
      exact Nat.find_min hsome hk ⟨x, r, hoffends'⟩

end File

/-- **When resolving fails, and how.** Under any schema, a file fails to be resolved exactly if its
messages and descriptors are not equally many, or a message that cannot be erased has a descriptor
of another name, has a field that refers to an alias and has no counterpart, or loses a member of a
oneof while oneofs are not equally many. The error is a mismatch that names the file, and reports
the number of messages if that is wrong, and otherwise the first message at fault: its name, else
the first of its fields at fault, else its oneofs. -/
theorem Schema.resolve_fails_iff (s : Schema) (f : File) :
    ((∃ e, s.resolve f = .error e) ↔ f.Uneven ∨ ∃ i m raw, s.OffendsAt f i m raw) ∧
      ∀ e, s.resolve f = .error e ↔
        ∃ mismatch, e = .mismatch mismatch ∧ mismatch.file = f.name ∧ s.Reports f mismatch := by
  have herror : ∀ e, s.resolve f = .error e ↔
      ∃ mismatch, e = .mismatch mismatch ∧ mismatch.file = f.name ∧ s.Reports f mismatch := by
    intro e
    rw [Schema.resolve]
    constructor
    · intro h
      split at h
      next mismatch hmismatch =>
        have hreports := Schema.mismatch?_eq_some_iff.mp hmismatch
        cases h
        exact ⟨mismatch, rfl, hreports.file, hreports⟩
      next => cases h
    · rintro ⟨mismatch, rfl, -, hreports⟩
      rw [Schema.mismatch?_eq_some_iff.mpr hreports]
  refine ⟨?_, herror⟩
  rw [← Schema.exists_reports_iff]
  constructor
  · rintro ⟨e, he⟩
    obtain ⟨mismatch, -, -, hreports⟩ := (herror e).mp he
    exact ⟨mismatch, hreports⟩
  · rintro ⟨mismatch, hreports⟩
    exact ⟨_, (herror _).mpr ⟨mismatch, rfl, hreports.file, hreports⟩⟩

end AliasErasure
