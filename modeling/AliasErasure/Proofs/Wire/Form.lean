import AliasErasure.Proofs.Wire.Fits
import AliasErasure.Wire.Form

set_option autoImplicit false

/-! # Forms read what they write

A value is read back from its record by the form that wrote it (`Fields.read_write`), and its record
fits the message type if what is inside it fits one level below (`Fields.fits_write_iff`). What has
been read from a record that fits is written as one that fits, too (`Fields.fits_rewrite`).

All of this comes down to the parts of a form. A part does not depend on where it stands, since the
fields have different numbers and each part looks at the occurrences of its own field only. So every
kind of part is dealt with once, and a form has the two properties (`Layout.Codes`) if the
sub-messages in it have them.
-/

namespace AliasErasure.Wire

variable {M S α β : Type}

/-! ## The occurrences of a field -/

namespace Record

theorem all_append (a b : Record) (k : Nat) : (a ++ b).all k = a.all k ++ b.all k :=
  List.filterMap_append

theorem all_cons (n : Nat) (v : Value) (r : Record) (k : Nat) :
    all ((n, v) :: r) k = if n = k then v :: r.all k else r.all k := by
  by_cases h : n = k
  · simp [all, h]
  · simp [all, h]

theorem all_occurrences (n : Nat) (vs : List Value) : all (occurrences n vs) n = vs := by
  simp [all, occurrences, List.filterMap_map]

theorem all_occurrences_of_ne {n k : Nat} (h : n ≠ k) (vs : List Value) :
    all (occurrences n vs) k = [] := by
  simp [all, occurrences, List.filterMap_map, h]

theorem mem_all_iff {r : Record} {n : Nat} {v : Value} : v ∈ r.all n ↔ (n, v) ∈ r := by
  simp [all, List.mem_filterMap]

end Record

/-! ## Content that is read back -/

theorem Scalar.content?_wrap (s : Scalar α) (a : α) : s.content? (s.wrap a) = some a := by
  cases s <;> rfl

theorem Scalar.filterMap_content?_wrap (s : Scalar α) (as : List α) :
    (as.map s.wrap).filterMap s.content? = as := by
  rw [List.filterMap_map]
  exact (List.filterMap_congr fun a _ => s.content?_wrap a).trans List.filterMap_some

namespace Part

/-- The content is read back from the occurrences that are written for it. -/
def ReadsBack (p : Part M α) (a : α) : Prop :=
  ∀ n, p.read (.occurrences n (p.write a)) n = a

theorem readsBack_one (s : Scalar α) (a? : Option α) :
    (one s : Part M _).ReadsBack a? := by
  intro n
  simp only [one, Record.last?, Record.all_occurrences, s.filterMap_content?_wrap]
  cases a? <;> rfl

theorem readsBack_required (s : Scalar α) (default a : α) :
    (required s default : Part M _).ReadsBack a := by
  intro n
  simp [required, Record.last?, Record.all_occurrences, s.content?_wrap]

theorem readsBack_many (s : Scalar α) (as : List α) :
    (many s : Part M _).ReadsBack as := by
  intro n
  simp only [many, Record.list, Record.all_occurrences, s.filterMap_content?_wrap]

theorem readsBack_unpacked (ns : List Int32) : (unpacked : Part M _).ReadsBack ns := by
  intro n
  simp [unpacked, Record.int32s, Record.all_occurrences, List.flatMap_map, Value.int32sOf]

theorem readsBack_packed (ns : List Int32) : (packed : Part M _).ReadsBack ns := by
  intro n
  cases ns <;> simp [packed, Record.int32s, Record.all_occurrences, Value.int32sOf]

section Messages

variable {m : M} {toRecord : α → Record} {ofRecord : Record → α}

theorem readsBack_subOf {a? : Option α} (h : ∀ a ∈ a?, ofRecord (toRecord a) = a) :
    (subOf m toRecord ofRecord).ReadsBack a? := by
  intro n
  cases a? with
  | none => simp [subOf, Record.merged?, Record.all_occurrences]
  | some a => simp [subOf, Record.merged?, Record.all_occurrences, Value.asRecord?, h a rfl]

theorem readsBack_subsOf {as : List α} (h : ∀ a ∈ as, ofRecord (toRecord a) = a) :
    (subsOf m toRecord ofRecord).ReadsBack as := by
  intro n
  simp only [subsOf, Record.list, Record.all_occurrences, List.filterMap_map]
  have hrecords : as.filterMap (Value.asRecord? ∘ fun a => .record (toRecord a))
      = as.map toRecord := congrFun List.filterMap_eq_map as
  rw [hrecords, List.map_map]
  exact (List.map_congr_left h).trans (List.map_id as)

end Messages

end Part

/-! ## Content that fits -/

theorem Scalar.suits_wrap {inner : M → Record → Prop} {s : Scalar α} {f : FieldLayout M}
    (hf : f.type = .scalar s.type) (a : α) : (s.wrap a).Suits inner f := by
  cases s <;> exact hf

theorem Record.mem_list_asRecord?_iff {r : Record} {n : Nat} {r' : Record} :
    r' ∈ r.list n Value.asRecord? ↔ .record r' ∈ r.all n := by
  rw [list, List.mem_filterMap]
  constructor
  · rintro ⟨v, hv, hr⟩
    cases v <;> cases hr
    exact hv
  · intro hr
    exact ⟨_, hr, rfl⟩

theorem Record.merged?_eq_some_iff {r : Record} {n : Nat} {r' : Record} :
    r.merged? n = some r' ↔
      r.list n Value.asRecord? ≠ [] ∧ r' = (r.list n Value.asRecord?).flatten := by
  rw [merged?, list]
  cases (r.all n).filterMap Value.asRecord? with
  | nil => simp
  | cons first others => simp [eq_comm]

theorem Value.suits_record_iff {inner : M → Record → Prop} {m : M} {f : FieldLayout M}
    (hf : f.type = .message m) {r : Record} : (record r).Suits inner f ↔ inner m r := by
  constructor
  · rintro ⟨m', hm', hr⟩
    obtain rfl := FieldType.message.inj (hf.symm.trans hm')
    exact hr
  · exact fun hr => ⟨m, hf, hr⟩

/-- Only the type of a field counts for the values that suit it, and whether it is repeated. -/
theorem Value.Suits.congr {inner : M → Record → Prop} {f f' : FieldLayout M} {v : Value}
    (h : v.Suits inner f) (htype : f.type = f'.type) (hrepeated : f.repeated = f'.repeated) :
    v.Suits inner f' := by
  cases v <;> simpa only [Suits, htype, hrepeated] using h

namespace Part

variable [DecidableEq M] {L : Layout M} {levels : Nat}

theorem suits_iff {p : Part M α} {f : FieldLayout M} :
    p.suits f = true ↔ f.type = p.type ∧ f.repeated = p.isRepeated := by
  simp [suits]

/-- Every value that is written for the content suits the fields that the part is one for, where
sub-messages take up at most so many levels. -/
def Fits (L : Layout M) (levels : Nat) (p : Part M α) (a : α) : Prop :=
  ∀ f, p.suits f = true → ∀ v ∈ p.write a, v.Suits (L.Fits levels) f

/-- What is read from values that suit the fields is written as values that suit them. -/
def Refits (L : Layout M) (levels : Nat) (p : Part M α) : Prop :=
  ∀ f, p.suits f = true → ∀ r n, (∀ v ∈ r.all n, v.Suits (L.Fits levels) f) →
    ∀ v ∈ p.write (p.read r n), v.Suits (L.Fits levels) f

theorem fits_iff_of_suits {p : Part M α} {f : FieldLayout M} (hf : p.suits f = true) {a : α} :
    p.Fits L levels a ↔ ∀ v ∈ p.write a, v.Suits (L.Fits levels) f := by
  refine ⟨fun h => h f hf, fun h f' hf' v hv => ?_⟩
  obtain ⟨htype, hrepeated⟩ := suits_iff.mp hf
  obtain ⟨htype', hrepeated'⟩ := suits_iff.mp hf'
  exact (h v hv).congr (htype.trans htype'.symm) (hrepeated.trans hrepeated'.symm)

theorem refits_of_fits {p : Part M α} (h : ∀ a, p.Fits L levels a) : p.Refits L levels :=
  fun f hf _ _ _ => h _ f hf

section Scalars

variable (s : Scalar α)

@[simp] theorem fits_one (a? : Option α) : (one s).Fits L levels a? := by
  intro f hf v hv
  obtain ⟨a, -, rfl⟩ := List.mem_map.mp hv
  exact s.suits_wrap (suits_iff.mp hf).1 a

@[simp] theorem fits_required (default a : α) : (required s default).Fits L levels a := by
  intro f hf v hv
  obtain rfl := List.mem_singleton.mp hv
  exact s.suits_wrap (suits_iff.mp hf).1 a

@[simp] theorem fits_many (as : List α) : (many s).Fits L levels as := by
  intro f hf v hv
  obtain ⟨a, -, rfl⟩ := List.mem_map.mp hv
  exact s.suits_wrap (suits_iff.mp hf).1 a

end Scalars

@[simp] theorem fits_unpacked (ns : List Int32) : unpacked.Fits L levels ns := by
  intro f hf v hv
  obtain ⟨n, -, rfl⟩ := List.mem_map.mp hv
  exact (suits_iff.mp hf).1

@[simp] theorem fits_packed (ns : List Int32) : packed.Fits L levels ns := by
  intro f hf v hv
  cases ns with
  | nil => cases hv
  | cons n ns =>
      obtain rfl := List.mem_singleton.mp hv
      exact suits_iff.mp hf

section Messages

variable {m : M} {toRecord : α → Record} {ofRecord : Record → α} {f : FieldLayout M}

@[simp] theorem fits_subsOf_iff {as : List α} : (subsOf m toRecord ofRecord).Fits L levels as ↔
    ∀ a ∈ as, L.Fits levels m (toRecord a) := by
  constructor
  · intro h a ha
    have hsuits := h (.subs 0 "" m) (suits_iff.mpr ⟨rfl, rfl⟩) _ (List.mem_map_of_mem ha)
    exact (Value.suits_record_iff rfl).mp hsuits
  · intro h f hf v hv
    obtain ⟨a, ha, rfl⟩ := List.mem_map.mp hv
    exact (Value.suits_record_iff (suits_iff.mp hf).1).mpr (h a ha)

@[simp] theorem fits_subOf_iff {a? : Option α} : (subOf m toRecord ofRecord).Fits L levels a? ↔
    ∀ a ∈ a?, L.Fits levels m (toRecord a) := by
  constructor
  · intro h a ha
    have hsuits := h (.sub 0 "" m) (suits_iff.mpr ⟨rfl, rfl⟩) _
      (List.mem_map_of_mem (Option.mem_toList.mpr ha))
    exact (Value.suits_record_iff rfl).mp hsuits
  · intro h f hf v hv
    obtain ⟨a, ha, rfl⟩ := List.mem_map.mp hv
    exact (Value.suits_record_iff (suits_iff.mp hf).1).mpr (h a (Option.mem_toList.mp ha))

section Refits

variable (h : ∀ r, L.Fits levels m r → L.Fits levels m (toRecord (ofRecord r)))
include h

theorem refits_subsOf : (subsOf m toRecord ofRecord).Refits L levels := by
  intro f hf r n hr
  refine fits_subsOf_iff.mpr (List.forall_mem_map.mpr fun r' hr' => h r' ?_) f hf
  exact (Value.suits_record_iff (suits_iff.mp hf).1).mp (hr _ (Record.mem_list_asRecord?_iff.mp hr'))

theorem refits_subOf : (subOf m toRecord ofRecord).Refits L levels := by
  intro f hf r n hr
  refine fits_subOf_iff.mpr (fun a ha => ?_) f hf
  obtain ⟨merged, hmerged, rfl⟩ := Option.map_eq_some_iff.mp ha
  obtain ⟨hne, rfl⟩ := Record.merged?_eq_some_iff.mp hmerged
  refine h _ (Layout.fits_flatten hne fun r' hr' => ?_)
  exact (Value.suits_record_iff (suits_iff.mp hf).1).mp (hr _ (Record.mem_list_asRecord?_iff.mp hr'))

end Refits

end Messages

end Part

/-! ## Fields -/

namespace Fields

/-- Every field has the property. -/
def All {β : Type} (P : ∀ {α : Type}, Part M α → (S → α) → Prop) : Fields M S β → Prop
  | make _ => True
  | field before _ part get => before.All P ∧ P part get

@[simp] theorem all_make {P : ∀ {α : Type}, Part M α → (S → α) → Prop} (made : β) :
    (make made).All P ↔ True := Iff.rfl

@[simp] theorem all_field {P : ∀ {α : Type}, Part M α → (S → α) → Prop}
    {before : Fields M S (α → β)} {n : Nat} {p : Part M α} {get : S → α} :
    (field before n p get).All P ↔ before.All P ∧ P p get := Iff.rfl

theorem All.imp {P Q : ∀ {α : Type}, Part M α → (S → α) → Prop} {fs : Fields M S β}
    (h : fs.All P) (hPQ : ∀ {α : Type} {p : Part M α} {get : S → α}, P p get → Q p get) :
    fs.All Q := by
  induction fs with
  | make _ => trivial
  | field before n p get ih => exact ⟨ih h.1, hPQ h.2⟩

theorem all_write_of_notMem {k : Nat} (fs : Fields M S β) (hk : k ∉ fs.numbers) (s : S) :
    (fs.write s).all k = [] := by
  induction fs with
  | make _ => rfl
  | field before n p get ih =>
      obtain ⟨hne, hbefore⟩ := not_or.mp (mt List.mem_cons.mpr hk)
      rw [write, Record.all_append, ih hbefore, Record.all_occurrences_of_ne (Ne.symm hne)]
      rfl

/-- Only the occurrences of the fields count for what is read. -/
theorem read_congr (fs : Fields M S β) {r r' : Record}
    (h : ∀ n ∈ fs.numbers, r.all n = r'.all n) : fs.read r = fs.read r' := by
  induction fs with
  | make _ => rfl
  | field before n p get ih =>
      obtain ⟨hn, hbefore⟩ := List.forall_mem_cons.mp h
      rw [read, read, ih hbefore, p.read_congr hn]

/-- What is written is read back: the fields have different numbers, so that each part finds the
occurrences that were written for it. -/
theorem read_write (fs : Fields M S β) (hdistinct : fs.numbers.Nodup) {s : S}
    (h : fs.All fun p get => p.ReadsBack (get s)) : fs.read (fs.write s) = fs.remake s := by
  induction fs with
  | make _ => rfl
  | field before n p get ih =>
      obtain ⟨hn, hdistinct⟩ := List.nodup_cons.mp hdistinct
      have hown : p.read ((field before n p get).write s) n = get s := by
        rw [← h.2 n]
        refine p.read_congr ?_
        rw [write, Record.all_append, before.all_write_of_notMem hn, List.nil_append]
      have hothers : before.read ((field before n p get).write s) = before.read (before.write s) := by
        refine before.read_congr fun k hk => ?_
        rw [write, Record.all_append,
          Record.all_occurrences_of_ne (ne_of_mem_of_not_mem hk hn).symm, List.append_nil]
      rw [read, hown, hothers, ih hdistinct h.1, remake]

theorem fits_occurrences_iff {L : Layout M} {levels n : Nat} {m : M} {f : FieldLayout M}
    (hf : L.field? m n = some f) (vs : List Value) :
    L.Fits (levels + 1) m (.occurrences n vs) ↔ ∀ v ∈ vs, v.Suits (L.Fits levels) f := by
  rw [Layout.fits_succ_iff, Record.occurrences, List.forall_mem_map]
  exact forall₂_congr fun v _ => by simp [hf]

section Fits

variable [DecidableEq M] {L : Layout M} {levels : Nat} {m : M}

theorem exists_of_areOf_field {before : Fields M S (α → β)} {n : Nat} {p : Part M α} {get : S → α}
    (h : (field before n p get).areOf L m = true) :
    before.areOf L m = true ∧ ∃ f, L.field? m n = some f ∧ p.suits f = true := by
  obtain ⟨hbefore, hp⟩ := Bool.and_eq_true_iff.mp h
  exact ⟨hbefore, (Option.any_eq_true _ _).mp hp⟩

/-- A record that is written fits if what is in the fields fits one level below. -/
theorem fits_write_iff (fs : Fields M S β) (hm : fs.areOf L m = true) {s : S} :
    L.Fits (levels + 1) m (fs.write s) ↔ fs.All fun p get => p.Fits L levels (get s) := by
  induction fs with
  | make _ => exact iff_of_true (List.forall_mem_nil _) trivial
  | field before n p get ih =>
      obtain ⟨hbefore, f, hf, hp⟩ := exists_of_areOf_field hm
      rw [write, Layout.fits_append_iff, ih hbefore, fits_occurrences_iff hf, All,
        Part.fits_iff_of_suits hp]

/-- What is read from a record that fits is written as one that fits. -/
theorem fits_rewrite (fs : Fields M S β) (hm : fs.areOf L m = true)
    (h : fs.All fun p _ => p.Refits L levels) {r : Record} (hr : L.Fits (levels + 1) m r) :
    L.Fits (levels + 1) m (fs.rewrite r) := by
  induction fs with
  | make _ => exact List.forall_mem_nil _
  | field before n p get ih =>
      obtain ⟨hbefore, f, hf, hp⟩ := exists_of_areOf_field hm
      refine Layout.fits_append_iff.mpr ⟨ih hbefore h.1, (fits_occurrences_iff hf _).mpr ?_⟩
      refine h.2 f hp r n fun v hv => ?_
      obtain ⟨f', hf', hv⟩ := hr _ (Record.mem_all_iff.mp hv)
      obtain rfl := Option.some.inj (hf.symm.trans hf')
      exact hv

end Fits

end Fields

/-! ## Forms -/

/-- Values of a type can stand for messages: they are read back from their records, and what has
been read from a record that fits is written as one that fits. -/
structure Layout.Codes (L : Layout M) (m : M) (toRecord : α → Record) (ofRecord : Record → α) :
    Prop where
  ofRecord_toRecord : ∀ a, ofRecord (toRecord a) = a
  refits : ∀ levels r, L.Fits levels m r → L.Fits levels m (toRecord (ofRecord r))

namespace Part

variable [DecidableEq M] {L : Layout M}

/-- All content of the part is read back, and what has been read fits when it is written again. -/
structure Lawful (L : Layout M) (p : Part M α) : Prop where
  readsBack : ∀ a, p.ReadsBack a
  refits : ∀ levels, p.Refits L levels

@[simp] theorem lawful_one (s : Scalar α) : (one s).Lawful L :=
  ⟨readsBack_one s, fun _ => refits_of_fits (fits_one s)⟩

@[simp] theorem lawful_required (s : Scalar α) (default : α) :
    (required s default).Lawful L :=
  ⟨readsBack_required s default, fun _ => refits_of_fits (fits_required s default)⟩

@[simp] theorem lawful_many (s : Scalar α) : (many s).Lawful L :=
  ⟨readsBack_many s, fun _ => refits_of_fits (fits_many s)⟩

@[simp] theorem lawful_unpacked : unpacked.Lawful L :=
  ⟨readsBack_unpacked, fun _ => refits_of_fits fits_unpacked⟩

@[simp] theorem lawful_packed : packed.Lawful L :=
  ⟨readsBack_packed, fun _ => refits_of_fits fits_packed⟩

section Messages

variable {m : M} {toRecord : α → Record} {ofRecord : Record → α}
  (h : L.Codes m toRecord ofRecord)
include h

@[simp] theorem lawful_subOf : (subOf m toRecord ofRecord).Lawful L :=
  ⟨fun _ => readsBack_subOf fun a _ => h.ofRecord_toRecord a, fun _ => refits_subOf (h.refits _)⟩

@[simp] theorem lawful_subsOf : (subsOf m toRecord ofRecord).Lawful L :=
  ⟨fun _ => readsBack_subsOf fun a _ => h.ofRecord_toRecord a, fun _ => refits_subsOf (h.refits _)⟩

end Messages

end Part

namespace Form

variable [DecidableEq M] {L : Layout M} {levels : Nat} {m : M} (f : Form L m S)

theorem read_write {s : S} (h : f.fields.All fun p get => p.ReadsBack (get s)) :
    f.read (f.write s) = s :=
  (f.fields.read_write f.distinct h).trans (f.remake_eq s)

theorem fits_write_iff {s : S} :
    L.Fits (levels + 1) m (f.write s) ↔ f.fields.All fun p get => p.Fits L levels (get s) :=
  f.fields.fits_write_iff f.areOf

theorem fits_write_read (h : f.fields.All fun p _ => p.Refits L levels) {r : Record}
    (hr : L.Fits (levels + 1) m r) : L.Fits (levels + 1) m (f.write (f.read r)) := by
  rw [write, read, f.rewrite_eq]
  exact f.fields.fits_rewrite f.areOf h hr

/-- **A form of lawful parts is one by which values can stand for messages.** -/
theorem codes (h : f.fields.All fun p _ => p.Lawful L) : L.Codes m f.write f.read where
  ofRecord_toRecord s := f.read_write (h.imp fun hp => hp.readsBack _)
  refits levels r hr := by
    cases levels with
    | zero => exact hr
    | succ levels => exact f.fits_write_read (h.imp fun hp => hp.refits levels) hr

end Form

end AliasErasure.Wire
