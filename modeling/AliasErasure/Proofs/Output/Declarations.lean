import AliasErasure.Proofs.Output.Body
import AliasErasure.Proofs.Erasure.Nesting
import AliasErasure.Proofs.Output.Bare
import Std.Data.String.ToInt

set_option autoImplicit false

/-! # What the declaration of a field says

A field is declared in one line: label, type, name, number and options, with a blank after each of
the first three. Names have no blanks, and a type is written as a keyword or as an absolute name,
neither of which is a label. So a reader can tell the words apart, and two fields are declared in
the same words only if they agree in what these stand for (`written_alike_iff`).

The type is the exception. It is the name that tells a message from an enum, but nothing tells a
group from a message: a group is written by the name of its message, too.
-/

namespace AliasErasure

open Descriptor (FileProto)

/-! ## Words of a declaration -/

/-- The label of a field with a blank after it, or nothing. -/
def labelText (dialect : Dialect) (x : Field) : String :=
  match fieldLabelText dialect x with
  | "" => ""
  | label => label ++ " "

/-- Type, name and number of a field. -/
def memberHead (x : Field) : String :=
  fieldTypeText x ++ " " ++ x.name ++ " = " ++ toString x.number

/-- The declaration of a field up to its options. -/
def declarationHead (dialect : Dialect) (m : Message) (x : Field) : String :=
  match mapEntryFields? m x with
  | some (key, value) =>
      "map<" ++ fieldTypeText key ++ ", " ++ fieldTypeText value ++ "> " ++ x.name ++ " = " ++
        toString x.number
  | none => labelText dialect x ++ memberHead x

section Words

variable {dialect : Dialect} {m : Message} {x y : Field}

theorem memberText_eq : memberText dialect x = memberHead x ++ fieldOptionsText dialect x ++ ";" :=
  rfl

theorem declarationText_eq :
    declarationText dialect m x
      = declarationHead dialect m x ++ fieldOptionsText dialect x ++ ";" := by
  rw [declarationText, declarationHead]
  cases mapEntryFields? m x with
  | some entry => rfl
  | none =>
      rw [labelText]
      rcases fieldLabelText_cases dialect x with h | h | h | h
      · simp [h, memberText_eq]
      · simp [h, memberText_eq, String.append_assoc]
      · simp [h, memberText_eq, String.append_assoc]
      · simp [h, memberText_eq, String.append_assoc]

/-- Texts can be taken apart where characters of one sort end. -/
theorem append_inj_of_ends {p : Char → Bool} {s s' t t' : String}
    (hs : ∀ c ∈ s.toList, p c = true) (hs' : ∀ c ∈ s'.toList, p c = true)
    (ht : ∀ c ∈ t.toList.head?, p c = false) (ht' : ∀ c ∈ t'.toList.head?, p c = false)
    (h : s ++ t = s' ++ t') : s = s' ∧ t = t' := by
  have htaken : ∀ {a b : List Char}, (∀ c ∈ a, p c = true) → (∀ c ∈ b.head?, p c = false) →
      (a ++ b).takeWhile p = a := by
    intro a b ha hb
    have hnil : b.takeWhile p = [] := by
      cases b with
      | nil => rfl
      | cons c b => rw [List.takeWhile_cons_of_neg (by simp [hb c rfl])]
    rw [List.takeWhile_append_of_pos ha, hnil, List.append_nil]
  have hchars : s.toList ++ t.toList = s'.toList ++ t'.toList := by
    simpa using congrArg String.toList h
  have hfirst : s.toList = s'.toList := by rw [← htaken hs ht, hchars, htaken hs' ht']
  rw [hfirst] at hchars
  exact ⟨String.toList_inj.mp hfirst, String.toList_inj.mp (List.append_cancel_left hchars)⟩

/-- A word ends at the first blank. -/
theorem word_inj {w w' rest rest' : String} (hw : ' ' ∉ w.toList) (hw' : ' ' ∉ w'.toList)
    (h : w ++ " " ++ rest = w' ++ " " ++ rest') : w = w' ∧ rest = rest' := by
  have hunspaced : ∀ {v : String}, ' ' ∉ v.toList → ∀ c ∈ v.toList, (c != ' ') = true := by
    intro v hv c hc
    rw [bne_iff_ne]
    rintro rfl
    exact hv hc
  rw [String.append_assoc, String.append_assoc] at h
  obtain ⟨hword, hrest⟩ := append_inj_of_ends (hunspaced hw) (hunspaced hw') (by simp) (by simp) h
  exact ⟨hword, (String.append_right_inj " ").mp hrest⟩

/-- Characters that numbers are written with. -/
def isNumeral (c : Char) : Bool := c.isDigit || c == '-'

theorem isNumeral_of_mem_toString {n : Int32} {c : Char} (h : c ∈ (toString n).toList) :
    isNumeral c = true := by
  have hdigit : ∀ {k : Nat}, c ∈ k.repr.toList → isNumeral c = true := by
    intro k hc
    rw [Nat.toList_repr] at hc
    simp [isNumeral, Nat.isDigit_of_mem_toDigits (by decide) (by decide) hc]
  have hrepr : (toString n : String) = n.toInt.repr := rfl
  rw [hrepr, Int.repr_eq_if] at h
  split at h
  · exact hdigit h
  · rw [String.toList_append, List.mem_append] at h
    rcases h with h | h
    · have hminus : c = '-' := by simpa using h
      simp [isNumeral, hminus]
    · exact hdigit h

theorem toString_int32_inj {n k : Int32} (h : (toString n : String) = toString k) : n = k :=
  Int32.toInt_inj.mp (Int.repr_injective h)

/-- Options, and the semicolon after them, do not go on with a number. -/
theorem isNumeral_head?_options : ∀ c ∈ (fieldOptionsText dialect x ++ ";").toList.head?,
    isNumeral c = false := by
  intro c hc
  rw [fieldOptionsText] at hc
  split at hc
  · have hsemicolon : c = ';' := by simpa using hc.symm
    rw [hsemicolon]
    rfl
  · have hblank : c = ' ' := by simpa using hc.symm
    rw [hblank]
    rfl

/-- Number and options can be told apart. -/
theorem number_inj
    (h : toString x.number ++ (fieldOptionsText dialect x ++ ";")
      = toString y.number ++ (fieldOptionsText dialect y ++ ";")) :
    x.number = y.number ∧ fieldOptionsText dialect x = fieldOptionsText dialect y := by
  obtain ⟨hnumber, hoptions⟩ := append_inj_of_ends (fun c => isNumeral_of_mem_toString)
    (fun c => isNumeral_of_mem_toString) isNumeral_head?_options isNumeral_head?_options h
  exact ⟨toString_int32_inj hnumber, (String.append_left_inj ";").mp hoptions⟩

end Words

/-! ## Types -/

/-- The names of the messages of a schema, at every depth. -/
def Schema.messageNames (s : Schema) : List String := s.allMessages.map (·.fullName)

/-- The names of the enums of a schema, at every depth. -/
def Schema.enumNames (s : Schema) : List String :=
  s.files.flatMap fun f =>
    (families f.messages).flatMap (fun m => m.enums.map (·.fullName)) ++ f.enums.map (·.fullName)

/-- An absolute name starts with a dot and has no blanks. -/
def IsAbsoluteName (n : String) : Prop := n.toList.head? = some '.' ∧ ' ' ∉ n.toList

/-- The kinds of fields that hold a message. -/
def Kind.HoldsMessage (k : Kind) : Prop := k = .message ∨ k = .group

/-- If the type of a field is to be named, then it is, by the absolute name of a declared message or
enum. -/
structure Schema.NamesType (s : Schema) (x : Field) : Prop where
  message : x.kind.HoldsMessage → ∃ n ∈ s.messageNames, x.typeName? = some n ∧ IsAbsoluteName n
  enum : x.kind = .enum → ∃ n ∈ s.enumNames, x.typeName? = some n ∧ IsAbsoluteName n

theorem File.types_eq (f : File) :
    f.types = (families f.messages).flatMap (·.ownTypes) ++ f.enums.map (·.fullName) := by
  rw [File.types, flatMap_ownTypes_families]

/-- The enums of a file are among its types. -/
theorem File.mem_types_of_enum {f : File} {n : String}
    (h : n ∈ (families f.messages).flatMap (fun m => m.enums.map (·.fullName)) ++
      f.enums.map (·.fullName)) : n ∈ f.types := by
  rw [File.types_eq]
  rcases List.mem_append.mp h with h | h
  · obtain ⟨m, hm, hn⟩ := List.mem_flatMap.mp h
    exact List.mem_append_left _ (List.mem_flatMap.mpr ⟨m, hm, List.mem_cons_of_mem _ hn⟩)
  · exact List.mem_append_right _ h

/-- A file in which types have different names gives no message the name of an enum. -/
theorem File.not_mem_enums {f : File} (distinct : f.types.Nodup) {m : Message}
    (hm : m ∈ families f.messages) :
    m.fullName ∉ (families f.messages).flatMap (fun m => m.enums.map (·.fullName)) ++
      f.enums.map (·.fullName) := by
  intro henum
  have hown : m.fullName ∈ m.ownTypes := List.mem_cons_self
  rw [File.types_eq, List.nodup_append] at distinct
  rcases List.mem_append.mp henum with h | h
  · obtain ⟨x, hx, hnx⟩ := List.mem_flatMap.mp h
    obtain rfl : m = x :=
      eq_of_nodup_flatMap distinct.1 hm hx hown (List.mem_cons_of_mem _ hnx)
    have hnodup : m.ownTypes.Nodup := (List.nodup_flatMap.mp distinct.1).1 m hm
    exact (List.nodup_cons.mp hnodup).1 hnx
  · exact distinct.2.2 _ (List.mem_flatMap.mpr ⟨m, hm, hown⟩) _ h rfl

/-- **No message has the name of an enum** where types have different names. -/
theorem Schema.not_mem_enumNames {s : Schema} (distinct : s.types.Nodup) {n : String}
    (hn : n ∈ s.messageNames) : n ∉ s.enumNames := by
  intro henum
  obtain ⟨m, hm, rfl⟩ := List.mem_map.mp hn
  obtain ⟨f, hf, hmf⟩ := List.mem_flatMap.mp hm
  obtain ⟨g, hg, hng⟩ := List.mem_flatMap.mp henum
  -- a name is declared in one file only
  obtain rfl : f = g :=
    eq_of_nodup_flatMap distinct hf hg (File.fullName_mem_types hmf) (File.mem_types_of_enum hng)
  exact File.not_mem_enums ((List.nodup_flatMap.mp distinct).1 f hf) hmf hng

/-- A keyword has no blanks, does not start with a dot, and is no label. -/
theorem Kind.keyword?_word {k : Kind} {w : String} (h : k.keyword? = some w) :
    ' ' ∉ w.toList ∧ w.toList.head? ≠ some '.' ∧ w ∉ ["optional", "repeated", "required"] := by
  cases k
  case group => cases h
  case message => cases h
  case enum => cases h
  all_goals
    obtain rfl := Option.some.inj h
    decide

/-- Different kinds have different keywords. -/
theorem Kind.keyword?_inj {k l : Kind} {w : String} (hk : k.keyword? = some w)
    (hl : l.keyword? = some w) : k = l := by
  have hmem : ∀ k : Kind, k ∈ Kind.all := by
    intro k
    cases k <;> decide
  have hnodup : ((Kind.all.filter fun k => k.keyword?.isSome).map (·.keyword?)).Nodup := by decide
  have hfilter : ∀ k : Kind, k.keyword? = some w → k ∈ Kind.all.filter fun k => k.keyword?.isSome :=
    fun k hk => List.mem_filter.mpr ⟨hmem k, by simp [hk]⟩
  exact List.inj_on_of_nodup_map hnodup (hfilter k hk) (hfilter l hl) (hk.trans hl.symm)

section Types

variable {s : Schema} {x y : Field}

/-- **A type is written as a keyword or as an absolute name.** -/
theorem Schema.NamesType.typeText (h : s.NamesType x) :
    (x.typeName? = none ∧ x.kind.keyword? = some (fieldTypeText x)) ∨
      (x.typeName? = some (fieldTypeText x) ∧ IsAbsoluteName (fieldTypeText x) ∧
        (x.kind.HoldsMessage ∧ fieldTypeText x ∈ s.messageNames ∨
          x.kind = .enum ∧ fieldTypeText x ∈ s.enumNames)) := by
  rw [fieldTypeText]
  cases hkeyword : x.kind.keyword? with
  | some w =>
      left
      refine ⟨?_, rfl⟩
      cases hname : x.typeName? with
      | none => rfl
      | some n =>
          have hnamed := Field.isNamed_of_typeName? hname
          cases hkind : x.kind
          all_goals simp [hkind, Kind.isNamed, Kind.keyword?] at hnamed hkeyword
  | none =>
      right
      by_cases henum : x.kind = .enum
      · obtain ⟨n, hn, hname, habsolute⟩ := h.enum henum
        rw [hname]
        exact ⟨rfl, habsolute, Or.inr ⟨henum, hn⟩⟩
      · have hmessage : x.kind.HoldsMessage := by
          cases hkind : x.kind
          all_goals simp [hkind, Kind.keyword?, Kind.HoldsMessage] at hkeyword henum ⊢
        obtain ⟨n, hn, hname, habsolute⟩ := h.message hmessage
        rw [hname]
        exact ⟨rfl, habsolute, Or.inl ⟨hmessage, hn⟩⟩

/-- A type is one word, and no label. -/
theorem Schema.NamesType.word (h : s.NamesType x) :
    ' ' ∉ (fieldTypeText x).toList ∧
      fieldTypeText x ∉ ["optional", "repeated", "required"] := by
  rcases h.typeText with ⟨-, hkeyword⟩ | ⟨-, habsolute, -⟩
  · obtain ⟨hunspaced, -, hlabel⟩ := Kind.keyword?_word hkeyword
    exact ⟨hunspaced, hlabel⟩
  · refine ⟨habsolute.2, fun hlabel => ?_⟩
    have hdot := habsolute.1
    simp only [List.mem_cons, List.not_mem_nil, or_false] at hlabel
    rcases hlabel with hlabel | hlabel | hlabel
    all_goals
      rw [hlabel] at hdot
      cases hdot

/-- **The word for the type tells the type**, up to groups. -/
theorem Schema.NamesType.inj (distinct : s.types.Nodup) (hx : s.NamesType x) (hy : s.NamesType y)
    (h : fieldTypeText x = fieldTypeText y) :
    x.typeName? = y.typeName? ∧
      (x.kind = y.kind ∨ x.kind.HoldsMessage ∧ y.kind.HoldsMessage) := by
  have hdot : ∀ {k : Kind}, k.keyword? = some (fieldTypeText x) →
      ¬ IsAbsoluteName (fieldTypeText x) :=
    fun hk habsolute => (Kind.keyword?_word hk).2.1 habsolute.1
  have hx' := hx.typeText
  have hy' := hy.typeText
  rw [← h] at hy'
  rcases hx' with ⟨hxname, hxkeyword⟩ | ⟨hxname, habsolute, hxdeclared⟩
  · rcases hy' with ⟨hyname, hykeyword⟩ | ⟨-, habsolute, -⟩
    · exact ⟨hxname.trans hyname.symm, Or.inl (Kind.keyword?_inj hxkeyword hykeyword)⟩
    · exact absurd habsolute (hdot hxkeyword)
  · rcases hy' with ⟨-, hykeyword⟩ | ⟨hyname, -, hydeclared⟩
    · exact absurd habsolute (hdot hykeyword)
    · refine ⟨hxname.trans hyname.symm, ?_⟩
      -- what the name stands for tells enums apart from the rest
      rcases hxdeclared with ⟨hxkind, hxmessage⟩ | ⟨hxkind, hxenum⟩
      · rcases hydeclared with ⟨hykind, -⟩ | ⟨-, hyenum⟩
        · exact Or.inr ⟨hxkind, hykind⟩
        · exact absurd hyenum (Schema.not_mem_enumNames distinct hxmessage)
      · rcases hydeclared with ⟨-, hymessage⟩ | ⟨hykind, -⟩
        · exact absurd hxenum (Schema.not_mem_enumNames distinct hymessage)
        · exact Or.inl (hxkind.trans hykind.symm)

/-- A group is written by the name of its message. -/
theorem fieldTypeText_congr (hx : s.NamesType x) (hname : x.typeName? = y.typeName?)
    (hkind : x.kind = y.kind ∨ x.kind.HoldsMessage ∧ y.kind.HoldsMessage) :
    fieldTypeText x = fieldTypeText y := by
  rcases hkind with hkind | ⟨hxkind, hykind⟩
  · rw [fieldTypeText, fieldTypeText, hname, hkind]
  · obtain ⟨n, -, hn, -⟩ := hx.message hxkind
    have hkeyword : ∀ {k : Kind}, k.HoldsMessage → k.keyword? = none := by
      rintro k (rfl | rfl)
      · rfl
      · rfl
    rw [fieldTypeText, fieldTypeText, hkeyword hxkind, hkeyword hykind, ← hname, hn]

end Types

/-! ## Labels -/

/-- A field is labelled `repeated` just if it is. -/
theorem fieldLabelText_eq_repeated_iff (dialect : Dialect) {x : Field} :
    fieldLabelText dialect x = "repeated" ↔ x.cardinality = .repeated := by
  cases hcard : x.cardinality with
  | repeated => simp [fieldLabelText, hcard]
  | required => cases dialect <;> simp [fieldLabelText, hcard]
  | optional =>
      cases dialect with
      | proto2 => simp [fieldLabelText, hcard]
      | proto3 => cases hflag : x.proto3Optional <;> simp [fieldLabelText, hcard, hflag]
      | editions => simp [fieldLabelText, hcard]

/-- **The label can be told apart from the type.** -/
theorem labelText_inj {dialect : Dialect} {x y : Field} {w w' rest rest' : String}
    (hw : ' ' ∉ w.toList ∧ w ∉ ["optional", "repeated", "required"])
    (hw' : ' ' ∉ w'.toList ∧ w' ∉ ["optional", "repeated", "required"])
    (h : labelText dialect x ++ (w ++ " " ++ rest) = labelText dialect y ++ (w' ++ " " ++ rest')) :
    fieldLabelText dialect x = fieldLabelText dialect y ∧ w = w' ∧ rest = rest' := by
  -- a label is no type, so there are labels on both sides or on none
  have hlabel : ∀ z : Field, (fieldLabelText dialect z = "" ∧ labelText dialect z = "") ∨
      (' ' ∉ (fieldLabelText dialect z).toList ∧
        fieldLabelText dialect z ∈ ["optional", "repeated", "required"] ∧
        labelText dialect z = fieldLabelText dialect z ++ " ") := by
    intro z
    rw [labelText]
    rcases fieldLabelText_cases dialect z with hz | hz | hz | hz
    all_goals simp [hz]
  rcases hlabel x with ⟨hx, hxtext⟩ | ⟨hx, hxlabel, hxtext⟩
  · rcases hlabel y with ⟨hy, hytext⟩ | ⟨hy, hylabel, hytext⟩
    · rw [hxtext, hytext, String.empty_append, String.empty_append] at h
      exact ⟨hx.trans hy.symm, word_inj hw.1 hw'.1 h⟩
    · rw [hxtext, hytext, String.empty_append] at h
      obtain ⟨heq, -⟩ := word_inj hw.1 hy h
      exact absurd (heq ▸ hylabel) hw.2
  · rcases hlabel y with ⟨hy, hytext⟩ | ⟨hy, hylabel, hytext⟩
    · rw [hxtext, hytext, String.empty_append] at h
      obtain ⟨heq, -⟩ := word_inj hx hw'.1 h
      exact absurd (heq ▸ hxlabel) hw'.2
    · rw [hxtext, hytext] at h
      obtain ⟨heq, hrest⟩ := word_inj hx hy h
      exact ⟨heq, word_inj hw.1 hw'.1 hrest⟩

/-! ## The line of a field -/

/-- What is written for a field on its own, without comments. -/
def writtenField (dialect : Dialect) (indent : String) (level : Nat) (m : Message) (x : Field) :
    String :=
  String.join ((writtenLines false (fieldLines dialect level m x)).map (·.text indent))

/-- Two fields agree in all that is declared of a field. They need not agree in kind if both hold a
message: one of them may be a group. -/
structure Field.DeclaredAlike (dialect : Dialect) (x y : Field) : Prop where
  name : x.name = y.name
  number : x.number = y.number
  kind : x.kind = y.kind ∨ x.kind.HoldsMessage ∧ y.kind.HoldsMessage
  typeName : x.typeName? = y.typeName?
  repeated : x.cardinality = .repeated ↔ y.cardinality = .repeated
  label : fieldLabelText dialect x = fieldLabelText dialect y
  options : fieldOptionsText dialect x = fieldOptionsText dialect y

/-- A field `x` of a message `m` of the schema, which has no entries of maps. Its name has no
blanks, and its type is declared. -/
structure Schema.HasPlainField (s : Schema) (m : Message) (x : Field) : Prop where
  message : m ∈ s.allMessages
  field : x ∈ m.fields
  noEntries : ∀ n ∈ m.nested, n.mapEntry = false
  name : ' ' ∉ x.name.toList
  type : s.NamesType x

theorem mapEntryFields?_of_noEntries {m : Message} {x : Field}
    (h : ∀ n ∈ m.nested, n.mapEntry = false) : mapEntryFields? m x = none := by
  have hfind : (m.nested.find? fun n => n.mapEntry && x.message == some n.fullName) = none := by
    rw [List.find?_eq_none]
    intro n hn
    simp [h n hn]
  rw [mapEntryFields?, hfind]
  split <;> rfl

/-- What is written for a field without map entries around it. -/
theorem Schema.Built.writtenField_eq {s : Schema} (hs : s.Built) {m : Message} {x : Field}
    (hx : s.HasPlainField m x) (dialect : Dialect) (indent : String) (level : Nat) :
    writtenField dialect indent level m x
      = Line.indentation indent level ++
          (labelText dialect x ++ (fieldTypeText x ++ " " ++ (x.name ++ " " ++ ("= " ++
            (toString x.number ++ (fieldOptionsText dialect x ++ ";")))))) ++ "\n" := by
  have hremark : aliasRemark x = "" := by
    rw [aliasRemark, hs.viaAlias hx.message hx.field]
  have hdeclaration : declarationText dialect m x = labelText dialect x ++ memberHead x ++
      fieldOptionsText dialect x ++ ";" := by
    rw [declarationText_eq, declarationHead, mapEntryFields?_of_noEntries hx.noEntries]
  have hline : writtenLines false (fieldLines dialect level m x)
      = [.code level (declarationText dialect m x ++ aliasRemark x)] := by
    rw [fieldLines, writtenLines_commented]
    rfl
  have hequals : (" = " : String) = " " ++ "= " := rfl
  have hjoin : ∀ line : Line, String.join [line.text indent] = line.text indent := by simp
  rw [writtenField, hline, List.map_singleton, hjoin, Line.text, hremark, hdeclaration, memberHead,
    hequals]
  simp only [String.append_assoc, String.empty_append]

/-- **Fields that are declared alike are written the same.** -/
theorem Schema.Built.writtenField_congr {s : Schema} (hs : s.Built) {m n : Message} {x y : Field}
    (hx : s.HasPlainField m x) (hy : s.HasPlainField n y) {dialect : Dialect}
    (h : x.DeclaredAlike dialect y) (indent : String) (level : Nat) :
    writtenField dialect indent level m x = writtenField dialect indent level n y := by
  rw [hs.writtenField_eq hx, hs.writtenField_eq hy,
    fieldTypeText_congr hx.type h.typeName h.kind, h.name, h.number, h.options, labelText,
    labelText, h.label]

/-- **The line of a field tells the field**, except for what is not declared. Two fields of a
schema, in which types have different names, are written the same if and only if they agree in
name, number, kind, type, label and options; but where one of them holds a message, the other may
be a group. -/
theorem written_alike_iff (marker : String) (generate : List String) (protos : List FileProto)
    (distinct : (Schema.ofProtos marker generate protos).types.Nodup) (dialect : Dialect)
    (indent : String) (level : Nat) {m n : Message} {x y : Field}
    (hx : (Schema.ofProtos marker generate protos).HasPlainField m x)
    (hy : (Schema.ofProtos marker generate protos).HasPlainField n y) :
    writtenField dialect indent level m x = writtenField dialect indent level n y ↔
      x.DeclaredAlike dialect y := by
  have hs := Schema.built_ofProtos marker generate protos
  constructor
  · intro h
    rw [hs.writtenField_eq hx, hs.writtenField_eq hy, String.append_left_inj,
      String.append_right_inj] at h
    obtain ⟨hlabel, htype, hrest⟩ := labelText_inj hx.type.word hy.type.word h
    obtain ⟨hname, hrest⟩ := word_inj hx.name hy.name hrest
    obtain ⟨hnumber, hoptions⟩ := number_inj ((String.append_right_inj _).mp hrest)
    obtain ⟨htypeName, hkind⟩ := hx.type.inj distinct hy.type htype
    have hrepeated : x.cardinality = .repeated ↔ y.cardinality = .repeated := by
      rw [← fieldLabelText_eq_repeated_iff dialect, hlabel, fieldLabelText_eq_repeated_iff]
    exact ⟨hname, hnumber, hkind, htypeName, hrepeated, hlabel, hoptions⟩
  · intro h
    exact hs.writtenField_congr hx hy h indent level

/-- A file with a group, `Result`, which is held as a group by `Search` and as a message by
`Page`. -/
def searchProto : FileProto where
  name := some "search.proto"
  package := some "shop"
  syntaxName := some "proto2"
  messageType :=
    [{ name := some "Search"
       field := [{ name := some "result", number := some 1, label := some 1, type := some 10
                   typeName := some ".shop.Search.Result" }]
       nestedType :=
        [{ name := some "Result"
           field := [{ name := some "url", number := some 1, label := some 1
                       type := some 9 }] }] },
     { name := some "Page"
       field := [{ name := some "result", number := some 1, label := some 1, type := some 11
                   typeName := some ".shop.Search.Result" }] }]

/-- The schema of `searchProto`. -/
def searchSchema : Schema := Schema.ofProto searchProto

/-- The file of `searchSchema`. -/
def searchFile : File := buildFile defaultMarker true searchProto

theorem searchSchema_files : searchSchema.files = [searchFile] := Schema.files_ofProto _

theorem searchSchema_types : searchSchema.types =
    [".shop.Search.Result", ".shop.Search", ".shop.Page"] := by
  rw [Schema.types, searchSchema_files]
  rfl

theorem searchSchema_distinct : searchSchema.types.Nodup := by
  rw [searchSchema_types]
  decide

theorem searchSchema_plainField {m : Message} (hm : m ∈ searchFile.messages) {x : Field}
    (hx : x ∈ m.fields) : searchSchema.HasPlainField m x := by
  have hmessages : searchSchema.messageNames
      = [".shop.Search.Result", ".shop.Search", ".shop.Page"] := by
    rw [Schema.messageNames, Schema.allMessages, searchSchema_files]
    rfl
  have hfields : ∀ m ∈ searchFile.messages, (∀ n ∈ m.nested, n.mapEntry = false) ∧
      ∀ x ∈ m.fields, ' ' ∉ x.name.toList ∧ x.kind ≠ .enum ∧
        x.typeName? = some ".shop.Search.Result" := by decide
  obtain ⟨hentries, hplain⟩ := hfields m hm
  obtain ⟨hname, hkind, htype⟩ := hplain x hx
  have hfile : searchFile ∈ searchSchema.files := by simp [searchSchema_files]
  refine ⟨Schema.mem_allMessages_of_mem hfile hm, hx, hentries, hname, fun _ => ?_,
    fun henum => absurd henum hkind⟩
  rw [hmessages]
  exact ⟨_, List.mem_cons_self, htype, by decide, by decide⟩

/-- The fields of `Search` and `Page`. -/
theorem searchFile_fields : ∃ m ∈ searchFile.messages, ∃ n ∈ searchFile.messages,
    ∃ x ∈ m.fields, ∃ y ∈ n.fields, x.kind = .group ∧ y.kind = .message ∧
      ∀ dialect, x.DeclaredAlike dialect y := by
  refine ⟨_, List.mem_of_getElem? (i := 0) rfl, _, List.mem_of_getElem? (i := 1) rfl,
    _, List.mem_of_getElem? (i := 0) rfl, _, List.mem_of_getElem? (i := 0) rfl, rfl, rfl,
    fun dialect => ⟨rfl, rfl, Or.inr ⟨Or.inr rfl, Or.inl rfl⟩, rfl, Iff.rfl, rfl, ?_⟩⟩
  rfl

theorem written_alike_iff_search :
    searchSchema.types.Nodup ∧ ∃ m n x y, searchSchema.HasPlainField m x ∧
      searchSchema.HasPlainField n y ∧
      (writtenField .proto2 "  " 1 m x = writtenField .proto2 "  " 1 n y ↔
        x.DeclaredAlike .proto2 y) ∧
      x.DeclaredAlike .proto2 y := by
  obtain ⟨m, hm, n, hn, x, hx, y, hy, -, -, halike⟩ := searchFile_fields
  have hmx := searchSchema_plainField hm hx
  have hny := searchSchema_plainField hn hy
  exact ⟨searchSchema_distinct, m, n, x, y, hmx, hny,
    written_alike_iff _ _ _ searchSchema_distinct .proto2 "  " 1 hmx hny, halike .proto2⟩

/-- **The line of a field does not tell its kind**: in a schema whose types have different names,
a group and a message are written the same, in whatever dialect. -/
theorem group_written_as_message_search :
    searchSchema.types.Nodup ∧ ∃ m n x y, searchSchema.HasPlainField m x ∧
      searchSchema.HasPlainField n y ∧ x.kind = .group ∧ y.kind = .message ∧
      ∀ dialect indent level,
        writtenField dialect indent level m x = writtenField dialect indent level n y := by
  obtain ⟨m, hm, n, hn, x, hx, y, hy, hgroup, hmessage, halike⟩ := searchFile_fields
  have hmx := searchSchema_plainField hm hx
  have hny := searchSchema_plainField hn hy
  refine ⟨searchSchema_distinct, m, n, x, y, hmx, hny, hgroup, hmessage,
    fun dialect indent level => ?_⟩
  exact (Schema.built_ofProto searchProto).writtenField_congr hmx hny (halike dialect) indent level

end AliasErasure
