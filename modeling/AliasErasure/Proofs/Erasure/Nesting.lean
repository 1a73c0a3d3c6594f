import AliasErasure.Proofs.Erasure.Recursion
import AliasErasure.Proofs.Schema.Tree
import Mathlib.Data.List.Flatten

set_option autoImplicit false

/-! # Declared inside, by name and by place

Whether the payload of an alias is declared inside the alias is decided by names alone: the name of
the payload's type must go on after the name of the alias with a dot (`isInside`). What is declared
inside a message has such a name, since qualified names are put together on the way down
(`Message.isInside_of_mem_innerTypes`). The converse is an ascent. The name of a declaration is
that of its scope, a dot, and a simple name; as the latter has no dots, a name that the whole goes
on after is that of the scope, or one that the scope goes on after (`isInside_qualified_iff`). So
one climbs from a type to the messages around it, and either meets a message of the name in
question or arrives at the package (`Message.encloses_or_outside`).

Hence the test is exact as long as no package has, or goes on after, the name of a message
(`nestingTest_exact`).
-/

namespace AliasErasure

open Descriptor (FileProto MessageProto)

/-! ## Names that go on after others -/

theorem isInside_iff {p n : String} :
    isInside p n = true ↔ p.toList ++ ['.'] <+: n.toList := by
  rw [isInside, List.isPrefixOf_iff_prefix]

theorem isInside_iff_exists {p n : String} :
    isInside p n = true ↔ ∃ rest, n = p ++ "." ++ rest := by
  rw [isInside_iff]
  constructor
  · rintro ⟨rest, hrest⟩
    refine ⟨String.ofList rest, ?_⟩
    rw [← String.toList_inj, ← hrest]
    simp
  · rintro ⟨rest, rfl⟩
    exact ⟨rest.toList, by simp⟩

/-- A prefix that ends in `c` does not end within a part that has no `c`. -/
theorem prefix_of_prefix_append {α : Type} {c : α} {p l rest : List α} (hrest : c ∉ rest)
    (h : p ++ [c] <+: l ++ rest) : p ++ [c] <+: l := by
  rcases List.prefix_or_prefix_of_prefix h (List.prefix_append l rest) with hle | ⟨tail, htail⟩
  · exact hle
  · -- the prefix would be `l` followed by a beginning of `rest`, which ends in `c`
    have hbegin : tail <+: rest := by
      rw [← htail, List.prefix_append_right_inj] at h
      exact h
    rcases List.eq_nil_or_concat tail with rfl | ⟨front, last, rfl⟩
    · have hl : l = p ++ [c] := by rw [← htail, List.append_nil]
      exact hl ▸ List.prefix_rfl
    · have hlast : last = c := by
        rw [List.concat_eq_append, ← List.append_assoc] at htail
        exact List.singleton_inj.mp (List.append_inj_right' htail rfl)
      have hmem : c ∈ rest := hbegin.subset (by simp [hlast])
      exact absurd hmem hrest

/-- **One step of the ascent**: what a qualified name goes on after is the name of its scope, or
what that goes on after. -/
theorem isInside_qualified_iff {p scope name : String} (hname : '.' ∉ name.toList) :
    isInside p (scope ++ "." ++ name) = true ↔ p = scope ∨ isInside p scope = true := by
  have hdot : ".".toList = ['.'] := rfl
  rw [isInside_iff, isInside_iff, String.toList_append, String.toList_append, hdot,
    ← String.toList_inj]
  constructor
  · intro h
    rcases List.prefix_concat_iff.mp (prefix_of_prefix_append hname h) with heq | hinside
    · exact Or.inl (List.append_cancel_right heq)
    · exact Or.inr hinside
  · rintro (heq | hinside)
    · rw [heq]
      exact List.prefix_append _ _
    · rw [List.append_assoc]
      exact hinside.trans (List.prefix_append _ _)

theorem Message.declares_eq_true_iff {m : Message} {f : Field} :
    m.declares f = true ↔ ∃ n, f.typeName? = some n ∧ isInside m.fullName n = true := by
  rw [Message.declares]
  cases f.typeName? <;> simp

/-! ## How declarations are named -/

/-- The name of a declaration within its scope: it is not empty, and has no dots. -/
def SimpleName (n : String) : Prop := n ≠ "" ∧ '.' ∉ n.toList

instance (n : String) : Decidable (SimpleName n) := inferInstanceAs (Decidable (_ ∧ _))

/-- A message and the enums directly in it have simple names. -/
structure Message.SimplyNamed (m : Message) : Prop where
  name : SimpleName m.name
  enums : ∀ e ∈ m.enums, SimpleName e.name

/-- What is declared directly in a message is qualified by the name of the message. -/
structure Message.Qualifies (m : Message) : Prop where
  nested : ∀ x ∈ m.nested, x.fullName = m.fullName ++ "." ++ x.name
  enums : ∀ e ∈ m.enums, e.fullName = m.fullName ++ "." ++ e.name

/-- What is declared at the top level of a file is qualified by its package. -/
structure File.Qualifies (f : File) : Prop where
  messages : ∀ m ∈ f.messages, m.fullName = packageScope f.package ++ "." ++ m.name
  enums : ∀ e ∈ f.enums, e.fullName = packageScope f.package ++ "." ++ e.name

section Qualifies

variable (ctx : FileContext) (scope : String) (path : List Int32) (raw : MessageProto)

theorem buildMessage_fullName : (buildMessage ctx scope path raw).fullName
    = scope ++ "." ++ (buildMessage ctx scope path raw).name := by
  rw [buildMessage_eq]

theorem buildMessage_qualifies : (buildMessage ctx scope path raw).Qualifies := by
  constructor
  · intro x hx
    obtain ⟨k, hk⟩ := List.mem_iff_getElem?.mp hx
    rw [getElem?_nested_buildMessage] at hk
    obtain ⟨inner, -, rfl⟩ := Option.map_eq_some_iff.mp hk
    rw [buildMessage_fullName, buildMessage_eq ctx scope path raw]
  · intro e he
    rw [buildMessage_eq] at he ⊢
    obtain ⟨k, hk, rfl⟩ := List.mem_mapIdx.mp he
    rfl

end Qualifies

theorem Message.BuiltFrom.qualifies {ctx : FileContext} {m : Message} {raw : MessageProto}
    (h : m.BuiltFrom ctx raw) : m.Qualifies := by
  obtain ⟨scope, path, -, rfl⟩ := h
  exact buildMessage_qualifies ctx scope path raw

theorem buildFile_qualifies (marker : String) (generate : Bool) (f : FileProto) :
    (buildFile marker generate f).Qualifies := by
  constructor
  · intro m hm
    obtain ⟨k, hk, rfl⟩ := List.mem_mapIdx.mp hm
    exact buildMessage_fullName _ _ _ _
  · intro e he
    obtain ⟨k, hk, rfl⟩ := List.mem_mapIdx.mp he
    rfl

theorem File.IsBuilt.qualifies {f : File} (h : f.IsBuilt) : f.Qualifies := by
  obtain ⟨marker, generate, hf⟩ := h
  rw [hf]
  exact buildFile_qualifies marker generate f.proto

/-! ## Descent and ascent -/

/-- Every message in a family, the outermost one included, has simple names and qualifies what it
declares. -/
def Message.WellScoped (m : Message) : Prop := ∀ x ∈ m.family, x.Qualifies ∧ x.SimplyNamed

theorem Message.WellScoped.self {m : Message} (h : m.WellScoped) : m.Qualifies ∧ m.SimplyNamed :=
  h m m.self_mem_family

theorem Message.WellScoped.nested {m x : Message} (h : m.WellScoped) (hx : x ∈ m.nested) :
    x.WellScoped :=
  fun y hy => h y (Message.mem_family_of_nested hx hy)

/-- **The descent**: all that is declared inside a message goes on after the name of the message,
and after what that goes on after. -/
theorem Message.isInside_of_mem_innerTypes {p n : String} (m : Message) (hm : m.WellScoped)
    (hp : p = m.fullName ∨ isInside p m.fullName = true) (hn : n ∈ m.innerTypes) :
    isInside p n = true := by
  induction m using Message.nestedInduction with
  | step m ih =>
      obtain ⟨hqualifies, -, henums⟩ := hm.self
      rcases Message.mem_innerTypes_iff.mp hn with ⟨x, hx, hnx⟩ | ⟨e, he, rfl⟩
      · have hscoped := hm.nested hx
        have hpx : isInside p x.fullName = true := by
          rw [hqualifies.nested x hx, isInside_qualified_iff hscoped.self.2.name.2]
          exact hp
        rcases Message.mem_types_iff.mp hnx with rfl | hinner
        · exact hpx
        · exact ih x hx hscoped (Or.inr hpx) hinner
      · rw [hqualifies.enums e he, isInside_qualified_iff (henums e he).2]
        exact hp

/-- **The ascent**: if a type that a message declares goes on after the name `p`, then it is
declared inside a message of this name, or the scope of the whole has this name or goes on after
it. -/
theorem Message.encloses_or_outside {p n scope : String} (m : Message) (hm : m.WellScoped)
    (hscope : m.fullName = scope ++ "." ++ m.name) (hn : n ∈ m.types)
    (hinside : isInside p n = true) :
    (∃ y ∈ m.family, y.fullName = p ∧ n ∈ y.innerTypes) ∨ p = scope ∨ isInside p scope = true := by
  induction m using Message.nestedInduction generalizing scope with
  | step m ih =>
      obtain ⟨hqualifies, hname, henums⟩ := hm.self
      -- once the ascent has come up to `m`, it goes on to the scope
      have hup : isInside p m.fullName = true → p = scope ∨ isInside p scope = true := by
        rw [hscope]
        exact (isInside_qualified_iff hname.2).mp
      rcases Message.mem_types_iff.mp hn with rfl | hinner
      · exact Or.inr (hup hinside)
      · have hself : p = m.fullName → ∃ y ∈ m.family, y.fullName = p ∧ n ∈ y.innerTypes := by
          intro hp
          exact ⟨m, m.self_mem_family, hp.symm, hinner⟩
        rcases Message.mem_innerTypes_iff.mp hinner with ⟨x, hx, hnx⟩ | ⟨e, he, rfl⟩
        · rcases ih x hx (hm.nested hx) (hqualifies.nested x hx) hnx with
            ⟨y, hy, hyp, hny⟩ | hp | hp
          · exact Or.inl ⟨y, Message.mem_family_of_nested hx hy, hyp, hny⟩
          · exact Or.inl (hself hp)
          · exact Or.inr (hup hp)
        · rw [hqualifies.enums e he, isInside_qualified_iff (henums e he).2] at hinside
          rcases hinside with hp | hp
          · exact Or.inl (hself hp)
          · exact Or.inr (hup hp)

/-! ## Schemas -/

/-- The names of a schema are in order. -/
structure Schema.NamesInOrder (s : Schema) : Prop where
  /-- Messages, and the enums in them, have simple names. -/
  simple : ∀ m ∈ s.allMessages, m.SimplyNamed
  /-- So have the enums at the top level. -/
  enums : ∀ f ∈ s.files, ∀ e ∈ f.enums, SimpleName e.name
  /-- Types have different names. -/
  distinct : s.types.Nodup
  /-- No package has the name of a message, and none goes on after it. -/
  packages : ∀ f ∈ s.files, f.package ≠ "" → ∀ m ∈ s.allMessages,
    "." ++ f.package ≠ m.fullName ∧ ∀ rest, "." ++ f.package ≠ m.fullName ++ "." ++ rest
  /-- Fields that refer to a declaration by name refer to a type of the schema. -/
  references : ∀ m ∈ s.allMessages, ∀ x ∈ m.fields, x.kind.isNamed = true →
    ∃ n ∈ s.types, x.typeName? = some n

theorem flatMap_ownTypes_families (ms : List Message) :
    (families ms).flatMap (·.ownTypes) = ms.flatMap (·.types) := by
  induction ms with
  | nil => rfl
  | cons m rest ih => rw [families_cons, List.flatMap_append, ih, List.flatMap_cons, Message.types]

/-- The messages of a schema are among its types. -/
theorem Schema.map_fullName_sublist_types (s : Schema) :
    (s.allMessages.map (·.fullName)).Sublist s.types := by
  have hown : ∀ ms : List Message, (ms.map (·.fullName)).Sublist (ms.flatMap (·.ownTypes)) := by
    intro ms
    rw [List.map_eq_flatMap]
    exact List.Sublist.flatMap_right ms fun m _ =>
      List.singleton_sublist.mpr List.mem_cons_self
  rw [Schema.allMessages, Schema.types, List.map_flatMap]
  refine List.Sublist.flatMap_right s.files fun f _ => ?_
  rw [File.types, ← flatMap_ownTypes_families]
  exact (hown (families f.messages)).trans (List.sublist_append_left _ _)

section Schema

variable {s : Schema} (hs : s.Built) (h : s.NamesInOrder)
include hs h

theorem Schema.Built.wellScoped {m : Message} (hm : m ∈ s.allMessages) : m.WellScoped := by
  intro x hx
  have hmem : x ∈ s.allMessages := by
    obtain ⟨f, hf, top, htop, hmtop⟩ := Schema.mem_allMessages_iff.mp hm
    have hxtop : x ∈ top.family := Message.mem_family_trans top hmtop hx
    exact Schema.mem_allMessages_iff.mpr ⟨f, hf, top, htop, hxtop⟩
  obtain ⟨ctx, raw, hbuilt⟩ := hs.builtFrom hmem
  exact ⟨hbuilt.qualifies, h.simple x hmem⟩

/-- The ascent does not go on beyond the top level of a file. -/
theorem Schema.Built.not_outside {f : File} (hf : f ∈ s.files) {m : Message}
    (hm : m ∈ s.allMessages) :
    ¬ (m.fullName = packageScope f.package ∨
        isInside m.fullName (packageScope f.package) = true) := by
  by_cases hpackage : f.package = ""
  · rw [packageScope, if_pos hpackage]
    rintro (hempty | hinside)
    · exact hs.fullName_ne_empty hm hempty
    · obtain ⟨rest, hrest⟩ := isInside_iff_exists.mp hinside
      have hchars := congrArg String.toList hrest
      simp at hchars
  · obtain ⟨hne, hrest⟩ := h.packages f hf hpackage m hm
    rw [packageScope, if_neg hpackage]
    rintro (heq | hinside)
    · exact hne heq.symm
    · obtain ⟨rest, heq⟩ := isInside_iff_exists.mp hinside
      exact hrest rest heq

/-- **Names tell what is declared inside**: a type of the schema goes on after the name of a
message exactly if it is declared inside the message. -/
theorem Schema.Built.isInside_iff_mem_innerTypes {m : Message} (hm : m ∈ s.allMessages)
    {n : String} (hn : n ∈ s.types) :
    isInside m.fullName n = true ↔ n ∈ m.innerTypes := by
  constructor
  · intro hinside
    obtain ⟨f, hf, hnf⟩ := List.mem_flatMap.mp hn
    have hqualifies := (hs.files f hf).qualifies
    have houtside := hs.not_outside h hf hm
    rcases List.mem_append.mp hnf with hnm | hne
    · obtain ⟨x, hx, hnx⟩ := List.mem_flatMap.mp hnm
      have hscoped := hs.wellScoped h (Schema.mem_allMessages_of_mem hf hx)
      rcases x.encloses_or_outside hscoped (hqualifies.messages x hx) hnx hinside with
        ⟨y, hy, hname, hny⟩ | hout
      · -- the message met on the way up is `m`, since names are distinct
        have hall : y ∈ s.allMessages := Schema.mem_allMessages_iff.mpr ⟨f, hf, x, hx, hy⟩
        have hdistinct := s.map_fullName_sublist_types.nodup h.distinct
        rwa [List.inj_on_of_nodup_map hdistinct hall hm hname] at hny
      · exact absurd hout houtside
    · obtain ⟨e, he, rfl⟩ := List.mem_map.mp hne
      rw [hqualifies.enums e he, isInside_qualified_iff (h.enums f hf e he).2] at hinside
      exact absurd hinside houtside
  · intro hinner
    exact m.isInside_of_mem_innerTypes (hs.wellScoped h hm) (Or.inl rfl) hinner

end Schema

/-- **The nesting test is exact.** In a schema whose names are in order, a marked message with
exactly one field is kept for the sake of its payload if and only if the payload's type is declared
inside the message, at whatever depth. It can be erased if its payload is of scalar kind, if it
refers to the message itself, and if it refers to any type that is declared elsewhere, however
much of the name the two have in common. -/
theorem nestingTest_exact (marker : String) (generate : List String) (protos : List FileProto)
    (names : (Schema.ofProtos marker generate protos).NamesInOrder) {m : Message}
    (hm : m ∈ (Schema.ofProtos marker generate protos).allMessages) (hmarked : m.marked = true)
    {p : Field} (hp : m.fields = [p]) :
    (m.erasablePayload? = none ↔ ∃ n ∈ m.innerTypes, p.typeName? = some n) ∧
      (p.kind.isNamed = false → m.erasablePayload? = some p) ∧
      (p.typeName? = some m.fullName → m.erasablePayload? = some p) ∧
      ∀ n ∈ (Schema.ofProtos marker generate protos).types, n ∉ m.innerTypes →
        p.typeName? = some n → m.erasablePayload? = some p := by
  have hs := Schema.built_ofProtos marker generate protos
  have hpayload : m.payload? = some p := Message.payload?_eq_some_iff.mpr ⟨hmarked, hp⟩
  have hkept : m.erasablePayload? = none ↔ m.declares p = true := by
    simp only [Message.erasablePayload?, hpayload]
    cases m.declares p with
    | false => simp
    | true => simp
  have herasable : m.declares p = false → m.erasablePayload? = some p := by
    intro hoff
    exact Message.erasablePayload?_eq_some_iff.mpr ⟨hpayload, hoff⟩
  have hpm : p ∈ m.fields := by simp [hp]
  have hdeclares : m.declares p = true ↔ ∃ n ∈ m.innerTypes, p.typeName? = some n := by
    rw [Message.declares_eq_true_iff]
    refine exists_congr fun n => and_comm.trans (and_congr_left fun hn => ?_)
    obtain ⟨n', hn', hname⟩ := names.references m hm p hpm (Field.isNamed_of_typeName? hn)
    obtain rfl : n = n' := Option.some.inj (hn.symm.trans hname)
    exact hs.isInside_iff_mem_innerTypes names hm hn'
  refine ⟨hkept.trans hdeclares, fun hkind => herasable ?_, fun hself => herasable ?_,
    fun n hn hout hname => herasable ?_⟩
  · rw [← Bool.not_eq_true, Message.declares_eq_true_iff]
    rintro ⟨n, hn, -⟩
    rw [Field.isNamed_of_typeName? hn] at hkind
    cases hkind
  · rw [Message.declares, hself]
    exact isInside_self m.fullName
  · rw [← Bool.not_eq_true, hdeclares]
    rintro ⟨n', hn', hname'⟩
    rw [Option.some.inj (hname'.symm.trans hname)] at hn'
    exact hout hn'

/-- A file with two aliases: the payload of `Tags` is declared two levels inside it, and that of
`Tag` is `Tags`, of which the name only starts with the same characters. -/
def tagsProto : FileProto where
  name := some "tags.proto"
  package := some "shop"
  syntaxName := some "proto3"
  messageType :=
    [{ name := some "Tags"
       field := [{ name := some "order", number := some 1, label := some 1, type := some 14
                   typeName := some ".shop.Tags.Index.Order" }]
       nestedType :=
        [{ name := some "Index"
           enumType :=
            [{ name := some "Order", value := [{ name := some "ANY", number := some 0 }] }] }] },
     { name := some "Tag"
       field := [{ name := some "tags", number := some 1, label := some 1, type := some 11
                   typeName := some ".shop.Tags" }] }]
  sourceCodeInfo := some
    { location :=
        [{ path := [4, 0], leadingComments := some " protobuf:alias\n" },
         { path := [4, 1], leadingComments := some " protobuf:alias\n" }] }

/-- The schema of `tagsProto`. -/
def tagsSchema : Schema := Schema.ofProto tagsProto

/-- The file of `tagsSchema`. -/
def tagsFile : File := buildFile defaultMarker true tagsProto

theorem tagsSchema_files : tagsSchema.files = [tagsFile] := Schema.files_ofProto _

theorem tagsSchema_types : tagsSchema.types =
    [".shop.Tags.Index", ".shop.Tags.Index.Order", ".shop.Tags", ".shop.Tag"] := by
  rw [Schema.types, tagsSchema_files]
  rfl

theorem tagsSchema_allMessages : tagsSchema.allMessages = families tagsFile.messages := by
  rw [Schema.allMessages, tagsSchema_files, List.flatMap_singleton]

theorem tagsSchema_namesInOrder : tagsSchema.NamesInOrder := by
  constructor
  case simple =>
    have hsimple : ∀ m ∈ families tagsFile.messages,
        SimpleName m.name ∧ ∀ e ∈ m.enums, SimpleName e.name := by decide
    intro m hm
    rw [tagsSchema_allMessages] at hm
    exact ⟨(hsimple m hm).1, (hsimple m hm).2⟩
  case enums =>
    rw [tagsSchema_files]
    decide
  case distinct =>
    rw [tagsSchema_types]
    decide
  case packages =>
    have hpackage : ∀ m ∈ families tagsFile.messages, "." ++ tagsFile.package ≠ m.fullName ∧
        isInside m.fullName ("." ++ tagsFile.package) = false := by decide
    intro f hf _ m hm
    rw [tagsSchema_files, List.mem_singleton] at hf
    rw [tagsSchema_allMessages] at hm
    subst hf
    obtain ⟨hne, houtside⟩ := hpackage m hm
    refine ⟨hne, fun rest heq => ?_⟩
    rw [isInside_iff_exists.mpr ⟨rest, heq⟩] at houtside
    cases houtside
  case references =>
    rw [tagsSchema_types, tagsSchema_allMessages]
    decide

/-- The alias `Tags`, and its payload. -/
theorem tagsFile_tags : ∃ m ∈ tagsSchema.allMessages, ∃ p, m.marked = true ∧ m.fields = [p] ∧
    p.typeName? = some ".shop.Tags.Index.Order" ∧ ".shop.Tags.Index.Order" ∈ m.innerTypes := by
  rw [tagsSchema_allMessages]
  exact ⟨_, List.mem_of_getElem? (i := 1) rfl, _, rfl, rfl, rfl, by decide⟩

theorem nestingTest_exact_tags :
    tagsSchema.NamesInOrder ∧ ∃ m ∈ tagsSchema.allMessages, ∃ p, m.marked = true ∧
      m.fields = [p] ∧ p.typeName? = some ".shop.Tags.Index.Order" ∧
      (m.erasablePayload? = none ↔ ∃ n ∈ m.innerTypes, p.typeName? = some n) ∧
      (p.kind.isNamed = false → m.erasablePayload? = some p) ∧
      (p.typeName? = some m.fullName → m.erasablePayload? = some p) ∧
      (∀ n ∈ tagsSchema.types, n ∉ m.innerTypes →
        p.typeName? = some n → m.erasablePayload? = some p) ∧
      m.erasablePayload? = none := by
  obtain ⟨m, hm, p, hmarked, hp, hname, hinner⟩ := tagsFile_tags
  obtain ⟨hkept, hscalar, hself, helsewhere⟩ :=
    nestingTest_exact _ _ _ tagsSchema_namesInOrder hm hmarked hp
  exact ⟨tagsSchema_namesInOrder, m, hm, p, hmarked, hp, hname, hkept, hscalar, hself, helsewhere,
    hkept.mpr ⟨_, hinner, hname⟩⟩

/-- `Tags` is kept, and `Tag` can be erased. -/
example : tagsFile.messages.map (·.isErasable) = [false, true] := rfl

end AliasErasure
