import AliasErasure.Proofs.Schema.Declared
import Mathlib.Algebra.Group.Nat.Defs

set_option autoImplicit false

/-! # The tree that a model is

The model of a file is a tree of the same shape as its descriptor: whatever positions lead to a
message lead to its descriptor, and fields, enums and oneofs stand in the same order. A message has
the package and the names of all messages on the way as its qualified name.

Comments are found by paths. In a path, the number 4 leads to a message at the top level but to an
enum inside a message, so it is not evident that no two declarations share a path. They do not
(`DeclSite.path_inj`), since it can be told from a path where the nested messages end. The paths
below consist of integers without bounds. Those of the descriptor format have 32 bits, and denote
the same integers as long as the lists of the descriptor are not longer than that
(`map_toInt_nestedSteps`).
-/

namespace AliasErasure

open Descriptor (EnumProto FieldProto FileProto Location MessageProto)

/-! ## Declarations and their paths -/

/-- What has comments in a message: the message itself, its fields and its enums. -/
inductive MessagePart
  | whole
  | field (j : Nat)
  | enum (e : Nat)
  deriving DecidableEq, Repr

/-- Where a declaration stands: it is an enum at the top level, or part of the message that nested
positions lead to from the top-level message at position `i`. -/
inductive DeclSite
  | enum (e : Nat)
  | inside (i : Nat) (inner : List Nat) (p : MessagePart)
  deriving DecidableEq, Repr

/-- The steps into nested messages. -/
def nestedPath (inner : List Nat) : List Int := inner.flatMap fun k => [3, (k : Int)]

/-- The last steps of a path, from a message to a part of it. -/
def MessagePart.path : MessagePart → List Int
  | .whole => []
  | .field j => [2, j]
  | .enum e => [4, e]

/-- The path to a declaration: field numbers of the descriptor format and positions. -/
def DeclSite.path : DeclSite → List Int
  | .enum e => [5, e]
  | .inside i inner p => [4, (i : Int)] ++ nestedPath inner ++ p.path

theorem MessagePart.path_inj {a b : MessagePart} (h : a.path = b.path) : a = b := by
  cases a with
  | whole =>
      cases b with
      | whole => rfl
      | _ => cases h
  | field j =>
      cases b with
      | field j' => rw [Int.ofNat_inj.mp (List.cons.inj (List.cons.inj h).2).1]
      | _ => cases h
  | enum e =>
      cases b with
      | enum e' => rw [Int.ofNat_inj.mp (List.cons.inj (List.cons.inj h).2).1]
      | _ => cases h

theorem MessagePart.head?_path (a : MessagePart) : a.path.head? ≠ some 3 := by
  cases a <;> simp [MessagePart.path]

/-- It can be told from a path where nested messages end: no other step has the number 3. -/
theorem nestedPath_append_inj {p q : List Nat} {s t : List Int} (hs : s.head? ≠ some 3)
    (ht : t.head? ≠ some 3) (h : nestedPath p ++ s = nestedPath q ++ t) : p = q ∧ s = t := by
  induction p generalizing q with
  | nil =>
      cases q with
      | nil => exact ⟨rfl, h⟩
      | cons k q =>
          have hs' : s = [3, (k : Int)] ++ (nestedPath q ++ t) := by simpa [nestedPath] using h
          exact absurd (by rw [hs']; rfl) hs
  | cons k p ih =>
      cases q with
      | nil =>
          have ht' : t = [3, (k : Int)] ++ (nestedPath p ++ s) := by
            simpa [nestedPath] using h.symm
          exact absurd (by rw [ht']; rfl) ht
      | cons k' q =>
          have hcons : (k : Int) = k' ∧ nestedPath p ++ s = nestedPath q ++ t := by
            simpa [nestedPath] using h
          obtain ⟨rfl, rfl⟩ := ih hcons.2
          exact ⟨by rw [Int.ofNat_inj.mp hcons.1], rfl⟩

/-- **No two declarations share a path.** -/
theorem DeclSite.path_inj {a b : DeclSite} (h : a.path = b.path) : a = b := by
  cases a with
  | enum e =>
      cases b with
      | enum e' => simpa [DeclSite.path, Int.ofNat_inj] using h
      | inside i inner p => simp [DeclSite.path] at h
  | inside i inner p =>
      cases b with
      | enum e => simp [DeclSite.path] at h
      | inside i' inner' p' =>
          have hcons : (i : Int) = i' ∧
              nestedPath inner ++ p.path = nestedPath inner' ++ p'.path := by
            simpa [DeclSite.path] using h
          obtain ⟨rfl, hp⟩ := nestedPath_append_inj p.head?_path p'.head?_path hcons.2
          rw [Int.ofNat_inj.mp hcons.1, MessagePart.path_inj hp]

/-! ## Comments -/

/-- The comments are those of the last location whose path is this list of integers; without such
a location there are none. -/
inductive CommentsOf (locations : List Location) (path : List Int) : Comments → Prop
  | last {before after : List Location} {l : Location} (h : locations = before ++ l :: after)
      (hpath : l.path.map Int32.toInt = path)
      (hlast : ∀ x ∈ after, x.path.map Int32.toInt ≠ path) :
      CommentsOf locations path ⟨l.leadingComments.getD "", l.trailingComments.getD ""⟩
  | none (h : ∀ l ∈ locations, l.path.map Int32.toInt ≠ path) : CommentsOf locations path {}

theorem map_toInt_inj {p q : List Int32} : p.map Int32.toInt = q.map Int32.toInt ↔ p = q :=
  (List.map_injective_iff.mpr fun _ _ h => Int32.toInt_inj.mp h).eq_iff

/-- A list is split by the last element with a property. -/
theorem exists_of_getLast?_filter {α : Type} {p : α → Bool} {l : List α} {a : α}
    (h : (l.filter p).getLast? = some a) :
    ∃ before after, l = before ++ a :: after ∧ p a = true ∧ ∀ x ∈ after, p x = false := by
  rw [List.getLast?_eq_head?_reverse, ← List.filter_reverse, List.head?_filter,
    List.find?_eq_some_iff_append] at h
  obtain ⟨ha, after, before, hsplit, hafter⟩ := h
  refine ⟨before.reverse, after.reverse, ?_, ha, fun x hx => ?_⟩
  · rw [← List.reverse_reverse l, hsplit]
    simp
  · simpa using hafter x (List.mem_reverse.mp hx)

theorem commentsOf_commentsAt (locations : List Location) (path : List Int32) :
    CommentsOf locations (path.map Int32.toInt) (commentsAt locations path) := by
  rw [commentsAt]
  split
  next l hlast =>
    obtain ⟨before, after, hsplit, hl, hafter⟩ := exists_of_getLast?_filter hlast
    refine CommentsOf.last hsplit ?_ fun x hx hxpath => ?_
    · rw [beq_iff_eq.mp hl]
    · rw [map_toInt_inj] at hxpath
      have hne := hafter x hx
      simp [hxpath] at hne
  next hnone =>
    refine CommentsOf.none fun l hl hpath => ?_
    rw [List.getLast?_eq_none_iff, List.filter_eq_nil_iff] at hnone
    exact hnone l hl (beq_iff_eq.mpr (map_toInt_inj.mp hpath))

/-! ## The marker -/

theorem Text.occursIn_iff {needle cs : List Char} :
    Text.occursIn needle cs = true ↔ needle <:+: cs := by
  induction cs with
  | nil => simp [Text.occursIn]
  | cons c rest ih =>
      rw [Text.occursIn, Bool.or_eq_true, List.isPrefixOf_iff_prefix, ih, List.infix_cons_iff]

theorem hasMarker_iff {marker comment : String} :
    hasMarker marker comment = true ↔ marker ≠ "" ∧ marker.toList <:+: comment.toList := by
  simp [hasMarker, Text.occursIn_iff]

/-! ## What nested positions lead to -/

/-- The descriptor that nested positions lead to. -/
def Descriptor.MessageProto.descend? : MessageProto → List Nat → Option MessageProto
  | raw, [] => some raw
  | raw, k :: inner =>
      match raw.nestedType[k]? with
      | some x => x.descend? inner
      | none => none

/-- The names of the messages on the way, the one that nested positions start from included. -/
def Descriptor.MessageProto.wayNames : MessageProto → List Nat → List String
  | raw, [] => [raw.name.getD ""]
  | raw, k :: inner =>
      raw.name.getD "" ::
        match raw.nestedType[k]? with
        | some x => x.wayNames inner
        | none => []

/-- Names one after the other, each after a dot. -/
def dotted (names : List String) : String := String.join (names.map fun n => "." ++ n)

theorem dotted_cons (n : String) (names : List String) :
    dotted (n :: names) = "." ++ n ++ dotted names := by
  simp [dotted, String.join_cons]

theorem getElem?_buildNested (ctx : FileContext) (scope : String) (path : List Int32)
    (raws : List MessageProto) (k : Nat) : ∀ i,
    (buildNested ctx scope path i raws)[k]?
      = (raws[k]?).map (buildMessage ctx scope (path ++ nestedStep (i + k))) := by
  induction raws generalizing k with
  | nil => intro i; rfl
  | cons raw rest ih =>
      intro i
      cases k with
      | zero => rfl
      | succ k =>
          rw [buildNested, List.getElem?_cons_succ, List.getElem?_cons_succ, ih, Nat.add_assoc,
            Nat.add_comm 1]

/-- Nested messages stand where their descriptors stand. -/
theorem getElem?_nested_buildMessage (ctx : FileContext) (scope : String) (path : List Int32)
    (raw : MessageProto) (k : Nat) :
    (buildMessage ctx scope path raw).nested[k]?
      = (raw.nestedType[k]?).map
          (buildMessage ctx (scope ++ "." ++ raw.name.getD "") (path ++ nestedStep k)) := by
  rw [buildMessage_eq, getElem?_buildNested, Nat.zero_add]

/-- Top-level messages stand where their descriptors stand. -/
theorem getElem?_messages_buildFile (marker : String) (generate : Bool) (f : FileProto) (i : Nat) :
    (buildFile marker generate f).messages[i]?
      = (f.messageType[i]?).map
          (buildMessage (contextOf marker f) (packageScope (f.package.getD "")) (messageStep i)) :=
  List.getElem?_mapIdx

theorem length_buildNested (ctx : FileContext) (scope : String) (path : List Int32)
    (raws : List MessageProto) : ∀ i, (buildNested ctx scope path i raws).length = raws.length := by
  induction raws with
  | nil => intro i; rfl
  | cons raw rest ih => intro i; rw [buildNested, List.length_cons, List.length_cons, ih]

/-- The message `m` is the one built from the descriptor `r`, which nested positions lead to from a
descriptor with the names `names` on the way. -/
def Message.BuiltWithin (ctx : FileContext) (scope : String) (names : List String)
    (path : List Int32) (m : Message) (r : MessageProto) : Prop :=
  ∃ scope', scope' ++ "." ++ r.name.getD "" = scope ++ dotted names ∧
    m = buildMessage ctx scope' path r

/-- **Positions lead to a message and to its descriptor**, or to neither. -/
theorem rel_descend?_buildMessage (ctx : FileContext) (inner : List Nat) :
    ∀ (scope : String) (path : List Int32) (raw : MessageProto),
      Option.Rel
        (Message.BuiltWithin ctx scope (raw.wayNames inner) (path ++ inner.flatMap nestedStep))
        ((buildMessage ctx scope path raw).descend? inner) (raw.descend? inner) := by
  induction inner with
  | nil =>
      intro scope path raw
      refine Option.Rel.some ⟨scope, ?_, ?_⟩
      · simp [MessageProto.wayNames, dotted, String.append_assoc]
      · simp
  | cons k inner ih =>
      intro scope path raw
      -- what is built within the nested message `x` is built within `raw`, one step further
      have hsame : ∀ x : MessageProto,
          Message.BuiltWithin ctx (scope ++ "." ++ raw.name.getD "") (x.wayNames inner)
              (path ++ nestedStep k ++ inner.flatMap nestedStep)
            = Message.BuiltWithin ctx scope (raw.name.getD "" :: x.wayNames inner)
              (path ++ (k :: inner).flatMap nestedStep) := by
        intro x
        funext m r
        simp only [Message.BuiltWithin, dotted_cons, List.flatMap_cons, List.append_assoc,
          String.append_assoc]
      rw [Message.descend?, MessageProto.descend?, getElem?_nested_buildMessage,
        MessageProto.wayNames]
      cases raw.nestedType[k]? with
      | none => exact Option.Rel.none
      | some x =>
          simp only [Option.map_some]
          rw [← hsame]
          exact ih _ _ x

/-! ## Bounded lists -/

/-- The lists of a descriptor whose positions occur in paths are shorter than `2 ^ 31`. -/
structure Descriptor.FileProto.Bounded (f : FileProto) : Prop where
  messageType : f.messageType.length < 2 ^ 31
  enumType : f.enumType.length < 2 ^ 31
  nestedType : ∀ raw ∈ Descriptor.families f.messageType, raw.nestedType.length < 2 ^ 31
  field : ∀ raw ∈ Descriptor.families f.messageType, raw.field.length < 2 ^ 31
  nestedEnum : ∀ raw ∈ Descriptor.families f.messageType, raw.enumType.length < 2 ^ 31

theorem Descriptor.self_mem_family (raw : MessageProto) : raw ∈ raw.family := by
  rw [MessageProto.family_eq]
  simp

/-- A position in a list is below any bound of its length. -/
theorem lt_of_getElem?_eq_some {α : Type} {l : List α} {k n : Nat} {a : α} (h : l[k]? = some a)
    (hl : l.length < n) : k < n :=
  Nat.lt_trans (List.getElem?_eq_some_iff.mp h).1 hl

/-- Positions that lead to a descriptor are bounded if lists are. -/
theorem lt_of_descend? {r : MessageProto} (inner : List Nat) :
    ∀ {raw : MessageProto}, raw.descend? inner = some r →
      (∀ x ∈ raw.family, x.nestedType.length < 2 ^ 31) →
      r ∈ raw.family ∧ ∀ k ∈ inner, k < 2 ^ 31 := by
  induction inner with
  | nil =>
      intro raw h _
      cases h
      exact ⟨Descriptor.self_mem_family r, by simp⟩
  | cons k inner ih =>
      intro raw h hbounded
      rw [MessageProto.descend?] at h
      split at h
      next x hx =>
        have hfamily : ∀ y ∈ x.family, y ∈ raw.family := by
          intro y hy
          rw [raw.family_eq]
          exact List.mem_append_left _
            (Descriptor.mem_families.mpr ⟨x, List.mem_of_getElem? hx, hy⟩)
        obtain ⟨hr, hinner⟩ := ih h fun y hy => hbounded y (hfamily y hy)
        refine ⟨hfamily r hr, fun i hi => ?_⟩
        rcases List.mem_cons.mp hi with rfl | hi'
        · exact lt_of_getElem?_eq_some hx (hbounded raw (Descriptor.self_mem_family raw))
        · exact hinner i hi'
      next => cases h

/-- A position below `2 ^ 31` is denoted by the index of 32 bits. -/
theorem map_toInt_step (n : Int32) {i : Nat} (hi : i < 2 ^ 31) :
    [n, Int32.ofNat i].map Int32.toInt = [n.toInt, (i : Int)] := by
  simp [Int32.toInt_ofNat_of_lt hi]

theorem map_toInt_nestedSteps {inner : List Nat} (h : ∀ k ∈ inner, k < 2 ^ 31) :
    (inner.flatMap nestedStep).map Int32.toInt = nestedPath inner := by
  induction inner with
  | nil => rfl
  | cons k inner ih =>
      rw [List.flatMap_cons, List.map_append, ih fun i hi => h i (by simp [hi]), nestedStep,
        map_toInt_step 3 (h k (by simp))]
      rfl

/-! ## Lists that correspond by position -/

/-- Two lists are equally long, and related at every position. -/
def Positionwise {α β : Type} (R : Nat → α → β → Prop) (as : List α) (bs : List β) : Prop :=
  as.length = bs.length ∧ ∀ i a b, as[i]? = some a → bs[i]? = some b → R i a b

theorem positionwise_mapIdx {α β : Type} {R : Nat → α → β → Prop} {g : Nat → β → α} {bs : List β}
    (h : ∀ i b, bs[i]? = some b → R i (g i b) b) : Positionwise R (bs.mapIdx g) bs := by
  refine ⟨List.length_mapIdx, fun i a b ha hb => ?_⟩
  rw [List.getElem?_mapIdx, hb] at ha
  cases ha
  exact h i b hb

theorem positionwise_map {α β : Type} {R : Nat → α → β → Prop} {g : β → α} {bs : List β}
    (h : ∀ i b, R i (g b) b) : Positionwise R (bs.map g) bs := by
  refine ⟨List.length_map g, fun i a b ha hb => ?_⟩
  rw [List.getElem?_map, hb] at ha
  cases ha
  exact h i b

/-! ## What a model takes from its descriptor -/

/-- The locations of a file. -/
def Descriptor.FileProto.locations (f : FileProto) : List Location :=
  (f.sourceCodeInfo.map (·.location)).getD []

/-- The comments of what stands at a site are those of the location with its path. -/
def Descriptor.FileProto.CommentsAt (f : FileProto) (site : DeclSite) (c : Comments) : Prop :=
  CommentsOf f.locations site.path c

/-- A field has the name, number and comments of its descriptor. -/
structure Field.BuiltAt (f : FileProto) (site : DeclSite) (x : Field) (r : FieldProto) :
    Prop where
  name : x.name = r.name.getD ""
  number : x.number = r.number.getD 0
  comments : f.CommentsAt site x.comments

/-- An enum has the name, values and comments of its descriptor. -/
structure EnumType.BuiltAt (f : FileProto) (scope : String) (site : DeclSite) (e : EnumType)
    (r : EnumProto) : Prop where
  name : e.name = r.name.getD ""
  fullName : e.fullName = scope ++ "." ++ r.name.getD ""
  values : Positionwise (fun _ v p => v.name = p.name.getD "" ∧ v.number = p.number.getD 0)
    e.values r.value
  comments : f.CommentsAt site e.comments

/-- A message has the shape of its descriptor, the names of all messages on the way, and the
comments of its own path. -/
structure Message.BuiltAt (f : FileProto) (marker : String) (i : Nat) (inner : List Nat)
    (m : Message) (raw : MessageProto) : Prop where
  name : m.name = raw.name.getD ""
  fullName : ∃ top, f.messageType[i]? = some top ∧
    m.fullName = packageScope (f.package.getD "") ++ dotted (top.wayNames inner)
  comments : f.CommentsAt (.inside i inner .whole) m.comments
  marked : m.marked = true ↔ marker ≠ "" ∧ marker.toList <:+: m.comments.leading.toList
  fields : Positionwise (fun j => Field.BuiltAt f (.inside i inner (.field j))) m.fields raw.field
  oneofs : Positionwise (fun _ o r => o.name = r.name.getD "") m.oneofs raw.oneofDecl
  nested : m.nested.length = raw.nestedType.length
  enums : Positionwise (fun e => EnumType.BuiltAt f m.fullName (.inside i inner (.enum e)))
    m.enums raw.enumType

section BuiltAt

variable {f : FileProto} {marker : String}

theorem commentsAt_of_toInt {site : DeclSite} {path : List Int32}
    (h : path.map Int32.toInt = site.path) :
    f.CommentsAt site (commentsAt (contextOf marker f).locations path) := by
  rw [FileProto.CommentsAt, ← h]
  exact commentsOf_commentsAt _ _

theorem buildField_builtAt {site : DeclSite} {path : List Int32}
    (h : path.map Int32.toInt = site.path) (r : FieldProto) :
    (buildField (contextOf marker f) path r).BuiltAt f site r :=
  ⟨rfl, rfl, commentsAt_of_toInt h⟩

theorem buildEnum_builtAt {site : DeclSite} {path : List Int32}
    (h : path.map Int32.toInt = site.path) (scope : String) (r : EnumProto) :
    (buildEnum (contextOf marker f) scope path r).BuiltAt f scope site r :=
  ⟨rfl, rfl, positionwise_map fun _ _ => ⟨rfl, rfl⟩, commentsAt_of_toInt h⟩

/-- **A message takes from its descriptor what stands at its path**, given that the path denotes
the right integers and that positions of fields and enums are bounded. -/
theorem buildMessage_builtAt {i : Nat} {inner : List Nat} {top raw : MessageProto}
    {scope : String} {path : List Int32} (htop : f.messageType[i]? = some top)
    (hscope : scope ++ "." ++ raw.name.getD ""
      = packageScope (f.package.getD "") ++ dotted (top.wayNames inner))
    (hpath : path.map Int32.toInt = (DeclSite.inside i inner .whole).path)
    (hfield : raw.field.length < 2 ^ 31) (henum : raw.enumType.length < 2 ^ 31) :
    (buildMessage (contextOf marker f) scope path raw).BuiltAt f marker i inner raw := by
  have hpart : ∀ (n : Int32) (k : Nat) (p : MessagePart), k < 2 ^ 31 →
      [n.toInt, (k : Int)] = p.path →
      (path ++ [n, Int32.ofNat k]).map Int32.toInt = (DeclSite.inside i inner p).path := by
    intro n k p hk hp
    rw [List.map_append, hpath, map_toInt_step n hk, hp]
    simp [DeclSite.path, MessagePart.path]
  rw [buildMessage_eq]
  constructor
  case name => rfl
  case fullName => exact ⟨top, htop, hscope⟩
  case comments => exact commentsAt_of_toInt hpath
  case marked => exact hasMarker_iff
  case fields =>
    exact positionwise_mapIdx fun j r hr =>
      buildField_builtAt (hpart 2 j (.field j) (lt_of_getElem?_eq_some hr hfield) rfl) r
  case oneofs => exact positionwise_mapIdx fun _ _ _ => rfl
  case nested => exact length_buildNested _ _ _ _ 0
  case enums =>
    exact positionwise_mapIdx fun e r hr =>
      buildEnum_builtAt (hpart 4 e (.enum e) (lt_of_getElem?_eq_some hr henum) rfl) _ r

end BuiltAt

/-- The descriptor that positions lead to from the top-level messages. -/
def Descriptor.MessageProto.atPath? (raws : List MessageProto) : List Nat → Option MessageProto
  | [] => none
  | i :: inner => raws[i]?.bind (·.descend? inner)

/-- Related results stay related by what can be said of them besides. -/
theorem rel_imp {α β : Type} {R S : α → β → Prop} {a : Option α} {b : Option β}
    (h : Option.Rel R a b) (himp : ∀ x y, b = some y → R x y → S x y) : Option.Rel S a b := by
  cases h with
  | some h => exact Option.Rel.some (himp _ _ rfl h)
  | none => exact Option.Rel.none

/-- **The model of a file is the tree of its descriptor.** As long as lists are bounded, positions
lead to a message of the model exactly if they lead to one of the descriptor; the message then has
the shape of its descriptor, the names on the way, and the comments of the last location with its
path, as have its fields and its enums; it is marked exactly if its leading comment contains the
marker, which is not empty. The same holds of the enums of the file. No two declarations share a
path, so none has the comments of another. -/
theorem buildFile_tree (marker : String) (generate : Bool) (f : FileProto) (hf : f.Bounded) :
    (buildFile marker generate f).messages.length = f.messageType.length ∧
      (∀ i inner, Option.Rel (Message.BuiltAt f marker i inner)
        (Message.atPath? (buildFile marker generate f).messages (i :: inner))
        (MessageProto.atPath? f.messageType (i :: inner))) ∧
      Positionwise
        (fun e => EnumType.BuiltAt f (packageScope (f.package.getD "")) (.enum e))
        (buildFile marker generate f).enums f.enumType ∧
      ∀ a b : DeclSite, a.path = b.path → a = b := by
  refine ⟨List.length_mapIdx, fun i inner => ?_, ?_, fun a b => DeclSite.path_inj⟩
  · rw [Message.atPath?, MessageProto.atPath?, getElem?_messages_buildFile]
    cases htop : f.messageType[i]? with
    | none => exact Option.Rel.none
    | some top =>
        refine rel_imp (rel_descend?_buildMessage _ inner _ _ top) ?_
        rintro m raw hraw ⟨scope, hscope, rfl⟩
        -- all descriptors on the way and inside are among those whose lists are bounded
        have hfamily : ∀ x ∈ top.family, x ∈ Descriptor.families f.messageType :=
          fun x hx => Descriptor.mem_families.mpr ⟨top, List.mem_of_getElem? htop, hx⟩
        obtain ⟨hmem, hinner⟩ :=
          lt_of_descend? inner hraw fun x hx => hf.nestedType x (hfamily x hx)
        have hi : i < 2 ^ 31 := lt_of_getElem?_eq_some htop hf.messageType
        refine buildMessage_builtAt htop hscope ?_ (hf.field raw (hfamily raw hmem))
          (hf.nestedEnum raw (hfamily raw hmem))
        rw [List.map_append, map_toInt_nestedSteps hinner, messageStep, map_toInt_step 4 hi]
        simp [DeclSite.path, MessagePart.path]
  · refine positionwise_mapIdx fun e r hr => buildEnum_builtAt ?_ _ r
    rw [enumStep, map_toInt_step 5 (lt_of_getElem?_eq_some hr hf.enumType)]
    rfl

/-- A file in which the number 4 stands for a message and for an enum inside it; the message
`Menu` has two locations, and `Dish` is marked. -/
def menusProto : FileProto where
  name := some "menus.proto"
  package := some "shop"
  syntaxName := some "proto3"
  messageType :=
    [{ name := some "Menu"
       field := [{ name := some "course", number := some 1, label := some 1, type := some 14
                   typeName := some ".shop.Menu.Course" }]
       nestedType :=
        [{ name := some "Dish"
           field := [{ name := some "title", number := some 1, label := some 1, type := some 9 }] }]
       enumType := [{ name := some "Course", value := [{ name := some "MAIN", number := some 0 }] }]
     }]
  sourceCodeInfo := some
    { location :=
        [{ path := [4, 0], leadingComments := some " An old menu.\n" },
         { path := [4, 0, 2, 0], trailingComments := some " As on the card.\n" },
         { path := [4, 0, 3, 0], leadingComments := some " protobuf:alias\n" },
         { path := [4, 0, 4, 0], leadingComments := some " A course.\n" },
         { path := [4, 0], leadingComments := some " A menu.\n" }] }

theorem menusProto_bounded : menusProto.Bounded := by
  constructor <;> simp [menusProto, Descriptor.families, MessageProto.family]

theorem buildFile_tree_menus :
    menusProto.Bounded ∧
      (buildFile defaultMarker true menusProto).messages.length = menusProto.messageType.length ∧
      (∀ i inner, Option.Rel (Message.BuiltAt menusProto defaultMarker i inner)
        (Message.atPath? (buildFile defaultMarker true menusProto).messages (i :: inner))
        (MessageProto.atPath? menusProto.messageType (i :: inner))) ∧
      Positionwise
        (fun e => EnumType.BuiltAt menusProto (packageScope (menusProto.package.getD "")) (.enum e))
        (buildFile defaultMarker true menusProto).enums menusProto.enumType ∧
      ∀ a b : DeclSite, a.path = b.path → a = b :=
  ⟨menusProto_bounded, buildFile_tree defaultMarker true menusProto menusProto_bounded⟩

end AliasErasure
