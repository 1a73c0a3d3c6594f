import AliasErasure.Schema.Index
import Mathlib.Data.List.Forall2
import Mathlib.Data.List.Nodup
import Mathlib.Data.List.Pairwise

set_option autoImplicit false

/-! # The index agrees with a search

`Message.family` lists a message with all messages nested in it, at every depth and in index
order. Looking up a name in the index of a schema is the same as searching all families for the
last message of that name (`Schema.message?_eq_getLast?`). From here on nothing has to look into
the index again: where names are distinct every message is found under its name
(`Schema.message?_fullName`), and what is found is a message of the schema
(`Schema.mem_allMessages_of_message?`).
-/

namespace AliasErasure

/-! ## Families -/

mutual

/-- A message with all messages nested in it: the nested ones first, as in the index. -/
def Message.family : Message → List Message
  | m@{ nested := nested, .. } => families nested ++ [m]

/-- The families of some messages, one after the other. -/
def families : List Message → List Message
  | [] => []
  | m :: rest => m.family ++ families rest

end

/-- What holds of a message as soon as it holds of those nested in it holds of all messages. -/
@[elab_as_elim]
theorem Message.nestedInduction {P : Message → Prop}
    (step : ∀ m : Message, (∀ x ∈ m.nested, P x) → P m) (m : Message) : P m := by
  induction m using Message.rec (motive_2 := fun ms => ∀ x ∈ ms, P x) with
  | mk _ _ _ _ _ _ _ _ _ ih => exact step _ ih
  | nil => cases ‹_ ∈ []›
  | cons m rest ihm ihrest x hx =>
      rcases List.mem_cons.mp hx with rfl | hx'
      · exact ihm
      · exact ihrest x hx'

theorem Message.family_eq (m : Message) : m.family = families m.nested ++ [m] := by
  cases m; rfl

theorem families_cons (m : Message) (rest : List Message) :
    families (m :: rest) = m.family ++ families rest := rfl

theorem Message.self_mem_family (m : Message) : m ∈ m.family := by
  rw [m.family_eq]
  simp

theorem mem_families {x : Message} {ms : List Message} :
    x ∈ families ms ↔ ∃ m ∈ ms, x ∈ m.family := by
  induction ms with
  | nil => simp [families]
  | cons m rest ih => rw [families_cons, List.mem_append, ih]; simp

theorem Message.mem_family_of_nested {m x y : Message} (hx : x ∈ m.nested) (hy : y ∈ x.family) :
    y ∈ m.family := by
  rw [m.family_eq]
  exact List.mem_append_left _ (mem_families.mpr ⟨x, hx, hy⟩)

theorem Message.mem_family_trans {x y : Message} (m : Message) (hx : x ∈ m.family)
    (hy : y ∈ x.family) : y ∈ m.family := by
  induction m using Message.nestedInduction with
  | step m ih =>
      rw [m.family_eq, List.mem_append, List.mem_singleton] at hx
      rcases hx with hinner | rfl
      · obtain ⟨z, hz, hxz⟩ := mem_families.mp hinner
        exact Message.mem_family_of_nested hz (ih z hz hxz)
      · exact hy

/-- All messages of a schema, nested ones included, in index order. -/
def Schema.allMessages (s : Schema) : List Message := s.files.flatMap fun f => families f.messages

theorem Schema.mem_allMessages_iff {s : Schema} {x : Message} :
    x ∈ s.allMessages ↔ ∃ f ∈ s.files, ∃ m ∈ f.messages, x ∈ m.family := by
  simp only [Schema.allMessages, List.mem_flatMap, mem_families]

theorem Schema.mem_allMessages_of_mem {s : Schema} {f : File} {m : Message} (hf : f ∈ s.files)
    (hm : m ∈ f.messages) : m ∈ s.allMessages :=
  Schema.mem_allMessages_iff.mpr ⟨f, hf, m, hm, m.self_mem_family⟩

/-- Only one element of a list contributes a given value, if values are not repeated. -/
theorem eq_of_nodup_flatMap {α β : Type} {values : α → List β} {l : List α}
    (h : (l.flatMap values).Nodup) {a b : α} (ha : a ∈ l) (hb : b ∈ l) {x : β}
    (hxa : x ∈ values a) (hxb : x ∈ values b) : a = b := by
  have : Std.Symm (Function.onFun List.Disjoint values) := ⟨fun _ _ h _ hb ha => h ha hb⟩
  by_contra hne
  exact ((List.nodup_flatMap.mp h).2.forall ha hb hne) hxa hxb

/-! ## Places lead where they should -/

/-- The entry `e` of an index names `x` and leads to it: its path goes on after `path` in a way
that `reach` follows to `x`. -/
def LeadsTo (file : Nat) (path : List Nat) (reach : List Nat → Option Message)
    (e : String × MessagePlace) (x : Message) : Prop :=
  e.1 = x.fullName ∧ e.2.file = file ∧ ∃ rest, e.2.path = path ++ rest ∧ reach rest = some x

theorem Message.places_eq (file : Nat) (path : List Nat) (m : Message) :
    m.places file path = nestedPlaces file path 0 m.nested ++ [(m.fullName, ⟨file, path⟩)] := by
  cases m; rfl

theorem Message.descend?_cons (m : Message) (i : Nat) (path : List Nat) :
    m.descend? (i :: path) = Message.atPath? m.nested (i :: path) := by
  simp only [Message.descend?, Message.atPath?]
  cases m.nested[i]? <;> rfl

/-- One step into the message at position `before.length`. -/
theorem Message.atPath?_append_cons (before : List Message) (m : Message) (after : List Message)
    (path : List Nat) :
    Message.atPath? (before ++ m :: after) (before.length :: path) = m.descend? path := by
  simp [Message.atPath?]

/-- The places of a list of messages that follows `before`, provided the places of each message
are right. -/
theorem forall₂_nestedPlaces (file : Nat) (path : List Nat) (ms : List Message)
    (each : ∀ m ∈ ms, ∀ p, List.Forall₂ (LeadsTo file p m.descend?) (m.places file p) m.family) :
    ∀ before : List Message,
      List.Forall₂ (LeadsTo file path (Message.atPath? (before ++ ms)))
        (nestedPlaces file path before.length ms) (families ms) := by
  induction ms with
  | nil => intro before; exact List.Forall₂.nil
  | cons m rest ih =>
      intro before
      -- `m` stands at position `before.length`, and then counts among those before
      have hm : List.Forall₂ (LeadsTo file path (Message.atPath? (before ++ m :: rest)))
          (m.places file (path ++ [before.length])) m.family := by
        refine (each m (by simp) (path ++ [before.length])).imp ?_
        rintro e x ⟨hname, hfile, tail, hpath, hreach⟩
        refine ⟨hname, hfile, before.length :: tail, ?_, ?_⟩
        · rw [hpath, List.append_assoc]; rfl
        · rw [Message.atPath?_append_cons, hreach]
      have hrest := ih (fun x hx => each x (by simp [hx])) (before ++ [m])
      rw [List.append_assoc, List.singleton_append, List.length_append] at hrest
      exact List.rel_append hm hrest

theorem Message.forall₂_places (file : Nat) (m : Message) :
    ∀ path, List.Forall₂ (LeadsTo file path m.descend?) (m.places file path) m.family := by
  induction m using Message.nestedInduction with
  | step m ih =>
      intro path
      have hself : LeadsTo file path m.descend? (m.fullName, ⟨file, path⟩) m :=
        ⟨rfl, rfl, [], by simp, rfl⟩
      have hnested : List.Forall₂ (LeadsTo file path m.descend?)
          (nestedPlaces file path 0 m.nested) (families m.nested) := by
        refine (forall₂_nestedPlaces file path m.nested ih []).imp ?_
        rintro e x ⟨hname, hfile, rest, hpath, hreach⟩
        refine ⟨hname, hfile, rest, hpath, ?_⟩
        -- a path into a nested message has at least one step
        cases rest with
        | nil => cases hreach
        | cons i rest => rw [m.descend?_cons]; exact hreach
      rw [m.places_eq, m.family_eq]
      exact List.rel_append hnested (List.Forall₂.cons hself List.Forall₂.nil)

/-- The message at a place of some files. -/
def messageAt? (files : List File) (place : MessagePlace) : Option Message :=
  files[place.file]?.bind fun f => Message.atPath? f.messages place.path

/-- The entries of an index are, one by one, those of all messages, and each place leads to its
message. -/
theorem forall₂_messagePlaces (files : List File) :
    List.Forall₂ (fun e x => e.1 = x.fullName ∧ messageAt? files e.2 = some x)
      (messagePlaces files) (files.flatMap fun f => families f.messages) := by
  have key : ∀ rest before : List File,
      List.Forall₂ (fun e x => e.1 = x.fullName ∧ messageAt? (before ++ rest) e.2 = some x)
        ((rest.zipIdx before.length).map fun p => nestedPlaces p.2 [] 0 p.1.messages).flatten
        (rest.flatMap fun f => families f.messages) := by
    intro rest
    induction rest with
    | nil => intro before; exact List.Forall₂.nil
    | cons f rest ih =>
        intro before
        have hf : List.Forall₂
            (fun e x => e.1 = x.fullName ∧ messageAt? (before ++ f :: rest) e.2 = some x)
            (nestedPlaces before.length [] 0 f.messages) (families f.messages) := by
          refine (forall₂_nestedPlaces before.length [] f.messages
            (fun m _ => m.forall₂_places _) []).imp ?_
          rintro e x ⟨hname, hfile, tail, hpath, hreach⟩
          refine ⟨hname, ?_⟩
          simp only [List.nil_append] at hpath hreach
          simp [messageAt?, hfile, hpath, hreach]
        have hrest := ih (before ++ [f])
        rw [List.append_assoc, List.singleton_append, List.length_append] at hrest
        exact List.rel_append hf hrest
  have h := key files []
  rw [List.nil_append] at h
  rwa [messagePlaces, List.mapIdx_eq_zipIdx_map]

/-! ## Looking up -/

/-- An index made by insertion holds the last entry of a key. -/
theorem getElem?_foldl_insert (entries : List (String × MessagePlace))
    (index : Std.HashMap String MessagePlace) (key : String) :
    (entries.foldl (fun index e => index.insert e.1 e.2) index)[key]?
      = ((entries.filter fun e => e.1 == key).getLast?.map (·.2)).or index[key]? := by
  induction entries generalizing index with
  | nil => simp
  | cons e rest ih =>
      -- `e` counts only if no later entry has its key
      rw [List.foldl_cons, ih, Std.HashMap.getElem?_insert]
      by_cases h : e.1 = key
      · cases hlast : (rest.filter fun e => e.1 == key).getLast? <;>
          simp [h, List.getLast?_cons, hlast]
      · simp [h]

/-- The index of files holds the last place of a name. -/
theorem Schema.getElem?_index_ofFiles (files : List File) (key : String) :
    (Schema.ofFiles files).index[key]?
      = ((messagePlaces files).filter fun e => e.1 == key).getLast?.map (·.2) := by
  simp [Schema.ofFiles, getElem?_foldl_insert]

/-- A schema whose index has been made of its files. -/
def Schema.Indexed (s : Schema) : Prop := s = Schema.ofFiles s.files

theorem Schema.indexed_ofProtos (marker : String) (generate : List String)
    (protos : List Descriptor.FileProto) : (Schema.ofProtos marker generate protos).Indexed := rfl

/-- **The index agrees with a search**: what is found under a name is the last message of this
name among all messages. -/
theorem Schema.message?_eq_getLast? {s : Schema} (hs : s.Indexed) (name : String) :
    s.message? name
      = (s.allMessages.filter fun m => m.fullName == Schema.qualified name).getLast? := by
  have hindex : s.index[Schema.qualified name]?
      = ((messagePlaces s.files).filter fun e => e.1 == Schema.qualified name).getLast?.map
          (·.2) := by
    rw [hs]
    exact Schema.getElem?_index_ofFiles _ _
  have hfound : List.Forall₂ (fun e x => e.1 = x.fullName ∧ messageAt? s.files e.2 = some x)
      ((messagePlaces s.files).filter fun e => e.1 == Schema.qualified name)
      (s.allMessages.filter fun m => m.fullName == Schema.qualified name) :=
    List.rel_filter (fun e x h => by simp [h.1]) (forall₂_messagePlaces s.files)
  rw [Schema.message?, hindex]
  -- both lists end alike, since they correspond element by element
  generalize (messagePlaces s.files).filter _ = entries at hfound ⊢
  generalize s.allMessages.filter _ = found at hfound ⊢
  have hends : entries.getLast?.map (fun e => messageAt? s.files e.2)
      = found.getLast?.map some := by
    rw [← List.getLast?_map, ← List.getLast?_map]
    congr 1
    refine List.forall₂_eq_eq_eq ▸ ?_
    rw [List.forall₂_map_left_iff, List.forall₂_map_right_iff]
    exact hfound.imp fun e x h => h.2
  cases hlast : entries.getLast? with
  | none =>
      rw [hlast] at hends
      exact (Option.map_eq_none_iff.mp hends.symm).symm
  | some e =>
      rw [hlast] at hends
      obtain ⟨x, hx, hplace⟩ := Option.map_eq_some_iff.mp hends.symm
      rw [hx]
      exact hplace.symm

/-- What is found is a message of the schema, and has the name looked up. -/
theorem Schema.mem_allMessages_of_message? {s : Schema} (hs : s.Indexed) {name : String}
    {m : Message} (h : s.message? name = some m) :
    m ∈ s.allMessages ∧ m.fullName = Schema.qualified name := by
  rw [Schema.message?_eq_getLast? hs] at h
  have hm := List.mem_of_getLast? h
  simpa using hm

theorem Schema.qualified_qualified (name : String) :
    Schema.qualified (Schema.qualified name) = Schema.qualified name := by
  by_cases h : name.toList.head? = some '.'
  · simp [Schema.qualified, h]
  · simp [Schema.qualified, h]

/-- The leading dot of a name may be left out. -/
theorem Schema.message?_qualified (s : Schema) (name : String) :
    s.message? (Schema.qualified name) = s.message? name := by
  rw [Schema.message?, Schema.message?, Schema.qualified_qualified]

/-- **Distinct names are all found**: a message with a qualified name is what its name leads to. -/
theorem Schema.message?_fullName {s : Schema} (hs : s.Indexed)
    (distinct : (s.allMessages.map (·.fullName)).Nodup) {m : Message} (hm : m ∈ s.allMessages)
    (hq : Schema.qualified m.fullName = m.fullName) : s.message? m.fullName = some m := by
  rw [Schema.message?_eq_getLast? hs, hq]
  have hmem : m ∈ s.allMessages.filter fun x => x.fullName == m.fullName := by simp [hm]
  have hx := List.getLast?_eq_some_getLast (List.ne_nil_of_mem hmem)
  -- whichever message is the last one found, it has the name of `m`
  obtain ⟨hlast, hname⟩ := List.mem_filter.mp (List.mem_of_getLast? hx)
  rw [hx, List.inj_on_of_nodup_map distinct hlast hm (by simpa using hname)]

end AliasErasure
