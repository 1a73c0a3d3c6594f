import AliasErasure.Proofs.Schema.Search

set_option autoImplicit false

/-! # Places in index order

A place is a file and a path of positions, and messages stand at places. The index goes through
places in a fixed order: files one after the other, messages one after the other, and what is
nested in a message before the message itself (`MessagePlace.Before`). This order is stated of
places alone. That the traversal follows it and leaves out no message (`pairwise_messagePlaces`,
`mem_messagePlaces_iff`) is what makes looking up a name the same as searching all places for the
last message of this name (`Schema.lookUp_iff_lastNamed`).
-/

namespace AliasErasure

/-! ## The order of places -/

/-- A path comes before another: it leads into the message that the other one leads to, or to an
earlier branch where the two part. -/
inductive PathBefore : List Nat → List Nat → Prop
  | inside (i : Nat) (p : List Nat) : PathBefore (i :: p) []
  | earlier {i j : Nat} (h : i < j) (p q : List Nat) : PathBefore (i :: p) (j :: q)
  | deeper (i : Nat) {p q : List Nat} (h : PathBefore p q) : PathBefore (i :: p) (i :: q)

/-- A place comes before another: in an earlier file, or earlier in the same one. -/
def MessagePlace.Before (p q : MessagePlace) : Prop :=
  p.file < q.file ∨ p.file = q.file ∧ PathBefore p.path q.path

theorem PathBefore.append_left {p q : List Nat} (h : PathBefore p q) (path : List Nat) :
    PathBefore (path ++ p) (path ++ q) := by
  induction path with
  | nil => exact h
  | cons i path ih => exact PathBefore.deeper i ih

/-- Of two paths only one can come before the other. -/
theorem PathBefore.asymm {p q : List Nat} (h : PathBefore p q) : ¬ PathBefore q p := by
  induction h with
  | inside i p => intro h; cases h
  | earlier hlt p q =>
      intro h
      cases h with
      | earlier hgt => exact Nat.lt_asymm hlt hgt
      | deeper _ _ => exact Nat.lt_irrefl _ hlt
  | deeper i _ ih =>
      intro h
      cases h with
      | earlier hlt => exact Nat.lt_irrefl _ hlt
      | deeper _ h => exact ih h

theorem MessagePlace.Before.asymm {p q : MessagePlace} (h : p.Before q) : ¬ q.Before p := by
  rintro (hfile | ⟨hfile, hpath⟩)
  · rcases h with h | ⟨h, -⟩
    · exact Nat.lt_asymm h hfile
    · exact Nat.ne_of_gt hfile h
  · rcases h with h | ⟨-, h⟩
    · exact Nat.ne_of_gt h hfile
    · exact h.asymm hpath

/-! ## The traversal of a message -/

/-- The entry `e` names a message inside `m`, or `m` itself, and its path goes on from `path` to
this message. -/
def Message.Entry (m : Message) (file : Nat) (path : List Nat) (e : String × MessagePlace) :
    Prop :=
  ∃ rest x, m.descend? rest = some x ∧ e = (x.fullName, ⟨file, path ++ rest⟩)

theorem mem_nestedPlaces_iff {file : Nat} {path : List Nat} {ms : List Message}
    {e : String × MessagePlace} : ∀ {i : Nat},
    e ∈ nestedPlaces file path i ms ↔
      ∃ k, ∃ m : Message, ms[k]? = some m ∧ e ∈ m.places file (path ++ [i + k]) := by
  induction ms with
  | nil => simp [nestedPlaces]
  | cons m rest ih =>
      intro i
      rw [nestedPlaces, List.mem_append, ih]
      constructor
      · rintro (h | ⟨k, x, hx, h⟩)
        · exact ⟨0, m, rfl, h⟩
        · exact ⟨k + 1, x, hx, by rwa [Nat.add_assoc, Nat.add_comm 1] at h⟩
      · rintro ⟨k, x, hx, h⟩
        cases k with
        | zero =>
            cases hx
            exact Or.inl h
        | succ k => exact Or.inr ⟨k, x, hx, by rwa [Nat.add_assoc, Nat.add_comm 1]⟩

/-- **The traversal leaves out no message** and adds none. -/
theorem Message.mem_places_iff (m : Message) {file : Nat} {e : String × MessagePlace} :
    ∀ {path : List Nat}, e ∈ m.places file path ↔ m.Entry file path e := by
  induction m using Message.nestedInduction with
  | step m ih =>
      intro path
      rw [m.places_eq, List.mem_append, List.mem_singleton, mem_nestedPlaces_iff]
      constructor
      · rintro (⟨k, x, hx, h⟩ | rfl)
        · obtain ⟨rest, y, hy, rfl⟩ := (ih x (List.mem_of_getElem? hx)).mp h
          refine ⟨k :: rest, y, ?_, by simp⟩
          rw [Message.descend?, hx]
          exact hy
        · exact ⟨[], m, rfl, by simp⟩
      · rintro ⟨rest, y, hy, rfl⟩
        cases rest with
        | nil =>
            cases hy
            exact Or.inr (by simp)
        | cons k rest =>
            rw [Message.descend?] at hy
            split at hy
            next x hx =>
              refine Or.inl ⟨k, x, hx, (ih x (List.mem_of_getElem? hx)).mpr ?_⟩
              exact ⟨rest, y, hy, by simp⟩
            next => cases hy

/-- Two entries stand in index order. -/
def InOrder (e e' : String × MessagePlace) : Prop := e.2.Before e'.2

theorem inOrder_of_pathBefore {file : Nat} {path p q : List Nat} (h : PathBefore p q)
    (n n' : String) : InOrder (n, ⟨file, path ++ p⟩) (n', ⟨file, path ++ q⟩) :=
  Or.inr ⟨rfl, h.append_left path⟩

theorem pairwise_nestedPlaces {file : Nat} {path : List Nat} {ms : List Message}
    (each : ∀ m ∈ ms, ∀ p, (m.places file p).Pairwise InOrder) :
    ∀ i, (nestedPlaces file path i ms).Pairwise InOrder := by
  induction ms with
  | nil => intro i; exact List.Pairwise.nil
  | cons m rest ih =>
      intro i
      rw [nestedPlaces, List.pairwise_append]
      refine ⟨each m (by simp) _, ih (fun x hx => each x (by simp [hx])) (i + 1), ?_⟩
      -- what comes later stands in a later branch
      intro e he e' he'
      obtain ⟨p, x, -, rfl⟩ := m.mem_places_iff.mp he
      obtain ⟨k, m', -, he'⟩ := mem_nestedPlaces_iff.mp he'
      obtain ⟨q, y, -, rfl⟩ := m'.mem_places_iff.mp he'
      rw [List.append_assoc, List.append_assoc]
      exact inOrder_of_pathBefore (PathBefore.earlier (by omega) p q) _ _

/-- **The traversal of a message is in order.** -/
theorem Message.pairwise_places (file : Nat) (m : Message) :
    ∀ path, (m.places file path).Pairwise InOrder := by
  induction m using Message.nestedInduction with
  | step m ih =>
      intro path
      rw [m.places_eq, List.pairwise_append]
      refine ⟨pairwise_nestedPlaces ih 0, List.pairwise_singleton _ _, ?_⟩
      intro e he e' he'
      obtain rfl := List.mem_singleton.mp he'
      obtain ⟨k, x, -, he⟩ := mem_nestedPlaces_iff.mp he
      obtain ⟨p, y, -, rfl⟩ := x.mem_places_iff.mp he
      rw [List.append_assoc]
      have h : InOrder (y.fullName, ⟨file, path ++ (0 + k) :: p⟩)
          (m.fullName, ⟨file, path ++ []⟩) :=
        inOrder_of_pathBefore (PathBefore.inside (0 + k) p) _ _
      rwa [List.append_nil] at h

/-! ## The traversal of files -/

theorem mem_messagePlaces_iff {files : List File} {e : String × MessagePlace} :
    e ∈ messagePlaces files ↔ ∃ m, messageAt? files e.2 = some m ∧ e.1 = m.fullName := by
  rw [messagePlaces, List.mem_flatten]
  constructor
  · rintro ⟨l, hl, he⟩
    obtain ⟨i, hi, rfl⟩ := List.mem_mapIdx.mp hl
    obtain ⟨k, m, hm, he⟩ := mem_nestedPlaces_iff.mp he
    obtain ⟨rest, x, hx, rfl⟩ := m.mem_places_iff.mp he
    refine ⟨x, ?_, rfl⟩
    simpa [messageAt?, Message.atPath?, List.getElem?_eq_getElem hi, hm] using hx
  · obtain ⟨n, ⟨i, path⟩⟩ := e
    rintro ⟨x, hx, rfl⟩
    obtain ⟨f, hf, hpath⟩ := Option.bind_eq_some_iff.mp hx
    cases path with
    | nil => cases hpath
    | cons k rest =>
        obtain ⟨m, hm, hrest⟩ := Option.bind_eq_some_iff.mp hpath
        obtain ⟨hi, rfl⟩ := List.getElem?_eq_some_iff.mp hf
        refine ⟨_, List.mem_mapIdx.mpr ⟨i, hi, rfl⟩, mem_nestedPlaces_iff.mpr ⟨k, m, hm, ?_⟩⟩
        exact m.mem_places_iff.mpr ⟨rest, x, hrest, by simp⟩

/-- **The whole traversal is in order.** -/
theorem pairwise_messagePlaces (files : List File) :
    (messagePlaces files).Pairwise InOrder := by
  rw [messagePlaces, List.pairwise_flatten]
  constructor
  · intro l hl
    obtain ⟨i, hi, rfl⟩ := List.mem_mapIdx.mp hl
    exact pairwise_nestedPlaces (fun m _ => m.pairwise_places i) 0
  · rw [List.pairwise_iff_getElem]
    intro i j hi hj hlt e he e' he'
    rw [List.getElem_mapIdx] at he he'
    obtain ⟨k, m, -, he⟩ := mem_nestedPlaces_iff.mp he
    obtain ⟨p, x, -, rfl⟩ := m.mem_places_iff.mp he
    obtain ⟨k', m', -, he'⟩ := mem_nestedPlaces_iff.mp he'
    obtain ⟨q, y, -, rfl⟩ := m'.mem_places_iff.mp he'
    exact Or.inl hlt

/-! ## The last message of a name -/

/-- At `place` stands the message `m` of the name `key`, and every other message of this name
stands before it. -/
structure LastNamed (files : List File) (key : String) (place : MessagePlace) (m : Message) :
    Prop where
  found : messageAt? files place = some m
  named : m.fullName = key
  last : ∀ other x, messageAt? files other = some x → x.fullName = key →
    other = place ∨ other.Before place

theorem LastNamed.unique {files : List File} {key : String} {p q : MessagePlace} {m x : Message}
    (hm : LastNamed files key p m) (hx : LastNamed files key q x) : p = q ∧ m = x := by
  have hplace : p = q := by
    rcases hm.last q x hx.found hx.named with rfl | hqp
    · rfl
    · rcases hx.last p m hm.found hm.named with rfl | hpq
      · rfl
      · exact absurd hpq hqp.asymm
  subst hplace
  exact ⟨rfl, Option.some.inj (hm.found.symm.trans hx.found)⟩

theorem Schema.lastNamed_of_index {files : List File} {key : String} {place : MessagePlace}
    (h : (Schema.ofFiles files).index[key]? = some place) : ∃ m, LastNamed files key place m := by
  rw [Schema.getElem?_index_ofFiles] at h
  obtain ⟨e, he, rfl⟩ := Option.map_eq_some_iff.mp h
  obtain ⟨hmem, hkey⟩ := List.mem_filter.mp (List.mem_of_getLast? he)
  obtain ⟨m, hm, hname⟩ := mem_messagePlaces_iff.mp hmem
  refine ⟨m, hm, by rw [← hname]; simpa using hkey, fun other x hx hxname => ?_⟩
  -- the entry of `x` is the last of its name, or stands before the last
  have hentry : (x.fullName, other) ∈ (messagePlaces files).filter fun e => e.1 == key :=
    List.mem_filter.mpr ⟨mem_messagePlaces_iff.mpr ⟨x, hx, rfl⟩, by simpa using hxname⟩
  have hordered := (pairwise_messagePlaces files).filter fun e => e.1 == key
  obtain ⟨before, hsplit⟩ := List.getLast?_eq_some_iff.mp he
  rw [hsplit] at hentry hordered
  rcases List.mem_append.mp hentry with hbefore | hlast
  · exact Or.inr ((List.pairwise_append.mp hordered).2.2 _ hbefore _ (by simp))
  · exact Or.inl (by rw [← List.mem_singleton.mp hlast])

/-- If a message of the name stands anywhere, the index has a place for the name, and there stands
the last such message. -/
theorem Schema.exists_index_of_named {files : List File} {key : String} {place : MessagePlace}
    {m : Message} (hm : messageAt? files place = some m) (hname : m.fullName = key) :
    ∃ p x, (Schema.ofFiles files).index[key]? = some p ∧ LastNamed files key p x := by
  have hentry : (m.fullName, place) ∈ (messagePlaces files).filter fun e => e.1 == key :=
    List.mem_filter.mpr ⟨mem_messagePlaces_iff.mpr ⟨m, hm, rfl⟩, by simpa using hname⟩
  have hlast := List.getLast?_eq_some_getLast (List.ne_nil_of_mem hentry)
  have hindex := Schema.getElem?_index_ofFiles files key
  rw [hlast, Option.map_some] at hindex
  obtain ⟨x, hx⟩ := Schema.lastNamed_of_index hindex
  exact ⟨_, x, hindex, hx⟩

/-- **Looking up a name is searching all places.** In the schema of any files a name, with a
leading dot added if it has none, is found exactly if some message at some depth has it; found is
the last message of this name, in an order in which nested messages come before the one that
contains them; and every place in the index leads to the message that it was stored for. -/
theorem Schema.lookUp_iff_lastNamed (files : List File) (name : String) :
    ((∃ m, (Schema.ofFiles files).message? name = some m) ↔
      ∃ place m, messageAt? files place = some m ∧ m.fullName = Schema.qualified name) ∧
    (∀ m, (Schema.ofFiles files).message? name = some m ↔
      ∃ place, LastNamed files (Schema.qualified name) place m) ∧
    (∀ key place, (Schema.ofFiles files).index[key]? = some place →
      ∃ m, LastNamed files key place m) := by
  have hfound : ∀ m, (Schema.ofFiles files).message? name = some m ↔
      ∃ place, LastNamed files (Schema.qualified name) place m := by
    intro m
    rw [Schema.message?]
    constructor
    · intro h
      split at h
      · cases h
      next place hplace =>
        obtain ⟨x, hx⟩ := Schema.lastNamed_of_index hplace
        obtain rfl := Option.some.inj (hx.found.symm.trans h)
        exact ⟨place, hx⟩
    · rintro ⟨place, hm⟩
      obtain ⟨p, x, hp, hx⟩ := Schema.exists_index_of_named hm.found hm.named
      obtain ⟨rfl, rfl⟩ := hm.unique hx
      rw [hp]
      exact hm.found
  refine ⟨?_, hfound, fun key place => Schema.lastNamed_of_index⟩
  constructor
  · rintro ⟨m, hm⟩
    obtain ⟨place, hlast⟩ := (hfound m).mp hm
    exact ⟨place, m, hlast.found, hlast.named⟩
  · rintro ⟨place, m, hm, hname⟩
    obtain ⟨p, x, -, hx⟩ := Schema.exists_index_of_named hm hname
    exact ⟨x, (hfound x).mpr ⟨p, hx⟩⟩

end AliasErasure
