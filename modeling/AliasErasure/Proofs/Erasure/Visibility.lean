import AliasErasure.Linking.Lookup
import AliasErasure.Proofs.Erasure.OneLevel
import AliasErasure.Proofs.Erasure.References
import AliasErasure.Proofs.Schema.Declared
import Mathlib.Logic.Relation

set_option autoImplicit false

/-! # Visibility through imports

A file sees itself, the files it imports, and what these pass on by public imports (`Sees`). A
payload is written under the imports of the alias's file, but taken over under those of another
file, and resolving does not change imports. So the type that a field names is still in sight if
the alias's file declares it or passes it on; if that file imports it for itself only, it can be
out of sight (`resolved_shows_iff`, `resolved_hides_bills`).
-/

namespace AliasErasure

open Descriptor (FileProto MessageProto)

/-! ## Visible files -/

/-- The file `f` imports the file `g`. -/
def File.Imports (f g : File) : Prop := g.name ∈ f.proto.dependency

/-- The file `d` passes on the file `g`, directly or by way of others. -/
def PassesOn (files : List File) : File → File → Prop :=
  Relation.ReflTransGen fun d g => g ∈ files ∧ g.name ∈ publicImports d.proto

/-- The file `f` sees the file `g`: it is passed on by `f` itself or by an import of `f`. -/
def Sees (files : List File) (f g : File) : Prop :=
  ∃ d, (d = f ∨ d ∈ files ∧ f.Imports d) ∧ PassesOn files d g

/-- The type with the qualified name `n` is declared in a file that `f` sees. -/
def Shows (files : List File) (f : File) (n : String) : Prop :=
  ∃ g, Sees files f g ∧ n ∈ g.types

section Sees

variable {files : List File} {f g h : File}

/-- A file sees whatever the files that it sees pass on. -/
theorem Sees.passesOn (hfg : Sees files f g) (hgh : PassesOn files g h) : Sees files f h := by
  obtain ⟨d, hd, hdg⟩ := hfg
  exact ⟨d, hd, hdg.trans hgh⟩

theorem PassesOn.mem (hgh : PassesOn files g h) (hg : g ∈ files) : h ∈ files := by
  induction hgh with
  | refl => exact hg
  | tail _ hstep _ => exact hstep.1

theorem Sees.mem (hfg : Sees files f g) (hf : f ∈ files) : g ∈ files := by
  obtain ⟨d, rfl | ⟨hd, -⟩, hdg⟩ := hfg
  · exact hdg.mem hf
  · exact hdg.mem hd

end Sees

/-! ## Imports of resolved files -/

section Resolved

variable {s : Schema}

/-- Resolved files pass on what the files passed on. -/
theorem passesOn_resolved_iff {files : List File} {d g' : File} :
    PassesOn (files.map s.resolved) (s.resolved d) g' ↔
      ∃ g, PassesOn files d g ∧ g' = s.resolved g := by
  constructor
  · intro h
    induction h with
    | refl => exact ⟨d, Relation.ReflTransGen.refl, rfl⟩
    | tail _ hstep ih =>
        -- names and imports of a resolved file are those of the file
        obtain ⟨b, hb, rfl⟩ := ih
        obtain ⟨hmem, himport⟩ := hstep
        obtain ⟨c, hc, rfl⟩ := List.mem_map.mp hmem
        exact ⟨c, hb.tail ⟨hc, himport⟩, rfl⟩
  · rintro ⟨g, h, rfl⟩
    exact h.lift s.resolved fun a b hab => ⟨List.mem_map_of_mem hab.1, hab.2⟩

/-- **Resolved files see what the files saw.** -/
theorem sees_resolved_iff {files : List File} {f g' : File} :
    Sees (files.map s.resolved) (s.resolved f) g' ↔ ∃ g, Sees files f g ∧ g' = s.resolved g := by
  constructor
  · rintro ⟨d', hd', hpasses⟩
    have hd : ∃ d, d' = s.resolved d ∧ (d = f ∨ d ∈ files ∧ f.Imports d) := by
      rcases hd' with rfl | ⟨hmem, himports⟩
      · exact ⟨f, rfl, Or.inl rfl⟩
      · obtain ⟨d, hd, rfl⟩ := List.mem_map.mp hmem
        exact ⟨d, rfl, Or.inr ⟨hd, himports⟩⟩
    obtain ⟨d, rfl, hd⟩ := hd
    obtain ⟨g, hg, rfl⟩ := passesOn_resolved_iff.mp hpasses
    exact ⟨g, ⟨d, hd, hg⟩, rfl⟩
  · rintro ⟨g, ⟨d, hd, hpasses⟩, rfl⟩
    refine ⟨s.resolved d, ?_, passesOn_resolved_iff.mpr ⟨g, hpasses, rfl⟩⟩
    rcases hd with rfl | ⟨hmem, himports⟩
    · exact Or.inl rfl
    · exact Or.inr ⟨List.mem_map_of_mem hmem, himports⟩

/-! ## Types of resolved files -/

/-- The type with the qualified name `n` goes: it is a message that goes, or declared inside one. -/
def Schema.Gone (s : Schema) (n : String) : Prop :=
  ∃ a ∈ s.topLevel, s.consumes a = true ∧ n ∈ a.types

/-- A resolved file declares the types of the messages that stay, and its enums. -/
theorem File.IsBuilt.types_resolved {g : File} (hg : g.IsBuilt) :
    (s.resolved g).types = (g.messages.filter fun m => !s.consumes m).flatMap (·.types) ++
      g.enums.map (·.fullName) := by
  have htypes : ∀ p : Message × MessageProto, (s.resolveMessage p.1 p.2).1.types = p.1.types := by
    intro p
    refine (Message.types_congr ?_ ?_ ?_).1 <;> rw [s.resolveMessage_frame]
  rw [← hg.map_fst_kept, List.flatMap_map]
  show ((s.kept g).map fun p => (s.resolveMessage p.1 p.2).1).flatMap (·.types) ++ _ = _
  rw [List.flatMap_map]
  simp only [htypes]
  rfl

/-- **Where types have different names, a file loses those that go**, and no others. -/
theorem Schema.Built.mem_types_resolved_iff (hs : s.Built) (distinct : s.types.Nodup) {g : File}
    (hg : g ∈ s.files) {n : String} :
    n ∈ (s.resolved g).types ↔ n ∈ g.types ∧ ¬ s.Gone n := by
  have hnodup : g.types.Nodup := (List.nodup_flatMap.mp distinct).1 g hg
  obtain ⟨hmessages, -, hapart⟩ := List.nodup_append.mp hnodup
  rw [(hs.files g hg).types_resolved, File.types, List.mem_append, List.mem_append,
    List.mem_flatMap, List.mem_flatMap]
  simp only [List.mem_filter, Bool.not_eq_true']
  -- what declares the type and goes is in the file itself, by distinctness
  have hgone : s.Gone n → n ∈ g.types →
      ∃ a ∈ g.messages, s.consumes a = true ∧ n ∈ a.types := by
    rintro ⟨a, ha, hgoes, hna⟩ hng
    obtain ⟨h, hh, hah⟩ := List.mem_flatMap.mp ha
    have hnh : n ∈ h.types := List.mem_append_left _ (List.mem_flatMap.mpr ⟨a, hah, hna⟩)
    have heq : h = g := eq_of_nodup_flatMap distinct hh hg hnh hng
    exact ⟨a, heq ▸ hah, hgoes, hna⟩
  constructor
  · rintro (⟨m, ⟨hm, hstays⟩, hnm⟩ | henum)
    · refine ⟨Or.inl ⟨m, hm, hnm⟩, fun h => ?_⟩
      obtain ⟨a, ha, hgoes, hna⟩ :=
        hgone h (List.mem_append_left _ (List.mem_flatMap.mpr ⟨m, hm, hnm⟩))
      have heq : a = m := eq_of_nodup_flatMap hmessages ha hm hna hnm
      rw [heq, hstays] at hgoes
      cases hgoes
    · refine ⟨Or.inr henum, fun h => ?_⟩
      obtain ⟨a, ha, -, hna⟩ := hgone h (List.mem_append_right _ henum)
      exact hapart n (List.mem_flatMap.mpr ⟨a, ha, hna⟩) n henum rfl
  · rintro ⟨⟨m, hm, hnm⟩ | henum, hstays⟩
    · refine Or.inl ⟨m, ⟨hm, ?_⟩, hnm⟩
      rw [← Bool.not_eq_true]
      intro hgoes
      exact hstays ⟨m, List.mem_flatMap.mpr ⟨g, hg, hm⟩, hgoes, hnm⟩
    · exact Or.inr henum

/-- A resolved file shows what the file showed, but for what goes. -/
theorem Schema.Built.shows_resolved_iff (hs : s.Built) (distinct : s.types.Nodup) {f : File}
    (hf : f ∈ s.files) {n : String} :
    Shows (s.files.map s.resolved) (s.resolved f) n ↔ Shows s.files f n ∧ ¬ s.Gone n := by
  constructor
  · rintro ⟨g', hsees, hn⟩
    obtain ⟨g, hfg, rfl⟩ := sees_resolved_iff.mp hsees
    obtain ⟨hng, hstays⟩ := (hs.mem_types_resolved_iff distinct (hfg.mem hf)).mp hn
    exact ⟨⟨g, hfg, hng⟩, hstays⟩
  · rintro ⟨⟨g, hsees, hng⟩, hstays⟩
    exact ⟨_, sees_resolved_iff.mpr ⟨g, hsees, rfl⟩,
      (hs.mem_types_resolved_iff distinct (hsees.mem hf)).mpr ⟨hng, hstays⟩⟩

end Resolved

/-! ## Types that fields name -/

/-- Every type that a field names, at whatever depth, is shown to the field's file. -/
def Schema.Shown (s : Schema) : Prop :=
  ∀ f ∈ s.files, ∀ m ∈ families f.messages, ∀ x ∈ m.fields, ∀ n, x.typeName? = some n →
    Shows s.files f (Schema.qualified n)

/-- What the fields in the resolved file `f'` see of the types that they name, where `resolved` are
all resolved files, and `f` is the file as it was. -/
structure Schema.SightSettles (s : Schema) (resolved : List File) (f f' : File) : Prop where
  /-- A type is shown unless it goes, or else has come from the payload of an alias without having
  been shown to the file. -/
  shows_iff : ∀ m ∈ f'.messages, ∀ x ∈ m.fields, ∀ n, x.typeName? = some n →
    (Shows resolved f' (Schema.qualified n) ↔
      (x.viaAlias = none ∨ Shows s.files f (Schema.qualified n)) ∧ ¬ s.Gone (Schema.qualified n))
  /-- A type that has come from the payload of an alias was shown to the alias's file, which the
  file sees; so it was shown to the file itself if the alias's file passes its declaration on. -/
  passed : ∀ m ∈ f'.messages, ∀ x ∈ m.fields, ∀ n a, x.typeName? = some n → x.viaAlias = some a →
    ∃ g, Sees s.files f g ∧ a.fullName ∈ g.types ∧ Shows s.files g (Schema.qualified n) ∧
      ∀ h, PassesOn s.files g h → Schema.qualified n ∈ h.types →
        Shows s.files f (Schema.qualified n)

section Built

variable {s : Schema}

/-- The fields of a resolved file: those of messages that stay, settled. -/
theorem Schema.exists_mem_fields_resolved_iff {f : File} {x : Field} :
    (∃ m ∈ (s.resolved f).messages, x ∈ m.fields) ↔
      ∃ p ∈ s.kept f, ∃ y ∈ p.1.fields, s.settleField p.1 y = x := by
  simp only [Schema.resolved, List.mem_map, exists_exists_and_eq_and, s.resolveMessage_fields]

variable (hs : s.Built) (distinct : s.types.Nodup) (shown : s.Shown)
include hs distinct shown

/-- A file that refers to an alias sees the file of the alias, to which the payload's type is
shown. -/
theorem Schema.Built.sees_of_aliasTarget? {f : File} (hf : f ∈ s.files) {m : Message}
    (hm : m ∈ families f.messages) {x : Field} (hx : x ∈ m.fields) {t : Message} {q : Field}
    (ht : s.aliasTarget? x = some (t, q)) :
    ∃ g, Sees s.files f g ∧ t.fullName ∈ g.types ∧
      ∀ n, q.typeName? = some n → Shows s.files g (Schema.qualified n) := by
  obtain ⟨htmem, hq⟩ := hs.aliasTarget?_mem ht
  obtain ⟨hkind, -, htarget, -⟩ := Schema.aliasTarget?_eq_some_iff.mp ht
  obtain ⟨n, hn, hfound⟩ := Option.bind_eq_some_iff.mp htarget
  have hname : x.typeName? = some n := by rw [Field.typeName?, hkind, hn]
  obtain ⟨g, hsees, hng⟩ := shown f hf m hm x hx n hname
  rw [← (hs.fullName_of_message? hfound).2] at hng
  -- the file that declares the name is the one that holds the alias
  obtain ⟨g', hg', htg'⟩ := List.mem_flatMap.mp htmem
  have heq : g' = g :=
    eq_of_nodup_flatMap distinct hg' (hsees.mem hf) (File.fullName_mem_types htg') hng
  subst heq
  exact ⟨g', hsees, hng, fun k hk => shown g' hg' t htg' q hq k hk⟩

theorem Schema.Built.sightSettles {f : File} (hf : f ∈ s.files) :
    s.SightSettles (s.files.map s.resolved) f (s.resolved f) := by
  have hfield : ∀ {p : Message × MessageProto}, p ∈ s.kept f → ∀ {y}, y ∈ p.1.fields →
      p.1 ∈ families f.messages ∧ y.viaAlias = none := by
    intro p hp y hy
    obtain ⟨ctx, hfrom⟩ := (hs.files f hf).builtFrom_of_mem_kept hp
    have hmem := (List.of_mem_zip (List.mem_of_mem_filter hp)).1
    exact ⟨mem_families.mpr ⟨p.1, hmem, p.1.self_mem_family⟩, hfrom.viaAlias hy⟩
  constructor
  · intro m hm x hx n hn
    obtain ⟨p, hp, y, hy, rfl⟩ := Schema.exists_mem_fields_resolved_iff.mp ⟨m, hm, hx⟩
    rw [hs.shows_resolved_iff distinct hf]
    refine and_congr_left fun _ => ?_
    cases ht : s.aliasTarget? y with
    | none =>
        -- the field names what it named before, which was shown
        obtain ⟨hmem, hvia⟩ := hfield hp hy
        rw [Schema.settleField_of_none p.1 ht] at hn ⊢
        have hshown := shown f hf p.1 hmem y hy n hn
        exact iff_of_true hshown (Or.inl hvia)
    | some target =>
        have hvia : (s.settleField p.1 y).viaAlias ≠ none := by
          rw [Schema.settleField_of_alias p.1 ht]
          exact Option.some_ne_none _
        exact ⟨Or.inr, fun h => h.resolve_left hvia⟩
  · intro m hm x hx n a hn ha
    obtain ⟨p, hp, y, hy, rfl⟩ := Schema.exists_mem_fields_resolved_iff.mp ⟨m, hm, hx⟩
    obtain ⟨hmem, hvia⟩ := hfield hp hy
    cases ht : s.aliasTarget? y with
    | none =>
        rw [Schema.settleField_of_none p.1 ht] at ha
        rw [hvia] at ha
        cases ha
    | some target =>
        rw [Schema.settleField_of_alias p.1 ht] at hn ha
        cases ha
        obtain ⟨g, hsees, halias, hpayload⟩ :=
          hs.sees_of_aliasTarget? distinct shown hf hmem hy ht
        exact ⟨g, hsees, halias, hpayload n hn, fun h hpasses hnh =>
          ⟨h, hsees.passesOn hpasses, hnh⟩⟩

end Built

/-- **What stays in sight.** Where types have different names and each type that a field names is
shown to the field's file, all files of a schema made of descriptors resolve, and the fields of the
result see the types that they name, but for those that go and those that a file has taken over
from a payload without seeing them itself. -/
theorem resolved_shows_iff (marker : String) (generate : List String) (protos : List FileProto)
    (distinct : (Schema.ofProtos marker generate protos).types.Nodup)
    (shown : (Schema.ofProtos marker generate protos).Shown) :
    ∃ resolved, List.Forall₂
      (fun f f' => (Schema.ofProtos marker generate protos).resolve f = .ok f' ∧
        (Schema.ofProtos marker generate protos).SightSettles resolved f f')
      (Schema.ofProtos marker generate protos).files resolved := by
  have hs := Schema.built_ofProtos marker generate protos
  refine ⟨(Schema.ofProtos marker generate protos).files.map
    (Schema.ofProtos marker generate protos).resolved, ?_⟩
  rw [List.forall₂_map_right_iff, List.forall₂_same]
  exact fun f hf => ⟨(hs.files f hf).resolve_eq_ok _, hs.sightSettles distinct shown hf⟩

/-- A file with an ordinary message, `Money`. -/
def moneyProto : FileProto where
  name := some "money.proto"
  package := some "shop"
  syntaxName := some "proto3"
  messageType :=
    [{ name := some "Money"
       field := [{ name := some "units", number := some 1, label := some 1, type := some 3 }] }]

/-- A file with an alias, `Fee`, whose payload is a `Money`; it imports `moneyProto`, but not
publicly. -/
def feesProto : FileProto where
  name := some "fees.proto"
  package := some "shop"
  dependency := ["money.proto"]
  syntaxName := some "proto3"
  messageType :=
    [{ name := some "Fee"
       field := [{ name := some "amount", number := some 1, label := some 1, type := some 11
                   typeName := some ".shop.Money" }] }]
  sourceCodeInfo := some
    { location := [{ path := [4, 0], leadingComments := some " protobuf:alias\n" }] }

/-- A file in which `Bill` refers to `Fee`; it imports `feesProto` alone. -/
def billsProto : FileProto where
  name := some "bills.proto"
  package := some "shop"
  dependency := ["fees.proto"]
  syntaxName := some "proto3"
  messageType :=
    [{ name := some "Bill"
       field := [{ name := some "fee", number := some 1, label := some 1, type := some 11
                   typeName := some ".shop.Fee" }] }]

/-- The schema of the three files. -/
def billsSchema : Schema :=
  Schema.ofProtos defaultMarker ["bills.proto"] [moneyProto, feesProto, billsProto]

/-- The file of `moneyProto` in `billsSchema`. -/
def moneyFile : File := buildFile defaultMarker false moneyProto

/-- The file of `feesProto` in `billsSchema`. -/
def feesFile : File := buildFile defaultMarker false feesProto

/-- The file of `billsProto` in `billsSchema`. -/
def billsFile : File := buildFile defaultMarker true billsProto

theorem billsSchema_built : billsSchema.Built := Schema.built_ofProtos _ _ _

theorem billsSchema_files : billsSchema.files = [moneyFile, feesFile, billsFile] := by
  simp [billsSchema, Schema.ofProtos, Schema.ofFiles, moneyProto, feesProto, billsProto, moneyFile,
    feesFile, billsFile]

theorem moneyFile_mem : moneyFile ∈ billsSchema.files := by simp [billsSchema_files]

theorem feesFile_mem : feesFile ∈ billsSchema.files := by simp [billsSchema_files]

theorem billsFile_mem : billsFile ∈ billsSchema.files := by simp [billsSchema_files]

theorem billsSchema_types : billsSchema.types = [".shop.Money", ".shop.Fee", ".shop.Bill"] := by
  rw [Schema.types, billsSchema_files]
  rfl

theorem billsSchema_distinct : billsSchema.types.Nodup := by
  rw [billsSchema_types]
  decide

/-- No file passes on another. -/
theorem bills_passesOn {d g : File} (hd : d ∈ billsSchema.files)
    (h : PassesOn billsSchema.files d g) : d = g := by
  have hpublic : ∀ f ∈ billsSchema.files, publicImports f.proto = [] := by
    intro f hf
    rw [billsSchema_files] at hf
    simp only [List.mem_cons, List.not_mem_nil, or_false] at hf
    rcases hf with rfl | rfl | rfl <;> rfl
  rcases Relation.ReflTransGen.cases_head h with heq | ⟨e, hstep, -⟩
  · exact heq
  · have hmem := hstep.2
    rw [hpublic d hd] at hmem
    cases hmem

/-- Each reference is to the file that is imported. -/
theorem billsSchema_shown : billsSchema.Shown := by
  have himport : ∀ {f d : File}, d ∈ billsSchema.files → f.Imports d → ∀ {n}, n ∈ d.types →
      Shows billsSchema.files f n :=
    fun hd himports _ hn => ⟨_, ⟨_, Or.inr ⟨hd, himports⟩, Relation.ReflTransGen.refl⟩, hn⟩
  have hnames : ∀ {f : File} {k : Option String},
      ((families f.messages).all fun m => m.fields.all fun x => x.typeName? == k) = true →
        ∀ m ∈ families f.messages, ∀ x ∈ m.fields, x.typeName? = k :=
    fun h m hm x hx => by simpa using List.all_eq_true.mp (List.all_eq_true.mp h m hm) x hx
  intro f hf m hm x hx n hn
  rw [billsSchema_files] at hf
  simp only [List.mem_cons, List.not_mem_nil, or_false] at hf
  rcases hf with rfl | rfl | rfl
  · rw [hnames (k := none) rfl m hm x hx] at hn
    cases hn
  · rw [hnames (k := some ".shop.Money") rfl m hm x hx] at hn
    cases hn
    exact himport moneyFile_mem (List.mem_singleton_self _) (by decide)
  · rw [hnames (k := some ".shop.Fee") rfl m hm x hx] at hn
    cases hn
    exact himport feesFile_mem (List.mem_singleton_self _) (by decide)

theorem resolved_shows_iff_bills :
    billsSchema.types.Nodup ∧ billsSchema.Shown ∧
      ∃ resolved, List.Forall₂
        (fun f f' => billsSchema.resolve f = .ok f' ∧ billsSchema.SightSettles resolved f f')
        billsSchema.files resolved :=
  ⟨billsSchema_distinct, billsSchema_shown,
    resolved_shows_iff _ _ _ billsSchema_distinct billsSchema_shown⟩

/-- `Bill` does not see `Money`. -/
theorem bills_not_shows : ¬ Shows billsSchema.files billsFile ".shop.Money" := by
  rintro ⟨g, ⟨d, hd, hpasses⟩, hn⟩
  have hmem : d ∈ billsSchema.files := by
    rcases hd with rfl | ⟨hmem, -⟩
    · exact billsFile_mem
    · exact hmem
  obtain rfl := bills_passesOn hmem hpasses
  rw [billsSchema_files] at hmem
  simp only [List.mem_cons, List.not_mem_nil, or_false] at hmem
  rcases hmem with rfl | rfl | rfl
  · -- the file that declares the type is not imported
    rcases hd with heq | ⟨-, himports⟩
    · exact absurd (congrArg File.name heq) (by decide)
    · exact absurd himports (by unfold File.Imports; decide)
  · exact absurd hn (by decide)
  · exact absurd hn (by decide)

/-- `Fee` can be erased. -/
theorem billsSchema_fee : ∃ t, billsSchema.message? ".shop.Fee" = some t ∧
    ∃ q, t.erasablePayload? = some q ∧ q.typeName? = some ".shop.Money" := by
  rw [Schema.message?_eq_getLast? billsSchema_built.indexed, Schema.allMessages,
    billsSchema_files]
  exact ⟨_, rfl, _, rfl, rfl⟩

/-- `Bill` stays, and its field refers to `Fee`. -/
theorem bills_bill : ∃ p ∈ billsSchema.kept billsFile, ∃ x ∈ p.1.fields,
    x.kind = .message ∧ x.viaAlias = none ∧ x.message = some ".shop.Fee" := by
  have hbill := List.mem_of_getElem?
    (l := billsFile.messages.zip billsFile.proto.messageType) (i := 0) rfl
  exact ⟨_, List.mem_filter.mpr ⟨hbill, rfl⟩, _, List.mem_of_getElem? (i := 0) rfl, rfl, rfl, rfl⟩

/-- **Types do get out of sight**: types have different names, each type that a field names is
shown to the field's file, and yet, once everything is resolved, a field names a type that is
declared, but in a file that the field's file does not see. -/
theorem resolved_hides_bills :
    billsSchema.types.Nodup ∧ billsSchema.Shown ∧
      ∃ resolved, List.Forall₂ (fun f f' => billsSchema.resolve f = .ok f')
          billsSchema.files resolved ∧
        ∃ f' ∈ resolved, ∃ m ∈ f'.messages, ∃ x ∈ m.fields, ∃ n, x.typeName? = some n ∧
          (∃ g ∈ resolved, Schema.qualified n ∈ g.types) ∧
            ¬ Shows resolved f' (Schema.qualified n) := by
  refine ⟨billsSchema_distinct, billsSchema_shown, billsSchema.files.map billsSchema.resolved,
    ?_, ?_⟩
  · rw [List.forall₂_map_right_iff, List.forall₂_same]
    exact fun f hf => (billsSchema_built.files f hf).resolve_eq_ok _
  · obtain ⟨p, hp, y, hy, hkind, hvia, hname⟩ := bills_bill
    obtain ⟨t, ht, q, hq, hpayload⟩ := billsSchema_fee
    have htarget : billsSchema.aliasTarget? y = some (t, q) :=
      Schema.aliasTarget?_eq_some_iff.mpr ⟨hkind, hvia, by rw [hname, Option.bind_some, ht], hq⟩
    obtain ⟨m, hm, hx⟩ := Schema.exists_mem_fields_resolved_iff.mpr ⟨p, hp, y, hy, rfl⟩
    have hmoney : ".shop.Money" ∈ (billsSchema.resolved moneyFile).types := by
      rw [(billsSchema_built.files _ moneyFile_mem).types_resolved]
      decide
    refine ⟨_, List.mem_map_of_mem billsFile_mem, m, hm, _, hx, ".shop.Money", ?_,
      ⟨_, List.mem_map_of_mem moneyFile_mem, hmoney⟩, fun h => ?_⟩
    · rw [Schema.settleField_of_alias p.1 htarget]
      exact hpayload
    · exact bills_not_shows
        ((billsSchema_built.shows_resolved_iff billsSchema_distinct billsFile_mem).mp h).1

end AliasErasure
