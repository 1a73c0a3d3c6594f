import AliasErasure.Proofs.Erasure.Agreement

set_option autoImplicit false

/-! # Which messages leave their file

References are decided by what the schema says about a message, while the decision whether the
message leaves its file is made after its own fields have been resolved. The two agree but for
*uncovered* messages (`consumed_iff_isErasable_or_uncovers`). Such a message is an alias that the
schema keeps, because its payload is declared inside it; but that payload is an alias too, and
once it has been replaced nothing keeps the message any more. So it leaves its file although
nothing that refers to it is changed. `accountsProto` is such a case.
-/

namespace AliasErasure

open Descriptor (FileProto MessageProto)

/-! ## Messages that leave -/

/-- A message keeps its qualified name, whether it goes or stays. -/
theorem Schema.resolvePair_fullName (s : Schema) (p : Message × MessageProto) :
    (s.resolvePair p).1.fullName = p.1.fullName := by
  rw [Schema.resolvePair]
  split
  · rfl
  · rw [s.resolveMessage_frame]

/-- The aliases that leave a file are the messages of the file that go, as far as resolving does
not change them. -/
theorem File.IsBuilt.exists_mem_aliases_iff {f : File} (hf : f.IsBuilt) {s : Schema}
    {P : Message → Prop} (hP : ∀ p, P (s.resolvePair p).1 ↔ P p.1) :
    (∃ a ∈ (s.resolved f).aliases, P a) ↔ ∃ a ∈ f.messages, s.consumes a = true ∧ P a := by
  obtain ⟨ctx, hmessages⟩ := hf.messages
  simp only [Schema.resolved, hf.aliases, List.nil_append, List.mem_map,
    exists_exists_and_eq_and, Schema.gone, List.mem_filter, hP]
  constructor
  · rintro ⟨p, ⟨hp, hgoes⟩, h⟩
    exact ⟨p.1, (List.of_mem_zip hp).1, hgoes, h⟩
  · rintro ⟨a, ha, hgoes, h⟩
    obtain ⟨raw, hpair⟩ := exists_mem_zip hmessages.length_eq ha
    exact ⟨(a, raw), ⟨hpair, hgoes⟩, h⟩

theorem File.IsBuilt.exists_mem_aliases_resolved_iff {f : File} (hf : f.IsBuilt) (s : Schema)
    (n : String) : (∃ a ∈ (s.resolved f).aliases, a.fullName = n) ↔
      ∃ a ∈ f.messages, s.consumes a = true ∧ a.fullName = n :=
  hf.exists_mem_aliases_iff fun p => by rw [s.resolvePair_fullName]

/-- The message `m` has left its file for the aliases of `f'`. -/
def File.Consumed (f' : File) (m : Message) : Prop := ∃ a ∈ f'.aliases, a.fullName = m.fullName

/-- Where names are distinct, a message of a file leaves it if and only if it goes. -/
theorem Schema.Built.consumed_iff {s : Schema} (hs : s.Built)
    (distinct : (s.allMessages.map (·.fullName)).Nodup) {f : File} (hf : f ∈ s.files)
    {m : Message} (hm : m ∈ f.messages) :
    (s.resolved f).Consumed m ↔ s.consumes m = true := by
  rw [File.Consumed, (hs.files f hf).exists_mem_aliases_resolved_iff]
  constructor
  · rintro ⟨a, ha, hgoes, hname⟩
    -- another message of this name could have gone in its place, were names not distinct
    have heq : a = m := List.inj_on_of_nodup_map distinct (Schema.mem_allMessages_of_mem hf ha)
      (Schema.mem_allMessages_of_mem hf hm) hname
    exact heq ▸ hgoes
  · intro hgoes
    exact ⟨m, hm, hgoes, rfl⟩

/-! ## The two decisions -/

/-- **Which messages leave their file.** A message leaves if the schema says that it can be
erased, or if it is uncovered; so the decision agrees with the schema exactly for messages that
are not uncovered. -/
theorem consumed_iff_isErasable_or_uncovers (marker : String) (generate : List String)
    (protos : List FileProto)
    (distinct : ((Schema.ofProtos marker generate protos).allMessages.map (·.fullName)).Nodup)
    {f : File} (hf : f ∈ (Schema.ofProtos marker generate protos).files) :
    ∃ f', (Schema.ofProtos marker generate protos).resolve f = .ok f' ∧ ∀ m ∈ f.messages,
      (f'.Consumed m ↔
        m.isErasable = true ∨ (Schema.ofProtos marker generate protos).uncovers m = true) ∧
      ((f'.Consumed m ↔ m.isErasable = true) ↔
        (Schema.ofProtos marker generate protos).uncovers m = false) := by
  have hs := Schema.built_ofProtos marker generate protos
  refine ⟨_, (hs.files f hf).resolve_eq_ok _, fun m hm => ?_⟩
  have hconsumed := hs.consumed_iff distinct hf hm
  rw [Schema.consumes, Bool.or_eq_true] at hconsumed
  refine ⟨hconsumed, ?_⟩
  rw [hconsumed]
  cases huncovers : (Schema.ofProtos marker generate protos).uncovers m with
  | false => simp
  | true => simp [Schema.not_isErasable_of_uncovers huncovers]

/-- A file in which `Account` is an alias for its own nested `Id`, an alias too, and `User` refers
to `Account`. -/
def accountsProto : FileProto where
  name := some "accounts.proto"
  package := some "shop"
  syntaxName := some "proto3"
  messageType :=
    [{ name := some "Account"
       field := [{ name := some "id", number := some 1, label := some 1, type := some 11
                   typeName := some ".shop.Account.Id" }]
       nestedType :=
        [{ name := some "Id"
           field := [{ name := some "value", number := some 1, label := some 1
                       type := some 3 }] }] },
     { name := some "User"
       field := [{ name := some "account", number := some 1, label := some 1, type := some 11
                   typeName := some ".shop.Account" }] }]
  sourceCodeInfo := some
    { location :=
        [{ path := [4, 0], leadingComments := some " protobuf:alias\n" },
         { path := [4, 0, 3, 0], leadingComments := some " protobuf:alias\n" }] }

/-- The schema of `accountsProto`. -/
def accountsSchema : Schema := Schema.ofProto accountsProto

/-- The file of `accountsSchema`. -/
def accountsFile : File := buildFile defaultMarker true accountsProto

theorem accountsSchema_built : accountsSchema.Built := Schema.built_ofProto _

theorem accountsSchema_files : accountsSchema.files = [accountsFile] := Schema.files_ofProto _

theorem accountsSchema_names :
    accountsSchema.allMessages.map (·.fullName) =
      [".shop.Account.Id", ".shop.Account", ".shop.User"] := by
  rw [Schema.allMessages, accountsSchema_files]
  rfl

theorem accountsSchema_distinct : (accountsSchema.allMessages.map (·.fullName)).Nodup := by
  rw [accountsSchema_names]
  decide

theorem consumed_iff_isErasable_or_uncovers_accounts :
    (accountsSchema.allMessages.map (·.fullName)).Nodup ∧ accountsFile ∈ accountsSchema.files ∧
      ∃ f', accountsSchema.resolve accountsFile = .ok f' ∧ ∀ m ∈ accountsFile.messages,
        (f'.Consumed m ↔ m.isErasable = true ∨ accountsSchema.uncovers m = true) ∧
        ((f'.Consumed m ↔ m.isErasable = true) ↔ accountsSchema.uncovers m = false) := by
  have hmem : accountsFile ∈ accountsSchema.files := by simp [accountsSchema_files]
  exact ⟨accountsSchema_distinct, hmem,
    consumed_iff_isErasable_or_uncovers _ _ _ accountsSchema_distinct hmem⟩

/-- The payload of `Account` refers to the alias `Account.Id`. -/
theorem accountsSchema_id : ∃ t, accountsSchema.message? ".shop.Account.Id" = some t ∧
    ∃ q, t.erasablePayload? = some q ∧ q.typeName? = none := by
  rw [Schema.message?_eq_getLast? accountsSchema_built.indexed, Schema.allMessages,
    accountsSchema_files]
  exact ⟨_, rfl, _, rfl, rfl⟩

/-- `Account` cannot be erased as it stands, but it is uncovered. -/
theorem accounts_uncovers {m : Message} (hm : accountsFile.messages[0]? = some m) :
    accountsSchema.uncovers m = true := by
  obtain ⟨t, ht, q, hq, htype⟩ := accountsSchema_id
  cases hm
  refine Schema.uncovers_iff.mpr ⟨_, t, q, rfl, rfl, ?_, ?_⟩
  · rw [Schema.aliasTarget?_eq_some_iff]
    exact ⟨rfl, rfl, ht, hq⟩
  · rw [Message.declares, htype]

/-- `User` stays, and it refers to `Account`. -/
theorem accounts_user : ∃ p ∈ accountsSchema.kept accountsFile, ∃ x ∈ p.1.fields,
    x.kind = .message ∧ x.message = some ".shop.Account" := by
  have huser := List.mem_of_getElem?
    (l := accountsFile.messages.zip accountsFile.proto.messageType) (i := 1) rfl
  exact ⟨_, List.mem_filter.mpr ⟨huser, rfl⟩, _, List.mem_of_getElem? (i := 0) rfl, rfl, rfl⟩

/-- **The decision can differ from the schema's word.** `Account` cannot be erased as the schema
has it, and `User` goes on referring to it; nevertheless it leaves the file. -/
theorem not_consumed_iff_isErasable_accounts :
    (accountsSchema.allMessages.map (·.fullName)).Nodup ∧ accountsFile ∈ accountsSchema.files ∧
      ∃ f', accountsSchema.resolve accountsFile = .ok f' ∧ ∃ m ∈ accountsFile.messages,
        m.isErasable = false ∧ f'.Consumed m ∧
          ∃ k ∈ f'.messages, ∃ x ∈ k.fields, x.kind = .message ∧ x.message = some m.fullName := by
  have hmem : accountsFile ∈ accountsSchema.files := by simp [accountsSchema_files]
  have haccount := List.mem_of_getElem? (l := accountsFile.messages) (i := 0) rfl
  have hall := Schema.mem_allMessages_of_mem hmem haccount
  refine ⟨accountsSchema_distinct, hmem, _,
    (accountsSchema_built.files _ hmem).resolve_eq_ok _, _, haccount, rfl, ?_, ?_⟩
  · rw [accountsSchema_built.consumed_iff accountsSchema_distinct hmem haccount, Schema.consumes,
      accounts_uncovers rfl, Bool.or_true]
  · obtain ⟨p, hp, x, hx, hkind, hname⟩ := accounts_user
    have hnone := accountsSchema_built.aliasTarget?_eq_none accountsSchema_distinct hall rfl hname
    refine ⟨_, Schema.mem_resolved_messages hp, _,
      Schema.settleField_mem_resolveMessage _ _ _ hx, ?_⟩
    rw [Schema.settleField_of_none _ hnone]
    exact ⟨hkind, hname⟩

end AliasErasure
