import AliasErasure.Proofs.Erasure.Agreement
import AliasErasure.Proofs.Run.Isolation

set_option autoImplicit false

/-! # Runs for requests

The schema of a request is made of descriptors, so all of its files resolve, and the result of the
run is a plain expression (`runRequest_eq`): the files that output is asked for, each resolved, and
the output of each. No file ever fails, and the only error left is that descriptors do not link
(`runRequest_succeeds`).

The same expression shows what a file owes to the rest of the request. Its resolved form depends
on look-ups only, and these do not depend on the order of the descriptors as long as names are
distinct, nor on which files output is asked for. So a file that two such requests both ask for is
delivered alike by both (`runRequest_perm`).
-/

namespace AliasErasure

open Descriptor (FileProto Request)

/-! ## No file fails -/

/-- The files that output is asked for resolve, in order, to `resolved`. -/
def Schema.Delivers (s : Schema) (resolved : List File) : Prop :=
  List.Forall₂ (fun f f' => s.resolve f = .ok f') s.filesToGenerate resolved

/-- Those of some files that output is asked for, resolved. -/
def Schema.delivered (s : Schema) (fs : List File) : List File :=
  (fs.filter (·.generate)).map s.resolved

theorem Schema.delivered_append (s : Schema) (fs gs : List File) :
    s.delivered (fs ++ gs) = s.delivered fs ++ s.delivered gs := by
  rw [Schema.delivered, List.filter_append, List.map_append]
  rfl

theorem Schema.delivered_cons_of_generate (s : Schema) {f : File} (fs : List File)
    (h : f.generate = true) : s.delivered (f :: fs) = s.resolved f :: s.delivered fs := by
  rw [Schema.delivered, List.filter_cons_of_pos h, List.map_cons]
  rfl

theorem Schema.delivered_cons_of_not_generate (s : Schema) {f : File} (fs : List File)
    (h : f.generate ≠ true) : s.delivered (f :: fs) = s.delivered fs := by
  rw [Schema.delivered, List.filter_cons_of_neg h]
  rfl

/-- Files made of descriptors all resolve, and to one thing only. -/
theorem Schema.Built.delivers_iff {s : Schema} (hs : s.Built) {resolved : List File} :
    s.Delivers resolved ↔ resolved = s.delivered s.files := by
  have hself : s.Delivers (s.delivered s.files) := by
    rw [Schema.Delivers, Schema.delivered, List.forall₂_map_right_iff]
    apply List.forall₂_same.mpr
    intro f hf
    exact (hs.files f (List.mem_of_mem_filter hf)).resolve_eq_ok s
  have hunique : Relator.RightUnique fun f f' => s.resolve f = .ok f' := by
    intro f x y hx hy
    exact Except.ok.inj (hx.symm.trans hy)
  constructor
  · intro h
    exact List.right_unique_forall₂' hunique h hself
  · rintro rfl
    exact hself

/-- The result of a run in which these files have been resolved, and none has failed. -/
def Options.outcome (o : Options) (resolved : List File) : Generation where
  files := resolved.flatMap o.outputOf
  resolved := resolved

theorem Schema.shares_eq_outcome (o : Options) (s : Schema) {fs : List File}
    (h : ∀ f ∈ fs, f.IsBuilt) : s.shares o fs = o.outcome (s.delivered fs) := by
  induction fs with
  | nil => rfl
  | cons f fs ih =>
      have hf := (h f (by simp)).resolve_eq_ok s
      have hrest := ih fun x hx => h x (by simp [hx])
      rw [Schema.shares, hrest, Schema.share, hf]
      by_cases hgenerate : f.generate = true
      · rw [if_pos hgenerate, s.delivered_cons_of_generate fs hgenerate]
        rfl
      · rw [if_neg hgenerate, s.delivered_cons_of_not_generate fs hgenerate,
          Generation.nil_append]

section Request

variable (o : Options) (r : Request)

/-- The files that the run for a request resolves, resolved. -/
def requestDelivered : List File :=
  (requestSchema o r).delivered (requestSchema o r).files

theorem requestSchema_built : (requestSchema o r).Built := Schema.built_ofProtos _ _ _

/-- **The result of a run for a request.** -/
theorem runRequest_eq :
    runRequest o r =
      if o.validate then
        (link ((requestSchema o r).linkedProtos (requestDelivered o r))).map
          fun _ => o.outcome (requestDelivered o r)
      else .ok (o.outcome (requestDelivered o r)) := by
  rw [runRequest, Schema.generate_eq, Schema.shares_eq_outcome o _ (requestSchema_built o r).files]
  rfl

theorem eq_outcome_of_runRequest {g : Generation} (h : runRequest o r = .ok g) :
    g = o.outcome (requestDelivered o r) := by
  rw [runRequest_eq] at h
  split at h
  · cases hlink : link ((requestSchema o r).linkedProtos (requestDelivered o r)) with
    | error e =>
        rw [hlink] at h
        cases h
    | ok names =>
        rw [hlink] at h
        exact (Except.ok.inj h).symm
  · exact (Except.ok.inj h).symm

theorem runRequest_eq_error_iff {e : Error} :
    runRequest o r = .error e ↔ o.validate = true ∧
      link ((requestSchema o r).linkedProtos (requestDelivered o r)) = .error e := by
  rw [runRequest_eq]
  by_cases hvalidate : o.validate = true
  · rw [if_pos hvalidate]
    cases link ((requestSchema o r).linkedProtos (requestDelivered o r)) with
    | error e' => simp [hvalidate, Except.map]
    | ok names => simp [Except.map]
  · rw [if_neg hvalidate]
    simp [hvalidate]

end Request

/-- **Descriptors do not keep files from being resolved.** Every file of a schema made of
descriptors resolves. So a run for a request has no failures, and it ends in an error exactly if
the options ask for linking and the descriptors, those of resolved files in their place, do not
link. -/
theorem runRequest_succeeds :
    (∀ (marker : String) (generate : List String) (protos : List FileProto),
      ∀ f ∈ (Schema.ofProtos marker generate protos).files,
        ∃ f', (Schema.ofProtos marker generate protos).resolve f = .ok f') ∧
    ∀ (o : Options) (r : Request),
      (∀ g, runRequest o r = .ok g → g.failures = [] ∧ (requestSchema o r).Delivers g.resolved) ∧
      ∀ e, runRequest o r = .error e ↔
        o.validate = true ∧ ∃ resolved, (requestSchema o r).Delivers resolved ∧
          link ((requestSchema o r).linkedProtos resolved) = .error e := by
  constructor
  · intro marker generate protos f hf
    exact ⟨_, ((Schema.built_ofProtos marker generate protos).files f hf).resolve_eq_ok _⟩
  · intro o r
    have hdelivers : ∀ resolved, (requestSchema o r).Delivers resolved ↔
        resolved = requestDelivered o r := fun _ => (requestSchema_built o r).delivers_iff
    refine ⟨fun g hg => ?_, fun e => ?_⟩
    · obtain rfl := eq_outcome_of_runRequest o r hg
      exact ⟨rfl, (hdelivers _).mpr rfl⟩
    · simp only [runRequest_eq_error_iff, hdelivers, exists_eq_left]

/-! ## Order and selection of files -/

/-- The messages of a request: whether output is asked for a file makes no difference. -/
theorem requestSchema_allMessages (o : Options) (r : Request) :
    (requestSchema o r).allMessages =
      r.protoFile.flatMap fun p => families (buildFile o.marker true p).messages := by
  rw [Schema.allMessages, requestSchema, Schema.ofProtos, Schema.ofFiles, List.flatMap_map]
  rfl

/-- **The order of descriptors does not matter** where the names of messages are distinct. -/
theorem requestSchema_resolve (o : Options) {r r' : Request}
    (hperm : r.protoFile.Perm r'.protoFile)
    (distinct : ((requestSchema o r).allMessages.map (·.fullName)).Nodup) :
    (requestSchema o r).resolve = (requestSchema o r').resolve := by
  have hmessages : (requestSchema o r).allMessages.Perm (requestSchema o r').allMessages := by
    rw [requestSchema_allMessages, requestSchema_allMessages]
    exact hperm.flatMap_right _
  exact Schema.resolve_congr
    ((requestSchema_built o r).message?_perm (requestSchema_built o r') hmessages distinct)

/-- The result `g` delivers the file called `name` as `f'`: no other resolved file has this name,
and among what is generated the output of `f'` has the place of `f'`. -/
def Generation.DeliversAs (g : Generation) (o : Options) (name : String) (f' : File) : Prop :=
  ∃ before after, g.resolved = before ++ f' :: after ∧
    g.files = before.flatMap o.outputOf ++ o.outputOf f' ++ after.flatMap o.outputOf ∧
    f'.name = name ∧ ∀ x ∈ before ++ after, x.name ≠ name

/-- Where values are distinct, none of the others is the one in the middle. -/
theorem ne_of_nodup_map {α β : Type} {value : α → β} {before after : List α} {a b : α}
    (h : ((before ++ a :: after).map value).Nodup) (hb : b ∈ before ++ after) :
    value b ≠ value a := by
  rw [List.map_append, List.map_cons, List.nodup_middle, List.nodup_cons, ← List.map_append] at h
  intro heq
  exact h.1 (heq ▸ List.mem_map_of_mem hb)

/-- The model that a request has of one of its descriptors. -/
def requestFile (o : Options) (r : Request) (p : FileProto) : File :=
  buildFile o.marker (r.fileToGenerate.contains (p.name.getD "")) p

theorem Schema.exists_name_of_mem_delivered {s : Schema} {o : Options} {r : Request}
    {protos : List FileProto} {f' : File}
    (h : f' ∈ s.delivered (protos.map (requestFile o r))) :
    ∃ p ∈ protos, f'.name = p.name.getD "" := by
  obtain ⟨f, hf, rfl⟩ := List.mem_map.mp h
  obtain ⟨p, hp, rfl⟩ := List.mem_map.mp (List.mem_of_mem_filter hf)
  exact ⟨p, hp, rfl⟩

/-- A file that output is asked for is delivered. All that the rest of the request adds to this
is how the file resolves. -/
theorem runRequest_deliversAs {o : Options} {r : Request} {g : Generation}
    (hg : runRequest o r = .ok g)
    (names : (r.protoFile.map fun p => p.name.getD "").Nodup) {proto : FileProto}
    (hproto : proto ∈ r.protoFile) (hasked : proto.name.getD "" ∈ r.fileToGenerate) :
    ∃ f', (requestSchema o r).resolve (buildFile o.marker true proto) = .ok f' ∧
      g.DeliversAs o (proto.name.getD "") f' := by
  let s := requestSchema o r
  let f := buildFile o.marker true proto
  have hbuilt : f.IsBuilt := ⟨o.marker, true, rfl⟩
  have hfile : requestFile o r proto = f := by
    rw [requestFile, List.contains_iff_mem.mpr hasked]
  obtain ⟨before, after, hsplit⟩ := List.append_of_mem hproto
  let others (protos : List FileProto) : List File := s.delivered (protos.map (requestFile o r))
  have hdelivered : requestDelivered o r = others before ++ s.resolved f :: others after := by
    show s.delivered (r.protoFile.map (requestFile o r)) = _
    rw [hsplit, List.map_append, List.map_cons, Schema.delivered_append, hfile,
      s.delivered_cons_of_generate _ rfl]
  rw [hsplit] at names
  obtain rfl := eq_outcome_of_runRequest o r hg
  refine ⟨_, hbuilt.resolve_eq_ok s, others before, others after, hdelivered, ?_, rfl, ?_⟩
  · show (requestDelivered o r).flatMap o.outputOf = _
    rw [hdelivered, List.flatMap_append, List.flatMap_cons, List.append_assoc]
  · intro x hx
    rw [← Schema.delivered_append, ← List.map_append] at hx
    obtain ⟨p, hp, hname⟩ := Schema.exists_name_of_mem_delivered hx
    rw [hname]
    exact ne_of_nodup_map names hp

/-- **Order and selection of files do not matter.** Two requests with the same descriptors, in
whatever order, are run with the same options, without linking. File names are distinct, and so
are the names of messages. Then whatever file both requests ask for is delivered alike by both. -/
theorem runRequest_perm (o : Options) (r r' : Request) (hvalidate : o.validate = false)
    (hperm : r.protoFile.Perm r'.protoFile)
    (names : (r.protoFile.map fun p => p.name.getD "").Nodup)
    (distinct : ((requestSchema o r).allMessages.map (·.fullName)).Nodup) :
    ∃ g g', runRequest o r = .ok g ∧ runRequest o r' = .ok g' ∧
      ∀ proto ∈ r.protoFile, proto.name.getD "" ∈ r.fileToGenerate →
        proto.name.getD "" ∈ r'.fileToGenerate →
        ∃ f', g.DeliversAs o (proto.name.getD "") f' ∧
          g'.DeliversAs o (proto.name.getD "") f' := by
  have hrun : ∀ r : Request, ∃ g, runRequest o r = .ok g := by
    intro r
    rw [runRequest_eq, hvalidate]
    exact ⟨_, rfl⟩
  obtain ⟨g, hg⟩ := hrun r
  obtain ⟨g', hg'⟩ := hrun r'
  refine ⟨g, g', hg, hg', fun proto hproto hasked hasked' => ?_⟩
  have names' : (r'.protoFile.map fun p => p.name.getD "").Nodup :=
    (hperm.map _).nodup_iff.mp names
  obtain ⟨f', hf', hdelivers⟩ := runRequest_deliversAs hg names hproto hasked
  obtain ⟨f'', hf'', hdelivers'⟩ :=
    runRequest_deliversAs hg' names' (hperm.mem_iff.mp hproto) hasked'
  -- both files resolve from the same model, by look-ups that agree
  rw [requestSchema_resolve o hperm distinct, hf''] at hf'
  obtain rfl := Except.ok.inj hf'
  exact ⟨_, hdelivers, hdelivers'⟩

/-- A file with an alias, `Currency`. -/
def currenciesProto : FileProto where
  name := some "currencies.proto"
  package := some "shop"
  syntaxName := some "proto3"
  messageType :=
    [{ name := some "Currency"
       field := [{ name := some "code", number := some 1, label := some 1, type := some 9 }] }]
  sourceCodeInfo := some
    { location := [{ path := [4, 0], leadingComments := some " protobuf:alias\n" }] }

/-- A file in which `Wallet` refers to `Currency`. -/
def walletsProto : FileProto where
  name := some "wallets.proto"
  package := some "shop"
  dependency := ["currencies.proto"]
  syntaxName := some "proto3"
  messageType :=
    [{ name := some "Wallet"
       field := [{ name := some "currency", number := some 1, label := some 1, type := some 11
                   typeName := some ".shop.Currency" }] }]

/-- A request for `walletsProto` alone. -/
def walletsRequest : Request where
  fileToGenerate := ["wallets.proto"]
  protoFile := [currenciesProto, walletsProto]

/-- A request for both files, the other way round. -/
def bothRequest : Request where
  fileToGenerate := ["currencies.proto", "wallets.proto"]
  protoFile := [walletsProto, currenciesProto]

theorem walletsRequest_distinct :
    ((requestSchema {} walletsRequest).allMessages.map (·.fullName)).Nodup := by
  have hnames : (requestSchema {} walletsRequest).allMessages.map (·.fullName)
      = [".shop.Currency", ".shop.Wallet"] := by
    rw [requestSchema_allMessages]
    rfl
  rw [hnames]
  decide

theorem runRequest_perm_wallets :
    walletsRequest.protoFile.Perm bothRequest.protoFile ∧
      (walletsRequest.protoFile.map fun p => p.name.getD "").Nodup ∧
      ((requestSchema {} walletsRequest).allMessages.map (·.fullName)).Nodup ∧
      ∃ g g', runRequest {} walletsRequest = .ok g ∧ runRequest {} bothRequest = .ok g' ∧
        ∀ proto ∈ walletsRequest.protoFile,
          proto.name.getD "" ∈ walletsRequest.fileToGenerate →
          proto.name.getD "" ∈ bothRequest.fileToGenerate →
          ∃ f', g.DeliversAs {} (proto.name.getD "") f' ∧
            g'.DeliversAs {} (proto.name.getD "") f' :=
  have hperm : walletsRequest.protoFile.Perm bothRequest.protoFile := List.Perm.swap _ _ _
  have hnames : (walletsRequest.protoFile.map fun p => p.name.getD "").Nodup := by decide
  ⟨hperm, hnames, walletsRequest_distinct,
    runRequest_perm {} _ _ rfl hperm hnames walletsRequest_distinct⟩

end AliasErasure
