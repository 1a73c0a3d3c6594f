import AliasErasure.Proofs.Schema.Built
import AliasErasure.Erasure.Resolve

set_option autoImplicit false

/-! # Resolving depends on look-ups only

All that a schema contributes to resolving a file are the messages that names lead to. So schemas
in which every name leads to the same message resolve every file alike (`Schema.resolve_congr`),
whichever other files they hold and whichever of these output is asked for.

Look-ups agree if the schemas have the same messages in index order
(`Schema.message?_congr`), and also if they have the same messages in any order, as long as no two
of them have one name (`Schema.Built.message?_perm`).
-/

namespace AliasErasure

open Descriptor (FieldProto MessageProto)

/-! ## Where look-ups agree -/

/-- **The order of messages does not matter** where their names are distinct. -/
theorem Schema.Built.message?_perm {s s' : Schema} (hs : s.Built) (hs' : s'.Built)
    (h : s.allMessages.Perm s'.allMessages)
    (distinct : (s.allMessages.map (·.fullName)).Nodup) : s.message? = s'.message? := by
  have distinct' : (s'.allMessages.map (·.fullName)).Nodup := (h.map _).nodup_iff.mp distinct
  funext name
  apply Option.ext
  intro m
  rw [hs.message?_eq_some_iff distinct, hs'.message?_eq_some_iff distinct', h.mem_iff]

/-! ## What look-ups decide

One lemma for each step of resolving, from the references of a field up to the file. -/

section Congr

variable {s s' : Schema} (h : s.message? = s'.message?)
include h

theorem Schema.aliasTarget?_congr : s.aliasTarget? = s'.aliasTarget? := by
  funext f
  rw [Schema.aliasTarget?, Schema.aliasTarget?, h]

theorem Schema.refersToAlias_congr : s.refersToAlias = s'.refersToAlias := by
  funext f
  rw [Schema.refersToAlias, Schema.refersToAlias, Schema.aliasTarget?_congr h]

theorem Schema.emptiesOneofs_congr : s.emptiesOneofs = s'.emptiesOneofs := by
  funext m
  rw [Schema.emptiesOneofs, Schema.emptiesOneofs, Schema.refersToAlias_congr h]

theorem Schema.messageMismatch?_congr : s.messageMismatch? = s'.messageMismatch? := by
  have hfield : s.fieldMismatch? = s'.fieldMismatch? := by
    funext file m i raw f j
    rw [Schema.fieldMismatch?, Schema.fieldMismatch?, Schema.refersToAlias_congr h]
  funext file m i raw
  rw [Schema.messageMismatch?, Schema.messageMismatch?, hfield, Schema.emptiesOneofs_congr h]

theorem Schema.mismatch?_congr : s.mismatch? = s'.mismatch? := by
  have hpair : s.pairMismatch? = s'.pairMismatch? := by
    funext file ⟨⟨m, raw⟩, i⟩
    rw [Schema.pairMismatch?, Schema.pairMismatch?, Schema.messageMismatch?_congr h]
  funext f
  rw [Schema.mismatch?, Schema.mismatch?, hpair]

theorem Schema.resolveField_congr : s.resolveField = s'.resolveField := by
  funext f
  rw [Schema.resolveField, Schema.resolveField, Schema.aliasTarget?_congr h]

theorem Schema.resolveFieldProtos_congr (fs : List Field) (raws : List FieldProto) :
    s.resolveFieldProtos fs raws = s'.resolveFieldProtos fs raws := by
  have hfield : s.resolveFieldProto = s'.resolveFieldProto := by
    funext f raw
    rw [Schema.resolveFieldProto, Schema.resolveFieldProto, Schema.refersToAlias_congr h,
      Schema.resolveField_congr h]
  induction fs generalizing raws with
  | nil => rfl
  | cons f fs ih =>
      cases raws with
      | nil => rfl
      | cons raw rest =>
          rw [Schema.resolveFieldProtos, Schema.resolveFieldProtos, hfield, ih rest]

theorem Schema.resolvePair_congr : s.resolvePair = s'.resolvePair := by
  have hmessage : s.resolveMessage = s'.resolveMessage := by
    funext m raw
    rw [Schema.resolveMessage, Schema.resolveMessage, Schema.resolveField_congr h,
      Schema.resolveFieldProtos_congr h, Schema.emptiesOneofs_congr h]
  funext p
  rw [Schema.resolvePair, Schema.resolvePair, hmessage]

/-- **Schemas that look up alike resolve alike.** -/
theorem Schema.resolve_congr : s.resolve = s'.resolve := by
  funext f
  rw [Schema.resolve, Schema.resolve, Schema.mismatch?_congr h, Schema.survivors,
    Schema.survivors, Schema.resolvePair_congr h]

end Congr

end AliasErasure
