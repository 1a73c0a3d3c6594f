import AliasErasure.Schema.Build
import Std.Data.HashMap

set_option autoImplicit false

/-! # Schemas

A schema is a list of files with an index of their messages by qualified name. The index covers
nested messages at every depth. When several messages have one name, the last one counts in the
order in which they are indexed: files, messages and nested messages in order, and the messages
nested in a message before that message itself.
-/

namespace AliasErasure

open Descriptor (FileProto)

/-- Where a message stands: the position of its file, and the positions that lead to it, from the
top-level message inwards. -/
structure MessagePlace where
  file : Nat
  path : List Nat
  deriving DecidableEq, Repr

/-- The message that nested positions lead to from `m`. -/
def Message.descend? (m : Message) : List Nat → Option Message
  | [] => some m
  | i :: path =>
      match m.nested[i]? with
      | some inner => inner.descend? path
      | none => none

/-- The message that a path leads to from a list of top-level messages. -/
def Message.atPath? (messages : List Message) : List Nat → Option Message
  | [] => none
  | i :: path => messages[i]?.bind (·.descend? path)

mutual

/-- The places of a message and of those nested in it, with their names, in index order. -/
def Message.places (file : Nat) (path : List Nat) : Message → List (String × MessagePlace)
  | { fullName := fullName, nested := nested, .. } =>
      nestedPlaces file path 0 nested ++ [(fullName, ⟨file, path⟩)]

/-- The places of nested messages, the first of which has position `i`. -/
def nestedPlaces (file : Nat) (path : List Nat) : Nat → List Message → List (String × MessagePlace)
  | _, [] => []
  | i, m :: rest => m.places file (path ++ [i]) ++ nestedPlaces file path (i + 1) rest

end

/-- The places of all messages of some files, with their names, in index order. -/
def messagePlaces (files : List File) : List (String × MessagePlace) :=
  (files.mapIdx fun file f => nestedPlaces file [] 0 f.messages).flatten

/-- Files with an index of their messages. -/
structure Schema where
  files : List File
  index : Std.HashMap String MessagePlace

namespace Schema

/-- The schema of files whose models are built already. -/
def ofFiles (files : List File) : Schema where
  files := files
  index := (messagePlaces files).foldl (fun index entry => index.insert entry.1 entry.2) ∅

/-- The schema of descriptors. Output is asked for the files named in `generate`. -/
def ofProtos (marker : String) (generate : List String) (protos : List FileProto) : Schema :=
  ofFiles (protos.map fun f => buildFile marker (generate.contains (f.name.getD "")) f)

/-- The files that output is asked for. -/
def filesToGenerate (s : Schema) : List File := s.files.filter (·.generate)

/-- The first file with a name. -/
def file? (s : Schema) (name : String) : Option File := s.files.find? fun f => f.name == name

/-- A qualified name with its leading dot, which may be left out. -/
def qualified (name : String) : String :=
  if name.toList.head? = some '.' then name else "." ++ name

/-- The message with a qualified name. -/
def message? (s : Schema) (name : String) : Option Message :=
  match s.index[qualified name]? with
  | none => none
  | some place => s.files[place.file]?.bind fun f => Message.atPath? f.messages place.path

/-! ## Events -/

/-- What is reported when files are indexed. -/
def indexEvents (s : Schema) : List Event :=
  [Event.debug s!"Indexed {s.index.size} messages across {s.files.length} files"]

/-- What is reported when a schema is made of descriptors. -/
def protosEvents (protos : List FileProto) (s : Schema) : List Event :=
  protos.flatMap buildEvents ++ s.indexEvents

end Schema

end AliasErasure
