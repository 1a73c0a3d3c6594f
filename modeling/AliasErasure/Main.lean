import AliasErasure.Run.Command

set_option autoImplicit false

/-! # The command line

Reads an encoded request from standard input or from a file, and writes the encoded response to
standard output or the generated files to a directory. All decisions are those of `Run/Command`;
this module only reads and writes.
-/

namespace AliasErasure.CommandLine

/-- What the command line says. -/
structure Arguments where
  request : Option String := none
  output : Option String := none
  parameter : Option String := none
  /-- How often more reports are asked for. -/
  verbosity : Nat := 0
  /-- Whether only the version is asked for. -/
  version : Bool := false

/-- An option that takes a value. -/
inductive Setting where
  | request
  | output
  | parameter

/-- The option with a name. -/
def Setting.ofName? : String → Option Setting
  | "--request" => some .request
  | "--output" | "-o" => some .output
  | "--parameter" | "-p" => some .parameter
  | _ => none

/-- Gives an option a value. -/
def Setting.put (value : String) (a : Arguments) : Setting → Arguments
  | .request => { a with request := some value }
  | .output => { a with output := some value }
  | .parameter => { a with parameter := some value }

/-- An option and its value that are written in one piece, with an equals sign between them. -/
def attached? (argument : String) : Option (Setting × String) :=
  let (name, value) := argument.toList.span (· != '=')
  match Setting.ofName? (String.ofList name), value with
  | some setting, '=' :: value => some (setting, String.ofList value)
  | _, _ => none

/-- How many more reports an argument asks for, if it is about that. -/
def verbosity? (argument : String) : Option Nat :=
  match argument.toList with
  | '-' :: letters =>
      if argument = "--verbose" then some 1
      else if !letters.isEmpty && letters.all (· == 'v') then some letters.length
      else none
  | _ => none

/-- What has been read of the command line, and the option whose value comes next. -/
structure Reading where
  arguments : Arguments := {}
  awaited : Option Setting := none

/-- Reads one argument more; `none` if it is not understood. -/
def Reading.next? (r : Reading) (argument : String) : Option Reading :=
  let a := r.arguments
  match r.awaited with
  | some setting => some { arguments := setting.put argument a }
  | none =>
      -- nothing after a question for the version counts
      if a.version then some r
      else if argument = "--version" ∨ argument = "-V" then
        some { arguments := { a with version := true } }
      else
        match verbosity? argument, attached? argument with
        | some more, _ => some { arguments := { a with verbosity := a.verbosity + more } }
        | none, some (setting, value) => some { arguments := setting.put value a }
        | none, none => (Setting.ofName? argument).map fun setting => ⟨a, some setting⟩

/-- Reads the command line; `none` if it is not understood. -/
def parse? (arguments : List String) : Option Arguments :=
  match arguments.foldlM Reading.next? {} with
  | some ⟨a, none⟩ => some a
  | _ => none

/-- Reads a stream to its end. -/
partial def readAll (stream : IO.FS.Stream) (read : ByteArray) : IO ByteArray := do
  let more ← stream.read 65536
  if more.isEmpty then return read else readAll stream (read ++ more)

/-- The number of a system error, which may come negated. -/
def errorNumber (code : UInt32) : Nat :=
  if code.toNat < 0x80000000 then code.toNat else 0x100000000 - code.toNat

/-- The number and the text of a system error, if it has any. -/
def systemError? : IO.Error → Option (UInt32 × String)
  | .alreadyExists _ code text | .otherError code text | .resourceBusy code text
  | .resourceVanished code text | .unsupportedOperation code text | .hardwareFault code text
  | .unsatisfiedConstraints code text | .illegalOperation code text | .protocolError code text
  | .timeExpired code text | .interrupted _ code text | .noFileOrDirectory _ code text
  | .invalidArgument _ code text | .permissionDenied _ code text | .resourceExhausted _ code text
  | .inappropriateType _ code text | .noSuchThing _ code text => some (code, text)
  | _ => none

/-- How the system words an error. -/
def systemText (e : IO.Error) : String :=
  match systemError? e with
  | some (code, text) => s!"{text.capitalize} (os error {errorNumber code})"
  | none => toString e

/-- Whether an error says that something on the way to a path is missing. -/
def isMissing : IO.Error → Bool
  | .noFileOrDirectory .. => true
  | _ => false

/-- Whether there is a folder at a path. -/
def isFolder (path : String) : IO Bool := do
  try return ← (← IO.FS.realPath path).isDir
  catch _ => return false

/-- Makes a folder, after those around it if they are missing. -/
partial def makeFolder (path : String) : IO Unit := do
  if path = "" then return
  try IO.FS.createDir path
  catch e =>
    if isMissing e then
      makeFolder (Path.parent path)
      try IO.FS.createDir path
      catch e => if !(← isFolder path) then throw e
    else if !(← isFolder path) then throw e

/-- Does something with a path; the result is the reason if it is refused. -/
def attempt (path : String) (action : IO Unit) : IO (Option String) := do
  if Directory.hasNul path then return some Refusal.nulInName.message
  try
    action
    return none
  catch e => return some (systemText e)

/-- The file system of the machine. -/
def fileSystem : FileSystem IO where
  makeFolders path := attempt path (makeFolder path)
  writeFile path content := attempt path (IO.FS.writeFile path content)

/-- Reads the request. -/
def readRequest (path : Option String) : IO (Except String (List UInt8)) := do
  match path with
  | none => return .ok (← readAll (← IO.getStdin) .empty).toList
  | some path =>
      try return .ok (← IO.FS.readBinFile path).toList
      catch e => return .error (unreadableRequest path (systemText e))

/-- Shows events that are severe enough. -/
def report (a : Arguments) (events : List Event) : IO Unit :=
  for event in Event.atLeast (Level.ofVerbosity a.verbosity) events do
    IO.eprintln event.line

/-- Runs the command on a request; the result is the report of a failure. -/
def run (a : Arguments) (input : List UInt8) : IO (Option String) := do
  report a (readEvents input)
  match a.output with
  | none =>
      report a (respondEvents input a.parameter)
      (← IO.getStdout).write ⟨(respond input a.parameter).toArray⟩
      return none
  | some output =>
      let done ← fileSystem.writeOutputs output input a.parameter
      report a (done.events input a.parameter)
      IO.print done.listing
      return done.report

/-- Reads the request and runs the command on it; the result is the exit code. -/
def runOn (a : Arguments) : IO UInt32 := do
  let failure ← match ← readRequest a.request with
    | .error text => pure (some text)
    | .ok input => run a input
  match failure with
  | none => return 0
  | some text =>
      IO.eprint text
      return 1

end AliasErasure.CommandLine

open AliasErasure AliasErasure.CommandLine

def main (args : List String) : IO UInt32 := do
  match parse? args with
  | none =>
      IO.eprintln "error: unexpected argument"
      return 2
  | some a =>
      if a.version then
        IO.println s!"protoc-gen-alias {commandVersion}"
        return 0
      else runOn a
