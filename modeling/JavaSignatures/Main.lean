import JavaSignatures.CommandLine.Usage
import JavaSignatures.Program

set_option autoImplicit false

/-!
# The command line program

Reads the files that a command needs, runs the command on them, and prints what it leaves behind.
-/

namespace JavaSignatures.Main

open CommandLine

/-- The failure of a file operation.  Some operations report the number of an error negated. -/
def fileError : IO.Error → FileError
  | .noFileOrDirectory .. => .notFound
  | .inappropriateType _ code details =>
    match min code (0 - code) with
    | 20 => .notDirectory
    | 21 => .isDirectory
    | _ => .other details
  | error => .other (toString error)

/-- The content of a file, or why there is none. -/
def readFile (path : String) : IO (Except FileError ByteArray) := do
  try
    return .ok (← IO.FS.readBinFile path)
  catch error =>
    return .error (fileError error)

/-- The files at the paths. -/
def readFiles (paths : List String) : IO Files := do
  let contents ← paths.mapM fun path => do return (path, ← readFile path)
  return ⟨fun path => (Entries.get? path contents).getD (.error .notFound)⟩

/-- Something stands at a path. -/
def isThere (path : String) : IO Bool := do
  try
    discard (IO.FS.realPath path)
    return true
  catch _ => return false

/-- What stands at a path. -/
def survey (path : String) : IO Command.Finding := do
  try
    let directory := toString (← IO.FS.realPath path)
    let settings := Path.join directory Settings.fileName
    match ← readFile directory with
    | .error .isDirectory =>
      if ← isThere settings then return .present settings else return .absent settings
    | _ => return .plainFile directory
  catch error =>
    return .nothing (fileError error)

/-- Runs a task. -/
def run (colors : Bool) : Task → IO Command.Outcome
  | .parseFiles command => do
    return command.run (← readFiles command.readPaths) colors
  | .writeSettings path => do
    let finding ← survey path
    match finding with
    | .absent settings =>
      try
        IO.FS.writeFile settings Command.WriteSettings.sampleText
      catch error =>
        return .ofFailure (.unwritable settings (fileError error))
    | _ => pure ()
    return Command.WriteSettings.outcome colors path finding

/-- The lines that tell of a failure. -/
def failureLines : List String → List String
  | [] => []
  | [message] => ["Error: " ++ message]
  | message :: causes =>
    ("Error: " ++ message) :: "" :: "Caused by:" :: causes.map fun cause => "    " ++ cause

end JavaSignatures.Main

open JavaSignatures JavaSignatures.Main in
/-- Runs the program. -/
def main (arguments : List String) : IO UInt32 := do
  match CommandLine.read arguments with
  | .error refusal =>
    IO.print refusal.output
    IO.eprint refusal.complaints
    return refusal.status.toUInt32
  | .ok invocation =>
    let outcome ← run (← (← IO.getStdout).isTty) invocation.task
    IO.print outcome.output
    IO.eprint outcome.complaints
    match outcome.failure with
    | none => pure ()
    | some failure => (failureLines failure.messages).forM fun line => IO.eprintln line
    return outcome.status.toUInt32
