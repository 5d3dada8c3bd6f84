import JavaSignatures.Command.Outcome
import JavaSignatures.Files.Tree

set_option autoImplicit false

/-!
# Commands: writing settings

A directory is given a settings file that spells out the defaults.  A directory that has one already
keeps it.
-/

namespace JavaSignatures.Command

/-- What the command finds at the path it is given. -/
inductive Finding where
  | nothing (error : FileError)
  | plainFile (path : String)
  /-- a directory with a settings file at the absolute path -/
  | present (path : String)
  /-- a directory without one -/
  | absent (path : String)
  deriving DecidableEq, Repr, Inhabited

namespace WriteSettings

/-- The settings file that is written. -/
def sampleText : String := "\n".intercalate
  ["# apisig configuration",
    "",
    "[resolver]",
    "# How type variables render in signatures:",
    "#   \"erase\" - replaced by their first bound (T extends Foo -> Foo)",
    "#   \"keep\"  - left as written (T)",
    "type_variables = \"erase\"",
    "",
    "# Rendered for an erased type variable that has no bound",
    "placeholder = \"java.lang.Object\"",
    "",
    "[output]",
    "# Default output format (text, json, api)",
    "format = \"text\"",
    ""]

/-- What stands at a path. -/
def survey (system : FileSystem) (path : String) : Finding :=
  match system.locate path with
  | .error error => .nothing error
  | .ok place =>
    match system.top.at? place with
    | .error error => .nothing error
    | .ok (.file _) => .plainFile place.absolute
    | .ok (.directory _) =>
      match system.top.at? (place ++ [Settings.fileName]) with
      | .ok _ => .present (Place.absolute (place ++ [Settings.fileName]))
      | .error _ => .absent (Place.absolute (place ++ [Settings.fileName]))

/-- What is said of a settings file. -/
def notice (colors : Bool) (verb path : String) : String :=
  Report.accented colors [.green] "✓" ++ " " ++ verb ++ " " ++
    Report.accented colors [.cyan] path ++ "\n"

/-- The outcome of the command for the path, after what it has found there. -/
def outcome (colors : Bool) (path : String) : Finding → Outcome
  | .nothing error => .ofFailure (.missingPath path error)
  | .plainFile path => .ofFailure (.notDirectory path)
  | .present path => { output := notice colors "Already initialized at" path }
  | .absent path => { output := notice colors "Created" path }

/-- Runs the command: the outcome, and the files afterwards. -/
def run (system : FileSystem) (colors : Bool) (path : String) : Outcome × FileSystem :=
  let finding := survey system path
  let after :=
    match finding, system.locate path with
    | .absent _, .ok place => system.put (place ++ [Settings.fileName]) sampleText.toUTF8
    | _, _ => system
  (outcome colors path finding, after)

end WriteSettings

end JavaSignatures.Command
