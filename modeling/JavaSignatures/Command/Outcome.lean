import JavaSignatures.Report.Format
import JavaSignatures.Settings

set_option autoImplicit false

/-!
# Commands: outcomes

What a command leaves behind: its output, its complaints about single files, and the failure with
which it ends, if it does.
-/

namespace JavaSignatures.Command

/-- Why a command fails. -/
inductive Failure where
  | badSettings (path : String) (fault : Settings.Fault)
  /-- the settings name a format that does not exist -/
  | unknownFormat (name : String)
  | filesFailed (failed total : Nat)
  | missingPath (path : String) (error : FileError)
  /-- the absolute path leads to a file -/
  | notDirectory (path : String)
  | unwritable (path : String) (error : FileError)
  deriving DecidableEq, Repr, Inhabited

namespace Failure

/-- What is said of the failure, and then of its cause.  The words of the TOML reader, the cause of
settings that are invalid, are left out (`Settings.Fault.invalid`). -/
def messages : Failure → List String
  | badSettings path (.unreadable error) => ["Failed to read config: " ++ path, error.message]
  | badSettings path .invalid => ["Invalid config: " ++ path]
  | unknownFormat name => ["Invalid [output] format in config", Report.Format.unknown name]
  | filesFailed failed total => [toString failed ++ " of " ++ toString total ++ " files failed"]
  | missingPath path error => ["Path does not exist: " ++ path, error.message]
  | notDirectory path => ["Path is not a directory: " ++ path]
  | unwritable path error => ["Failed to write " ++ path, error.message]

end Failure

/-- What a command leaves behind. -/
structure Outcome where
  output : String := ""
  complaints : String := ""
  failure : Option Failure := none
  deriving DecidableEq, Repr, Inhabited

namespace Outcome

/-- The outcome of a command that fails before it has done anything. -/
def ofFailure (failure : Failure) : Outcome := { failure := some failure }

/-- The exit status. -/
def status (outcome : Outcome) : Nat := if outcome.failure.isSome then 1 else 0

end Outcome

end JavaSignatures.Command
