import JavaSignatures.Command.Outcome
import JavaSignatures.Session

set_option autoImplicit false

/-!
# Commands: parsing files

Every source file is read in a session of its own, with the settings of its directory or those that
the command names.  The report shows the files that could be parsed, in the order in which they are
named; a file that could not is complained of, and the command fails after the report.
-/

namespace JavaSignatures.Command

/-- What the command is asked to do. -/
structure ParseFiles where
  /-- the paths of the source files -/
  paths : List String
  /-- the path of the nested declaration that is wanted in each file -/
  inner : Option String := none
  /-- the format of the report, unless the settings decide -/
  format : Option Report.Format := none
  /-- keeps type variables as they are written, whatever the settings say -/
  keepsVariables : Bool := false
  /-- the path of the settings file, unless each directory has its own -/
  settings : Option String := none
  deriving DecidableEq, Repr, Inhabited

/-- Why a file is missing from the report. -/
inductive FileFault where
  | unreadable (error : FileError)
  | unparsable (error : SessionError)
  deriving DecidableEq, Repr, Inhabited

namespace FileFault

/-- What is said of the file. -/
def message (path : String) : FileFault → String
  | unreadable error => "Failed to read file: " ++ path ++ ": " ++ error.message
  | unparsable error => "Failed to parse " ++ path ++ ": " ++ error.message

end FileFault

namespace ParseFiles

/-! ## One file -/

/-- The settings with the type variables that the command wants. -/
def adjust (command : ParseFiles) (settings : Settings) : Settings :=
  if command.keepsVariables then
    { settings with rendering := { settings.rendering with mode := .keep } }
  else settings

/-- The settings of a file: the ones that the command names, or those of its directory. -/
def settingsOf (files : Files) (named : Option Settings) (path : String) : Settings :=
  match named with
  | some settings => settings
  | none => Settings.ofDirectory files (Path.directory path)

/-- Parses a file with its settings. -/
def parseFile (command : ParseFiles) (files : Files) (settings : Settings) (path : String) :
    Except FileFault Report.Source :=
  match files.readText path with
  | .error error => .error (.unreadable error)
  | .ok source =>
    let session : Session .java := { style := ⟨(command.adjust settings).rendering, {}⟩ }
    match session.parse source command.inner with
    | .error error => .error (.unparsable error)
    | .ok after => .ok ⟨path, after.catalogue⟩

/-- A file has failed if it is missing from the report, or if the wanted declaration is missing from
it. -/
def isFailure : Except FileFault Report.Source → Bool
  | .error _ => true
  | .ok source => source.catalogue.errorMessage.isSome

/-- The line that complains of a file. -/
def complaint (colors : Bool) (path : String) : Except FileFault Report.Source → String
  | .error fault =>
    Report.accented colors [.red, .bold] "error:" ++ " " ++ fault.message path ++ "\n"
  | .ok _ => ""

/-! ## The command -/

/-- The settings that the command names. -/
def namedSettings (command : ParseFiles) (files : Files) : Except Failure (Option Settings) :=
  match command.settings with
  | none => .ok none
  | some path =>
    match Settings.load files path with
    | .ok settings => .ok (some settings)
    | .error fault => .error (.badSettings path fault)

/-- The format of the report: the one that the command names, or the one of the settings it names,
or the one of the first file's directory, or the usual one. -/
def formatOf (command : ParseFiles) (files : Files) (named : Option Settings) :
    Except Failure Report.Format :=
  match command.format with
  | some format => .ok format
  | none =>
    let settings :=
      match named, command.paths with
      | some settings, _ => settings
      | none, path :: _ => settingsOf files none path
      | none, [] => {}
    match settings.format with
    | none => .ok .listing
    | some name =>
      match Report.Format.ofName? name with
      | some format => .ok format
      | none => .error (.unknownFormat name)

/-- What becomes of each file. -/
def results (command : ParseFiles) (files : Files) (named : Option Settings) :
    List (String × Except FileFault Report.Source) :=
  command.paths.map fun path =>
    (path, command.parseFile files (settingsOf files named path) path)

/-- The sources that the report shows. -/
def shown (results : List (String × Except FileFault Report.Source)) : List Report.Source :=
  results.filterMap fun result =>
    match result.2 with
    | .ok source => some source
    | .error _ => none

/-- The outcome of the files in a format. -/
def conclude (colors : Bool) (format : Report.Format)
    (results : List (String × Except FileFault Report.Source)) : Outcome :=
  let failed := (results.filter fun result => isFailure result.2).length
  { output := Report.render format colors (shown results) ++ "\n"
    complaints := String.join (results.map fun result => complaint colors result.1 result.2)
    failure := if failed == 0 then none else some (.filesFailed failed results.length) }

/-- Runs the command. -/
def run (command : ParseFiles) (files : Files) (colors : Bool) : Outcome :=
  match command.namedSettings files with
  | .error failure => .ofFailure failure
  | .ok named =>
    match command.formatOf files named with
    | .error failure => .ofFailure failure
    | .ok format => conclude colors format (command.results files named)

/-- The paths of all files that the command may read. -/
def readPaths (command : ParseFiles) : List String :=
  command.settings.toList ++ command.paths ++
    command.paths.map fun path => Path.join (Path.directory path) Settings.fileName

theorem length_results (command : ParseFiles) (files : Files) (named : Option Settings) :
    (command.results files named).length = command.paths.length := by
  simp [results]

end ParseFiles

end JavaSignatures.Command
