import JavaSignatures.Command.WriteSettings
import JavaSignatures.CommandLine.Reading

set_option autoImplicit false

/-!
# The program

Running a command line on a file system: what it leaves behind, and the files afterwards.  Parsing
changes no file.
-/

namespace JavaSignatures.Program

open CommandLine

/-- Runs a task. -/
def run (system : FileSystem) (colors : Bool) : Task → Command.Outcome × FileSystem
  | .parseFiles command => (command.run system.files colors, system)
  | .writeSettings path => Command.WriteSettings.run system colors path

end JavaSignatures.Program
