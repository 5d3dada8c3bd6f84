import JavaSignatures.CommandLine.Reading

set_option autoImplicit false

/-!
# Command line: usage

What is said instead of running a command: how the command line is written, the version, or what is
wrong with the arguments.
-/

namespace JavaSignatures.CommandLine

/-- The name and the version of the program. -/
def version : String := "apisig 0.1.0"

/-- How the command line is written. -/
def usage : String := "\n".intercalate
  ["Extract canonical, type-resolved method signatures and Javadoc from Java sources",
    "",
    "Usage: apisig [OPTIONS] init [PATH]",
    "       apisig [OPTIONS] parse <FILES>...",
    "",
    "Commands:",
    "  init   Write an example apisig.toml into a directory",
    "  parse  Parse Java sources and print their API signatures",
    "  help   Print this text",
    "",
    "Options:",
    "  --log-level <LOG_LEVEL>  error, warn, info, debug or trace",
    "  --config <CONFIG>        Config file (default: apisig.toml next to each source file)",
    "  -h, --help               Print this text",
    "  -V, --version            Print the version",
    "",
    "Options of parse:",
    "  --inner <INNER>          $-delimited path of a nested declaration, e.g. Outer$Inner",
    "  -f, --format <FORMAT>    text, json or api (default: config or text)",
    "  --keep-type-variables    Render type variables as written instead of erasing them"]

namespace Refusal

/-- What is wrong with the arguments, if anything is. -/
def complaint? : Refusal → Option String
  | helpWanted | versionWanted | nothingGiven => none
  | missingCommand => some "a command is missing"
  | unknownCommand => some "unknown command"
  | unknownArgument => some "unexpected argument"
  | missingOperand => some "a source file is missing"
  | badValue => some "invalid value of an option or argument"
  | unneededValue => some "an option that takes no value is given one"
  | repeatedOption => some "an option is given twice"

/-- What is printed for those who asked. -/
def output : Refusal → String
  | helpWanted => usage ++ "\n"
  | versionWanted => version ++ "\n"
  | _ => ""

/-- What is printed as a mistake. -/
def complaints (refusal : Refusal) : String :=
  match refusal, refusal.complaint? with
  | nothingGiven, _ => usage ++ "\n"
  | _, some complaint => "error: " ++ complaint ++ "\n\n" ++ usage ++ "\n"
  | _, none => ""

end Refusal

end JavaSignatures.CommandLine
