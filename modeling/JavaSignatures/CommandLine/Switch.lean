import JavaSignatures.Report.Format

set_option autoImplicit false

/-!
# Command line: options

The options, where they may stand and which values they take.
-/

namespace JavaSignatures.CommandLine

/-- A part of the command line. -/
inductive Level where
  /-- in front of the command -/
  | front
  /-- behind the command that writes settings -/
  | writing
  /-- behind the command that parses files -/
  | parsing
  deriving DecidableEq, Repr, Inhabited

namespace Level

/-- The most operands that the part takes. -/
def operandLimit? : Level → Option Nat
  | front => some 0
  | writing => some 1
  | parsing => none

end Level

/-- How much is logged. -/
inductive LogLevel where
  | errors
  | warnings
  | information
  | debugging
  | tracing
  deriving DecidableEq, Repr, Inhabited

namespace LogLevel

/-- All levels, from the quietest on. -/
def all : List LogLevel := [errors, warnings, information, debugging, tracing]

/-- The name of the level. -/
def name : LogLevel → String
  | errors => "error"
  | warnings => "warn"
  | information => "info"
  | debugging => "debug"
  | tracing => "trace"

/-- The level of a name. -/
def ofName? (name : String) : Option LogLevel := all.find? fun level => level.name == name

end LogLevel

/-- An option. -/
inductive Switch where
  | logLevel
  | settings
  | help
  | version
  | inner
  | format
  | keepVariables
  deriving DecidableEq, Repr, Inhabited

namespace Switch

/-- All options. -/
def all : List Switch := [logLevel, settings, help, version, inner, format, keepVariables]

/-- The name of the option, which follows two dashes. -/
def name : Switch → String
  | logLevel => "log-level"
  | settings => "config"
  | help => "help"
  | version => "version"
  | inner => "inner"
  | format => "format"
  | keepVariables => "keep-type-variables"

/-- The letter of the option, which follows one dash. -/
def letter? : Switch → Option Char
  | help => some 'h'
  | version => some 'V'
  | format => some 'f'
  | _ => none

/-- The option is allowed in a part of the command line. -/
def isAllowedIn (level : Level) : Switch → Bool
  | logLevel | settings | help => true
  | version => level == .front
  | inner | format | keepVariables => level == .parsing

/-- The option has a value. -/
def hasValue : Switch → Bool
  | logLevel | settings | inner | format => true
  | help | version | keepVariables => false

/-- The format of a name, without its other spellings. -/
def formatOfName? (name : String) : Option Report.Format :=
  [Report.Format.listing, .catalogues, .models].find? fun format => format.name == name

/-- The value is one that the option may have.  A path may not be empty. -/
def accepts (value : String) : Switch → Bool
  | logLevel => (LogLevel.ofName? value).isSome
  | settings => !value.isEmpty
  | format => (formatOfName? value).isSome
  | _ => true

/-- The option of a name. -/
def ofName? (level : Level) (name : String) : Option Switch :=
  all.find? fun switch => switch.isAllowedIn level && switch.name == name

/-- The option of a letter. -/
def ofLetter? (level : Level) (letter : Char) : Option Switch :=
  all.find? fun switch => switch.isAllowedIn level && switch.letter? == some letter

theorem formatOfName?_name (format : Report.Format) :
    formatOfName? format.name = some format := by
  cases format <;> decide +kernel

end Switch

/-! ## Arguments -/

/-- What an argument looks like. -/
inductive Argument where
  /-- two dashes; operands follow -/
  | separator
  /-- an option by its name, and the value attached to it -/
  | named (name : String) (value : Option String)
  /-- an option by its letter, and the text attached to it -/
  | lettered (letter : Char) (attached : String)
  | plain (text : String)
  deriving DecidableEq, Repr, Inhabited

namespace Argument

/-- The look of an argument.  A single dash is plain. -/
def ofText (text : String) : Argument :=
  match text.toList with
  | ['-', '-'] => .separator
  | '-' :: '-' :: rest =>
    match Text.cut? (· == '=') rest with
    | some (name, value) => .named (String.ofList name) (some (String.ofList value))
    | none => .named (String.ofList rest) none
  | '-' :: letter :: rest => .lettered letter (String.ofList rest)
  | _ => .plain text

/-- The value in a text that is attached to a letter; an equals sign in front of it is left out. -/
def attachedValue? (attached : String) : Option String :=
  match attached.toList with
  | [] => none
  | '=' :: rest => some (String.ofList rest)
  | _ => some attached

end Argument

end JavaSignatures.CommandLine
