import JavaSignatures.Command.ParseFiles
import JavaSignatures.CommandLine.Switch

set_option autoImplicit false

/-!
# Command line: reading

The command line is read from left to right: options for all commands, the name of a command, and
its own options and operands.  What an argument brings is kept until the next one shows that it is
complete, and only then looked at (`Reading.resolve`); so an unknown option is told before a bad
value in front of it.
-/

namespace JavaSignatures.CommandLine

/-- Why a command line starts no command. -/
inductive Refusal where
  | helpWanted
  | versionWanted
  | nothingGiven
  | missingCommand
  | unknownCommand
  | unknownArgument
  | missingOperand
  | badValue
  | unneededValue
  | repeatedOption
  deriving DecidableEq, Repr, Inhabited

/-- The exit status: asking for help or the version is no mistake. -/
def Refusal.status : Refusal → Nat
  | .helpWanted | .versionWanted => 0
  | _ => 2

/-- What a command line asks for. -/
inductive Task where
  | writeSettings (path : String)
  | parseFiles (command : Command.ParseFiles)
  deriving DecidableEq, Repr, Inhabited

/-- A command line that has been read. -/
structure Invocation where
  logLevel : LogLevel := .warnings
  task : Task
  deriving DecidableEq, Repr, Inhabited

/-! ## One part of the command line -/

/-- What has been read and not been looked at. -/
inductive Pending where
  | nothing
  /-- an option that waits for its value -/
  | option (switch : Switch)
  | value (switch : Switch) (text : String)
  | operands (texts : List String)
  deriving DecidableEq, Repr, Inhabited

/-- What has been read of a part of the command line. -/
structure Reading where
  options : List (Switch × String) := []
  operands : List String := []
  pending : Pending := .nothing
  deriving DecidableEq, Repr, Inhabited

namespace Reading

/-- The value of an option. -/
def value? (reading : Reading) (switch : Switch) : Option String :=
  (reading.options.find? fun option => option.1 == switch).map Prod.snd

/-- Takes an option with its value.  No option may stand twice in one part. -/
def take (switch : Switch) (value : String) (reading : Reading) : Except Refusal Reading :=
  if (reading.value? switch).isSome then .error .repeatedOption
  else if !switch.accepts value then .error .badValue
  else .ok { reading with options := reading.options ++ [(switch, value)] }

/-- Looks at what is pending.  An operand is a path and may not be empty. -/
def resolve (reading : Reading) : Except Refusal Reading :=
  let settled := { reading with pending := .nothing }
  match reading.pending with
  | .nothing => .ok settled
  | .option _ => .error .badValue
  | .value switch text => settled.take switch text
  | .operands texts =>
    if texts.any String.isEmpty then .error .badValue
    else .ok { settled with operands := reading.operands ++ texts }

/-- Reads an option, with the value that is attached to it. -/
def addOption (switch : Switch) (attached : Option String) (reading : Reading) :
    Except Refusal Reading :=
  match switch.hasValue, attached with
  | true, some value => do (← reading.resolve).take switch value
  | true, none => do return { (← reading.resolve) with pending := .option switch }
  | false, some _ => .error .unneededValue
  | false, none => do
    let reading ← reading.resolve
    match switch with
    | .help => .error .helpWanted
    | .version => .error .versionWanted
    | _ => reading.take switch ""

/-- The number of operands that have been read. -/
def operandCount (reading : Reading) : Nat :=
  reading.operands.length +
    match reading.pending with
    | .operands texts => texts.length
    | _ => 0

/-- Reads an operand, for which there is room. -/
def addOperand (text : String) (reading : Reading) : Except Refusal Reading :=
  match reading.pending with
  | .operands texts => .ok { reading with pending := .operands (texts ++ [text]) }
  | _ => do return { (← reading.resolve) with pending := .operands [text] }

end Reading

/-- The names of the commands. -/
def commandNames : List String := ["init", "parse", "help"]

/-- Why an operand for which there is no room is refused. -/
def surplus (level : Level) (onlyOperands : Bool) (text : String) : Refusal :=
  if level == .front && !(onlyOperands && commandNames.contains text) then .unknownCommand
  else .unknownArgument

/-- Reads an operand. -/
def readOperand (level : Level) (onlyOperands : Bool) (text : String) (reading : Reading) :
    Except Refusal Reading :=
  if level.operandLimit?.any (· ≤ reading.operandCount) then
    .error (surplus level onlyOperands text)
  else reading.addOperand text

/-- Reads a part of the command line up to its end, which in front is the name of a command, and
gives the arguments from there on. -/
def readPart (level : Level) (onlyOperands : Bool) (reading : Reading) :
    List String → Except Refusal (Reading × List String)
  | [] => .ok (reading, [])
  | text :: rest =>
    if onlyOperands then do readPart level true (← readOperand level true text reading) rest
    else
      match Argument.ofText text with
      | .separator => readPart level true reading rest
      | .named name value =>
        match Switch.ofName? level name with
        | none => .error .unknownArgument
        | some switch => do readPart level false (← reading.addOption switch value) rest
      | .lettered letter attached =>
        match Switch.ofLetter? level letter with
        | none => .error .unknownArgument
        | some switch =>
          let value := if switch.hasValue then Argument.attachedValue? attached else none
          do readPart level false (← reading.addOption switch value) rest
      | .plain text =>
        match reading.pending with
        | .option switch =>
          readPart level false { reading with pending := .value switch text } rest
        | _ =>
          if level == .front && commandNames.contains text then .ok (reading, text :: rest)
          else do readPart level false (← readOperand level false text reading) rest

/-! ## The whole command line -/

/-- Why a request for help on a command starts none. -/
def helpOn : List String → Refusal
  | [] => .helpWanted
  | [name] => if commandNames.contains name then .helpWanted else .unknownCommand
  | _ => .unknownCommand

/-- The task of a command, from what stands behind its name and the path of the settings. -/
def taskOf (level : Level) (settings : Option String) (reading : Reading) : Task :=
  match level with
  | .parsing =>
    .parseFiles
      { paths := reading.operands
        inner := reading.value? .inner
        format := (reading.value? .format).bind Switch.formatOfName?
        keepsVariables := (reading.value? .keepVariables).isSome
        settings := settings }
  | _ => .writeSettings (reading.operands.headD ".")

/-- Reads the arguments of a command whose name has been read; `front` is what stands in front.  An
option behind the name goes before the same option in front. -/
def readCommand (level : Level) (front : Reading) (arguments : List String) :
    Except Refusal Invocation := do
  let (reading, _) ← readPart level false {} arguments
  let reading ← reading.resolve
  if level == .parsing && reading.operands.isEmpty then throw .missingOperand
  let front ← front.resolve
  let option := fun switch => (reading.value? switch).or (front.value? switch)
  return { logLevel := ((option .logLevel).bind LogLevel.ofName?).getD .warnings
           task := taskOf level (option .settings) reading }

/-- Reads a command line. -/
def read (arguments : List String) : Except Refusal Invocation := do
  match ← readPart .front false {} arguments with
  | (front, []) =>
    let front ← front.resolve
    throw (if front.options.isEmpty then .nothingGiven else .missingCommand)
  | (front, "init" :: rest) => readCommand .writing front rest
  | (front, "parse" :: rest) => readCommand .parsing front rest
  | (_, _ :: rest) => throw (helpOn rest)

end JavaSignatures.CommandLine
