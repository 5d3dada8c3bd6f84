import JavaSignatures.Toml.Quoted
import JavaSignatures.Toml.Table

set_option autoImplicit false

/-!
# TOML: lines

A document is a list of lines: assignments and headers.  A value may reach over several lines of
the text.
-/

namespace JavaSignatures.Toml

/-- What a line says. -/
inductive Line where
  | assignment (key : Key) (value : Value)
  /-- the header of a table -/
  | header (key : Key)
  /-- the header of one more table in a list of tables -/
  | elementHeader (key : Key)
  deriving Repr, Inhabited

/-- The most names that a key may have, and the most brackets that may be open in a value. -/
def maxDepth : Nat := 79

/-! ## Keys -/

/-- Characters of names that need no quotes. -/
def isBareName (c : Char) : Bool := c.isAlphanum || c == '-' || c == '_'

/-- Reads a name. -/
def readName? : Reader String := fun text =>
  match text.head?.bind Quotation.ofMark? with
  | some quotation => quotation.short? text
  | none =>
    let name := text.takeWhile isBareName
    if name.isEmpty then none else some (String.ofList name, text.dropWhile isBareName)

/-- Reads names with periods between them, at most `limit`, and the white space around them. -/
def readNames? : (limit : Nat) → Reader (List String)
  | 0, _ => none
  | limit + 1, text => do
    let (name, rest) ← readName? (skipGap text)
    match skipGap rest with
    | '.' :: rest =>
      let (names, rest) ← readNames? limit rest
      return (name :: names, rest)
    | rest => return ([name], rest)

/-- Reads a key. -/
def readKey? : Reader Key := fun text => do
  let (names, rest) ← readNames? maxDepth text
  return (⟨names.dropLast, names.getLastD ""⟩, rest)

/-! ## Values -/

/-- A text without the white space, line breaks and comments that it begins with. -/
def skipSpace (inComment : Bool) : List Char → List Char
  | [] => []
  | c :: rest =>
    if c == '\n' || c == '\r' && rest.head? == some '\n' then skipSpace false rest
    else if inComment && isPrintable c then skipSpace true rest
    else if !inComment && isGap c then skipSpace false rest
    else if !inComment && c == '#' then skipSpace true rest
    else c :: rest

/-- Reads the items of an array up to its closing bracket; a comma may follow the last one. -/
def readItems? (readValue? : Reader Value) : (limit : Nat) → Reader (List Value)
  | 0, _ => none
  | limit + 1, text =>
    match skipSpace false text with
    | ']' :: rest => some ([], rest)
    | text => do
      let (item, rest) ← readValue? text
      match skipSpace false rest with
      | ',' :: rest =>
        let (items, rest) ← readItems? readValue? limit rest
        return (item :: items, rest)
      | ']' :: rest => return ([item], rest)
      | _ => none

/-- Reads a key, an equals sign and a value. -/
def readAssignment? (readValue? : Reader Value) : Reader (Key × Value) := fun text => do
  let (key, rest) ← readKey? text
  let (value, rest) ← readValue? (skipGap (← Text.after? ['='] rest))
  return ((key, value), rest)

/-- Reads one or more assignments up to the closing brace. -/
def readEntries? (readValue? : Reader Value) : (limit : Nat) → Reader (List (Key × Value))
  | 0, _ => none
  | limit + 1, text => do
    let (entry, rest) ← readAssignment? readValue? text
    match skipGap rest with
    | ',' :: rest =>
      let (entries, rest) ← readEntries? readValue? limit rest
      return (entry :: entries, rest)
    | '}' :: rest => return ([entry], rest)
    | _ => none

/-- Reads a table between braces, behind the opening one. -/
def readBraces? (readValue? : Reader Value) : Reader Value := fun text =>
  match skipGap text with
  | '}' :: rest => some (Value.emptyTable .braced, rest)
  | text => do
    let (entries, rest) ← readEntries? readValue? text.length text
    return (← Value.ofBraces? entries, rest)

/-- Reads a string or a word. -/
def readPlain? : Reader Value := fun text =>
  match text.head?.bind Quotation.ofMark? with
  | some quotation => (quotation.read? text).map fun (value, rest) => (.text value, rest)
  | none => Word.read? text

/-- Reads a value with at most `limit` open brackets. -/
def readValue? : (limit : Nat) → Reader Value
  | 0, text => readPlain? text
  | _ + 1, [] => none
  | limit + 1, c :: rest =>
    if c == '[' then
      (readItems? (readValue? limit) (rest.length + 1) rest).map fun (items, rest) =>
        (.array items, rest)
    else if c == '{' then readBraces? (readValue? limit) rest
    else readPlain? (c :: rest)

/-! ## Lines -/

/-- Reads a header between one or two pairs of brackets, behind the opening ones. -/
def readHeader? (closing : List Char) : Reader Key := fun text => do
  let (key, rest) ← readKey? text
  return (key, ← Text.after? closing rest)

/-- Reads a line that says something, without its end. -/
def readLine? : Reader Line := fun text =>
  match text with
  | '[' :: '[' :: rest => (readHeader? [']', ']'] rest).map fun (key, rest) =>
    (.elementHeader key, rest)
  | '[' :: rest => (readHeader? [']'] rest).map fun (key, rest) => (.header key, rest)
  | _ => (readAssignment? (readValue? maxDepth) text).map fun ((key, value), rest) =>
    (.assignment key value, rest)

/-- The lines of a text, of which there are at most `limit`. -/
def readLines? : (limit : Nat) → List Char → Option (List Line)
  | 0, text => if text.isEmpty then some [] else none
  | limit + 1, text =>
    if text.isEmpty then some []
    else
      match afterLine? text with
      | some rest => readLines? limit rest
      | none => do
        let (line, rest) ← readLine? (skipGap text)
        return line :: (← readLines? limit (← afterLine? rest))

/-- The lines of a document.  A mark of the byte order may stand in front of them. -/
def lines? (document : String) : Option (List Line) :=
  let text := document.toList
  let text := if text.head? == some '\uFEFF' then text.tail else text
  readLines? text.length text

end JavaSignatures.Toml
