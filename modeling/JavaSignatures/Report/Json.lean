import JavaSignatures.OrderedMap
import JavaSignatures.Text

set_option autoImplicit false

/-!
# Reports: JSON documents

The documents that the machine-readable reports are made of, and their layout: one member a line,
two spaces for each level, and an empty list or object on the line it belongs to.
-/

namespace JavaSignatures.Report

/-- A JSON document without numbers and booleans; the members of an object are in order. -/
inductive Document where
  | null
  | text (value : String)
  | list (items : List Document)
  | object (members : List (String × Document))
  deriving Repr, Inhabited

namespace Document

/-- A digit below sixteen. -/
def hexDigit (n : Nat) : Char := (Nat.digitChar n)

/-- A character inside a quoted text. -/
def escape (c : Char) : List Char :=
  match c with
  | '"' => ['\\', '"']
  | '\\' => ['\\', '\\']
  | '\n' => ['\\', 'n']
  | '\r' => ['\\', 'r']
  | '\t' => ['\\', 't']
  | _ =>
    if c.toNat == 8 then ['\\', 'b']
    else if c.toNat == 12 then ['\\', 'f']
    else if c.toNat < 32 then
      ['\\', 'u', '0', '0', hexDigit (c.toNat / 16), hexDigit (c.toNat % 16)]
    else [c]

/-- A text in quotes. -/
def quote (text : String) : String :=
  "\"" ++ Text.onString (fun chars => chars.flatMap escape) text ++ "\""

/-- A new line indented by the given depth. -/
def newLine (depth : Nat) : String := "\n" ++ String.ofList (List.replicate (2 * depth) ' ')

/-- Entries between brackets, each on a line of its own. -/
def bracketed (depth : Nat) (opening closing : String) (entries : List String) : String :=
  if entries.isEmpty then opening ++ closing
  else
    opening ++ newLine (depth + 1) ++ ("," ++ newLine (depth + 1)).intercalate entries ++
      newLine depth ++ closing

mutual

/-- The text of a document whose first line is already indented. -/
def layout (depth : Nat) (document : Document) : String :=
  match document with
  | .null => "null"
  | .text value => quote value
  | .list items => bracketed depth "[" "]" (layoutItems (depth + 1) items)
  | .object members => bracketed depth "\x7b" "\x7d" (layoutMembers (depth + 1) members)
termination_by structural document

/-- The texts of the items of a list. -/
def layoutItems (depth : Nat) (items : List Document) : List String :=
  match items with
  | [] => []
  | item :: rest => layout depth item :: layoutItems depth rest
termination_by structural items

/-- The texts of the members of an object. -/
def layoutMembers (depth : Nat) (members : List (String × Document)) : List String :=
  match members with
  | [] => []
  | member :: rest => layoutMember depth member :: layoutMembers depth rest
termination_by structural members

/-- The text of a member of an object. -/
def layoutMember (depth : Nat) (member : String × Document) : String :=
  match member with
  | (name, value) => quote name ++ ": " ++ layout depth value
termination_by structural member

end

/-- The text of a document. -/
def pretty (document : Document) : String := layout 0 document

/-- A list of texts. -/
def ofTexts (texts : List String) : Document := .list (texts.map .text)

/-- A text that may be missing. -/
def ofText? : Option String → Document
  | none => .null
  | some value => .text value

/-- A map of texts. -/
def ofMap (map : OrderedMap String) : Document :=
  .object (map.entries.map fun entry => (entry.1, .text entry.2))

/-- A map of maps of texts. -/
def ofMaps (maps : OrderedMap (OrderedMap String)) : Document :=
  .object (maps.entries.map fun entry => (entry.1, ofMap entry.2))

end Document

end JavaSignatures.Report
