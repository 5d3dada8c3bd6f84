import JavaSignatures.OrderedMap
import JavaSignatures.Text

set_option autoImplicit false

/-!
# TOML: values

The values of a TOML document.  A table remembers how it came about, because that decides what the
rest of the document may still add to it (`TableForm.admits`).
-/

namespace JavaSignatures.Toml

/-- How a table came about. -/
inductive TableForm where
  /-- the whole document, or a table with a header of its own -/
  | headed
  /-- named by a header on the way to another table -/
  | implied
  /-- named by a dotted key on the way to its value -/
  | dotted
  /-- written between braces -/
  | braced
  /-- named by a dotted key between braces -/
  | bracedDotted
  deriving DecidableEq, Repr, Inhabited

namespace TableForm

/-- The table was named by dotted keys alone. -/
def isDotted : TableForm → Bool
  | dotted | bracedDotted => true
  | _ => false

/-- The table belongs to a value between braces. -/
def isBraced : TableForm → Bool
  | braced | bracedDotted => true
  | _ => false

/-- Whether a path that leaves tables of the form `made` behind may lead through a table that is
there already. -/
def admits (made there : TableForm) : Bool :=
  match made with
  | implied => !there.isBraced
  | dotted => there == implied || there == dotted
  | bracedDotted => there == bracedDotted
  | _ => false

end TableForm

/-- A value of a document.  Numbers with a fraction and dates are kept as they are written. -/
inductive Value where
  | text (value : String)
  | integer (value : Int)
  | float (written : String)
  | boolean (value : Bool)
  | date (written : String)
  | array (items : List Value)
  | table (form : TableForm) (entries : List (String × Value))
  /-- tables that share one header in double brackets -/
  | tables (earlier : List Value) (last : Value)
  deriving Repr, Inhabited

namespace Value

/-- The table without entries. -/
def emptyTable (form : TableForm) : Value := .table form []

/-- The items of an array, however it is written. -/
def items? : Value → Option (List Value)
  | .array items => some items
  | .tables earlier last => some (earlier ++ [last])
  | _ => none

/-- The value holds nothing: an array without items, or a table without entries. -/
def isEmpty : Value → Bool
  | .array items => items.isEmpty
  | .table _ entries => entries.isEmpty
  | _ => false

end Value

/-! ## Readers -/

/-- Reads the beginning of a text: what was read and the rest, or nothing if the text is refused. -/
abbrev Reader (α : Type) := List Char → Option (α × List Char)

/-- The white space inside a line. -/
def isGap (c : Char) : Bool := c == ' ' || c == '\t'

/-- A text without the white space that it begins with on its first line. -/
def skipGap (text : List Char) : List Char := text.dropWhile isGap

/-- Characters that may stand in a line; control characters other than the tab may not. -/
def isPrintable (c : Char) : Bool := c == '\t' || 32 ≤ c.toNat && c.toNat != 127

/-- What follows the line break that the text begins with. -/
def afterBreak? : List Char → Option (List Char)
  | '\n' :: rest => some rest
  | '\r' :: '\n' :: rest => some rest
  | _ => none

/-- What follows the end of a line; a comment may stand before it. -/
def afterLine? (text : List Char) : Option (List Char) :=
  let text := skipGap text
  let text := if text.head? == some '#' then text.dropWhile isPrintable else text
  if text.isEmpty then some [] else afterBreak? text

end JavaSignatures.Toml
