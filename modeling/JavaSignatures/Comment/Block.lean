import JavaSignatures.Text

set_option autoImplicit false

/-!
# Comments: block tags

A documentation comment is kept as it stands in the source, next to the block tags found in it.  A
line that begins with `@` after its decoration opens a tag; the lines below it, up to the next tag,
continue its value.
-/

namespace JavaSignatures

open JavaSignatures.Character

/-- A block tag such as `@param id the key`. -/
structure BlockTag where
  /-- the name with its `@` -/
  name : String
  /-- what follows the name, the parts of several lines joined by a space -/
  value : String
  deriving DecidableEq, Repr, Inhabited

/-- A documentation comment. -/
structure DocComment where
  /-- the text as it stands in the source, delimiters included -/
  raw : String
  tags : List BlockTag
  deriving DecidableEq, Repr, Inhabited

namespace BlockTag

/-- The line opens a block tag. -/
def opens (line : List Char) : Bool := line.head? == some '@'

/-- The tag that a line opens, with the lines that continue it; `heading` is the line without its
`@`.  The name ends at the first blank. -/
def ofLines (heading : List Char) (continuation : List (List Char)) : BlockTag :=
  let (name, first) := (Text.cut? isBlank heading).getD (heading, [])
  let parts := (Text.trim first :: continuation).filter fun part => !part.isEmpty
  { name := String.ofList ('@' :: name), value := String.ofList ([' '].intercalate parts) }

/-- The tags of the lines of a comment, in order.  Lines before the first tag belong to none. -/
def ofComment : List (List Char) → List BlockTag
  | [] => []
  | line :: rest =>
    match line with
    | '@' :: heading => ofLines heading (rest.takeWhile fun next => !opens next) :: ofComment rest
    | _ => ofComment rest

end BlockTag

namespace DocComment

/-- A line of a comment without blanks and stars in front of its text. -/
def content (line : List Char) : List Char :=
  Text.trim ((Text.trim line).dropWhile (· == '*'))

/-- The text between the delimiters. -/
def body (raw : List Char) : List Char :=
  Text.dropEnds ['*', '/'] (Text.dropStarts ['/', '*', '*'] (Text.trim raw))

/-- The comment with the given text. -/
def ofText (raw : String) : DocComment where
  raw := raw
  tags := BlockTag.ofComment ((Text.lines (body raw.toList)).map content)

/-- The values of the tags with the given name, in order. -/
def tagValues (comment : DocComment) (name : String) : List String :=
  (comment.tags.filter fun tag => tag.name == name).map BlockTag.value

end DocComment

end JavaSignatures
