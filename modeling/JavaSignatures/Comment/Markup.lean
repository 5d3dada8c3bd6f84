import JavaSignatures.Text

set_option autoImplicit false

/-!
# Comments: from markup to one plain line

The descriptive part of a comment becomes a single line in steps that follow one another:

* `descriptionLines` takes the decoration off the lines and ends at the first tag that describes
  parameters, a result or a deprecation; `firstSentence` keeps the lines up to the end of the first
  sentence or paragraph;
* `elementRule` removes elements such as `<p>`, and the rules of `inlineRules` put the argument of
  an inline tag such as `{@link Foo}` in the place of the tag;
* `keep` drops characters that are no part of plain text, `collapse` leaves single spaces, and
  `addressRule` removes the backslash before a web address.
-/

namespace JavaSignatures.Markup

open JavaSignatures.Character

/-! ## The descriptive lines -/

/-- The block tags that end the descriptive part of a comment. -/
def endingTags : List (List Char) :=
  ["@param".toList, "@return".toList, "@deprecated".toList]

/-- A line without blanks and stars around its text. -/
def undecorate (line : List Char) : List Char :=
  Text.trim (Text.trimEnd (· == '*') ((Text.trim line).dropWhile (· == '*')))

/-- The line begins with a tag that ends the description. -/
def endsDescription (line : List Char) : Bool := endingTags.any fun tag => tag.isPrefixOf line

/-- The lines of the descriptive part; lines with other block tags are left out. -/
def descriptionLines (text : List Char) : List (List Char) :=
  (((Text.lines text).map undecorate).takeWhile fun line => !endsDescription line).filter
    fun line => line.head? != some '@'

/-- The lines up to the first that ends a sentence or is empty, once there is any text. -/
def firstSentence (seen : Bool) : List (List Char) → List (List Char)
  | [] => []
  | line :: rest =>
    let seen := seen || !line.isEmpty
    if seen && (line.isEmpty || line.getLast? == some '.') then [line]
    else line :: firstSentence seen rest

/-- The descriptive part on one line. -/
def description (summary : Bool) (text : List Char) : List Char :=
  let lines := descriptionLines text
  [' '].intercalate (if summary then firstSentence false lines else lines)

/-! ## Elements and inline tags -/

/-- Removes an element: from `<` to the next `>`. -/
def elementRule (text : List Char) : Option (List Char × Nat) :=
  match text with
  | '<' :: rest =>
    if rest.contains '>' then some ([], (rest.takeWhile (· != '>')).length + 2) else none
  | _ => none

/-- A character of a reference to a member: `Foo#bar(int,long)`. -/
def isReferencePart (c : Char) : Bool := isWord c || ['.', '#', '(', ',', ')'].contains c

/-- What is left after one blank, if there is one, and how many characters that took. -/
def optionalBlank : List Char → List Char × Nat
  | [] => ([], 0)
  | c :: rest => if isBlank c then (rest, 1) else (c :: rest, 0)

/-- The run of characters satisfying `p` that a closing brace follows. -/
def closedRun? (p : Char → Bool) (text : List Char) : Option (List Char) :=
  match text.dropWhile p with
  | '}' :: _ => some (text.takeWhile p)
  | _ => none

/-- Unwraps a link with the given opening: its argument is a run of characters satisfying `p`. -/
def linkRule (opening : List Char) (p : Char → Bool) (text : List Char) :
    Option (List Char × Nat) := do
  let inside ← Text.after? opening text
  let (start, gap) := optionalBlank inside
  let argument ← closedRun? p start
  if argument.isEmpty then none
  else some (argument, opening.length + gap + argument.length + 1)

/-- Unwraps any inline tag with one reference as argument; a `#` in front of the reference is
dropped. -/
def tagRule (text : List Char) : Option (List Char × Nat) := do
  let inside ← Text.after? ['{', '@'] text
  let name := inside.takeWhile isWord
  match name.isEmpty, inside.dropWhile isWord with
  | false, c :: start =>
    if isBlank c then
      let argument ← closedRun? isReferencePart start
      let shown :=
        match argument with
        | '#' :: d :: rest => d :: rest
        | _ => argument
      if argument.isEmpty then none else some (shown, name.length + argument.length + 4)
    else none
  | _, _ => none

/-- The rules for inline tags, in the order in which they are applied.  `@{link Foo}` is a common
slip for `{@link Foo}`. -/
def inlineRules : List (List Char → Option (List Char × Nat)) :=
  let proper := '{' :: "@link".toList
  let slip := '@' :: '{' :: "link".toList
  [linkRule proper isWord, linkRule proper isReferencePart,
    linkRule slip isWord, linkRule slip isReferencePart, tagRule]

/-! ## Plain text -/

/-- The punctuation that plain text keeps. -/
def punctuation : List Char :=
  ['.', ',', '-', '=', '\'', '/', '\\', '!', '&', '%', '(', ')', ':', ';', '#', '$', '{', '}']

/-- What plain text keeps of a character: itself, a space for a blank, or nothing. -/
def keep (c : Char) : Option Char :=
  if isNamePart c || punctuation.contains c then some c
  else if isBlank c then some ' '
  else none

/-- Leaves one space of each run of spaces; `space` says that the last character was one. -/
def collapse (space : Bool) : List Char → List Char
  | [] => []
  | c :: rest =>
    if c == ' ' then if space then collapse true rest else ' ' :: collapse true rest
    else c :: collapse false rest

/-- Removes the backslash before a web address. -/
def addressRule (text : List Char) : Option (List Char × Nat) :=
  match text with
  | '\\' :: rest =>
    if "http:".toList.isPrefixOf rest || "https:".toList.isPrefixOf rest then some ([], 1) else none
  | _ => none

/-- The descriptive part of a comment as one plain line; with `summary` only its first sentence or
paragraph. -/
def normalize (summary : Bool) (text : List Char) : List Char :=
  let bare := Text.replaceBy elementRule (description summary text)
  let unwrapped := inlineRules.foldl (fun text rule => Text.replaceBy rule text) bare
  Text.trim (Text.replaceBy addressRule (collapse false (unwrapped.filterMap keep)))

end JavaSignatures.Markup
