import JavaSignatures.Character.Case
import JavaSignatures.Comment.Markup

set_option autoImplicit false

/-!
# Comments: one-line descriptions

A `Describer` turns the raw text of a comment, or the value of a tag, into a one-line description:
it takes leftovers of delimiters off the ends, normalizes the markup, begins the line with an
upper-case letter and drops the period of a text that is nothing but words.  How markup is
normalized is a parameter; the default is `Markup.normalize`.
-/

namespace JavaSignatures

open JavaSignatures.Character

/-- A way to turn comment text into one plain line, whole or in summary. -/
abbrev Normalizer := (summary : Bool) → List Char → List Char

namespace Description

/-- The text without blanks and leftovers of comment delimiters at its ends. -/
def bare (text : List Char) : List Char :=
  Text.trimEnd (fun c => isBlank c || c == '-' || c == '/')
    (text.dropWhile fun c => isBlank c || c == '}' || c == '-' || c == '/')

/-- The text with a lower-case first letter made upper-case. -/
def capitalize : List Char → List Char
  | [] => []
  | c :: rest => if isLower c then upperForm c ++ rest else c :: rest

/-- A character of plain words. -/
def isPlain (c : Char) : Bool :=
  isAlphabetic c || isBlank c || c == '\'' || c == '-' || c == '_'

/-- The text without its final period if the rest is plain words. -/
def dropPeriod (text : List Char) : List Char :=
  if text.getLast? == some '.' && text.dropLast.all isPlain then text.dropLast else text

/-- The text before its first period, unless that is the first character. -/
def truncate (text : List Char) : List Char :=
  match text with
  | '.' :: _ => text
  | _ => text.takeWhile (· != '.')

/-- A truncated text is a beginning of the text. -/
theorem truncate_isPrefix (text : List Char) : truncate text <+: text := by
  unfold truncate
  split
  · exact List.prefix_rfl
  · exact List.takeWhile_prefix _

/-- Only the first character of a truncated text may be a period. -/
theorem not_mem_tail_truncate {text : List Char} (h : text.head? ≠ some '.') :
    '.' ∉ truncate text := by
  unfold truncate
  split
  · exact absurd rfl h
  · intro hm
    have hall := List.all_takeWhile (p := (· != '.')) (l := text)
    simpa using List.all_eq_true.mp hall '.' hm

end Description

/-- Turns comment text into one-line descriptions. -/
structure Describer where
  normalize : Normalizer := Markup.normalize

namespace Describer

instance : Inhabited Describer := ⟨{}⟩

/-- The description of a text; with `summary` only of its first sentence or paragraph. -/
def describe (describer : Describer) (summary : Bool) (text : List Char) : List Char :=
  let plain := describer.normalize summary (Description.bare text)
  Text.trim (Description.dropPeriod (Description.capitalize plain))

/-- The description of a comment that may be missing. -/
def describe? (describer : Describer) (summary : Bool) (raw : Option String) : String :=
  match raw with
  | none => ""
  | some raw => Text.onString (describer.describe summary) raw

/-- The first sentence of a comment, cut before its first period. -/
def headline (describer : Describer) (raw : Option String) : String :=
  Text.onString Description.truncate (describer.describe? true raw)

/-- The description of a parameter: of the first tag value that begins with its name, without the
name. -/
def parameterDoc (describer : Describer) (values : List String) (name : String) : String :=
  match values.findSome? fun value => Text.after? name.toList value.toList with
  | some rest => String.ofList (describer.describe false rest)
  | none => ""

end Describer

end JavaSignatures
