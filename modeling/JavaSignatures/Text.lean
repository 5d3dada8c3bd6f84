import JavaSignatures.Character.Class

set_option autoImplicit false

/-!
# Text: operations on lists of characters

Texts are lists of characters here, so that every function is a recursion on the text.  The module
holds what the rest of the library does to texts: trimming, cutting, splitting into lines and
replacing.  A pass of replacements (`replaceBy`) reads the text once from left to right; what a
rule puts in is not read again.
-/

namespace JavaSignatures.Text

open JavaSignatures.Character

/-! ## Trimming -/

/-- Removes characters from the end as long as they satisfy `p`. -/
def trimEnd (p : Char → Bool) (text : List Char) : List Char :=
  (text.reverse.dropWhile p).reverse

/-- Removes blanks from both ends. -/
def trim (text : List Char) : List Char :=
  trimEnd isBlank (text.dropWhile isBlank)

/-- Whether the text consists of blanks. -/
def isBlankText (text : List Char) : Bool := text.all isBlank

/-! ## Beginnings and ends -/

/-- What follows `start` in the text, if the text begins with it. -/
def after? (start text : List Char) : Option (List Char) :=
  if start.isPrefixOf text then some (text.drop start.length) else none

theorem after?_eq_some_iff {start text rest : List Char} :
    after? start text = some rest ↔ text = start ++ rest := by
  rw [after?]
  constructor
  · intro h
    split at h
    · next hp =>
      obtain ⟨tail, rfl⟩ := List.isPrefixOf_iff_prefix.mp hp
      simpa [eq_comm] using h
    · exact absurd h (by simp)
  · rintro rfl
    simp

/-- Removes copies of `start` from the beginning of a text, after `pending` more characters of a
copy that is being removed. -/
def dropStartsFrom (start : List Char) : (pending : Nat) → List Char → List Char
  | _, [] => []
  | pending + 1, _ :: rest => dropStartsFrom start pending rest
  | 0, c :: rest =>
    if start.isPrefixOf (c :: rest) then dropStartsFrom start (start.length - 1) rest
    else c :: rest

/-- Removes every copy of the non-empty text `start` that the text begins with. -/
def dropStarts (start text : List Char) : List Char := dropStartsFrom start 0 text

/-- Removes every copy of `ending` that the text ends with. -/
def dropEnds (ending text : List Char) : List Char :=
  (dropStarts ending.reverse text.reverse).reverse

/-! ## Lines -/

/-- The part before the first separator and what follows it, if there is one. -/
def cut? (separator : Char → Bool) (text : List Char) : Option (List Char × List Char) :=
  match text.dropWhile (fun c => !separator c) with
  | [] => none
  | _ :: rest => some (text.takeWhile (fun c => !separator c), rest)

/-- A line without the carriage return that stood before its line feed. -/
def dropReturn (line : List Char) : List Char :=
  if line.getLast? == some '\r' then line.dropLast else line

/-- The lines of a text.  A line ends at a line feed, together with a carriage return before it;
the end of the text ends a line only if something stands after the last line feed. -/
def lines (text : List Char) : List (List Char) :=
  let parts := text.splitOn '\n'
  let last := parts.getLastD []
  parts.dropLast.map dropReturn ++ if last.isEmpty then [] else [last]

/-! ## Replacing -/

/-- Makes the replacements of a rule from left to right.  Where `rule` applies to what is left of
the text, it gives the replacement and how many characters it replaces; `pending` more characters of
an earlier replacement are passed over first. -/
def replaceFrom (rule : List Char → Option (List Char × Nat)) :
    (pending : Nat) → List Char → List Char
  | _, [] => []
  | pending + 1, _ :: rest => replaceFrom rule pending rest
  | 0, c :: rest =>
    match rule (c :: rest) with
    | some (replacement, count) => replacement ++ replaceFrom rule (count - 1) rest
    | none => c :: replaceFrom rule 0 rest

/-- Makes the replacements of a rule, which takes at least one character where it applies, from left
to right. -/
def replaceBy (rule : List Char → Option (List Char × Nat)) (text : List Char) : List Char :=
  replaceFrom rule 0 text

/-- Replaces every occurrence of a non-empty text. -/
def replace (old new : List Char) (text : List Char) : List Char :=
  replaceBy (fun rest => if old.isPrefixOf rest then some (new, old.length) else none) text

/-- Replaces every occurrence of one character. -/
def replaceChar (old : Char) (new : List Char) (text : List Char) : List Char :=
  text.flatMap fun c => if c == old then new else [c]

/-! ## Whole texts -/

/-- A function on lists of characters as a function on strings. -/
def onString (f : List Char → List Char) (text : String) : String :=
  String.ofList (f text.toList)

theorem toList_onString (f : List Char → List Char) (text : String) :
    (onString f text).toList = f text.toList := by
  simp [onString]

end JavaSignatures.Text
