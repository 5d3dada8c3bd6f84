import JavaSignatures.Character.CaseTable
import JavaSignatures.Character.Class

set_option autoImplicit false

/-!
# Characters: upper and lower case

Case of single characters, and the lower-case form of a whole text.  The form of one character may
be several characters (`ß` becomes `SS`), and a capital sigma at the end of a word becomes the
final sigma, which is why the lower-case form of a text looks at the characters around.
-/

namespace JavaSignatures.Character

/-- An upper-case letter. -/
def isUpper (c : Char) : Bool :=
  if isAscii c then c.isUpper else inRuns CaseTable.upperCase c.toNat

/-- A lower-case letter. -/
def isLower (c : Char) : Bool :=
  if isAscii c then c.isLower else inRuns CaseTable.lowerCase c.toNat

/-- A character that has upper case, lower case or title case. -/
def isCased (c : Char) : Bool :=
  isUpper c || isLower c || inRanges CaseTable.titleCase c.toNat

/-- A character that the rule for the final sigma looks through. -/
def isCaseIgnorable (c : Char) : Bool :=
  if isAscii c then ['\'', '.', ':', '^', '\x60'].contains c
  else inRanges CaseTable.caseIgnorable c.toNat

/-- The form of a character under a table of single forms and one of longer forms; a character
in neither keeps its own. -/
def form (single : List Shift) (long : List (Nat × List Nat)) (c : Char) : List Char :=
  match long.find? fun entry => entry.1 == c.toNat with
  | some entry => entry.2.map Char.ofNat
  | none =>
    match shifted? single c.toNat with
    | some code => [Char.ofNat code]
    | none => [c]

/-- The upper-case form of one character. -/
def upperForm (c : Char) : List Char :=
  if isAscii c then [c.toUpper] else form CaseTable.toUpper CaseTable.toUpperLong c

/-- The lower-case form of one character that stands alone. -/
def lowerForm (c : Char) : List Char :=
  if isAscii c then [c.toLower] else form CaseTable.toLower CaseTable.toLowerLong c

/-- Whether the first character that counts for case is a cased one. -/
def meetsCased (text : List Char) : Bool :=
  (text.find? fun c => !isCaseIgnorable c).any isCased

/-- The lower-case form of `text` when the characters of `before`, nearest first, stand before
it: a sigma that ends a word becomes final. -/
def lowerAfter (before : List Char) : List Char → List Char
  | [] => []
  | c :: rest =>
    let lower :=
      if c == 'Σ' then
        if meetsCased before && !meetsCased rest then ['ς'] else ['σ']
      else lowerForm c
    lower ++ lowerAfter (c :: before) rest

/-- The lower-case form of a text. -/
def lowerText (text : List Char) : List Char := lowerAfter [] text

theorem lowerForm_of_isAscii {c : Char} (h : isAscii c = true) : lowerForm c = [c.toLower] := by
  simp [lowerForm, h]

theorem lowerAfter_of_isAscii (before : List Char) {text : List Char}
    (h : ∀ c ∈ text, isAscii c = true) : lowerAfter before text = text.map Char.toLower := by
  induction text generalizing before with
  | nil => rfl
  | cons c rest ih =>
    have hc : isAscii c = true := h c (by simp)
    have hs : (c == 'Σ') = false := by
      cases hcs : c == 'Σ'
      · rfl
      · rw [eq_of_beq hcs] at hc
        exact absurd hc (by decide)
    simp [lowerAfter, hs, lowerForm_of_isAscii hc,
      ih (c :: before) fun d hd => h d (by simp [hd])]

/-- On ASCII the lower-case form is that of each letter. -/
theorem lowerText_of_isAscii {text : List Char} (h : ∀ c ∈ text, isAscii c = true) :
    lowerText text = text.map Char.toLower :=
  lowerAfter_of_isAscii [] h

end JavaSignatures.Character
