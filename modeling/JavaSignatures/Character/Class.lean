import JavaSignatures.Character.Table

set_option autoImplicit false

/-!
# Characters: classes

The classes of Unicode characters that the library tells apart: blanks, letters, numbers, the
characters of words in running text and those of identifiers.  ASCII is decided directly and
everything else by the tables.
-/

namespace JavaSignatures.Character

/-- The character is one of the first 128. -/
def isAscii (c : Char) : Bool := c.toNat < 128

/-- White space, line ends included. -/
def isBlank (c : Char) : Bool := inRanges Table.blanks c.toNat

/-- A letter, or another character that counts as alphabetic. -/
def isAlphabetic (c : Char) : Bool :=
  if isAscii c then c.isAlpha
  else
    inRanges Table.letters c.toNat ||
      inRanges Table.marks c.toNat && !inRanges Table.silentMarks c.toNat

/-- A decimal digit of any script. -/
def isDigit (c : Char) : Bool :=
  if isAscii c then c.isDigit else inRanges Table.digits c.toNat

/-- A letter or a number. -/
def isAlphanumeric (c : Char) : Bool :=
  isAlphabetic c || isDigit c || inRanges Table.otherNumbers c.toNat

/-- A character that joins the two around it without a mark of its own. -/
def isJoiner (c : Char) : Bool := c.toNat == 0x200C || c.toNat == 0x200D

/-- A connector such as the underscore. -/
def isConnector (c : Char) : Bool := c == '_' || inRanges Table.connectors c.toNat

/-- A character of a word in running text: a letter with its marks, a digit, a connector or a
joiner. -/
def isWord (c : Char) : Bool :=
  isAlphabetic c || inRanges Table.marks c.toNat || isDigit c || isConnector c || isJoiner c

/-- A character of an identifier as it stands in a rendered name. -/
def isNamePart (c : Char) : Bool := isAlphanumeric c || c == '_' || c == '$'

/-- A character that may begin an identifier as it stands in a rendered name. -/
def isNameStart (c : Char) : Bool := isAlphabetic c || c == '_' || c == '$'

/-- A character that may begin an identifier of Java source text. -/
def isIdentifierStart (c : Char) : Bool :=
  if isAscii c then c.isAlpha || c == '_' || c == '$'
  else
    isAlphabetic c && !inRanges Table.marks c.toNat && !inRanges Table.lettersInsideOnly c.toNat ||
      inRanges Table.otherStarts c.toNat

/-- A character that may continue an identifier of Java source text. -/
def isIdentifierPart (c : Char) : Bool :=
  isIdentifierStart c || isDigit c || isConnector c || c.toNat == 0xA2 ||
    inRanges Table.marks c.toNat && !inRanges Table.enclosingMarks c.toNat ||
    inRanges Table.otherContinues c.toNat

/-! ## Classes inside of others -/

theorem isAlphanumeric_of_isAlphabetic {c : Char} (h : isAlphabetic c = true) :
    isAlphanumeric c = true := by
  simp [isAlphanumeric, h]

theorem isNamePart_of_isNameStart {c : Char} (h : isNameStart c = true) :
    isNamePart c = true := by
  simp only [isNameStart, Bool.or_eq_true] at h
  simp only [isNamePart, Bool.or_eq_true]
  exact h.imp (Or.imp isAlphanumeric_of_isAlphabetic id) id

theorem isIdentifierPart_of_isIdentifierStart {c : Char} (h : isIdentifierStart c = true) :
    isIdentifierPart c = true := by
  simp [isIdentifierPart, h]

end JavaSignatures.Character
