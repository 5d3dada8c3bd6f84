import JavaSignatures.Text

set_option autoImplicit false

/-!
# Source text: lexemes

Java source text cut into lexemes, from the left and each as long as it can be: white space,
comments, words, numbers, quoted literals and single symbols.  Nothing is lost: the lexemes put
together are the text (`flatten_lexemes`).
-/

namespace JavaSignatures.Source

open JavaSignatures.Character

/-- The kinds of lexemes. -/
inductive LexemeKind where
  | blank
  | lineComment
  | blockComment
  | word
  | number
  | quoted
  | symbol
  deriving DecidableEq, Repr, Inhabited

/-- A piece of source text. -/
structure Lexeme where
  kind : LexemeKind
  text : List Char
  deriving DecidableEq, Repr, Inhabited

namespace Lexeme

/-- White space between tokens; other blanks of Unicode separate nothing in source text. -/
def isGap (c : Char) : Bool := c == ' ' || 9 ≤ c.toNat && c.toNat ≤ 13

/-- The number of characters up to the end of the first `ending`.  With `escapes`, a backslash hides
the character behind it; `hidden` says that the first character is hidden. -/
def closing? (ending : List Char) (escapes hidden : Bool) : List Char → Option Nat
  | [] => none
  | c :: rest =>
    if !hidden && ending.isPrefixOf (c :: rest) then some ending.length
    else (closing? ending escapes (!hidden && escapes && c == '\\') rest).map (· + 1)

/-- The number of characters at the beginning that satisfy `p`. -/
def run (p : Char → Bool) (text : List Char) : Nat := (text.takeWhile p).length

/-- What begins with a slash: a comment, or a symbol. -/
def slashExtent (rest : List Char) : LexemeKind × Nat :=
  match rest with
  | '/' :: _ => (.lineComment, run (· != '\n') rest)
  | '*' :: body =>
    match closing? ['*', '/'] false false body with
    | some n => (.blockComment, n + 1)
    | none => (.symbol, 0)
  | _ => (.symbol, 0)

/-- What begins with a double quote: a text block, a string, or a symbol. -/
def quoteExtent (rest : List Char) : LexemeKind × Nat :=
  match rest with
  | '"' :: '"' :: body =>
    match closing? ['"', '"', '"'] true false body with
    | some n => (.quoted, n + 2)
    | none => (.quoted, 1)
  | _ =>
    match closing? ['"'] true false rest with
    | some n => (.quoted, n)
    | none => (.symbol, 0)

/-- What begins with a single quote: a character literal, which ends on its line, or a symbol. -/
def apostropheExtent (rest : List Char) : LexemeKind × Nat :=
  match closing? ['\''] true false (rest.takeWhile (· != '\n')) with
  | some n => (.quoted, n)
  | none => (.symbol, 0)

/-- What begins with a letter.  One keyword has a dash in it. -/
def wordExtent (c : Char) (rest : List Char) : LexemeKind × Nat :=
  let n := run isIdentifierPart rest
  let after := rest.drop n
  let dashed := "-sealed".toList
  if c :: rest.take n == "non".toList && dashed.isPrefixOf after &&
      !((after.drop dashed.length).head?.any isIdentifierPart) then
    (.word, n + dashed.length)
  else (.word, n)

/-- The kind of the lexeme that begins with `c`, and how many of the characters behind `c` belong
to it. -/
def extent (c : Char) (rest : List Char) : LexemeKind × Nat :=
  if isGap c then (.blank, run isGap rest)
  else if c == '/' then slashExtent rest
  else if c == '"' then quoteExtent rest
  else if c == '\'' then apostropheExtent rest
  else if isIdentifierStart c then wordExtent c rest
  else if c.isDigit then (.number, run isIdentifierPart rest)
  else if c == '.' && ['.', '.'].isPrefixOf rest then (.symbol, 2)
  else (.symbol, 0)

/-- The lexemes of a text whose first lexeme has begun: `read` are its characters so far, the last
one first, and `pending` more belong to it. -/
def collect (kind : LexemeKind) (read : List Char) : (pending : Nat) → List Char → List Lexeme
  | _, [] => [⟨kind, read.reverse⟩]
  | pending + 1, c :: rest => collect kind (c :: read) pending rest
  | 0, c :: rest =>
    ⟨kind, read.reverse⟩ :: collect (extent c rest).1 [c] (extent c rest).2 rest

/-- The lexemes of a text. -/
def lexemes : List Char → List Lexeme
  | [] => []
  | c :: rest => collect (extent c rest).1 [c] (extent c rest).2 rest

/-- The lexeme is white space or a comment. -/
def isTrivia (lexeme : Lexeme) : Bool :=
  match lexeme.kind with
  | .blank | .lineComment | .blockComment => true
  | _ => false

/-- The lexeme is a comment. -/
def isComment (lexeme : Lexeme) : Bool := lexeme.isTrivia && lexeme.kind != .blank

theorem flatten_collect (kind : LexemeKind) (read : List Char) (pending : Nat) (rest : List Char) :
    (collect kind read pending rest).flatMap Lexeme.text = read.reverse ++ rest := by
  induction rest generalizing kind read pending with
  | nil => cases pending <;> simp [collect]
  | cons c rest ih =>
    cases pending with
    | zero => simp [collect, ih]
    | succ n => simp [collect, ih]

/-- The lexemes put together are the text. -/
theorem flatten_lexemes (text : List Char) : (lexemes text).flatMap Lexeme.text = text := by
  cases text with
  | nil => rfl
  | cons c rest => simp [lexemes, flatten_collect]

end Lexeme

end JavaSignatures.Source
