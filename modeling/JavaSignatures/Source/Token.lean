import JavaSignatures.Source.Lexeme

set_option autoImplicit false

/-!
# Source text: tokens

A token is a lexeme that means something to the language, together with the white space and the
comments in front of it.  So a stretch of tokens knows how it is spelled in the source
(`Token.spell`), and the comments between two tokens are found at the second.
-/

namespace JavaSignatures.Source

/-- A word, number, literal or symbol with what stands in front of it. -/
structure Token where
  gap : List Lexeme
  lexeme : Lexeme
  deriving DecidableEq, Repr, Inhabited

namespace Token

/-- The tokens of lexemes; `gap` is what has been passed over before them, the last one first.
White space and comments behind the last token belong to none. -/
def ofLexemesAfter (gap : List Lexeme) : List Lexeme → List Token
  | [] => []
  | lexeme :: rest =>
    if lexeme.isTrivia then ofLexemesAfter (lexeme :: gap) rest
    else ⟨gap.reverse, lexeme⟩ :: ofLexemesAfter [] rest

/-- The byte order mark that a source text may begin with. -/
def byteOrderMark : Char := '\uFEFF'

/-- The tokens of a source text; a byte order mark in front of it counts for nothing. -/
def ofSource (source : List Char) : List Token :=
  ofLexemesAfter []
    (Lexeme.lexemes (if source.head? == some byteOrderMark then source.tail else source))

/-- The token itself. -/
def text (token : Token) : String := String.ofList token.lexeme.text

/-- The token with what stands in front of it. -/
def full (token : Token) : List Char :=
  token.gap.flatMap Lexeme.text ++ token.lexeme.text

/-- The comments in front of the token. -/
def comments (token : Token) : List String :=
  (token.gap.filter Lexeme.isComment).map fun lexeme => String.ofList lexeme.text

/-- The token is a word. -/
def isWord (token : Token) : Bool := token.lexeme.kind == .word

/-- The token is the given symbol. -/
def isSymbol (token : Token) (symbol : Char) : Bool :=
  token.lexeme.kind == .symbol && token.lexeme.text == [symbol]

/-- How a stretch of tokens is spelled, from its first token to its last. -/
def spell : List Token → List Char
  | [] => []
  | token :: rest => token.lexeme.text ++ rest.flatMap full

@[simp]
theorem spell_nil : spell [] = [] := rfl

@[simp]
theorem spell_singleton (token : Token) : spell [token] = token.lexeme.text := by simp [spell]

end Token

end JavaSignatures.Source
